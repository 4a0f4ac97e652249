import CodeLift.Descriptor
import CodeLift.Text.Quoted

/-!
# Instructions

The instructions of a stack machine whose branches name labels, and whose labels and line numbers stand among the
instructions as markers. `Insn.effect` says what an instruction does to the depth of the operand stack, `Insn.text` how it is
listed.
-/

namespace CodeLift

/-- The name of a place in the code. -/
structure Label where
  number : Nat
  deriving DecidableEq, Repr

/-- A label as it is listed. -/
def Label.text (l : Label) : String := "L" ++ toString l.number

/-- What sort of value an instruction moves. -/
inductive ValueKind where
  | int | long | float | double | reference
  deriving DecidableEq, Repr

namespace ValueKind

/-- The letter that names the kind in a mnemonic. -/
def letter : ValueKind → String
  | .int => "i"
  | .long => "l"
  | .float => "f"
  | .double => "d"
  | .reference => "a"

/-- The type given to a variable of which only the kind is known. -/
def descriptor : ValueKind → String
  | .int => "I"
  | .long => "J"
  | .float => "F"
  | .double => "D"
  | .reference => "Ljava/lang/Object;"

end ValueKind

/-- A comparison of two values. -/
inductive Comparison where
  | eq | ne | lt | ge | gt | le
  deriving DecidableEq, Repr

namespace Comparison

/-- The comparison that holds exactly when this one does not. -/
def negate : Comparison → Comparison
  | .eq => .ne
  | .ne => .eq
  | .lt => .ge
  | .ge => .lt
  | .gt => .le
  | .le => .gt

/-- The operator as it is printed. -/
def symbol : Comparison → String
  | .eq => "=="
  | .ne => "!="
  | .lt => "<"
  | .ge => ">="
  | .gt => ">"
  | .le => "<="

end Comparison

/-- What a conditional jump compares its first operand with. -/
inductive Operand where
  | zero | int | reference | null
  deriving DecidableEq, Repr

/-- When a conditional jump is taken. -/
inductive JumpTest where
  | eq | ne | lt | ge | gt | le
  | intEq | intNe | intLt | intGe | intGt | intLe
  | refEq | refNe
  | null | nonNull
  deriving DecidableEq, Repr

namespace JumpTest

/-- The comparison a test makes. -/
def comparison : JumpTest → Comparison
  | .eq | .intEq | .refEq | .null => .eq
  | .ne | .intNe | .refNe | .nonNull => .ne
  | .lt | .intLt => .lt
  | .ge | .intGe => .ge
  | .gt | .intGt => .gt
  | .le | .intLe => .le

/-- What a test compares with: zero or null by itself, else a second operand. -/
def operand : JumpTest → Operand
  | .eq | .ne | .lt | .ge | .gt | .le => .zero
  | .intEq | .intNe | .intLt | .intGe | .intGt | .intLe => .int
  | .refEq | .refNe => .reference
  | .null | .nonNull => .null

/-- How many operands a test takes from the stack. -/
def operandCount (t : JumpTest) : Nat :=
  match t.operand with
  | .zero | .null => 1
  | .int | .reference => 2

/-- Whether a test compares with null. -/
def comparesToNull (t : JumpTest) : Bool := t.operand == .null

/-- The test under which the jump is not taken. -/
def negate : JumpTest → JumpTest
  | .eq => .ne
  | .ne => .eq
  | .lt => .ge
  | .ge => .lt
  | .gt => .le
  | .le => .gt
  | .intEq => .intNe
  | .intNe => .intEq
  | .intLt => .intGe
  | .intGe => .intLt
  | .intGt => .intLe
  | .intLe => .intGt
  | .refEq => .refNe
  | .refNe => .refEq
  | .null => .nonNull
  | .nonNull => .null

/-- The mnemonic of the jump. -/
def mnemonic : JumpTest → String
  | .eq => "ifeq"
  | .ne => "ifne"
  | .lt => "iflt"
  | .ge => "ifge"
  | .gt => "ifgt"
  | .le => "ifle"
  | .intEq => "if_icmpeq"
  | .intNe => "if_icmpne"
  | .intLt => "if_icmplt"
  | .intGe => "if_icmpge"
  | .intGt => "if_icmpgt"
  | .intLe => "if_icmple"
  | .refEq => "if_acmpeq"
  | .refNe => "if_acmpne"
  | .null => "ifnull"
  | .nonNull => "ifnonnull"

/-- Every test. -/
def all : List JumpTest :=
  [.eq, .ne, .lt, .ge, .gt, .le, .intEq, .intNe, .intLt, .intGe, .intGt, .intLe, .refEq, .refNe, .null, .nonNull]

end JumpTest

/-- A binary arithmetic operator. -/
inductive ArithOp where
  | add | sub | mul | div | rem | and | or | xor | shl | shr | ushr
  deriving DecidableEq, Repr

namespace ArithOp

/-- The operator's part of a mnemonic. -/
def mnemonic : ArithOp → String
  | .add => "add"
  | .sub => "sub"
  | .mul => "mul"
  | .div => "div"
  | .rem => "rem"
  | .and => "and"
  | .or => "or"
  | .xor => "xor"
  | .shl => "shl"
  | .shr => "shr"
  | .ushr => "ushr"

/-- The operator as it is printed in an expression. -/
def symbol : ArithOp → String
  | .add => "+"
  | .sub => "-"
  | .mul => "*"
  | .div => "/"
  | .rem => "%"
  | .and => "&"
  | .or => "|"
  | .xor => "^"
  | .shl => "<<"
  | .shr => ">>"
  | .ushr => ">>>"

/-- Every operator. -/
def all : List ArithOp := [.add, .sub, .mul, .div, .rem, .and, .or, .xor, .shl, .shr, .ushr]

end ArithOp

/-- How a method is called; all but static calls take a receiver. -/
inductive InvokeKind where
  | static | virtual | special | interface
  deriving DecidableEq, Repr

/-- The mnemonic of the call. -/
def InvokeKind.mnemonic : InvokeKind → String
  | .static => "invokestatic"
  | .virtual => "invokevirtual"
  | .special => "invokespecial"
  | .interface => "invokeinterface"

/-- A field that an instruction reads or writes. -/
structure FieldRef where
  owner : String
  name : String
  descriptor : String
  isStatic : Bool
  deriving DecidableEq, Repr

/-- A method that an instruction calls, and how. -/
structure MethodRef where
  kind : InvokeKind
  owner : String
  name : String
  descriptor : String
  deriving DecidableEq, Repr

/-- Whether a call runs the constructor of an object. -/
def MethodRef.isConstructor (m : MethodRef) : Bool := m.kind == .special && m.name == "<init>"

/-- An instruction, or a marker among the instructions. -/
inductive Insn where
  /-- A marker: the place a label names. -/
  | label (name : Label)
  /-- A marker: the source line the code after it comes from. -/
  | line (number : Nat)
  | nop
  | constNull
  | constInt (value : Int32)
  | constString (value : String)
  | load (kind : ValueKind) (slot : Nat)
  | store (kind : ValueKind) (slot : Nat)
  | increment (slot : Nat) (amount : Int16)
  | arith (kind : ValueKind) (op : ArithOp)
  | pop
  | dup
  | new (className : String)
  | getField (field : FieldRef)
  | putField (field : FieldRef)
  | invoke (method : MethodRef)
  | jump (test : JumpTest) (target : Label)
  | goto (target : Label)
  | switch (otherwise : Label) (arms : List (Int32 × Label))
  /-- A return, of a value if a kind is given. -/
  | ret (kind : Option ValueKind)
  | throw
  deriving DecidableEq, Repr

/-- How many values an instruction takes from the operand stack, and how many it then leaves there. -/
structure Effect where
  pops : Nat
  pushes : Nat
  deriving DecidableEq, Repr

namespace Insn

/-- Whether an instruction only annotates its place. -/
def isMarker : Insn → Bool
  | .label _ | .line _ => true
  | _ => false

/-- Whether an instruction is a goto, a conditional jump or a switch. -/
def isJump : Insn → Bool
  | .jump _ _ | .goto _ | .switch _ _ => true
  | _ => false

/-- Whether an instruction is a switch. -/
def isSwitch : Insn → Bool
  | .switch _ _ => true
  | _ => false

/-- The labels control can go to from an instruction other than by falling through. -/
def targets : Insn → List Label
  | .jump _ target | .goto target => [target]
  | .switch otherwise arms => otherwise :: arms.map (·.2)
  | _ => []

/-- Whether control only ever goes on with the instruction after this one. -/
def isPlain : Insn → Bool
  | .jump _ _ | .goto _ | .switch _ _ | .ret _ | .throw => false
  | _ => true

/-- The slot that a load, store or increment touches, and as which kind of value. -/
def access : Insn → Option (Nat × ValueKind)
  | .load kind slot | .store kind slot => some (slot, kind)
  | .increment slot _ => some (slot, .int)
  | _ => none

/-- The slot that a load, store or increment touches. -/
def slot (i : Insn) : Option Nat := i.access.map (·.1)

/-- What an instruction does to the depth of the operand stack; a call needs its descriptor read for that. -/
def effect : Insn → Except DescriptorError Effect
  | .label _ | .line _ | .nop | .increment _ _ | .goto _ | .ret none => .ok ⟨0, 0⟩
  | .constNull | .constInt _ | .constString _ | .load _ _ | .new _ => .ok ⟨0, 1⟩
  | .store _ _ | .pop | .switch _ _ | .ret (some _) | .throw => .ok ⟨1, 0⟩
  | .arith _ _ => .ok ⟨2, 1⟩
  | .dup => .ok ⟨1, 2⟩
  | .getField field => .ok ⟨if field.isStatic then 0 else 1, 1⟩
  | .putField field => .ok ⟨if field.isStatic then 1 else 2, 0⟩
  | .invoke method => do
    let type ← MethodType.parse method.descriptor
    let receiver := if method.kind = .static then 0 else 1
    return ⟨type.parameters.length + receiver, if type.result.isSome then 1 else 0⟩
  | .jump test _ => .ok ⟨test.operandCount, 0⟩

/-- An instruction as it is listed. -/
def text : Insn → String
  | .label name => name.text ++ ":"
  | .line number => "// line " ++ toString number
  | .nop => "nop"
  | .constNull => "aconst_null"
  | .constInt value => "ldc " ++ toString value.toInt
  | .constString value => "ldc " ++ Text.quote value
  | .load kind slot => kind.letter ++ "load " ++ toString slot
  | .store kind slot => kind.letter ++ "store " ++ toString slot
  | .increment slot amount => "iinc " ++ toString slot ++ " " ++ toString amount.toInt
  | .arith kind op => kind.letter ++ op.mnemonic
  | .pop => "pop"
  | .dup => "dup"
  | .new className => "new " ++ className
  | .getField field => (if field.isStatic then "getstatic " else "getfield ") ++ fieldText field
  | .putField field => (if field.isStatic then "putstatic " else "putfield ") ++ fieldText field
  | .invoke method => method.kind.mnemonic ++ " " ++ method.owner ++ "." ++ method.name ++ method.descriptor
  | .jump test target => test.mnemonic ++ " " ++ target.text
  | .goto target => "goto " ++ target.text
  | .switch otherwise arms =>
    "switch " ++ String.join (arms.map fun (value, target) => toString value.toInt ++ " => " ++ target.text ++ ", ") ++
      "default => " ++ otherwise.text
  | .ret none => "return"
  | .ret (some kind) => kind.letter ++ "return"
  | .throw => "athrow"
where
  /-- A field as it is listed after its mnemonic. -/
  fieldText (field : FieldRef) : String := field.owner ++ "." ++ field.name ++ " " ++ field.descriptor

end Insn

end CodeLift
