/-!
# Type descriptors

A field type is any number of `[` followed by a primitive letter or by `L`, a class name without `;`, and `;`. A method
descriptor is the field types of its parameters between parentheses, followed by the type of its result, `V` for none. A text is
taken apart by the lengths of its types in bytes; a cut inside a character, or past the end of the text, gives nothing.
-/

namespace CodeLift

/-- Why a descriptor cannot be read: it does not follow the grammar. -/
structure DescriptorError where
  descriptor : String
  deriving DecidableEq, Repr

/-- The wording of the error. -/
def DescriptorError.message (e : DescriptorError) : String :=
  "Malformed descriptor `" ++ e.descriptor ++ "`"

/-- A method descriptor taken apart: the parameter types in order, and the result type unless there is none. -/
structure MethodType where
  parameters : List String
  result : Option String
  deriving DecidableEq, Repr

namespace Descriptor

/-- The letters of the primitive types. -/
def isPrimitive (c : Char) : Bool := "BCDFIJSZ".toList.contains c

/-- How many bytes characters take. -/
def byteLength : List Char → Nat
  | [] => 0
  | c :: cs => c.utf8Size + byteLength cs

/-- How many bytes the primitive or class type at the front of a text takes. -/
def baseTypeLength? : List Char → Option Nat
  | [] => none
  | c :: rest =>
    if isPrimitive c then some 1
    else if c = 'L' ∧ ';' ∈ rest then some (byteLength (c :: rest.takeWhile (· != ';')) + 1)
    else none

/-- How many bytes the field type at the front of a text takes. -/
def fieldTypeLength? (cs : List Char) : Option Nat :=
  let dimensions := (cs.takeWhile (· == '[')).length
  (baseTypeLength? (cs.drop dimensions)).map (dimensions + ·)

/-- Cuts a text after a number of bytes, unless that is inside a character or past the end. -/
def cutAfter? : Nat → List Char → Option (List Char × List Char)
  | 0, cs => some ([], cs)
  | _ + 1, [] => none
  | n + 1, c :: cs =>
    if c.utf8Size ≤ n + 1 then (cutAfter? (n + 1 - c.utf8Size) cs).map fun (front, rest) => (c :: front, rest) else none

/-- A cut after some bytes leaves fewer characters. -/
theorem length_of_cutAfter? {n : Nat} {cs front rest : List Char} (h : cutAfter? n cs = some (front, rest)) :
    rest.length ≤ cs.length ∧ (0 < n → rest.length < cs.length) := by
  fun_induction cutAfter? n cs generalizing front rest with
  | case1 cs =>
    cases h
    exact ⟨Nat.le_refl _, fun h => absurd h (Nat.lt_irrefl 0)⟩
  | case2 n => cases h
  | case3 n c cs hle ih =>
    obtain ⟨⟨front', rest'⟩, hcut, heq⟩ := Option.map_eq_some_iff.1 h
    cases heq
    have hrest := (ih hcut).1
    rw [List.length_cons]
    omega
  | case4 n c cs hle => cases h

/-- A type takes a byte at least. -/
theorem baseTypeLength?_pos {cs : List Char} {n : Nat} (h : baseTypeLength? cs = some n) : 0 < n := by
  unfold baseTypeLength? at h
  split at h
  · cases h
  · split at h
    · cases h
      exact Nat.one_pos
    · split at h
      · cases h
        exact Nat.succ_pos _
      · cases h

/-- Splits the field type at the front of a text off the rest of it. -/
def splitFieldType (cs : List Char) : Option (List Char × List Char) := (fieldTypeLength? cs).bind (cutAfter? · cs)

/-- Splitting a type off a text leaves fewer characters. -/
theorem length_lt_of_splitFieldType {cs type rest : List Char} (h : splitFieldType cs = some (type, rest)) :
    rest.length < cs.length := by
  obtain ⟨n, hn, hcut⟩ := Option.bind_eq_some_iff.1 h
  obtain ⟨k, hk, rfl⟩ := Option.map_eq_some_iff.1 hn
  have hpos := baseTypeLength?_pos hk
  exact (length_of_cutAfter? hcut).2 (by omega)

/-- Splits field types off the front of a text up to a closing parenthesis, and gives what follows it. -/
def splitParameters (cs : List Char) : Option (List (List Char) × List Char) :=
  match cs with
  | ')' :: rest => some ([], rest)
  | cs =>
    match h : splitFieldType cs with
    | none => none
    | some (type, rest) =>
      have := length_lt_of_splitFieldType h
      (splitParameters rest).map fun (types, result) => (type :: types, result)
termination_by cs.length

/-- Reads the result part of a method descriptor: nothing for `V`, else one field type and no more. -/
def readResult (cs : List Char) : Option (Option String) :=
  if cs = ['V'] then some none
  else if fieldTypeLength? cs = some (byteLength cs) then some (some (String.ofList cs))
  else none

/-- Reads the characters of a method descriptor. -/
def readMethod : List Char → Option MethodType
  | '(' :: cs => do
    let (types, rest) ← splitParameters cs
    let result ← readResult rest
    return ⟨types.map String.ofList, result⟩
  | _ => none

/-- The number of local slots a value of a type takes: two for the long and double types themselves, else one. -/
def width (type : String) : Nat := if type = "J" || type = "D" then 2 else 1

/-- The class name of a type descriptor or internal name without `L`, `;` and the package. -/
def simpleName (descriptor : String) : String :=
  let cs := descriptor.toList
  let name := match cs with
    | 'L' :: rest => if rest.getLast? = some ';' then rest.dropLast else cs
    | _ => cs
  String.ofList (name.reverse.takeWhile (· != '/')).reverse

end Descriptor

/-- Reads a method descriptor. -/
def MethodType.parse (descriptor : String) : Except DescriptorError MethodType :=
  match Descriptor.readMethod descriptor.toList with
  | some type => .ok type
  | none => .error ⟨descriptor⟩

end CodeLift
