import CodeLift.Descriptor
import Mathlib.Data.List.TakeWhile

/-!
# The grammar of descriptors

`Descriptor.IsFieldType` and `Descriptor.IsMethod` say what field types and method descriptors are, without reading them. A field
type at the front of a text ends at one place only, so a text splits into field types in one way, and reading a descriptor finds
this way exactly if there is one.
-/

namespace CodeLift

namespace Descriptor

/-- The field types: any number of `[` before the letter of a primitive type, or before `L`, a name without `;`, and `;`. -/
inductive IsFieldType : List Char → Prop where
  | primitive {c : Char} (h : c ∈ ['B', 'C', 'D', 'F', 'I', 'J', 'S', 'Z']) : IsFieldType [c]
  | object {name : List Char} (h : ';' ∉ name) : IsFieldType ('L' :: name ++ [';'])
  | array {type : List Char} (h : IsFieldType type) : IsFieldType ('[' :: type)

/-- A text is the method descriptor with the given parameter types and the given result part. -/
structure IsMethod (text : String) (parameters : List String) (result : String) : Prop where
  text_eq : text = "(" ++ String.join parameters ++ ")" ++ result
  parameters : ∀ p ∈ parameters, IsFieldType p.toList
  result : IsFieldType result.toList ∨ result = "V"

/-! ## Field types -/

theorem IsFieldType.ne_nil {type : List Char} (h : IsFieldType type) : type ≠ [] := by
  cases h <;> exact List.cons_ne_nil _ _

/-- No field type starts with a closing parenthesis. -/
theorem IsFieldType.head?_ne {type : List Char} (h : IsFieldType type) : type.head? ≠ some ')' := by
  cases h with
  | primitive hc =>
    rintro ⟨⟩
    simp at hc
  | object _ => simp
  | array _ => simp

/-- The result part `V` is no field type. -/
theorem not_isFieldType_void : ¬ IsFieldType ['V'] := by
  intro h
  cases h with
  | primitive hc => simp at hc

theorem isPrimitive_iff {c : Char} : isPrimitive c = true ↔ c ∈ ['B', 'C', 'D', 'F', 'I', 'J', 'S', 'Z'] := by
  simp [isPrimitive]

/-! ## Lengths in bytes -/

theorem byteLength_append (cs ds : List Char) : byteLength (cs ++ ds) = byteLength cs + byteLength ds := by
  induction cs with
  | nil => simp [byteLength]
  | cons c cs ih => rw [List.cons_append, byteLength, byteLength, ih, Nat.add_assoc]

/-- A text is cut at the end of a front of it, which no character crosses. -/
theorem cutAfter?_append (front rest : List Char) : cutAfter? (byteLength front) (front ++ rest) = some (front, rest) := by
  induction front with
  | nil => cases rest <;> rfl
  | cons c front ih =>
    have hpos := c.utf8Size_pos
    obtain ⟨n, hn⟩ : ∃ n, byteLength (c :: front) = n + 1 := ⟨byteLength (c :: front) - 1, by rw [byteLength]; omega⟩
    have hlen : c.utf8Size + byteLength front = n + 1 := hn
    have hrest : n + 1 - c.utf8Size = byteLength front := by omega
    rw [hn, List.cons_append, cutAfter?, if_pos (by omega), hrest, ih, Option.map_some]

/-- A name without `;` ends at the first `;` after it. -/
theorem takeWhile_name {name : List Char} (h : ';' ∉ name) (rest : List Char) :
    (name ++ ';' :: rest).takeWhile (· != ';') = name := by
  have hname : ∀ c ∈ name, (c != ';') = true := by
    intro c hc
    simpa using fun heq : c = ';' => h (heq ▸ hc)
  rw [List.takeWhile_append_of_pos hname]
  simp

/-- A text that holds a `;` is a name without one, a `;` and the rest. -/
theorem exists_name_of_mem {cs : List Char} (h : ';' ∈ cs) :
    ∃ rest, cs = cs.takeWhile (· != ';') ++ ';' :: rest ∧ ';' ∉ cs.takeWhile (· != ';') := by
  have hname : ';' ∉ cs.takeWhile (· != ';') := fun hmem => by simpa using List.mem_takeWhile_imp hmem
  have happend := List.takeWhile_append_dropWhile (p := (· != ';')) (l := cs)
  cases hdrop : cs.dropWhile (· != ';') with
  | nil =>
    rw [hdrop, List.append_nil] at happend
    exact absurd (by rw [happend]; exact h) hname
  | cons c rest =>
    have hhead := List.head?_dropWhile_not (· != ';') cs
    rw [hdrop, List.head?_cons] at hhead
    obtain rfl : c = ';' := by simpa using hhead
    exact ⟨rest, by rw [← hdrop, happend], hname⟩

/-- A type that is no array: its front is the letter of a primitive type, or `L`, a name and `;`. -/
theorem exists_of_baseTypeLength? {cs : List Char} {n : Nat} (h : baseTypeLength? cs = some n) :
    ∃ type rest, cs = type ++ rest ∧ IsFieldType type ∧ byteLength type = n := by
  unfold baseTypeLength? at h
  split at h
  · cases h
  · rename_i c rest
    split at h
    · rename_i hprimitive
      cases h
      have hc := isPrimitive_iff.1 hprimitive
      refine ⟨[c], rest, rfl, .primitive hc, ?_⟩
      simp only [List.mem_cons, List.not_mem_nil, or_false] at hc
      rcases hc with rfl | rfl | rfl | rfl | rfl | rfl | rfl | rfl <;> rfl
    · split at h
      · rename_i hobject
        cases h
        obtain ⟨rfl, hmem⟩ := hobject
        obtain ⟨rest', hrest, hname⟩ := exists_name_of_mem hmem
        refine ⟨'L' :: rest.takeWhile (· != ';') ++ [';'], rest', ?_, .object hname, ?_⟩
        · rw [List.append_assoc, List.singleton_append, List.cons_append, ← hrest]
        · rw [byteLength_append]
          rfl
      · cases h

/-- The field type of which the length is taken stands at the front of the text. -/
theorem exists_of_fieldTypeLength? {cs : List Char} {n : Nat} (h : fieldTypeLength? cs = some n) :
    ∃ type rest, cs = type ++ rest ∧ IsFieldType type ∧ byteLength type = n := by
  obtain ⟨k, hk, rfl⟩ := Option.map_eq_some_iff.1 h
  obtain ⟨type, rest, hrest, htype, hlength⟩ := exists_of_baseTypeLength? hk
  -- Each `[` before the type makes it an array, and takes a byte.
  have harrays : ∀ brackets : List Char, (∀ c ∈ brackets, c = '[') →
      IsFieldType (brackets ++ type) ∧ byteLength (brackets ++ type) = brackets.length + k := by
    intro brackets hbrackets
    induction brackets with
    | nil => exact ⟨htype, by simpa using hlength⟩
    | cons c brackets ih =>
      obtain ⟨rfl, hall⟩ := List.forall_mem_cons.1 hbrackets
      obtain ⟨harray, hbytes⟩ := ih hall
      refine ⟨.array harray, ?_⟩
      have hsize : ('[' : Char).utf8Size = 1 := rfl
      rw [List.cons_append, byteLength, hbytes, hsize, List.length_cons]
      omega
  obtain ⟨harray, hbytes⟩ := harrays (cs.takeWhile (· == '[')) fun c hc => by simpa using List.mem_takeWhile_imp hc
  refine ⟨_, rest, ?_, harray, hbytes⟩
  have hdrop : (cs.takeWhile (· == '[') ++ cs.dropWhile (· == '[')).drop (cs.takeWhile (· == '[')).length =
      cs.dropWhile (· == '[') := List.drop_left
  rw [List.takeWhile_append_dropWhile] at hdrop
  rw [hdrop] at hrest
  rw [List.append_assoc, ← hrest, List.takeWhile_append_dropWhile]

/-- The length of a field type is taken whatever text follows it. -/
theorem fieldTypeLength?_append {type : List Char} (h : IsFieldType type) (rest : List Char) :
    fieldTypeLength? (type ++ rest) = some (byteLength type) := by
  induction h with
  | @primitive c hc =>
    have hprimitive := isPrimitive_iff.2 hc
    have hsize : c.utf8Size = 1 ∧ (c == '[') = false := by
      simp only [List.mem_cons, List.not_mem_nil, or_false] at hc
      rcases hc with rfl | rfl | rfl | rfl | rfl | rfl | rfl | rfl <;> exact ⟨rfl, rfl⟩
    simp [fieldTypeLength?, hsize.2, baseTypeLength?, hprimitive, byteLength, hsize.1]
  | @object name hname =>
    have htext : 'L' :: name ++ [';'] ++ rest = 'L' :: (name ++ ';' :: rest) := by simp
    have hmem : ';' ∈ name ++ ';' :: rest := by simp
    have hletter : isPrimitive 'L' = false := rfl
    have hsize : (';' : Char).utf8Size = 1 := rfl
    rw [htext]
    simp [fieldTypeLength?, baseTypeLength?, hletter, takeWhile_name hname, byteLength, byteLength_append, hsize, Nat.add_assoc]
  | @array type _ ih =>
    have hsize : ('[' : Char).utf8Size = 1 := rfl
    obtain ⟨k, hk, hlength⟩ := Option.map_eq_some_iff.1 ih
    simp only [fieldTypeLength?, List.cons_append, List.takeWhile_cons, beq_self_eq_true, if_true, List.length_cons,
      List.drop_succ_cons, hk, Option.map_some, byteLength, hsize, Option.some.injEq]
    omega

/-- Where there is a field type, the text can be cut at its end. -/
theorem cutAfter?_of_fieldTypeLength? {cs : List Char} {n : Nat} (h : fieldTypeLength? cs = some n) :
    ∃ type rest, cutAfter? n cs = some (type, rest) ∧ cs = type ++ rest ∧ IsFieldType type := by
  obtain ⟨type, rest, rfl, htype, rfl⟩ := exists_of_fieldTypeLength? h
  exact ⟨type, rest, cutAfter?_append type rest, rfl, htype⟩

/-- What is split off a text is a field type, and it stands at the front of the text. -/
theorem isFieldType_of_splitFieldType {cs type rest : List Char} (h : splitFieldType cs = some (type, rest)) :
    IsFieldType type ∧ cs = type ++ rest := by
  obtain ⟨n, hn, hcut⟩ := Option.bind_eq_some_iff.1 h
  obtain ⟨type', rest', hcut', heq, htype⟩ := cutAfter?_of_fieldTypeLength? hn
  cases hcut.symm.trans hcut'
  exact ⟨htype, heq⟩

/-- A field type is split off whatever text follows it. -/
theorem splitFieldType_append {type : List Char} (h : IsFieldType type) (rest : List Char) :
    splitFieldType (type ++ rest) = some (type, rest) := by
  rw [splitFieldType, fieldTypeLength?_append h, Option.bind_some, cutAfter?_append]

/-! ## Parameters -/

/-- What is split off up to a closing parenthesis are field types. -/
theorem isFieldType_of_splitParameters {cs : List Char} {types : List (List Char)} {rest : List Char}
    (h : splitParameters cs = some (types, rest)) : (∀ type ∈ types, IsFieldType type) ∧ cs = types.flatten ++ ')' :: rest := by
  fun_induction splitParameters cs generalizing types rest with
  | case1 rest' =>
    cases h
    exact ⟨by simp, rfl⟩
  | case2 cs _ _ => cases h
  | case3 cs _ type rest₁ hsplit _ ih =>
    obtain ⟨⟨types', rest₂⟩, hrest, heq⟩ := Option.map_eq_some_iff.1 h
    cases heq
    obtain ⟨htype, rfl⟩ := isFieldType_of_splitFieldType hsplit
    obtain ⟨htypes, heq⟩ := ih hrest
    exact ⟨List.forall_mem_cons.2 ⟨htype, htypes⟩, by simp [heq]⟩

/-- Field types up to a closing parenthesis are split off one by one. -/
theorem splitParameters_append {types : List (List Char)} (h : ∀ type ∈ types, IsFieldType type) (rest : List Char) :
    splitParameters (types.flatten ++ ')' :: rest) = some (types, rest) := by
  induction types with
  | nil => rw [List.flatten_nil, List.nil_append, splitParameters]
  | cons type types ih =>
    obtain ⟨htype, htypes⟩ := List.forall_mem_cons.1 h
    have hsplit := splitFieldType_append htype (types.flatten ++ ')' :: rest)
    rw [List.flatten_cons, List.append_assoc, splitParameters]
    · split
      · rename_i hnone
        rw [hsplit] at hnone
        cases hnone
      · rename_i type' rest' hsome
        rw [hsplit] at hsome
        cases hsome
        rw [ih htypes, Option.map_some]
    · -- The text does not start with the parenthesis, since it starts with a field type.
      intro rest' heq
      obtain ⟨c, type', rfl⟩ := List.exists_cons_of_ne_nil htype.ne_nil
      cases heq
      exact htype.head?_ne rfl

/-! ## Whole descriptors -/

/-- The result part is `V`, or it is one field type and nothing after it. -/
theorem readResult_eq_some {cs : List Char} {result : Option String} :
    readResult cs = some result ↔ cs = ['V'] ∧ result = none ∨ IsFieldType cs ∧ result = some (String.ofList cs) := by
  unfold readResult
  by_cases hvoid : cs = ['V']
  · subst hvoid
    simp [not_isFieldType_void, eq_comm]
  · rw [if_neg hvoid]
    constructor
    · intro h
      split at h
      · rename_i hlength
        cases h
        obtain ⟨type, rest, hcut, heq, htype⟩ := cutAfter?_of_fieldTypeLength? hlength
        -- The type takes all bytes of the text, so nothing follows it.
        have hwhole := cutAfter?_append cs []
        rw [List.append_nil, hcut] at hwhole
        cases hwhole
        exact .inr ⟨htype, rfl⟩
      · cases h
    · rintro (⟨heq, _⟩ | ⟨htype, rfl⟩)
      · exact absurd heq hvoid
      · have hlength := fieldTypeLength?_append htype []
        rw [List.append_nil] at hlength
        rw [if_pos hlength]

end Descriptor

/-- The result part of a method descriptor: the result type, or `V` if there is none. -/
def MethodType.resultPart (type : MethodType) : String := type.result.getD "V"

namespace Descriptor

theorem readMethod_eq_some {cs : List Char} {type : MethodType} :
    readMethod cs = some type ↔ ∃ (types : List (List Char)) (rest : List Char), cs = '(' :: (types.flatten ++ ')' :: rest) ∧
      (∀ t ∈ types, IsFieldType t) ∧ readResult rest = some type.result ∧ type.parameters = types.map String.ofList := by
  constructor
  · intro h
    unfold readMethod at h
    split at h
    · rename_i cs
      obtain ⟨⟨types, rest⟩, hsplit, h⟩ := Option.bind_eq_some_iff.1 h
      obtain ⟨result, hresult, h⟩ := Option.bind_eq_some_iff.1 h
      cases h
      obtain ⟨htypes, heq⟩ := isFieldType_of_splitParameters hsplit
      exact ⟨types, rest, by rw [← heq], htypes, hresult, rfl⟩
    · cases h
  · rintro ⟨types, rest, rfl, htypes, hresult, hparameters⟩
    obtain ⟨parameters, result⟩ := type
    dsimp only at hresult hparameters
    have hsplit := splitParameters_append htypes rest
    simp only [readMethod, hsplit, hresult, hparameters, Option.bind_eq_bind, Option.bind_some, Option.pure_def]

theorem parse_eq_ok {text : String} {type : MethodType} :
    MethodType.parse text = .ok type ↔ readMethod text.toList = some type := by
  unfold MethodType.parse
  cases readMethod text.toList with
  | none => simp
  | some type' => simp

/-- Reading gives no result type exactly if the result part is `V`. -/
theorem result_eq_none_iff {text : String} {type : MethodType} (h : MethodType.parse text = .ok type) :
    type.result = none ↔ type.resultPart = "V" := by
  obtain ⟨_, rest, _, _, hresult, _⟩ := readMethod_eq_some.1 (parse_eq_ok.1 h)
  rcases readResult_eq_some.1 hresult with ⟨_, hnone⟩ | ⟨htype, hsome⟩
  · simp [MethodType.resultPart, hnone]
  · have hne : String.ofList rest ≠ "V" := by
      intro heq
      have hrest : rest = ['V'] := by simpa using congrArg String.toList heq
      exact not_isFieldType_void (hrest ▸ htype)
    simp [MethodType.resultPart, hsome, hne]

/-- What a descriptor is read as, it is made up of. -/
theorem isMethod_of_parse {text : String} {type : MethodType} (h : MethodType.parse text = .ok type) :
    IsMethod text type.parameters type.resultPart := by
  obtain ⟨types, rest, hcs, htypes, hresult, hparameters⟩ := readMethod_eq_some.1 (parse_eq_ok.1 h)
  have hpart : type.resultPart.toList = rest ∧ (IsFieldType rest ∨ type.resultPart = "V") := by
    rcases readResult_eq_some.1 hresult with ⟨rfl, hnone⟩ | ⟨htype, hsome⟩
    · simp [MethodType.resultPart, hnone]
    · simp [MethodType.resultPart, hsome, htype]
  refine ⟨?_, ?_, ?_⟩
  · rw [← String.toList_inj, hcs, hparameters]
    simp [String.toList_join, List.flatMap_map, hpart.1, List.flatMap_id']
  · rw [hparameters]
    simpa using htypes
  · rw [hpart.1]
    exact hpart.2

/-- What a descriptor is made up of, it is read as. -/
theorem IsMethod.parse_eq_ok {text result : String} {parameters : List String} (h : IsMethod text parameters result) :
    ∃ type, MethodType.parse text = .ok type ∧ type.parameters = parameters ∧ type.resultPart = result := by
  obtain ⟨rfl, hparameters, hresult⟩ := h
  have hread : ∃ result', readResult result.toList = some result' ∧ result'.getD "V" = result := by
    rcases hresult with htype | rfl
    · exact ⟨some result, readResult_eq_some.2 (.inr ⟨htype, by rw [String.ofList_toList]⟩), rfl⟩
    · exact ⟨none, readResult_eq_some.2 (.inl ⟨rfl, rfl⟩), rfl⟩
  obtain ⟨result', hread, hpart⟩ := hread
  refine ⟨⟨parameters, result'⟩, Descriptor.parse_eq_ok.2 (readMethod_eq_some.2 ?_), rfl, hpart⟩
  refine ⟨parameters.map String.toList, result.toList, ?_, by simpa using hparameters, hread, by simp⟩
  simp [String.toList_join, List.flatMap_def]

end Descriptor

/-- A descriptor is read, as parameter types and a result part, exactly if it is a method descriptor made up of these; every other
text is refused, and named in the error. It is made up of them in one way. There is no result type exactly if the result part is
`V`. Wherever the length of a type is taken, the text can be cut there: the type stands at the front of the text and no character is
torn. What is left is shorter, so that reading ends. -/
theorem descriptors_read_by_grammar (text : String) :
    (∀ parameters result, (∃ type, MethodType.parse text = .ok type ∧ type.parameters = parameters ∧ type.resultPart = result) ↔
      Descriptor.IsMethod text parameters result) ∧
    ((∀ parameters result, ¬ Descriptor.IsMethod text parameters result) → MethodType.parse text = .error ⟨text⟩) ∧
    (∀ parameters parameters' result result', Descriptor.IsMethod text parameters result →
      Descriptor.IsMethod text parameters' result' → parameters = parameters' ∧ result = result') ∧
    (∀ type, MethodType.parse text = .ok type → (type.result = none ↔ type.resultPart = "V")) ∧
    ∀ (cs : List Char) (n : Nat), Descriptor.fieldTypeLength? cs = some n →
      ∃ type rest, Descriptor.cutAfter? n cs = some (type, rest) ∧ cs = type ++ rest ∧ rest.length < cs.length := by
  refine ⟨?_, ?_, ?_, fun _ => Descriptor.result_eq_none_iff, ?_⟩
  · intro parameters result
    constructor
    · rintro ⟨type, hparse, rfl, rfl⟩
      exact Descriptor.isMethod_of_parse hparse
    · exact Descriptor.IsMethod.parse_eq_ok
  · intro hnone
    unfold MethodType.parse
    cases hread : Descriptor.readMethod text.toList with
    | none => rfl
    | some type => exact absurd (Descriptor.isMethod_of_parse (Descriptor.parse_eq_ok.2 hread)) (hnone _ _)
  · intro parameters parameters' result result' h h'
    obtain ⟨type, hparse, rfl, rfl⟩ := h.parse_eq_ok
    obtain ⟨type', hparse', rfl, rfl⟩ := h'.parse_eq_ok
    cases hparse.symm.trans hparse'
    exact ⟨rfl, rfl⟩
  · intro cs n hn
    obtain ⟨type, rest, hcut, heq, _⟩ := Descriptor.cutAfter?_of_fieldTypeLength? hn
    have hsplit : Descriptor.splitFieldType cs = some (type, rest) := by rw [Descriptor.splitFieldType, hn, Option.bind_some, hcut]
    exact ⟨type, rest, hcut, heq, Descriptor.length_lt_of_splitFieldType hsplit⟩

-- A class name may hold a closing parenthesis and a bracket; a `)` before the `;` does not end the parameters.
example : MethodType.parse "(L)[é;[[J)V" = .ok ⟨["L)[é;", "[[J"], none⟩ := by decide +kernel

example : MethodType.parse "(I[)V" = .error ⟨"(I[)V"⟩ := by decide +kernel

end CodeLift
