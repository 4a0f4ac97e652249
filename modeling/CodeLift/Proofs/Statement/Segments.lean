import CodeLift.Proofs.Statement.Usage
import Mathlib.Data.List.Perm.Subperm
import Mathlib.Data.Set.Insert

/-!
# Segments of an arena

The expressions that a line of code makes are a segment of the arena: they follow those that were there before, refer to each other
only, and are referred to only by what the line leaves on its stack and by the statements it becomes. `Segment` says how often they
are referred to, given how often the values on the stack may be used. It is kept by everything an instruction does with values,
and a segment inside another one becomes a part of it (`Segment.absorb`).
-/

namespace CodeLift

namespace Arena

/-- The expressions that those from a place on refer to. -/
def childrenFrom (n : Nat) (a : Arena) : List ExprId := (a.toList.drop n).flatMap Expr.children

/-- Whether an expression is an object under construction. -/
def isRaw (a : Arena) (id : ExprId) : Bool := a[id]?.any Expr.isBuilding

variable {a a' : Arena} {n : Nat} {id : ExprId} {e e' : Expr}

/-- The operands from a place on are those of expressions from there on. -/
theorem mem_childrenFrom {c : ExprId} : c ∈ childrenFrom n a ↔ ∃ id e, n ≤ id ∧ a[id]? = some e ∧ c ∈ e.children := by
  rw [childrenFrom, List.mem_flatMap]
  constructor
  · rintro ⟨e, he, hc⟩
    obtain ⟨k, hk⟩ := List.mem_iff_getElem?.1 he
    rw [List.getElem?_drop, Array.getElem?_toList] at hk
    exact ⟨n + k, e, Nat.le_add_right n k, hk, hc⟩
  · rintro ⟨id, e, hle, he, hc⟩
    refine ⟨e, List.mem_iff_getElem?.2 ⟨id - n, ?_⟩, hc⟩
    rw [List.getElem?_drop, Array.getElem?_toList, Nat.add_sub_cancel' hle, he]

/-- A new expression adds its operands. -/
theorem childrenFrom_push (h : n ≤ a.size) : childrenFrom n (a.push e) = childrenFrom n a ++ e.children := by
  simp [childrenFrom, List.drop_append_of_le_length (show n ≤ a.toList.length from h)]

/-- What is read off all expressions, when one that gave nothing is replaced. -/
theorem flatMap_set_perm {β : Type} {f : Expr → List β} {es : List Expr} {k : Nat} (he : es[k]? = some e) (hnil : f e = []) :
    ((es.set k e').flatMap f).Perm (es.flatMap f ++ f e') := by
  induction es generalizing k with
  | nil => cases he
  | cons x es ih =>
    cases k with
    | zero =>
      obtain rfl : x = e := by simpa using he
      simpa [hnil] using List.perm_append_comm
    | succ k =>
      rw [List.set_cons_succ, List.flatMap_cons, List.flatMap_cons, List.append_assoc]
      exact (ih (by simpa using he)).append_left (f x)

/-- An expression without operands is replaced by one with its own. -/
theorem childrenFrom_set (hle : n ≤ id) (he : a[id]? = some e) (hnil : e.children = []) :
    (childrenFrom n (a.setIfInBounds id e')).Perm (childrenFrom n a ++ e'.children) := by
  unfold childrenFrom
  rw [Array.toList_setIfInBounds, List.drop_set, if_neg (Nat.not_lt.2 hle)]
  exact flatMap_set_perm (by simpa [Nat.add_sub_cancel' hle] using he) hnil

/-- The expressions of an arena that starts like another one, split where that one ends. -/
theorem childrenFrom_of_old (hle : n ≤ a.size) (hold : ∀ id < a.size, a'[id]? = a[id]?) :
    childrenFrom n a' = childrenFrom n a ++ childrenFrom a.size a' := by
  have htake : a'.toList.take a.size = a.toList := by
    refine List.ext_getElem? fun id => ?_
    by_cases hid : id < a.size
    · rw [List.getElem?_take_of_lt hid, Array.getElem?_toList, Array.getElem?_toList, hold id hid]
    · rw [List.getElem?_eq_none (by simp; omega), List.getElem?_eq_none (by simpa using hid)]
  have hsplit : a'.toList.drop n = a.toList.drop n ++ a'.toList.drop a.size := by
    conv_lhs => rw [← List.take_append_drop a.size a'.toList, htake]
    exact List.drop_append_of_le_length hle
  simp [childrenFrom, hsplit]

theorem isRaw_eq (he : a[id]? = some e) : isRaw a id = e.isBuilding := by rw [isRaw, he, Option.any_some]

/-- What has effects is not under construction. -/
theorem isRaw_of_hasEffects (he : a[id]? = some e) (heffects : e.hasEffects = true) : isRaw a id = false := by
  rw [isRaw_eq he]
  cases e <;> simp_all [Expr.hasEffects, Expr.isBuilding]

/-- What has operands is not under construction. -/
theorem isRaw_of_mem_children (he : a[id]? = some e) {child : ExprId} (hchild : child ∈ e.children) : isRaw a id = false := by
  rw [isRaw_eq he]
  cases e <;> first | rfl | cases hchild

/-- Only a new expression can newly be under construction. -/
theorem isRaw_push : isRaw (a.push e) id = if id = a.size then e.isBuilding else isRaw a id := by
  simp only [isRaw, Array.getElem?_push]
  split <;> simp

/-- Replacing an expression changes no other. -/
theorem isRaw_set (hid : id < a.size) {id' : ExprId} :
    isRaw (a.setIfInBounds id e) id' = if id' = id then e.isBuilding else isRaw a id' := by
  simp only [isRaw, Array.getElem?_setIfInBounds]
  by_cases h : id' = id
  · subst h
    simp [hid]
  · rw [if_neg (Ne.symm h), if_neg h]

end Arena

open Arena

/-- Whether a value may be used as often as is said, given the values that hold a call or are to be a call. -/
def Usage.Fits (a : Arena) (held : Set ExprId) (id : ExprId) : Usage → Prop
  | .free => id ∉ held
  | .once => a.isRaw id = false
  | .building _ => a.isRaw id = true

/-- What fits still does where nothing about the expression has changed. -/
theorem Usage.Fits.congr {a a' : Arena} {held held' : Set ExprId} {id : ExprId} {v : Usage} (h : v.Fits a held id)
    (hraw : a'.isRaw id = a.isRaw id) (hheld : id ∈ held' → id ∈ held) : v.Fits a' held' id := by
  cases v with
  | free => exact fun hmem => h (hheld hmem)
  | once => exact hraw.trans h
  | building k => exact hraw.trans h

/-- The references to the expressions from a place on: those from a stack, those from statements, and those among each other. -/
def references (n : Nat) (a : Arena) (entries : List (ExprId × Usage)) (roots : List ExprId) : List ExprId :=
  entries.map Prod.fst ++ roots ++ childrenFrom n a

/-- The expressions that a line of code has made since the arena was `base`, with its stack and the references from its statements.
Of these expressions `held` are those whose evaluation calls something, and the objects under construction. -/
structure Segment (base a : Arena) (held : Set ExprId) (entries : List (ExprId × Usage)) (roots : List ExprId) : Prop where
  size : base.size ≤ a.size
  old : ∀ id < base.size, a[id]? = base[id]?
  bounds : ∀ id ∈ references base.size a entries roots, base.size ≤ id ∧ id < a.size
  inside : ∀ id ∈ held, base.size ≤ id ∧ id < a.size
  effects : ∀ id e, base.size ≤ id → a[id]? = some e → e.hasEffects = true → id ∈ held
  parents : ∀ id e, base.size ≤ id → a[id]? = some e → ∀ c ∈ e.children, c ∈ held → id ∈ held
  raws : ∀ id, base.size ≤ id → a.isRaw id = true → id ∈ held ∧ id ∉ roots ∧ id ∉ childrenFrom base.size a
  single : ∀ id ∈ held, a.isRaw id = false → (references base.size a entries roots).count id ≤ 1
  fits : ∀ p ∈ entries, p.2.Fits a held p.1
  /-- Objects under construction are told apart by where they were made. -/
  sites : ∀ p ∈ entries, ∀ q ∈ entries, ∀ k k', p.2 = .building k → q.2 = .building k' → (p.1 = q.1 ↔ k = k')

namespace Segment

variable {base a a' : Arena} {held held' : Set ExprId} {entries entries' used rest : List (ExprId × Usage)}
  {roots roots' : List ExprId}

/-- A segment starts empty. -/
theorem start (a : Arena) : Segment a a ∅ [] [] := by
  have hnone : ∀ id e, a.size ≤ id → a[id]? ≠ some e := by
    intro id e hle he
    rw [Array.getElem?_eq_none hle] at he
    cases he
  have hchildren : childrenFrom a.size a = [] := by
    rw [childrenFrom, List.drop_eq_nil_of_le (Nat.le_refl a.size), List.flatMap_nil]
  refine ⟨Nat.le_refl _, fun _ _ => rfl, ?_, nofun, ?_, ?_, ?_, nofun, nofun, nofun⟩
  · simp [references, hchildren]
  · exact fun id e hle he => absurd he (hnone id e hle)
  · exact fun id e hle he => absurd he (hnone id e hle)
  · intro id hle hraw
    obtain ⟨e, he, _⟩ := Option.any_eq_true _ _ |>.1 hraw
    exact absurd he (hnone id e hle)

section

variable (h : Segment base a held entries roots)

include h

/-- What the stack holds of a segment was made in it. -/
theorem bounds_of_mem {p : ExprId × Usage} (hp : p ∈ entries) : base.size ≤ p.1 ∧ p.1 < a.size :=
  h.bounds p.1 (by simp only [references, List.mem_append]; exact .inl (.inl (List.mem_map_of_mem hp)))

/-- A value that may be used is no object under construction. -/
theorem isRaw_of_isReady {p : ExprId × Usage} (hp : p ∈ entries) (hready : p.2.isReady = true) : a.isRaw p.1 = false := by
  have hfits := h.fits p hp
  obtain ⟨id, v⟩ := p
  cases v with
  | free =>
    refine Bool.eq_false_iff.2 fun hraw => hfits ?_
    exact (h.raws id (h.bounds_of_mem hp).1 hraw).1
  | once => exact hfits
  | building k => cases hready

/-- An object under construction is on the stack as such. -/
theorem building_of_isRaw {p : ExprId × Usage} (hp : p ∈ entries) (hraw : a.isRaw p.1 = true) : ∃ k, p.2 = .building k := by
  cases hv : p.2 with
  | building k => exact ⟨k, rfl⟩
  | _ =>
    rw [h.isRaw_of_isReady hp (by rw [hv]; rfl)] at hraw
    cases hraw

/-- A value that holds a call may be used once only. -/
theorem once_of_mem_held {p : ExprId × Usage} (hp : p ∈ entries) (hready : p.2.isReady = true) (hheld : p.1 ∈ held) :
    p.2 = .once := by
  have hfits := h.fits p hp
  cases hv : p.2 with
  | once => rfl
  | free =>
    rw [hv] at hfits
    exact absurd hheld hfits
  | building k =>
    rw [hv] at hready
    cases hready

/-- A root is not under construction. -/
theorem isRaw_of_mem_roots {id : ExprId} (hid : id ∈ roots) : a.isRaw id = false :=
  Bool.eq_false_iff.2 fun hraw => (h.raws id (h.bounds id (by simp [references, hid])).1 hraw).2.1 hid

/-- Values may be dropped or become operands of statements, once they may be used. -/
theorem weaken (hsub : (entries'.map Prod.fst ++ roots').Subperm (entries.map Prod.fst ++ roots))
    (hentries : entries' ⊆ entries) (hroots : ∀ id ∈ roots', a.isRaw id = false) : Segment base a held entries' roots' := by
  have hrefs : (references base.size a entries' roots').Subperm (references base.size a entries roots) :=
    hsub.append (List.Subperm.refl _)
  refine ⟨h.size, h.old, fun id hid => h.bounds id (hrefs.subset hid), h.inside, h.effects, h.parents, ?_, ?_, ?_, ?_⟩
  · intro id hle hraw
    obtain ⟨hheld, _, hchildren⟩ := h.raws id hle hraw
    refine ⟨hheld, fun hid => ?_, hchildren⟩
    rw [hroots id hid] at hraw
    cases hraw
  · exact fun id hid hraw => (hrefs.count_le id).trans (h.single id hid hraw)
  · exact fun p hp => h.fits p (hentries hp)
  · exact fun p hp q hq => h.sites p (hentries hp) q (hentries hq)

/-- Values can be dropped from the stack. -/
theorem drop (hsub : entries'.Sublist entries) : Segment base a held entries' roots :=
  h.weaken ((hsub.map _).append_right _).subperm hsub.subset fun _ => h.isRaw_of_mem_roots

end

/-- Values that may be used become operands of statements. -/
theorem spend (h : Segment base a held (used ++ rest) roots) (hready : ∀ p ∈ used, p.2.isReady = true) {more : List ExprId}
    (hmore : more.Subperm (used.map Prod.fst)) : Segment base a held rest (roots ++ more) := by
  refine h.weaken ?_ (List.subset_append_right _ _) ?_
  · refine ((List.Subperm.refl _).append ((List.Subperm.refl roots).append hmore)).trans (List.Perm.subperm ?_)
    rw [List.map_append, ← List.append_assoc, List.append_assoc (used.map _)]
    exact List.perm_append_comm
  · intro id hid
    rcases List.mem_append.1 hid with hid | hid
    · exact h.isRaw_of_mem_roots hid
    · obtain ⟨p, hp, rfl⟩ := List.mem_map.1 (hmore.subset hid)
      exact h.isRaw_of_isReady (List.mem_append_left _ hp) (hready p hp)

/-- A value that is not bound to be used once is copied. -/
theorem dup {p : ExprId × Usage} (h : Segment base a held (p :: rest) roots) (hp : p.2 ≠ .once) :
    Segment base a held (p :: p :: rest) roots := by
  have hsubset : p :: p :: rest ⊆ p :: rest := by simp
  refine ⟨h.size, h.old, ?_, h.inside, h.effects, h.parents, h.raws, ?_, ?_, ?_⟩
  · intro id hid
    refine h.bounds id ?_
    simp only [references, List.map_cons, List.mem_append, List.mem_cons] at hid ⊢
    tauto
  · intro id hid hraw
    have hne : p.1 ≠ id := by
      rintro rfl
      have hfits := h.fits p List.mem_cons_self
      cases hv : p.2 with
      | free =>
        rw [hv] at hfits
        exact hfits hid
      | once => exact hp hv
      | building k =>
        rw [hv] at hfits
        cases hfits.symm.trans hraw
    have hsingle := h.single id hid hraw
    simpa [references, List.count_cons, hne] using hsingle
  · exact fun q hq => h.fits q (hsubset hq)
  · exact fun q hq q' hq' => h.sites q (hsubset hq) q' (hsubset hq')

/-- Values that may be used become operands of a new expression, which goes on the stack. -/
theorem push (h : Segment base a held (used ++ rest) roots) (hready : ∀ p ∈ used, p.2.isReady = true) {e : Expr}
    (hchildren : e.children.Perm (used.map Prod.fst)) {v : Usage} (heffects : e.hasEffects = true → v ≠ .free)
    (honce : .once ∈ used.map Prod.snd → v ≠ .free) (hbuilding : e.isBuilding = true ↔ ∃ k, v = .building k)
    (hfresh : ∀ k, v = .building k → v ∉ rest.map Prod.snd) :
    Segment base (a.push e) {id | id ∈ held ∨ id = a.size ∧ v ≠ .free} ((a.size, v) :: rest) roots := by
  have hrefs : (references base.size (a.push e) ((a.size, v) :: rest) roots).Perm
      (a.size :: references base.size a (used ++ rest) roots) := by
    rw [references, references, childrenFrom_push h.size, List.map_cons, List.cons_append, List.cons_append, List.perm_cons,
      List.map_append, List.append_assoc (used.map _), List.append_assoc (used.map _), ← List.append_assoc]
    exact (List.perm_append_comm).trans (hchildren.append_right _)
  have hlt : ∀ id ∈ references base.size a (used ++ rest) roots, id ≠ a.size := fun id hid => (h.bounds id hid).2.ne
  have hrest : ∀ p ∈ rest, p.1 ≠ a.size := fun p hp => (h.bounds_of_mem (List.mem_append_right used hp)).2.ne
  have hsize : (a.push e).size = a.size + 1 := Array.size_push _
  refine ⟨?_, ?_, ?_, ?_, ?_, ?_, ?_, ?_, ?_, ?_⟩
  · exact hsize ▸ Nat.le_succ_of_le h.size
  · intro id hid
    rw [Array.getElem?_push, if_neg (Nat.ne_of_lt (Nat.lt_of_lt_of_le hid h.size)), h.old id hid]
  · intro id hid
    rw [hsize]
    rcases List.mem_cons.1 (hrefs.subset hid) with rfl | hid
    · exact ⟨h.size, Nat.lt_succ_self _⟩
    · exact ⟨(h.bounds id hid).1, Nat.lt_succ_of_lt (h.bounds id hid).2⟩
  · rw [hsize]
    rintro id (hid | ⟨rfl, _⟩)
    · exact ⟨(h.inside id hid).1, Nat.lt_succ_of_lt (h.inside id hid).2⟩
    · exact ⟨h.size, Nat.lt_succ_self _⟩
  · intro id e' hle he' heffects'
    rw [Array.getElem?_push] at he'
    split at he'
    · rename_i hid
      cases he'
      exact .inr ⟨hid, heffects heffects'⟩
    · exact .inl (h.effects id e' hle he' heffects')
  · intro id e' hle he' c hc hheld
    rw [Array.getElem?_push] at he'
    split at he'
    · rename_i hid
      cases he'
      refine .inr ⟨hid, ?_⟩
      obtain ⟨p, hp, rfl⟩ := List.mem_map.1 (hchildren.subset hc)
      rcases hheld with hheld | ⟨hsize, _⟩
      · exact honce (List.mem_map.2 ⟨p, hp, h.once_of_mem_held (List.mem_append_left rest hp) (hready p hp) hheld⟩)
      · exact absurd hsize (h.bounds_of_mem (List.mem_append_left rest hp)).2.ne
    · have hchild : c ∈ childrenFrom base.size a := mem_childrenFrom.2 ⟨id, e', hle, he', hc⟩
      rcases hheld with hheld | ⟨hsize, _⟩
      · exact .inl (h.parents id e' hle he' c hc hheld)
      · exact absurd hsize (hlt c (by simp [references, hchild]))
  · intro id hle hraw
    rw [isRaw_push] at hraw
    rw [childrenFrom_push h.size, List.mem_append]
    split at hraw
    · rename_i hid
      subst hid
      obtain ⟨k, hk⟩ := hbuilding.1 hraw
      refine ⟨.inr ⟨rfl, by rw [hk]; nofun⟩, fun hmem => hlt _ (by simp [references, hmem]) rfl, ?_⟩
      rintro (hmem | hmem)
      · exact hlt _ (by simp [references, hmem]) rfl
      · obtain ⟨p, hp, hp'⟩ := List.mem_map.1 (hchildren.subset hmem)
        exact absurd hp' (h.bounds_of_mem (List.mem_append_left rest hp)).2.ne
    · obtain ⟨hheld, hroots, hnot⟩ := h.raws id hle hraw
      refine ⟨.inl hheld, hroots, ?_⟩
      rintro (hmem | hmem)
      · exact hnot hmem
      · obtain ⟨p, hp, rfl⟩ := List.mem_map.1 (hchildren.subset hmem)
        rw [h.isRaw_of_isReady (List.mem_append_left rest hp) (hready p hp)] at hraw
        cases hraw
  · intro id hid hraw
    rw [hrefs.count_eq]
    by_cases hsize : id = a.size
    · subst hsize
      rw [List.count_cons_self, List.count_eq_zero.2 fun hmem => hlt _ hmem rfl]
    · rw [isRaw_push, if_neg hsize] at hraw
      rw [List.count_cons_of_ne (Ne.symm hsize)]
      exact h.single id (hid.resolve_right fun hid => hsize hid.1) hraw
  · rintro p hp
    rcases List.mem_cons.1 hp with rfl | hp
    · cases v with
      | free =>
        rintro (hmem | ⟨_, hv⟩)
        · exact absurd (h.inside _ hmem).2 (Nat.lt_irrefl _)
        · exact hv rfl
      | once =>
        change Arena.isRaw _ _ = false
        rw [isRaw_push, if_pos rfl]
        exact Bool.eq_false_iff.2 fun hraw => by simpa using hbuilding.1 hraw
      | building k =>
        change Arena.isRaw _ _ = true
        rw [isRaw_push, if_pos rfl]
        exact hbuilding.2 ⟨k, rfl⟩
    · exact (h.fits p (List.mem_append_right used hp)).congr (isRaw_push.trans (if_neg (hrest p hp))) fun hmem =>
        hmem.resolve_right fun hmem => hrest p hp hmem.1
  · intro p hp q hq k k' hk hk'
    rcases List.mem_cons.1 hp with rfl | hp
    · rcases List.mem_cons.1 hq with rfl | hq
      · rw [hk] at hk'
        cases hk'
        simp
      · refine iff_of_false (Ne.symm (hrest q hq)) ?_
        rintro rfl
        exact hfresh k hk (List.mem_map.2 ⟨q, hq, hk'.trans hk.symm⟩)
    · rcases List.mem_cons.1 hq with rfl | hq
      · refine iff_of_false (hrest p hp) ?_
        rintro rfl
        exact hfresh k hk' (List.mem_map.2 ⟨p, hp, hk.trans hk'.symm⟩)
      · exact h.sites p (List.mem_append_right used hp) q (List.mem_append_right used hq) k k' hk hk'

/-- An object under construction takes values that may be used as the arguments of its constructor. At most one reference to it is
kept on the stack. -/
theorem complete (h : Segment base a held (used ++ rest) roots) (hready : ∀ p ∈ used, p.2.isReady = true) {id : ExprId} {k : Nat}
    {e e' : Expr} (hle : base.size ≤ id) (he : a[id]? = some e) (hraw : e.isBuilding = true) (hnil : e.children = [])
    (hchildren : e'.children.Perm (used.map Prod.fst)) (hbuilding : e'.isBuilding = false)
    (hsite : ∀ p ∈ rest, p.1 = id ↔ p.2 = .building k) (hcount : (rest.map Prod.snd).count (.building k) ≤ 1) :
    Segment base (a.setIfInBounds id e') held (rest.map fun p => (p.1, p.2.complete k)) roots := by
  have hlt : id < a.size := (Array.getElem?_eq_some_iff.1 he).1
  have hidRaw : a.isRaw id = true := (isRaw_eq he).trans hraw
  obtain ⟨hheld, hnotRoot, hnotChild⟩ := h.raws id hle hidRaw
  have hused : ∀ p ∈ used, p.1 ≠ id := by
    rintro p hp rfl
    rw [h.isRaw_of_isReady (List.mem_append_left rest hp) (hready p hp)] at hidRaw
    cases hidRaw
  have hkept : (rest.map fun p => (p.1, p.2.complete k)).map Prod.fst = rest.map Prod.fst := by simp
  have hrefs : (references base.size (a.setIfInBounds id e') (rest.map fun p => (p.1, p.2.complete k)) roots).Perm
      (references base.size a (used ++ rest) roots) := by
    rw [references, references, hkept, List.map_append, List.append_assoc (used.map _), List.append_assoc (used.map _)]
    refine ((childrenFrom_set hle he hnil).append_left _).trans ?_
    rw [← List.append_assoc]
    exact List.perm_append_comm.trans (hchildren.append_right _)
  refine ⟨?_, ?_, ?_, ?_, ?_, ?_, ?_, ?_, ?_, ?_⟩
  · rw [Array.size_setIfInBounds]
    exact h.size
  · intro id' hid'
    rw [Array.getElem?_setIfInBounds_ne (Nat.ne_of_gt (Nat.lt_of_lt_of_le hid' hle)), h.old id' hid']
  · intro id' hid'
    rw [Array.size_setIfInBounds]
    exact h.bounds id' (hrefs.subset hid')
  · rw [Array.size_setIfInBounds]
    exact h.inside
  · intro id' x hle' hx heffects
    by_cases hid : id' = id
    · exact hid ▸ hheld
    · rw [Array.getElem?_setIfInBounds_ne (Ne.symm hid)] at hx
      exact h.effects id' x hle' hx heffects
  · intro id' x hle' hx c hc hmem
    by_cases hid : id' = id
    · exact hid ▸ hheld
    · rw [Array.getElem?_setIfInBounds_ne (Ne.symm hid)] at hx
      exact h.parents id' x hle' hx c hc hmem
  · intro id' hle' hraw'
    rw [isRaw_set hlt] at hraw'
    split at hraw'
    · rw [hbuilding] at hraw'
      cases hraw'
    · obtain ⟨hheld', hroots', hnot⟩ := h.raws id' hle' hraw'
      refine ⟨hheld', hroots', fun hmem => ?_⟩
      rcases List.mem_append.1 ((childrenFrom_set hle he hnil).subset hmem) with hmem | hmem
      · exact hnot hmem
      · obtain ⟨p, hp, rfl⟩ := List.mem_map.1 (hchildren.subset hmem)
        rw [h.isRaw_of_isReady (List.mem_append_left rest hp) (hready p hp)] at hraw'
        cases hraw'
  · intro id' hid' hraw'
    rw [hrefs.count_eq]
    by_cases hid : id' = id
    · subst hid
      have hzero : (used.map Prod.fst).count id' = 0 := List.count_eq_zero.2 fun hmem => by
        obtain ⟨p, hp, hp'⟩ := List.mem_map.1 hmem
        exact hused p hp hp'
      have hsame : (rest.map Prod.fst).count id' = (rest.map Prod.snd).count (.building k) := by
        rw [List.count_eq_countP, List.count_eq_countP, List.countP_map, List.countP_map]
        refine List.countP_congr fun p hp => ?_
        simpa using hsite p hp
      rw [references, List.map_append, List.count_append, List.count_append, List.count_append, hzero, hsame,
        List.count_eq_zero.2 hnotRoot, List.count_eq_zero.2 hnotChild]
      omega
    · rw [isRaw_set hlt, if_neg hid] at hraw'
      exact h.single id' hid' hraw'
  · intro q hq
    obtain ⟨p, hp, rfl⟩ := List.mem_map.1 hq
    by_cases hid : p.1 = id
    · rw [Usage.complete, if_pos ((hsite p hp).1 hid)]
      change Arena.isRaw _ p.1 = false
      rw [isRaw_set hlt, if_pos hid, hbuilding]
    · rw [Usage.complete, if_neg fun hk => hid ((hsite p hp).2 hk)]
      exact (h.fits p (List.mem_append_right used hp)).congr ((isRaw_set hlt).trans (if_neg hid)) (fun hmem => hmem)
  · intro q hq q' hq' j j' hj hj'
    obtain ⟨p, hp, rfl⟩ := List.mem_map.1 hq
    obtain ⟨p', hp', rfl⟩ := List.mem_map.1 hq'
    have hkeep : ∀ {v : Usage} {j : Nat}, v.complete k = .building j → v = .building j := by
      intro v j hv
      unfold Usage.complete at hv
      split at hv
      · cases hv
      · exact hv
    exact h.sites p (List.mem_append_right used hp) p' (List.mem_append_right used hp') j j' (hkeep hj) (hkeep hj')

/-- The expressions made for a list inside, on a stack of its own that is empty in the end, become part of the segment around. -/
theorem absorb (h : Segment base a held entries roots) (h' : Segment a a' held' [] roots') :
    Segment base a' (held ∪ held') entries (roots ++ roots') := by
  have hchildren := childrenFrom_of_old h.size h'.old
  have hrefs : (references base.size a' entries (roots ++ roots')).Perm
      (references base.size a entries roots ++ references a.size a' [] roots') := by
    simp only [references, hchildren, List.map_nil, List.nil_append, List.append_assoc]
    refine .append_left _ (.append_left _ ?_)
    rw [← List.append_assoc, ← List.append_assoc]
    exact List.perm_append_comm.append_right _
  have hraw : ∀ id < a.size, a'.isRaw id = a.isRaw id := fun id hid => by rw [isRaw, isRaw, h'.old id hid]
  have hbelow : ∀ id < a.size, id ∉ references a.size a' [] roots' ∧ id ∉ held' := by
    intro id hid
    exact ⟨fun hmem => Nat.not_lt.2 (h'.bounds id hmem).1 hid, fun hmem => Nat.not_lt.2 (h'.inside id hmem).1 hid⟩
  have habove : ∀ id, a.size ≤ id → id ∉ references base.size a entries roots ∧ id ∉ held := by
    intro id hid
    exact ⟨fun hmem => Nat.not_lt.2 hid (h.bounds id hmem).2, fun hmem => Nat.not_lt.2 hid (h.inside id hmem).2⟩
  refine ⟨Nat.le_trans h.size h'.size, ?_, ?_, ?_, ?_, ?_, ?_, ?_, ?_, h.sites⟩
  · intro id hid
    rw [h'.old id (Nat.lt_of_lt_of_le hid h.size), h.old id hid]
  · intro id hid
    rcases List.mem_append.1 (hrefs.subset hid) with hid | hid
    · exact ⟨(h.bounds id hid).1, Nat.lt_of_lt_of_le (h.bounds id hid).2 h'.size⟩
    · exact ⟨Nat.le_trans h.size (h'.bounds id hid).1, (h'.bounds id hid).2⟩
  · rintro id (hid | hid)
    · exact ⟨(h.inside id hid).1, Nat.lt_of_lt_of_le (h.inside id hid).2 h'.size⟩
    · exact ⟨Nat.le_trans h.size (h'.inside id hid).1, (h'.inside id hid).2⟩
  · intro id e hle he heffects
    by_cases hid : id < a.size
    · exact .inl (h.effects id e hle (h'.old id hid ▸ he) heffects)
    · exact .inr (h'.effects id e (Nat.not_lt.1 hid) he heffects)
  · intro id e hle he c hc hheld
    by_cases hid : id < a.size
    · rw [h'.old id hid] at he
      have hmem : c ∈ references base.size a entries roots := by simp [references, mem_childrenFrom.2 ⟨id, e, hle, he, hc⟩]
      exact .inl (h.parents id e hle he c hc (hheld.resolve_right (hbelow c (h.bounds c hmem).2).2))
    · have hid := Nat.not_lt.1 hid
      have hmem : c ∈ references a.size a' [] roots' := by simp [references, mem_childrenFrom.2 ⟨id, e, hid, he, hc⟩]
      exact .inr (h'.parents id e hid he c hc (hheld.resolve_left (habove c (h'.bounds c hmem).1).2))
  · intro id hle hidRaw
    rw [hchildren, List.mem_append, List.mem_append]
    by_cases hid : id < a.size
    · obtain ⟨hheld, hroots, hnot⟩ := h.raws id hle (hraw id hid ▸ hidRaw)
      have hother := (hbelow id hid).1
      simp only [references, List.map_nil, List.nil_append, List.mem_append] at hother
      tauto
    · obtain ⟨hheld, hroots, hnot⟩ := h'.raws id (Nat.not_lt.1 hid) hidRaw
      have hother := (habove id (Nat.not_lt.1 hid)).1
      simp only [references, List.mem_append] at hother
      tauto
  · rintro id hheld hidRaw
    rw [hrefs.count_eq, List.count_append]
    rcases hheld with hheld | hheld
    · have hid := (h.inside id hheld).2
      rw [List.count_eq_zero.2 (hbelow id hid).1]
      exact h.single id hheld (hraw id hid ▸ hidRaw)
    · rw [List.count_eq_zero.2 (habove id (h'.inside id hheld).1).1, Nat.zero_add]
      exact h'.single id hheld hidRaw
  · intro p hp
    have hid := (h.bounds_of_mem hp).2
    exact (h.fits p hp).congr (hraw p.1 hid) fun hmem => hmem.resolve_right (hbelow p.1 hid).2

end Segment

end CodeLift
