import CodeLift.Proofs.Structuring.Meets
import CodeLift.Proofs.Structuring.Shapes

/-!
# Loops whose body may be structured twice

A loop that starts with a goto to its condition is first tried without an update, and if that fails its body is structured once
more. What the attempt can lead to is the same whether the results of structuring are judged, or what it does to its session, or
how two runs of it compare. A `Judgement` is any of these, and the attempt and what follows it are read once for all of them
(`Judgement.structured`).
-/

namespace CodeLift

open Structuring

/-- A way to judge two runs of an action side by side, by results that are `good`. The two may be one and the same run. -/
structure Judgement where
  Holds : {α : Type} → (good : α → Prop) → (x y : Structuring α) → Prop
  /-- Whether a result of the second run that is not good has to stay visible in whatever is made of it. -/
  visible : Prop
  pure : ∀ {α : Type} {good : α → Prop} {a : α}, good a → Holds good (Pure.pure a) (Pure.pure a)
  bind : ∀ {α β : Type} {good : α → Prop} {good' : β → Prop} {x y : Structuring α} {f f' : α → Structuring β},
    Holds good x y → (∀ a, good a → Holds good' (f a) (f' a)) →
    (visible → ∀ a t b u, f' a t = .ok b u → good' b → good a) → Holds good' (x >>= f) (y >>= f')
  /-- A strict attempt that fails for its depth is made again. -/
  attempt : ∀ {α β : Type} {good : α → Prop} {good' : β → Prop} {x y : Structuring α}
    {f f' : Except StructuringError α → Structuring β}, Holds good x y →
    (∀ o, (∀ a, o = .ok a → good a) → Holds good' (f o) (f' o)) →
    (∀ limit, ∃ k, f (.error (.tooDeep limit)) = x >>= k) →
    Holds good' (Structuring.attempt (strictly x) >>= f) (Structuring.attempt (strictly y) >>= f')

namespace Judgement

variable {J : Judgement} {α : Type} {good : α → Prop}

/-- An attempt to do without an update gives the body, or a place where an update can start, or nothing. If it fails for its depth,
so does structuring the body once more. -/
theorem tryWithout {g : Graph} {r : Region} {start stop : Nat} (hstop : stop ≤ r.length) {x y : Structuring (List Section)}
    {plain : List Section → Prop} {k k' : Recognizer.Update → Structuring α} (hx : J.Holds plain x y)
    (hneedless : ∀ body, plain body → J.Holds good (k (.needless body)) (k' (.needless body)))
    (hstarts : ∀ place, start ≤ place → place < stop → J.Holds good (k (.startsAt place)) (k' (.startsAt place)))
    (habsent : J.Holds good (k .absent) (k' .absent)) (hagain : ∃ f, k .absent = x >>= f) :
    J.Holds good (Recognizer.tryWithout g r start stop x >>= k) (Recognizer.tryWithout g r start stop y >>= k') := by
  unfold Recognizer.tryWithout
  split
  · rw [bind_assoc, bind_assoc]
    refine J.attempt hx (fun outcome houtcome => ?_) fun limit => ?_
    · split
      · rename_i body
        simp only [pure_bind]
        exact hneedless body (houtcome body rfl)
      · rename_i target
        obtain ⟨found, hfound⟩ := Recognizer.succeeds_updatePlace (g := g) hstop start target
        rw [ofExcept_of_ok hfound, pure_bind]
        cases found with
        | some place =>
          obtain ⟨hle, hlt⟩ := Recognizer.updatePlace_spec hfound
          simp only [pure_bind]
          exact hstarts place hle hlt
        | none =>
          simp only [pure_bind]
          exact habsent
      · simp only [pure_bind]
        exact habsent
    · simp only [pure_bind]
      exact hagain
  · simp only [pure_bind]
    exact habsent

section

variable {src : Source} {g : Graph} {settings settings' : Settings} {nested nested' : Nested} {r : Region} {index : Nat}
  {shape : Recognizer.EntryLoopShape} {good : Match → Prop}

/-- A loop that starts with a goto to its condition, judged by its parts: a body for itself, or a body and an update, which starts
at a place from which on there are plain blocks only. -/
theorem structured {plain : List Section → Prop} (hshape : Recognizer.entryLoopShape g r index = .ok (some shape))
    (hplain : J.Holds plain (shape.plainBody ⟨src, g, settings⟩ nested r index) (shape.plainBody ⟨src, g, settings'⟩ nested' r index))
    (hwhile : ∀ body, plain body → good (shape.withParts g .whileDo body []))
    (hseen : J.visible → ∀ body, good (shape.withParts g .whileDo body []) → plain body)
    (hsplit : ∀ updateAt place entry, Recognizer.updateRun g r (index + 1) shape.testAt = .ok updateAt → updateAt ≤ place →
      place < shape.testAt → r.blocks[place]? = some entry → ∃ part update : List Section → Prop,
        J.Holds part
          (nested.loopBody ⟨src, g, settings⟩ (r.sub (index + 1) place (some entry)) shape.test
            (r.blockOrFollow? (shape.last + 1)) entry)
          (nested'.loopBody ⟨src, g, settings'⟩ (r.sub (index + 1) place (some entry)) shape.test
            (r.blockOrFollow? (shape.last + 1)) entry) ∧
        J.Holds update (nested (r.sub place shape.testAt (some shape.test))) (nested' (r.sub place shape.testAt (some shape.test))) ∧
        (∀ body sections, part body → update sections → good (shape.withParts g .forUpdate body sections)) ∧
        (J.visible → ∀ body sections, good (shape.withParts g .forUpdate body sections) → part body ∧ update sections)) :
    J.Holds good (shape.structured ⟨src, g, settings⟩ nested r index) (shape.structured ⟨src, g, settings'⟩ nested' r index) := by
  obtain ⟨_, _, hlt, hle, hlen, _⟩ := Recognizer.entryLoopShape_cases hshape
  have hrun : Succeeds (Recognizer.updateRun g r (index + 1) shape.testAt) := Region.succeeds_walkBack _ _ (by omega)
  obtain ⟨updateAt, hupdateAt⟩ := hrun
  unfold Recognizer.EntryLoopShape.structured
  dsimp only
  rw [ofExcept_of_ok hupdateAt, pure_bind, pure_bind]
  refine tryWithout (by omega) hplain (fun body hbody => ?_) (fun place hplace hplaceLt => ?_) ?_ ⟨_, rfl⟩
  · exact J.pure (hwhile body hbody)
  · have hspec := Recognizer.updateRun_spec hupdateAt hplace hplaceLt
    obtain ⟨entry, hentry⟩ : Succeeds (r.blockAt place) := Region.succeeds_blockAt (by omega)
    obtain ⟨part, update, hpart, hupdate, hfor, hkept⟩ :=
      hsplit updateAt place entry hupdateAt hplace hplaceLt (Region.blockAt_eq_ok.1 hentry)
    dsimp only
    rw [Region.get, ofExcept_of_ok hentry, pure_bind, pure_bind, Region.slice_eq (by omega) (by omega), pure_bind, pure_bind]
    refine J.bind hpart (fun body hbody => ?_) fun hvisible body t found u h hfound => ?_
    · rw [Region.slice_eq (by omega) (by omega), pure_bind, pure_bind]
      refine J.bind hupdate (fun sections hsections => J.pure (hfor body sections hbody hsections)) ?_
      intro hvisible sections t found u h hfound
      cases h
      exact (hkept hvisible body sections hfound).2
    · rw [Region.slice_eq (by omega) (by omega), pure_bind] at h
      obtain ⟨sections, _, _, h⟩ := run_bind_eq_ok.1 h
      cases h
      exact (hkept hvisible body sections hfound).1
  · refine J.bind hplain (fun body hbody => J.pure (hwhile body hbody)) fun hvisible body t found u h hfound => ?_
    cases h
    exact hseen hvisible body hfound

end

end Judgement

end CodeLift
