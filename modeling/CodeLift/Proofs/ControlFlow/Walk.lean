import CodeLift.Proofs.Execution
import Mathlib.Data.List.Infix

/-!
# Walks through a graph

A longer walk executes what a shorter one does and goes on from there, so the first instructions that walks execute settle. The
same holds of anything that keeps up with walks: `FirstExecuted.of_keepsUp`.
-/

namespace CodeLift

namespace Graph

variable {g : Graph} {code : List Insn} {oracle : Oracle}

/-- A walk of `n` blocks from one place to another executes these instructions. -/
def Walks (g : Graph) (code : List Insn) (oracle : Oracle) (n : Nat) (place : Place) (trace : List Nat) (last : Place) : Prop :=
  g.walk code oracle n place = (trace, last)

theorem Walks.zero (place : Place) : g.Walks code oracle 0 place [] place := rfl

/-- One block. -/
theorem Walks.block {id : BlockId} {span : Span} {kind : BlockKind} (h : g.block? id = some ⟨span, kind⟩) (clock : Nat) :
    g.Walks code oracle 1 ⟨some id, clock⟩ (executed code span)
      ⟨(leave (oracle clock) kind).1, clock + (leave (oracle clock) kind).2⟩ := by
  simp [Walks, walk, visit, h]

theorem Walks.trans {n m : Nat} {p q r : Place} {trace trace' : List Nat} (h : g.Walks code oracle n p trace q)
    (h' : g.Walks code oracle m q trace' r) : g.Walks code oracle (n + m) p (trace ++ trace') r := by
  induction n generalizing p trace with
  | zero =>
    cases h
    rw [Nat.zero_add]
    exact h'
  | succ n ih =>
    obtain ⟨now, next, hvisit⟩ : ∃ now next, g.visit code oracle p = (now, next) := ⟨_, _, rfl⟩
    obtain ⟨later, last, hwalk⟩ : ∃ later last, g.walk code oracle n next = (later, last) := ⟨_, _, rfl⟩
    simp only [Walks, walk, hvisit, hwalk, Prod.mk.injEq] at h
    obtain ⟨rfl, rfl⟩ := h
    have hrest : g.walk code oracle (n + m) next = (later ++ trace', r) := ih hwalk
    simp only [Walks, Nat.succ_add, walk, hvisit, hrest, List.append_assoc]

/-- A walk that has ended stays where it is. -/
theorem walk_ended (n clock : Nat) : g.walk code oracle n ⟨none, clock⟩ = ([], ⟨none, clock⟩) := by
  induction n with
  | zero => rfl
  | succ n ih => simp [walk, visit, ih]

theorem execution_add (n m : Nat) : ∃ rest, g.execution code oracle (n + m) = g.execution code oracle n ++ rest := by
  have h : g.Walks code oracle (n + m) ⟨some 0, 0⟩ _ _ := Walks.trans rfl rfl
  exact ⟨_, congrArg Prod.fst h⟩

theorem execution_prefix {n m : Nat} (h : n ≤ m) : g.execution code oracle n <+: g.execution code oracle m := by
  obtain ⟨d, rfl⟩ := Nat.exists_eq_add_of_le h
  obtain ⟨rest, hrest⟩ := g.execution_add n d
  exact ⟨rest, hrest.symm⟩

end Graph

/-! ## What approximations settle on -/

/-- Approximations that only ever grow have first instructions. -/
theorem exists_firstExecuted {f : Nat → List Nat} (hgrow : ∀ {n m}, n ≤ m → f n <+: f m) (k : Nat) :
    ∃ first, FirstExecuted k f first := by
  -- The first `k` instructions can get longer at most `k` times.
  suffices h : ∀ d N, k - ((f N).take k).length ≤ d → ∃ first, FirstExecuted k f first from h _ 0 (Nat.le_refl _)
  intro d
  induction d with
  | zero =>
    intro N hN
    refine ⟨(f N).take k, N, fun n hn => ?_⟩
    have hpre := (hgrow hn).take k
    refine (hpre.eq_of_length_le ?_).symm
    have := List.length_take_le k (f n)
    omega
  | succ d ih =>
    intro N hN
    by_cases hlonger : ∃ n, N ≤ n ∧ ((f N).take k).length < ((f n).take k).length
    · obtain ⟨n, _, hlt⟩ := hlonger
      exact ih n (by omega)
    · refine ⟨(f N).take k, N, fun n hn => ?_⟩
      have hpre := (hgrow hn).take k
      refine (hpre.eq_of_length_le ?_).symm
      by_contra hlt
      exact hlonger ⟨n, hn, by omega⟩

/-- Approximations that each agree with one of the others, with a later and later one or with one that is final, have the same
first instructions. -/
theorem FirstExecuted.of_keepsUp {f h : Nat → List Nat} {k : Nat} {first : List Nat} (hf : FirstExecuted k f first)
    (hkeeps : ∀ r, ∃ n, h r = f n ∧ (r ≤ n ∨ ∀ m, n ≤ m → f m = f n)) : FirstExecuted k h first := by
  obtain ⟨bound, hbound⟩ := hf
  refine ⟨bound, fun r hr => ?_⟩
  obtain ⟨n, hn, hle | hfinal⟩ := hkeeps r
  · rw [hn]
    exact hbound n (hr.trans hle)
  · rw [hn, ← hfinal (max n bound) (Nat.le_max_left _ _)]
    exact hbound _ (Nat.le_max_right _ _)

end CodeLift
