import CodeLift.Graph.Producer
import CodeLift.Proofs.Lists

/-!
# Linking blocks

The producers of jumps and of switches go over the code blocks and set where control goes from each; neither changes the code of a
block. `Graph.Dictated` says where control goes from a block by its last instruction, and `Producer.links_dictated` that both
producers together make it so for every block.
-/

namespace CodeLift

namespace Graph

/-- Two graphs with the same code blocks, where control goes from them apart. -/
structure SameCode (g h : Graph) : Prop where
  codeBlocks : h.codeBlocks = g.codeBlocks
  spans : (h.blocks.toList.take g.codeBlocks).map (·.span) = (g.blocks.toList.take g.codeBlocks).map (·.span)

namespace SameCode

variable {g h k : Graph}

theorem refl (g : Graph) : g.SameCode g := ⟨rfl, rfl⟩

theorem symm (hs : g.SameCode h) : h.SameCode g := ⟨hs.codeBlocks.symm, by rw [hs.codeBlocks, hs.spans]⟩

/-- Graphs have the same code in a row. -/
theorem trans (hs : g.SameCode h) (hs' : h.SameCode k) : g.SameCode k := by
  refine ⟨hs'.codeBlocks.trans hs.codeBlocks, ?_⟩
  have := hs'.spans
  rw [hs.codeBlocks] at this
  rw [this, hs.spans]

/-- Graphs with the same code have the same spans. -/
theorem spanOf (hs : g.SameCode h) {id : Nat} (hid : id < g.codeBlocks) : h.spanOf id = g.spanOf id := by
  have hget := congrArg (·[id]?) hs.spans
  simp only [List.getElem?_map, List.getElem?_take_of_lt hid, Array.getElem?_toList] at hget
  simp only [Graph.spanOf, block?, hget]

/-- Graphs with the same code have the same last instructions. -/
theorem lastInsn? (hs : g.SameCode h) {id : Nat} (hid : id < g.codeBlocks) (code : List Insn) :
    h.lastInsn? code id = g.lastInsn? code id := by
  rw [Graph.lastInsn?, Graph.lastInsn?, hs.spanOf hid]

/-- Graphs with the same code have the same order of blocks. -/
theorem nextCodeBlock? (hs : g.SameCode h) (id : BlockId) : h.nextCodeBlock? id = g.nextCodeBlock? id := by
  rw [Graph.nextCodeBlock?, Graph.nextCodeBlock?, hs.codeBlocks]

end SameCode

/-- Setting the kind of a block changes no other block. -/
theorem block?_setKind (g : Graph) (id other : BlockId) (kind : BlockKind) :
    (g.setKind id kind).block? other = if id = other then (g.block? other).map (fun b => { b with kind }) else g.block? other :=
  Array.getElem?_modify

/-- Setting the kind of a block changes no code. -/
theorem sameCode_setKind (g : Graph) (id : BlockId) (kind : BlockKind) : g.SameCode (g.setKind id kind) := by
  refine ⟨rfl, List.ext_getElem? fun i => ?_⟩
  have hblock := block?_setKind g id i kind
  simp only [block?] at hblock
  simp only [List.getElem?_map, List.getElem?_take, Array.getElem?_toList]
  split
  · rw [hblock]
    split
    · cases g.blocks[i]? <;> rfl
    · rfl
  · rfl

/-- Setting the kind of a block adds none. -/
theorem size_setKind (g : Graph) (id : BlockId) (kind : BlockKind) : (g.setKind id kind).blocks.size = g.blocks.size :=
  Array.size_modify

end Graph

/-- A label that starts a code block. -/
def Source.Starts (src : Source) (g : Graph) (label : Label) (id : Nat) : Prop :=
  id < g.codeBlocks ∧ src.labelIndex label = .ok (g.spanOf id).start

/-- A label starts the same block in graphs with the same code. -/
theorem Source.Starts.congr {src : Source} {g h : Graph} {label : Label} {id : Nat} (hs : g.SameCode h)
    (hl : src.Starts g label id) : src.Starts h label id := by
  unfold Source.Starts
  rw [hs.spanOf hl.1, hs.codeBlocks]
  exact hl

/-- A label for which a block is found starts it. -/
theorem Source.starts_of_labelBlock {src : Source} {g : Graph} {label : Label} {id : Nat}
    (h : src.labelBlock g label = .ok id) : src.Starts g label id := by
  obtain ⟨index, hindex, h⟩ := bind_eq_ok.1 h
  split at h
  · rename_i id' hid
    cases h
    obtain ⟨hlt, hstart, _⟩ := List.findIdx?_eq_some_iff_getElem.1 hid
    have hid : id < g.codeBlocks := Nat.lt_of_lt_of_le hlt (List.length_take_le _ _)
    have hblock : g.block? id = some (g.blocks.toList.take g.codeBlocks)[id] := by
      rw [Graph.block?, ← Array.getElem?_toList, ← List.getElem?_take_of_lt hid]
      exact List.getElem?_eq_some_iff.2 ⟨hlt, rfl⟩
    refine ⟨hid, ?_⟩
    rw [hindex, Graph.spanOf, hblock]
    simpa using (beq_iff_eq.1 hstart).symm
  · cases h

namespace Graph

/-- Where control goes from a block, by its last instruction. -/
inductive Dictated (src : Source) (g : Graph) (id : BlockId) : Option Insn → BlockKind → Prop where
  | ret (kind : Option ValueKind) : Dictated src g id (some (.ret kind)) .exit
  | throw : Dictated src g id (some .throw) .exit
  | goto {label : Label} {target : BlockId} (h : src.Starts g label target) : Dictated src g id (some (.goto label)) (.goto target)
  | jump {test : JumpTest} {label : Label} {target next : BlockId} (h : src.Starts g label target)
      (hnext : g.nextCodeBlock? id = some next) : Dictated src g id (some (.jump test label)) (.branch test target next)
  | switch {otherwise : Label} {arms : List (Int32 × Label)} {default : BlockId} {targets : List (Int32 × BlockId)}
      (h : src.Starts g otherwise default)
      (harms : List.Forall₂ (fun arm target => target.1 = arm.1 ∧ src.Starts g arm.2 target.2) arms targets) :
      Dictated src g id (some (.switch otherwise arms)) (.switch targets default)
  | plain {last : Option Insn} (h : ∀ insn, last = some insn → insn.isPlain = true) :
      Dictated src g id last (.body (g.nextCodeBlock? id))

/-- The last instruction dictates the same kind in graphs with the same code. -/
theorem Dictated.congr {src : Source} {g h : Graph} {id : BlockId} {last : Option Insn} {kind : BlockKind} (hs : g.SameCode h)
    (hd : Dictated src g id last kind) : Dictated src h id last kind := by
  cases hd with
  | ret kind => exact .ret kind
  | throw => exact .throw
  | goto hl => exact .goto (hl.congr hs)
  | jump hl hnext => exact .jump (hl.congr hs) (by rw [hs.nextCodeBlock?, hnext])
  | switch hl harms => exact .switch (hl.congr hs) (harms.imp fun _ _ h => ⟨h.1, h.2.congr hs⟩)
  | plain hp =>
    rw [← hs.nextCodeBlock?]
    exact .plain hp

/-- Nothing has changed but where control goes from some of the blocks. -/
structure Relinked (g h : Graph) (among : Nat → Prop) : Prop where
  sameCode : g.SameCode h
  order : h.order = g.order
  size : h.blocks.size = g.blocks.size
  others : ∀ id, ¬ among id → h.block? id = g.block? id

theorem Relinked.refl (g : Graph) (among : Nat → Prop) : g.Relinked g among := ⟨.refl g, rfl, rfl, fun _ _ => rfl⟩

/-- Setting the kind of a block links this one only. -/
theorem relinked_setKind (g : Graph) (id : Nat) (kind : BlockKind) : g.Relinked (g.setKind id kind) (· = id) := by
  refine ⟨sameCode_setKind g id kind, rfl, size_setKind g id kind, fun other hother => ?_⟩
  rw [block?_setKind, if_neg fun h => hother h.symm]

/-- A pass over the code blocks: what one step does to its block, the pass does to each block. -/
theorem foldlM_relinked {f : Graph → Nat → Except GraphError Graph}
    {R : Graph → Nat → Option Block → Option Block → Prop}
    (hstep : ∀ g id h, id < g.codeBlocks → f g id = .ok h → g.Relinked h (· = id) ∧ R g id (g.block? id) (h.block? id))
    (hcongr : ∀ g h id b b', id < g.codeBlocks → g.SameCode h → R h id b b' → R g id b b') {g h : Graph} {n : Nat}
    (hn : n ≤ g.codeBlocks) (hfold : (List.range n).foldlM f g = .ok h) :
    g.Relinked h (· < n) ∧ ∀ id, id < n → R g id (g.block? id) (h.block? id) := by
  induction n generalizing h with
  | zero =>
    cases hfold
    exact ⟨.refl g _, fun id hid => absurd hid (Nat.not_lt_zero id)⟩
  | succ n ih =>
    rw [List.range_succ, List.foldlM_append] at hfold
    obtain ⟨k, hk, hlast⟩ := bind_eq_ok.1 hfold
    rw [List.foldlM_cons] at hlast
    obtain ⟨h', hlast, hnil⟩ := bind_eq_ok.1 hlast
    cases hnil
    obtain ⟨hrel, hR⟩ := ih (by omega) hk
    have hnk : n < k.codeBlocks := by
      rw [hrel.sameCode.codeBlocks]
      omega
    obtain ⟨hrel', hR'⟩ := hstep k n h hnk hlast
    refine ⟨⟨hrel.sameCode.trans hrel'.sameCode, hrel'.order.trans hrel.order, hrel'.size.trans hrel.size,
      fun id hid => ?_⟩, fun id hid => ?_⟩
    · rw [hrel'.others id (by omega), hrel.others id (by omega)]
    · rcases Nat.lt_succ_iff_lt_or_eq.1 hid with hid | rfl
      · rw [hrel'.others id (by omega)]
        exact hR id hid
      · rw [hrel.others id (Nat.lt_irrefl id)] at hR'
        exact hcongr g k id _ _ (by omega) hrel.sameCode hR'

end Graph

namespace Producer

variable {src : Source}

/-- The producer of jumps gives each block that does not end with a switch where its last instruction leads. -/
theorem jumps_linkBlock {g h : Graph} {id : Nat} (hlink : jumps.linkBlock src g id = .ok h) :
    g.Relinked h (· = id) ∧ ∀ span, g.block? id = some ⟨span, .body (g.nextCodeBlock? id)⟩ → ∃ kind,
      h.block? id = some ⟨span, kind⟩ ∧ (Graph.Dictated src g id (g.lastInsn? src.method.code id) kind ∨
        (∃ otherwise arms, g.lastInsn? src.method.code id = some (.switch otherwise arms)) ∧
          kind = .body (g.nextCodeBlock? id)) := by
  unfold jumps.linkBlock at hlink
  -- A block that is linked keeps its code.
  have hset : ∀ kind, g.Relinked (g.setKind id kind) (· = id) ∧
      ∀ span, g.block? id = some ⟨span, .body (g.nextCodeBlock? id)⟩ → (g.setKind id kind).block? id = some ⟨span, kind⟩ := by
    refine fun kind => ⟨Graph.relinked_setKind g id kind, fun span hspan => ?_⟩
    rw [Graph.block?_setKind, if_pos rfl, hspan, Option.map_some]
  split at hlink
  · cases hlink
  · rename_i kind hlast
    cases hlink
    exact ⟨(hset _).1, fun span hspan => ⟨.exit, (hset _).2 span hspan, .inl (by rw [hlast]; exact .ret kind)⟩⟩
  · rename_i hlast
    cases hlink
    exact ⟨(hset _).1, fun span hspan => ⟨.exit, (hset _).2 span hspan, .inl (by rw [hlast]; exact .throw)⟩⟩
  · rename_i label hlast
    obtain ⟨target, htarget, hlink⟩ := bind_eq_ok.1 hlink
    cases hlink
    refine ⟨(hset _).1, fun span hspan => ⟨_, (hset _).2 span hspan, .inl ?_⟩⟩
    rw [hlast]
    exact .goto (Source.starts_of_labelBlock htarget)
  · rename_i test label hlast
    obtain ⟨target, htarget, hlink⟩ := bind_eq_ok.1 hlink
    split at hlink
    · rename_i next hnext
      cases hlink
      refine ⟨(hset _).1, fun span hspan => ⟨_, (hset _).2 span hspan, .inl ?_⟩⟩
      rw [hlast]
      exact .jump (Source.starts_of_labelBlock htarget) hnext
    · cases hlink
  · rename_i _ hret hthrow hgoto hjump
    cases hlink
    refine ⟨.refl g _, fun span hspan => ⟨_, hspan, ?_⟩⟩
    by_cases hswitch : ∃ otherwise arms, g.lastInsn? src.method.code id = some (.switch otherwise arms)
    · exact .inr ⟨hswitch, rfl⟩
    · refine .inl (.plain fun insn hinsn => ?_)
      cases insn with
      | ret kind => exact absurd hinsn (hret kind)
      | throw => exact absurd hinsn hthrow
      | goto label => exact absurd hinsn (hgoto label)
      | jump test label => exact absurd hinsn (hjump test label)
      | switch otherwise arms => exact absurd ⟨otherwise, arms, hinsn⟩ hswitch
      | _ => rfl

/-- The producer of switches changes the blocks that end with a switch, and gives them where it leads. -/
theorem switches_linkBlock {g h : Graph} {id : Nat} (hlink : switches.linkBlock src g id = .ok h) :
    g.Relinked h (· = id) ∧
      ((∃ otherwise arms, g.lastInsn? src.method.code id = some (.switch otherwise arms)) → ∃ kind,
        h.block? id = (g.block? id).map (fun b => { b with kind }) ∧
          Graph.Dictated src g id (g.lastInsn? src.method.code id) kind) ∧
      ((∀ otherwise arms, g.lastInsn? src.method.code id ≠ some (.switch otherwise arms)) → h.block? id = g.block? id) := by
  unfold switches.linkBlock at hlink
  split at hlink
  · cases hlink
  · rename_i otherwise arms hlast
    obtain ⟨targets, htargets, hlink⟩ := bind_eq_ok.1 hlink
    obtain ⟨default, hdefault, hlink⟩ := bind_eq_ok.1 hlink
    cases hlink
    refine ⟨Graph.relinked_setKind g id _, fun _ => ⟨.switch targets default, ?_, ?_⟩, fun h => absurd hlast (h otherwise arms)⟩
    · rw [Graph.block?_setKind, if_pos rfl]
    · rw [hlast]
      refine .switch (Source.starts_of_labelBlock hdefault) ((forall₂_of_mapM_ok htargets).imp fun arm target harm => ?_)
      obtain ⟨id', hid', heq⟩ := bind_eq_ok.1 harm
      cases heq
      exact ⟨rfl, Source.starts_of_labelBlock hid'⟩
  · rename_i _ hlast
    cases hlink
    exact ⟨.refl g _, fun ⟨otherwise, arms, h⟩ => absurd h (hlast otherwise arms), fun _ => rfl⟩

/-- Blocks that lead each to the next become blocks that lead where their last instruction says. -/
theorem links_dictated {g h k : Graph} (hbody : ∀ id : Nat, id < g.codeBlocks → ∃ span,
    g.block? id = some ⟨span, .body (g.nextCodeBlock? id)⟩) (hjumps : jumps.link src g = .ok h)
    (hswitches : switches.link src h = .ok k) :
    g.Relinked k (· < g.codeBlocks) ∧ ∀ id : Nat, id < g.codeBlocks → ∃ span kind, k.block? id = some ⟨span, kind⟩ ∧
      Graph.Dictated src g id (g.lastInsn? src.method.code id) kind := by
  obtain ⟨hrel, hfirst⟩ := Graph.foldlM_relinked (R := fun g id b b' =>
      ∀ span, b = some ⟨span, .body (g.nextCodeBlock? id)⟩ → ∃ kind, b' = some ⟨span, kind⟩ ∧
        (Graph.Dictated src g id (g.lastInsn? src.method.code id) kind ∨
          (∃ otherwise arms, g.lastInsn? src.method.code id = some (.switch otherwise arms)) ∧
            kind = .body (g.nextCodeBlock? id)))
    (fun g id h _ hlink => jumps_linkBlock hlink) (fun g h id b b' hid hs hR span hb => by
      rw [← hs.nextCodeBlock?] at hb
      obtain ⟨kind, hkind, hd⟩ := hR span hb
      rw [hs.lastInsn? hid, hs.nextCodeBlock?] at hd
      exact ⟨kind, hkind, hd.imp_left fun hd => hd.congr hs.symm⟩) (Nat.le_refl _) hjumps
  have hs := hrel.sameCode
  obtain ⟨hrel', hsecond⟩ := Graph.foldlM_relinked (R := fun g id b b' =>
      ((∃ otherwise arms, g.lastInsn? src.method.code id = some (.switch otherwise arms)) → ∃ kind,
        b' = b.map (fun b => { b with kind }) ∧ Graph.Dictated src g id (g.lastInsn? src.method.code id) kind) ∧
      ((∀ otherwise arms, g.lastInsn? src.method.code id ≠ some (.switch otherwise arms)) → b' = b))
    (fun g id h _ hlink => switches_linkBlock hlink) (fun g h id b b' hid hs hR => by
      rw [hs.lastInsn? hid] at hR
      refine ⟨fun hswitch => ?_, hR.2⟩
      obtain ⟨kind, hkind, hd⟩ := hR.1 hswitch
      exact ⟨kind, hkind, hd.congr hs.symm⟩) (Nat.le_refl _) hswitches
  rw [hs.codeBlocks] at hrel' hsecond
  refine ⟨⟨hs.trans hrel'.sameCode, hrel'.order.trans hrel.order, hrel'.size.trans hrel.size, fun id hid => ?_⟩,
    fun id hid => ?_⟩
  · rw [hrel'.others id hid, hrel.others id hid]
  · obtain ⟨span, hspan⟩ := hbody id hid
    obtain ⟨kind, hkind, hd⟩ := hfirst id hid span hspan
    obtain ⟨hswitch, hnot⟩ := hsecond id hid
    rw [hs.lastInsn? hid] at hswitch hnot
    by_cases hlast : ∃ otherwise arms, g.lastInsn? src.method.code id = some (.switch otherwise arms)
    · obtain ⟨kind', hkind', hd'⟩ := hswitch hlast
      rw [hkind, Option.map_some] at hkind'
      exact ⟨span, kind', hkind', hd'.congr hs.symm⟩
    · rw [hnot fun otherwise arms h => hlast ⟨otherwise, arms, h⟩, hkind]
      exact ⟨span, kind, rfl, hd.resolve_right fun h => hlast h.1⟩

end Producer

end CodeLift
