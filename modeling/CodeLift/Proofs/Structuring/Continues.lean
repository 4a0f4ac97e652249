import CodeLift.Proofs.Graph.Layout
import CodeLift.Proofs.Scoping.Sections
import CodeLift.Proofs.Structuring.Parts

/-!
# Where continues come from

A section that continues a loop stands for a jump in the code, to the block at which the loop goes on. Where control gets to that
block at the end of a list of sections anyway, a jump there needs no continue: it skips the rest of the list, or ends it, or makes
the rest of it the other branch, or leaves a loop or switch at its end. Such jumps are settled (`Section.settledAll`), and a loop
whose jumps are all settled is not continued from inside, at whatever depth (`Scanned.continuesByJump`). Of a loop that is tested at
the bottom that block is the first one of the test.
-/

namespace CodeLift

/-- Whether the instruction at an index can jump to the label at another one. -/
def jumpsTo (code : List Insn) (index start : Nat) : Bool :=
  code[index]?.any fun i => i.targets.any fun label => code[start]? == some (.label label)

/-- A jump leads where its label stands. -/
theorem jumpsTo_of_mem {code : List Insn} {index start : Nat} {i : Insn} {label : Label} (hi : code[index]? = some i)
    (hlabel : label ∈ i.targets) (hstart : code[start]? = some (.label label)) : jumpsTo code index start = true := by
  simp only [jumpsTo, hi, hstart, Option.any_some, List.any_eq_true, beq_iff_eq]
  exact ⟨label, hlabel, rfl⟩

/-- The jump that ends a block leads to the label at the start of its target. -/
theorem Graph.Built.jumpsTo_target {src : Source} {g : Graph} (hb : Graph.Built src g)
    (hlabels : src.method.labels = .ok src.labels) {id target : BlockId} {kind : BlockKind}
    (hblock : g.block? id = some ⟨g.spanOf id, kind⟩)
    (hkind : kind = .goto target ∨ ∃ test next, kind = .branch test target next) :
    jumpsTo src.method.code ((g.spanOf id).stop - 1) (g.spanOf target).start = true := by
  have hid : id < g.codeBlocks := by
    refine hb.lt_codeBlocks_of_block? hblock fun mark hmark => ?_
    rcases hkind with rfl | ⟨test, next, rfl⟩ <;> cases hmark
  obtain ⟨insn, kind', hinsn, hblock', hleads⟩ := hb.leads hlabels hid
  rw [hblock] at hblock'
  cases hblock'
  rcases hkind with rfl | ⟨test, next, rfl⟩
  · cases hleads with
    | goto h => exact jumpsTo_of_mem hinsn (by simp [Insn.targets]) h.2
  · cases hleads with
    | jump h _ => exact jumpsTo_of_mem hinsn (by simp [Insn.targets]) h.2

/-- A code block whose last instruction can jump to the start of another one leads there. -/
theorem Graph.Built.mem_targets_of_jumpsTo {src : Source} {g : Graph} (hb : Graph.Built src g)
    (hlabels : src.method.labels = .ok src.labels) {id target : Nat} (hid : id < g.codeBlocks) (htarget : target < g.codeBlocks)
    {span : Span} {kind : BlockKind} (hblock : g.block? id = some ⟨span, kind⟩)
    (hjump : jumpsTo src.method.code (span.stop - 1) (g.spanOf target).start = true) : target ∈ kind.targets := by
  obtain ⟨insn, kind', hinsn, hblock', hleads⟩ := hb.leads hlabels hid
  cases hblock.symm.trans hblock'
  simp only [jumpsTo, hinsn, Option.any_some, List.any_eq_true, beq_iff_eq] at hjump
  obtain ⟨label, hlabel, hstart⟩ := hjump
  obtain ⟨other, hother, hstarts⟩ := hleads.mem_targets.2 label hlabel
  rw [← (hb.labelStarts_unique hlabels htarget hstarts).2 hstart]
  exact hother

/-! ## Jumps past the end of a tree -/

namespace Section

section

variable (p : Nat → Bool)

/-- Whether sections end with a jump that a test picks and that needs no section of its own. -/
def fallsOut (sections : List Section) : Bool :=
  sections.getLast?.any fun
    | .body span => p (span.stop - 1)
    | _ => false

mutual

/-- Whether the jumps of a section that a test picks are settled. `reaches` says whether control gets to their target at the end of
the list in which the section stands. Then a condition may skip the rest of the list, and the last section may jump: from the end of
its branches, or anywhere out of a loop or switch. `skips` says whether the list is the first branch of a condition and control gets
to the target at the end of the list around it: a goto at the end makes what comes between the other branch. `isLast` says whether
the section is the last one of its list. -/
def settled (reaches skips isLast : Bool) : Section → Bool
  | .body span => span.indices.all fun index => !p index || reaches && isLast && index + 1 == span.stop
  | .branch guard thenPart elsePart =>
    (reaches || (guard.spans.flatMap Span.indices).all (!p ·)) && settledAll (reaches && isLast) reaches true thenPart &&
      settledAll (reaches && isLast) false true elsePart
  | .loop _ _ loopBody update =>
    (reaches && isLast || settledAll false false true loopBody) && settledAll false false true update
  | .switch _ cases => reaches && isLast || settledCases cases
  | .tryCatch tried clauses =>
    settledAll (reaches && fallsOut p tried) false true tried && settledClauses (reaches && fallsOut p tried) clauses
  | .breakOut _ jump => jump.all fun index => !p index || (reaches || skips) && isLast
  | .continueNext _ jump => jump.all fun index => !p index || (reaches || skips) && isLast
  | .comment _ _ => true

/-- Whether the jumps of a list of sections that a test picks are settled; `ends` says whether nothing follows the list. -/
def settledAll (reaches skips ends : Bool) : List Section → Bool
  | [] => true
  | s :: rest => settled reaches skips (ends && rest.isEmpty) s && settledAll reaches skips ends rest

/-- Whether the jumps in cases that a test picks are settled. -/
def settledCases : List (Case (List Section)) → Bool
  | [] => true
  | ⟨_, _, caseBody⟩ :: rest => settledAll false false true caseBody && settledCases rest

/-- Whether the jumps in clauses that a test picks are settled; `reaches` says whether control gets to their target after each. -/
def settledClauses (reaches : Bool) : List (CatchSection (List Section)) → Bool
  | [] => true
  | ⟨_, _, _, handlerBody⟩ :: rest => settledAll reaches false true handlerBody && settledClauses reaches rest

end

end

variable {p : Nat → Bool} {reaches skips ends : Bool}

/-- What stands before other sections is not last. -/
theorem settledAll_append (xs ys : List Section) : settledAll p reaches skips ends (xs ++ ys) =
    (settledAll p reaches skips (ends && ys.isEmpty) xs && settledAll p reaches skips ends ys) := by
  induction xs with
  | nil => simp [settledAll]
  | cons s xs ih =>
    have hlast : (ends && (xs ++ ys).isEmpty) = (ends && ys.isEmpty && xs.isEmpty) := by
      cases xs with
      | nil => simp
      | cons x xs => simp
    rw [List.cons_append, settledAll, settledAll, ih, hlast, Bool.and_assoc (settled p reaches skips _ s)]

theorem settledAll_singleton (s : Section) : settledAll p reaches skips ends [s] = settled p reaches skips ends s := by
  simp [settledAll]

theorem settledCases_append (xs ys : List (Case (List Section))) :
    settledCases p (xs ++ ys) = (settledCases p xs && settledCases p ys) := by
  induction xs with
  | nil => simp [settledCases]
  | cons c xs ih => simp [settledCases, ih, Bool.and_assoc]

end Section

/-! ## Continues of the loop around a tree -/

/-- Whether a section is no continue of the loop in whose body the whole tree stands: such a one passes over all loops inside. -/
def Section.avoidsContinue (scope : Scope) : Section → Bool
  | .continueNext depth _ => depth != scope.loops
  | _ => true

/-- The blocks at which the loops around a region go on when they are continued, innermost first. -/
def continueTargets (around : List Breakable) : List BlockId := around.filterMap (·.continueTo)

/-- A continue names the loop that goes on where the jump leads. -/
theorem resolveFrom_continueNext {g : Graph} {target : BlockId} {jump jump' : Option Nat} {depth loops d : Nat}
    {around : List Breakable} (h : resolveFrom g target jump depth loops around = some (.continueNext d jump')) :
    ∃ k c, d = loops + k ∧ (continueTargets around)[k]? = some c ∧ g.entryBlock c = target := by
  induction around generalizing depth loops with
  | nil => cases h
  | cons b rest ih =>
    obtain ⟨breakTo, continueTo⟩ := b
    rw [resolveFrom] at h
    by_cases hbreak : breakTo.map g.entryBlock = some target
    · rw [if_pos hbreak] at h
      cases h
    · rw [if_neg hbreak] at h
      cases continueTo with
      | none =>
        rw [if_neg (by simp)] at h
        exact ih h
      | some c =>
        by_cases hcontinue : g.entryBlock c = target
        · rw [if_pos (by simp [hcontinue])] at h
          cases h
          exact ⟨0, c, rfl, rfl, hcontinue⟩
        · rw [if_neg (by simp [hcontinue])] at h
          obtain ⟨k, c', hd, hc', htarget⟩ := ih h
          simp only [Option.isSome_some, if_true] at hd
          exact ⟨k + 1, c', by omega, hc', htarget⟩

/-- A jump to where a loop or switch is left continues none but the loops inside of it. -/
theorem resolveFrom_continueNext_lt {g : Graph} {target : BlockId} {jump jump' : Option Nat} {depth loops d : Nat}
    {inner outer : List Breakable} {b : Breakable} (hb : b.breakTo.map g.entryBlock = some target)
    (h : resolveFrom g target jump depth loops (inner ++ b :: outer) = some (.continueNext d jump')) :
    d < loops + (continueTargets inner).length := by
  induction inner generalizing depth loops with
  | nil =>
    rw [List.nil_append, resolveFrom, if_pos hb] at h
    cases h
  | cons b' inner ih =>
    obtain ⟨breakTo, continueTo⟩ := b'
    rw [List.cons_append, resolveFrom] at h
    split at h
    · cases h
    · cases continueTo with
      | none =>
        rw [if_neg (by simp)] at h
        exact ih h
      | some c =>
        have hlength : (continueTargets (⟨breakTo, some c⟩ :: inner)).length = (continueTargets inner).length + 1 := rfl
        rw [hlength]
        split at h
        · cases h
          omega
        · have hd := ih h
          simp only [Option.isSome_some, if_true] at hd
          omega

/-- Inside of the loop that has so many loops further in, or with that loop itself, a loop or switch is left to a block. -/
def Shielded (g : Graph) (target : BlockId) (around : List Breakable) (loops : Nat) : Prop :=
  ∃ inner b outer, around = inner ++ b :: outer ∧ b.breakTo.map g.entryBlock = some target ∧ (continueTargets inner).length ≤ loops

namespace Shielded

variable {g : Graph} {target : BlockId} {around : List Breakable} {loops : Nat} {breakTo : Option BlockId}

/-- A break to the target shields the loops around it. -/
theorem here {continueTo : Option BlockId} (h : breakTo.map g.entryBlock = some target) :
    Shielded g target (⟨breakTo, continueTo⟩ :: around) loops :=
  ⟨[], _, around, rfl, h, Nat.zero_le loops⟩

theorem inLoop {c : BlockId} (h : Shielded g target around loops) :
    Shielded g target (⟨breakTo, some c⟩ :: around) (loops + 1) := by
  obtain ⟨inner, b, outer, rfl, hb, hle⟩ := h
  exact ⟨⟨breakTo, some c⟩ :: inner, b, outer, rfl, hb, Nat.succ_le_succ hle⟩

theorem inSwitch (h : Shielded g target around loops) : Shielded g target (⟨breakTo, none⟩ :: around) loops := by
  obtain ⟨inner, b, outer, rfl, hb, hle⟩ := h
  exact ⟨⟨breakTo, none⟩ :: inner, b, outer, rfl, hb, hle⟩

end Shielded

/-- A jump does not continue a loop if it leads elsewhere, or leaves a loop or switch inside. -/
theorem resolveFrom_avoidsContinue {g : Graph} {target c : BlockId} {jump : Option Nat} {around : List Breakable} {scope : Scope}
    {s : Section} (hc : (continueTargets around)[scope.loops]? = some c)
    (hsafe : Shielded g (g.entryBlock c) around scope.loops ∨ g.entryBlock c ≠ target)
    (h : resolveFrom g target jump 0 0 around = some s) : Section.everywhere Section.avoidsContinue scope s = true := by
  rcases resolveFrom_isJump h with ⟨d, rfl⟩ | ⟨d, rfl⟩
  · rfl
  · obtain ⟨k, c', hd, hc', htarget⟩ := resolveFrom_continueNext h
    have hd : d ≠ scope.loops := by
      rintro rfl
      rw [Nat.zero_add] at hd
      rw [hd, hc'] at hc
      cases hc
      rcases hsafe with ⟨inner, b, outer, rfl, hb, hle⟩ | hne
      · have hlt := resolveFrom_continueNext_lt (htarget ▸ hb) h
        omega
      · exact hne htarget
    simpa [Section.avoidsContinue] using hd

/-! ## Regions that lead to a block -/

/-- Control gets to a block at the end of the region, which does not hold the block itself. -/
structure Region.Reaches (g : Graph) (target : BlockId) (r : Region) : Prop where
  follow : r.follow.map g.entryBlock = some target
  not_mem : target ∉ r.blocks

namespace Region.Reaches

variable {g : Graph} {target : BlockId} {r : Region}

/-- Past the last place control gets to the block. -/
theorem blockOrFollow? (h : r.Reaches g target) {stop : Nat} (hstop : r.length ≤ stop) :
    (r.blockOrFollow? stop).map g.entryBlock = some target := by
  rw [Region.blockOrFollow?_of_le hstop, h.follow]

/-- So it does at the end of a part whose follow is that of the region. -/
theorem sub (h : r.Reaches g target) (start stop : Nat) {next : Nat} (hnext : r.length ≤ next) :
    (r.sub start stop (r.blockOrFollow? next)).Reaches g target :=
  ⟨h.blockOrFollow? hnext, fun hmem => h.not_mem (Region.mem_of_mem_sub hmem)⟩

/-- A jump to the block leads past the last place. -/
theorem locate? (h : r.Reaches g target) : r.locate? g target = some r.length := Region.locate?_follow h.not_mem h.follow

/-- So a condition that jumps to the block skips the rest of the region. -/
theorem skipPlace (h : r.Reaches g target) {index : Nat} {chain : Chain} (hchain : r.guardChain? g index = some chain)
    (hskip : chain.skip = target) : Recognizer.skipPlace g r chain = .ok (some r.length) := by
  have hlast := Region.guardChain?_last hchain
  rw [Recognizer.skipPlace_eq, hskip, h.locate?, Option.filter_some, if_pos (decide_eq_true (Nat.succ_le_of_lt hlast.2))]

end Region.Reaches

/-- The last block of the region is no goto to a block. -/
def Region.EndsOff (g : Graph) (target : BlockId) (r : Region) : Prop :=
  ∀ id, r.blocks.getLast? = some id → g.gotoTarget? id ≠ some target

/-- The first branch of a condition does not jump to where its region leads, unless the other branch ends there. -/
theorem Region.Reaches.thenPart {g : Graph} {target : BlockId} {r : Region} (h : r.Reaches g target) {thenStart skipAt next : Nat}
    (hskip : skipAt ≤ r.length) {exit : Option Nat} (helse : Recognizer.elseEnd g r thenStart skipAt = .ok exit)
    (hexit : exit.getD skipAt = next) :
    (r.sub thenStart skipAt (r.blockOrFollow? next)).Reaches g target ∨
      (r.sub thenStart skipAt (r.blockOrFollow? next)).EndsOff g target := by
  by_cases hnext : r.length ≤ next
  · exact .inl (h.sub thenStart skipAt hnext)
  refine .inr fun id hlast hgoto => hnext ?_
  obtain hempty | hlt : skipAt ≤ thenStart ∨ thenStart < skipAt := Nat.lt_or_ge thenStart skipAt |>.symm
  · have hnil : (r.sub thenStart skipAt (r.blockOrFollow? next)).blocks = [] := by simp [Region.sub, Nat.sub_eq_zero_of_le hempty]
    rw [hnil] at hlast
    cases hlast
  obtain ⟨place, rfl⟩ : ∃ place, skipAt = place + 1 := ⟨skipAt - 1, by omega⟩
  have hid : r.blocks[place]? = some id := by
    obtain ⟨last, hget⟩ := Region.exists_getElem? (r := r) (i := place) hskip
    rw [← Region.sub_append_sub none none _ (Nat.le_of_lt_succ hlt) (Nat.le_succ place), Region.sub_single none hget,
      List.getLast?_concat] at hlast
    rw [hget, hlast]
  obtain hle | hlt' : r.length ≤ place + 1 ∨ place + 1 < r.length := (Nat.lt_or_ge (place + 1) r.length).symm
  · cases exit with
    | none => exact hle.trans_eq hexit
    | some exitAt =>
      obtain ⟨_, hlt', _⟩ := Recognizer.elseEnd_cases helse
      omega
  · have hblock : r.blockBefore (place + 1) = .ok id := Region.blockAt_eq_ok.2 hid
    rw [Recognizer.elseEnd, if_pos (by simp [hlt, hlt'])] at helse
    obtain ⟨id', hid', helse⟩ := bind_eq_ok.1 helse
    cases hblock.symm.trans hid'
    rw [hgoto] at helse
    dsimp only at helse
    rw [Region.locate_eq, h.locate?] at helse
    have hsome : Option.filter (fun place' => decide (place + 1 < place')) (some r.length) = some r.length := by simp [hlt']
    have helse := (Except.ok.inj helse).symm.trans hsome
    rw [helse] at hexit
    exact hexit.le

/-- The jumps to a block in sections of a region do not continue the loop that has so many loops further in: they can leave a loop or
switch inside of it, or they are settled. `ends` says whether the sections are the last ones of the region. -/
def Settles (subject : Subject) (target : BlockId) (loops : Nat) (around : List Breakable) (r : Region) (ends : Bool)
    (sections : List Section) : Prop :=
  Shielded subject.graph target around loops ∨ ∃ reaches skips, (reaches = true → r.Reaches subject.graph target) ∧
    (skips = true → r.Reaches subject.graph target ∨ r.EndsOff subject.graph target) ∧
    Section.settledAll (jumpsTo subject.method.code · (subject.graph.spanOf target).start) reaches skips ends sections = true

namespace Settles

variable {subject : Subject} {target : BlockId} {loops : Nat} {around : List Breakable} {r : Region} {ends : Bool}

/-- Sections whose jumps are settled wherever control goes on after them. -/
theorem of_settledAll {sections : List Section}
    (h : Section.settledAll (jumpsTo subject.method.code · (subject.graph.spanOf target).start) false false true sections = true) :
    Settles subject target loops around r true sections :=
  .inr ⟨false, false, nofun, nofun, h⟩

/-- The branches that end a region lead where the region does. -/
theorem branch {guard : Guard} {thenPart elsePart : List Section} {thenStart skipAt : Nat} {exit : Option Nat}
    (h : Settles subject target loops around r ends [.branch guard thenPart elsePart]) (hskip : skipAt ≤ r.length)
    (helse : Recognizer.elseEnd subject.graph r thenStart skipAt = .ok exit)
    (hends : ends = true → r.length ≤ exit.getD skipAt) :
    Settles subject target loops around (r.sub thenStart skipAt (r.blockOrFollow? (exit.getD skipAt))) true thenPart ∧
      ∀ start stop, Settles subject target loops around (r.sub start stop (r.blockOrFollow? (exit.getD skipAt))) true elsePart := by
  rcases h with hshield | ⟨reaches, skips, hreaches, _, hsettled⟩
  · exact ⟨.inl hshield, fun _ _ => .inl hshield⟩
  · rw [Section.settledAll_singleton, Section.settled, Bool.and_eq_true, Bool.and_eq_true] at hsettled
    have hsub : ∀ start stop, (reaches && ends) = true →
        (r.sub start stop (r.blockOrFollow? (exit.getD skipAt))).Reaches subject.graph target := by
      intro start stop h
      rw [Bool.and_eq_true] at h
      exact (hreaches h.1).sub start stop (hends h.2)
    exact ⟨.inr ⟨_, _, hsub _ _, fun h => (hreaches h).thenPart hskip helse rfl, hsettled.1.2⟩,
      fun _ _ => .inr ⟨_, false, hsub _ _, nofun, hsettled.2⟩⟩

/-- A loop that ends a region is left to where the region leads. -/
theorem loop {kind : LoopKind} {guard : Option Guard} {loopBody update : List Section} {next : Nat}
    (h : Settles subject target loops around r ends [.loop kind guard loopBody update]) (hends : ends = true → r.length ≤ next)
    (c : BlockId) (inner : Region) :
    Settles subject target (loops + 1) (⟨r.blockOrFollow? next, some c⟩ :: around) inner true loopBody ∧
      Settles subject target loops around inner true update := by
  rcases h with hshield | ⟨reaches, skips, hreaches, _, hsettled⟩
  · exact ⟨.inl hshield.inLoop, .inl hshield⟩
  · rw [Section.settledAll_singleton, Section.settled, Bool.and_eq_true, Bool.or_eq_true, Bool.and_eq_true] at hsettled
    refine ⟨?_, of_settledAll hsettled.2⟩
    rcases hsettled.1 with ⟨hreached, hlast⟩ | hbody
    · exact .inl (.here ((hreaches hreached).blockOrFollow? (hends hlast)))
    · exact of_settledAll hbody

/-- A switch that ends a region is left to where the region leads. -/
theorem switch {key : Span} {cases : List (Case (List Section))} {next : Nat}
    (h : Settles subject target loops around r ends [.switch key cases]) (hends : ends = true → r.length ≤ next) :
    Shielded subject.graph target (⟨r.blockOrFollow? next, none⟩ :: around) loops ∨
      Section.settledCases (jumpsTo subject.method.code · (subject.graph.spanOf target).start) cases = true := by
  rcases h with hshield | ⟨reaches, skips, hreaches, _, hsettled⟩
  · exact .inl hshield.inSwitch
  · rw [Section.settledAll_singleton, Section.settled, Bool.or_eq_true, Bool.and_eq_true] at hsettled
    exact hsettled.imp_left fun ⟨hreached, hlast⟩ => .here ((hreaches hreached).blockOrFollow? (hends hlast))

/-- Handlers lead where the code does that they protect. -/
theorem tryCatch {tried : List Section} {clauses : List (CatchSection (List Section))} {body : Region}
    (h : Settles subject target loops around r ends [.tryCatch tried clauses]) (hsub : body.blocks ⊆ r.blocks)
    (hfalls : Section.fallsOut (jumpsTo subject.method.code · (subject.graph.spanOf target).start) tried = true →
      body.follow.map subject.graph.entryBlock = some target) :
    Settles subject target loops around body true tried ∧ (Shielded subject.graph target around loops ∨
      ∃ reaches, (reaches = true → body.follow.map subject.graph.entryBlock = some target ∧ target ∉ r.blocks) ∧
        Section.settledClauses (jumpsTo subject.method.code · (subject.graph.spanOf target).start) reaches clauses = true) := by
  rcases h with hshield | ⟨reaches, skips, hreaches, _, hsettled⟩
  · exact ⟨.inl hshield, .inl hshield⟩
  · rw [Section.settledAll_singleton, Section.settled, Bool.and_eq_true] at hsettled
    refine ⟨.inr ⟨_, false, fun h => ?_, nofun, hsettled.1⟩, .inr ⟨_, fun h => ?_, hsettled.2⟩⟩
    · rw [Bool.and_eq_true] at h
      exact ⟨hfalls h.2, fun hmem => (hreaches h.1).not_mem (hsub hmem)⟩
    · rw [Bool.and_eq_true] at h
      exact ⟨hfalls h.2, (hreaches h.1).not_mem⟩

/-- Sections at the end of others. -/
theorem append {xs ys : List Section} (h : Settles subject target loops around r ends (xs ++ ys)) :
    Settles subject target loops around r (ends && ys.isEmpty) xs ∧ Settles subject target loops around r ends ys := by
  rcases h with hshield | ⟨reaches, skips, hreaches, hskips, hsettled⟩
  · exact ⟨.inl hshield, .inl hshield⟩
  · rw [Section.settledAll_append, Bool.and_eq_true] at hsettled
    exact ⟨.inr ⟨reaches, skips, hreaches, hskips, hsettled.1⟩, .inr ⟨reaches, skips, hreaches, hskips, hsettled.2⟩⟩

/-- The rest of a list is settled where the list is. -/
theorem tail {s : Section} {rest : List Section} (h : Settles subject target loops around r ends (s :: rest)) :
    Settles subject target loops around r ends rest :=
  (append (List.singleton_append ▸ h : Settles subject target loops around r ends ([s] ++ rest))).2

end Settles

/-- A region in which the jumps to where a loop around it goes on are settled becomes sections without a continue of that loop. If the
sections fall out of the region with a jump, then the region leads where the jump does. -/
structure ContinuesByJump (subject : Subject) (around : List Breakable) (r : Region) (sections : List Section) : Prop where
  avoids : ∀ scope c, (continueTargets around)[scope.loops]? = some c → subject.graph.entryBlock c < subject.graph.codeBlocks →
    Settles subject (subject.graph.entryBlock c) scope.loops around r true sections →
    Section.everywhereAll Section.avoidsContinue scope sections = true
  falls : ∀ target < subject.graph.codeBlocks,
    Section.fallsOut (jumpsTo subject.method.code · (subject.graph.spanOf target).start) sections = true →
    r.follow.map subject.graph.entryBlock = some target

section

variable {subject : Subject} {around : List Breakable} {r : Region} {index : Nat}

theorem everywhereAll_avoidsContinue_bodySections (scope : Scope) (span : Span) :
    Section.everywhereAll Section.avoidsContinue scope (bodySections span) = true :=
  everywhereAll_bodySections fun s hs => by
    unfold bodySections at hs
    split at hs <;> simp_all [Section.avoidsContinue]

/-- The last block of a condition in front of code jumps over the code. -/
theorem Region.guardChain?_skip {g : Graph} {chain : Chain} (h : r.guardChain? g index = some chain) :
    ∃ id, g.branchTarget? id = some chain.skip ∧ g.spanOf id ∈ chain.guard.spans := by
  rw [(Region.guardChain?_blocks h none).1]
  obtain ⟨count, target, hpos, hrun, rfl | ⟨skip, hskip, _, rfl⟩⟩ := Region.guardChain?_cases h
  · obtain ⟨id, hid, htarget⟩ := hrun.2 (count - 1) (by omega)
    refine ⟨id, htarget, List.mem_map_of_mem (mem_sub_of_getElem? hid (by omega) ?_)⟩
    dsimp only
    omega
  · obtain ⟨id, hid, htarget⟩ := hskip.2 0 (by omega)
    refine ⟨id, htarget, List.mem_map_of_mem (mem_sub_of_getElem? hid (by omega) ?_)⟩
    dsimp only
    omega

/-- Code is laid out one section at least for each step. -/
theorem Taken.sections_ne_nil (hb : Graph.Built subject.toSource subject.graph) {P : RegionProperty} {found : Match}
    (ht : Taken subject P around r index found) : found.sections ≠ [] := by
  have hbody : ∀ {id span kind}, subject.graph.block? id = some ⟨span, kind⟩ → (∀ mark, kind ≠ .marker mark) →
      bodySections span ≠ [] := by
    intro id span kind hblock hkind
    have hlt := hb.nonempty id (hb.lt_codeBlocks_of_block? hblock hkind)
    have hspan : subject.graph.spanOf id = span := by simp [Graph.spanOf, hblock]
    rw [hspan] at hlt
    simp [bodySections, Span.isEmpty, hlt]
  cases ht with
  | straight _ hblock hkind => exact hbody hblock (by rcases hkind with rfl | ⟨next, rfl⟩ <;> simp)
  | falling _ hblock _ => exact hbody hblock (by simp)
  | _ => simp

/-- A region that has become nothing is at its end. -/
theorem Scanned.length_le_of_nil (hb : Graph.Built subject.toSource subject.graph) {P : RegionProperty}
    (h : Scanned subject P around r index []) : r.length ≤ index := by
  generalize hsections : ([] : List Section) = sections at h
  cases h with
  | done hle => exact hle
  | step htaken _ _ => exact absurd (List.append_eq_nil_iff.1 hsections.symm).1 (htaken.sections_ne_nil hb)

/-- Control that falls out of a region with a jump goes where the region leads. -/
theorem Scanned.falls (hb : Graph.Built subject.toSource subject.graph) (hlabels : subject.method.labels = .ok subject.labels)
    {P : RegionProperty} {sections : List Section} (h : Scanned subject P around r index sections) {target : BlockId}
    (htarget : target < subject.graph.codeBlocks)
    (hfalls : Section.fallsOut (jumpsTo subject.method.code · (subject.graph.spanOf target).start) sections = true) :
    r.follow.map subject.graph.entryBlock = some target := by
  induction h with
  | done _ => cases hfalls
  | @step index found rest htaken _ hrest ih =>
    cases rest with
    | cons s rest =>
      rw [Section.fallsOut, List.getLast?_append_of_ne_nil _ (List.cons_ne_nil s rest)] at hfalls
      exact ih hfalls
    | nil =>
      rw [List.append_nil] at hfalls
      have hend := hrest.length_le_of_nil hb
      have hown : ∀ {id span kind}, subject.graph.block? id = some ⟨span, kind⟩ → (∀ mark, kind ≠ .marker mark) →
          Section.fallsOut (jumpsTo subject.method.code · (subject.graph.spanOf target).start) (bodySections span) = true →
          target ∈ kind.targets := by
        intro id span kind hblock hkind hfalls
        refine hb.mem_targets_of_jumpsTo hlabels (hb.lt_codeBlocks_of_block? hblock hkind) htarget hblock ?_
        unfold bodySections at hfalls
        split at hfalls
        · cases hfalls
        · simpa [Section.fallsOut] using hfalls
      cases htaken with
      | straight _ hblock hkind =>
        rcases hkind with rfl | ⟨next, rfl⟩
        · cases hown hblock nofun hfalls
        · cases hown hblock nofun hfalls
      | falling _ hblock hnext =>
        have hmem := hown hblock nofun hfalls
        rw [BlockKind.targets, List.mem_singleton] at hmem
        rw [hmem, ← hnext, Region.nextEntry?, Region.blockOrFollow?_of_le hend]
      | jumping _ _ _ hjump =>
        rcases resolveFrom_isJump hjump with ⟨d, rfl⟩ | ⟨d, rfl⟩ <;> simp [Section.fallsOut] at hfalls
      | _ => cases hfalls

section

variable (hset : subject.settings.commentOnError = false) {scope : Scope} {c : BlockId}
  (hcode : subject.graph.entryBlock c < subject.graph.codeBlocks)
include hset hcode

/-- The cases of a switch continue a loop around it only where a jump is not settled. -/
theorem CasesTaken.continuesByJump {s : Recognizer.SwitchLayout} {stop : Nat} {places : List Nat}
    {cases : List (Case (List Section))} (h : CasesTaken subject (ContinuesByJump subject) around r s stop places cases)
    (hc : (continueTargets around)[scope.loops]? = some c)
    (hsafe : Shielded subject.graph (subject.graph.entryBlock c) (⟨r.blockOrFollow? stop, none⟩ :: around) scope.loops ∨
      Section.settledCases (jumpsTo subject.method.code · (subject.graph.spanOf (subject.graph.entryBlock c)).start) cases = true) :
    Section.everywhereCases Section.avoidsContinue scope.inSwitch cases = true := by
  induction h with
  | nil => rfl
  | cons _ _ hbody _ ih =>
    simp only [Section.settledCases, Bool.and_eq_true] at hsafe
    have hbody := (hbody.of_strict hset).avoids scope.inSwitch c hc hcode
      (hsafe.elim .inl fun h => .of_settledAll h.1)
    simp [hbody, ih (hsafe.imp_right (·.2))]

/-- The clauses of a try continue a loop around it only where a jump is not settled. -/
theorem ClausesTaken.continuesByJump {exit : Option BlockId} {pending : List Marker} {cursor stop : Nat}
    {clauses : List (CatchSection (List Section))}
    (h : ClausesTaken subject (ContinuesByJump subject) around r exit pending cursor clauses stop)
    (hc : (continueTargets around)[scope.loops]? = some c)
    (hsafe : Shielded subject.graph (subject.graph.entryBlock c) around scope.loops ∨ ∃ reaches,
      (reaches = true → exit.map subject.graph.entryBlock = some (subject.graph.entryBlock c) ∧
        subject.graph.entryBlock c ∉ r.blocks) ∧
      Section.settledClauses (jumpsTo subject.method.code · (subject.graph.spanOf (subject.graph.entryBlock c)).start) reaches
        clauses = true) :
    Section.everywhereClauses Section.avoidsContinue scope clauses = true := by
  induction h with
  | nil => rfl
  | @cons _ _ _ _ shape body _ _ hbody _ ih =>
    simp only [Section.settledClauses, Bool.and_eq_true] at hsafe
    have hinner : Settles subject (subject.graph.entryBlock c) scope.loops around
        (r.sub shape.bodyStart shape.bodyStop (exit.or (r.blockOrFollow? shape.bodyStop))) true body := by
      refine hsafe.imp_right ?_
      rintro ⟨reaches, hreaches, hsettled⟩
      refine ⟨reaches, false, fun h => ?_, nofun, hsettled.1⟩
      obtain ⟨hexit, hmem⟩ := hreaches h
      obtain ⟨exit, rfl, _⟩ := Option.map_eq_some_iff.1 hexit
      exact ⟨hexit, fun h => hmem (Region.mem_of_mem_sub h)⟩
    have hbody := (hbody.of_strict hset).avoids scope c hc hcode hinner
    simp [hbody, ih (hsafe.imp_right fun ⟨reaches, hreaches, hsettled⟩ => ⟨reaches, hreaches, hsettled.2⟩)]

end

section

variable (hb : Graph.Built subject.toSource subject.graph) (hlabels : subject.method.labels = .ok subject.labels)
  (hset : subject.settings.commentOnError = false) {scope : Scope} {c : BlockId} {ends : Bool}
include hb hlabels

/-- A goto that is settled leads elsewhere, or would fall to where it leads, or would end the first branch of a condition. -/
theorem goto_avoidsContinue {id target : BlockId} {span : Span} {jump : Section} (hid : r.blocks[index]? = some id)
    (hblock : subject.graph.block? id = some ⟨span, .goto target⟩) (hnext : r.nextEntry? subject.graph index ≠ some target)
    (hjump : resolveFrom subject.graph target (some (span.stop - 1)) 0 0 around = some jump)
    (hc : (continueTargets around)[scope.loops]? = some c) (hends : ends = true → r.length ≤ index + 1)
    (hsafe : Settles subject (subject.graph.entryBlock c) scope.loops around r ends
      (bodySections ⟨span.start, span.stop - 1⟩ ++ [jump])) :
    Section.everywhere Section.avoidsContinue scope jump = true := by
  refine resolveFrom_avoidsContinue hc (hsafe.imp_right ?_) hjump
  rintro ⟨reaches, skips, hreaches, hskips, hsettled⟩ rfl
  have hspan : subject.graph.spanOf id = span := by simp [Graph.spanOf, hblock]
  have hjumped := hb.jumpsTo_target hlabels (hspan ▸ hblock) (.inl rfl)
  rw [hspan] at hjumped
  rw [Section.settledAll_append, Bool.and_eq_true, Section.settledAll_singleton] at hsettled
  have hlast : (reaches = true ∨ skips = true) ∧ ends = true := by
    rcases resolveFrom_isJump hjump with ⟨d, rfl⟩ | ⟨d, rfl⟩
    · simpa [Section.settled, hjumped] using hsettled.2
    · simpa [Section.settled, hjumped] using hsettled.2
  have hend := hends hlast.2
  rcases hlast.1.elim (fun h => .inl (hreaches h)) hskips with hreached | hoff
  · exact hnext (hreached.blockOrFollow? hend)
  · refine hoff id ?_ (by simp [Graph.gotoTarget?, hblock])
    have hlen : r.blocks.length - 1 = index := Nat.sub_eq_of_eq_add (Nat.le_antisymm hend (Region.lt_length_of_getElem? hid))
    rw [List.getLast?_eq_getElem?, hlen, hid]

/-- A condition that is settled either leads elsewhere or would skip the rest of its region. -/
theorem leaving_avoidsContinue {chain : Chain} {jump : Section} (hchain : r.guardChain? subject.graph index = some chain)
    (hskip : Recognizer.skipPlace subject.graph r chain = .ok none)
    (hjump : resolveFrom subject.graph chain.skip none 0 0 around = some jump)
    (hc : (continueTargets around)[scope.loops]? = some c)
    (hsafe : Settles subject (subject.graph.entryBlock c) scope.loops around r ends [.branch chain.guard.negated [jump] []]) :
    Section.everywhere Section.avoidsContinue scope jump = true := by
  refine resolveFrom_avoidsContinue hc (hsafe.imp_right ?_) hjump
  rintro ⟨reaches, skips, hreaches, _, hsettled⟩ heq
  obtain ⟨id, htarget, hmem⟩ := Region.guardChain?_skip hchain
  obtain ⟨span, test, next, hblock⟩ := Graph.branchTarget?_eq_some htarget
  have hspan : subject.graph.spanOf id = span := by simp [Graph.spanOf, hblock]
  have hlt := hb.nonempty id (hb.lt_codeBlocks_of_block? hblock (by simp))
  rw [← hspan] at hblock
  have hjumped := hb.jumpsTo_target hlabels hblock (.inr ⟨test, next, rfl⟩)
  rw [Section.settledAll_singleton, Section.settled, Bool.and_eq_true, Bool.and_eq_true, Bool.or_eq_true, List.all_eq_true] at hsettled
  rcases hsettled.1.1 with hreached | hnone
  · rw [(hreaches hreached).skipPlace hchain heq.symm] at hskip
    cases hskip
  · have hmem' : (subject.graph.spanOf id).stop - 1 ∈ chain.guard.negated.spans.flatMap Span.indices := by
      refine List.mem_flatMap.2 ⟨subject.graph.spanOf id, by simpa using hmem, ?_⟩
      rw [Span.mem_indices, Span.mem_def]
      omega
    have hnot := hnone _ hmem'
    rw [heq, hjumped] at hnot
    cases hnot

include hset

/-- What one step takes continues a loop around it only where a jump is not settled. -/
theorem Taken.continuesByJump {found : Match} (ht : Taken subject (ContinuesByJump subject) around r index found)
    (hc : (continueTargets around)[scope.loops]? = some c) (hcode : subject.graph.entryBlock c < subject.graph.codeBlocks)
    (hends : ends = true → r.length ≤ found.resume)
    (hsafe : Settles subject (subject.graph.entryBlock c) scope.loops around r ends found.sections) :
    Section.everywhereAll Section.avoidsContinue scope found.sections = true := by
  cases ht with
  | straight _ _ _ => exact everywhereAll_avoidsContinue_bodySections _ _
  | falling _ _ _ => exact everywhereAll_avoidsContinue_bodySections _ _
  | jumping hid hblock hnext hjump =>
    rw [Section.everywhereAll_append, everywhereAll_avoidsContinue_bodySections]
    simp [goto_avoidsContinue hb hlabels hid hblock hnext hjump hc hends hsafe]
  | leaving hchain hskip hjump =>
    simp [leaving_avoidsContinue hb hlabels hchain hskip hjump hc hsafe, Section.avoidsContinue]
  | branch hchain hskip helse hthen =>
    obtain ⟨_, _, hlen⟩ := Recognizer.skipPlace_bounds hskip
    have hthen := (hthen.of_strict hset).avoids scope c hc hcode (hsafe.branch hlen helse hends).1
    simp [hthen, Section.avoidsContinue]
  | branchElse hchain hskip helse hthen helsePart =>
    obtain ⟨_, _, hlen⟩ := Recognizer.skipPlace_bounds hskip
    obtain ⟨hthenSafe, helseSafe⟩ := hsafe.branch hlen helse hends
    have hthen := (hthen.of_strict hset).avoids scope c hc hcode hthenSafe
    have helsePart := (helsePart.of_strict hset).avoids scope c hc hcode (helseSafe _ _)
    simp [hthen, helsePart, Section.avoidsContinue]
  | loop hfirst hshape hbody =>
    have hbody := (hbody.of_strict hset).avoids scope.inLoop c hc hcode (hsafe.loop hends _ _).1
    simp [hbody, Section.avoidsContinue]
  | entryLoop hshape hbody =>
    have hloop := hsafe.tail
    have hbody := (hbody.of_strict hset).avoids scope.inLoop c hc hcode (hloop.loop hends _ _).1
    simp [hbody, Section.avoidsContinue]
  | @entryLoopUpdate shape _ _ _ _ _ hshape _ hplace hlt hentry hbody hupdate =>
    have hloop := hsafe.tail
    have hbody := (hbody.of_strict hset).avoids scope.inLoop c hc hcode (hloop.loop hends _ _).1
    have hupdate := hupdate.avoids scope c hc hcode (hloop.loop hends shape.entry _).2
    simp [hbody, hupdate, Section.avoidsContinue]
  | @switch key s stop cases hlayout hcases =>
    have hsafe := hsafe.switch hends
    rw [Section.settledCases_append, Bool.and_eq_true] at hsafe
    have hcases := hcases.continuesByJump hset hcode hc (hsafe.imp_right (·.1))
    have hskipped : Section.everywhereCases Section.avoidsContinue scope.inSwitch (s.skippedCases stop) = true := by
      unfold Recognizer.SwitchLayout.skippedCases
      split <;> simp [Section.avoidsContinue]
    simp [hcases, hskipped, Section.avoidsContinue]
  | tryCatch hfirst hstart hshape hbody hclauses =>
    obtain ⟨last, stop, tail, hat⟩ := Recognizer.protectedShape_cases hshape
    have hbody := hbody.of_strict hset
    obtain ⟨htried, hsafe⟩ := hsafe.tryCatch hat.body_sublist.subset (hbody.falls _ hcode)
    have hbody := hbody.avoids scope c hc hcode htried
    have hclauses := hclauses.continuesByJump hset hcode hc hsafe
    simp [hbody, hclauses, Section.avoidsContinue]

/-- What a region becomes continues a loop around it only where a jump is not settled. -/
theorem Scanned.continuesByJump {sections : List Section} (h : Scanned subject (ContinuesByJump subject) around r index sections) :
    ContinuesByJump subject around r sections := by
  refine ⟨fun scope c hc hcode hsafe => ?_, fun target htarget => h.falls hb hlabels htarget⟩
  induction h with
  | done _ => rfl
  | @step index found rest htaken _ hrest ih =>
    have hends : (true && rest.isEmpty) = true → r.length ≤ found.resume := by
      intro hempty
      have hnil : rest = [] := by simpa using hempty
      exact Scanned.length_le_of_nil hb (hnil ▸ hrest)
    obtain ⟨hfound, hothers⟩ := hsafe.append
    rw [Section.everywhereAll_append, htaken.continuesByJump hb hlabels hset hc hcode hends hfound, ih hothers, Bool.and_self]

end

end

/-! ## Loops tested at the bottom -/

/-- Whether a loop that is tested at the bottom is continued from inside only if a jump to its test is not settled. -/
def Section.continuesAtTest (code : List Insn) : Section → Bool
  | .loop .doWhile (some guard) loopBody _ => guard.spans.head?.any fun first =>
    !settledAll (jumpsTo code · first.start) true false true loopBody || everywhereAll avoidsContinue .outermost loopBody
  | _ => true

section

variable {subject : Subject} {around : List Breakable} {r : Region} {index : Nat}

/-- The test of a loop starts with its first block, which ends with a conditional jump. -/
theorem Region.loopGuard?_head {g : Graph} {start last : Nat} {bodyEntry test : BlockId} {guard : Guard} (hle : start ≤ last)
    (htest : r.blocks[start]? = some test) (h : r.loopGuard? g start last bodyEntry = some guard) :
    guard.spans.head? = some (g.spanOf test) ∧ ∃ target, g.branchTarget? test = some target := by
  obtain ⟨hspans, _⟩ := Region.loopGuard?_blocks hle h none
  rw [← sub_append_sub none none none (Nat.le_add_right start 1) (Nat.succ_le_succ hle), sub_single none htest] at hspans
  refine ⟨by simp [hspans], ?_⟩
  have hfirst : ∀ {count target}, 0 < count → r.BranchesTo g start count target → ∃ target, g.branchTarget? test = some target := by
    rintro count target hpos ⟨_, hbranches⟩
    obtain ⟨id, hid, htarget⟩ := hbranches 0 hpos
    cases htest.symm.trans hid
    exact ⟨target, htarget⟩
  obtain ⟨hall, _⟩ | ⟨exit, hothers, hlast, _⟩ := Region.loopGuard?_cases hle h
  · exact hfirst (by omega) hall
  · obtain rfl | hlt := Nat.eq_or_lt_of_le hle
    · exact hfirst Nat.one_pos hlast
    · exact hfirst (by omega) hothers

/-- A loop that is found by its back edge is continued at its test if it is tested at the bottom. -/
theorem continuesAtTest_loopShape (hb : Graph.Built subject.toSource subject.graph) (hnodup : r.blocks.Nodup) {first : BlockId}
    {shape : Recognizer.LoopShape} {body : List Section}
    (hshape : Recognizer.loopShape subject.graph r index first = .ok (some shape)) {breakTo : Option BlockId}
    (hbody : ContinuesByJump subject (⟨breakTo, some shape.continueTo⟩ :: around)
      (r.sub shape.bodyStart shape.bodyStop (some shape.follow)) body) :
    (Section.loop shape.kind shape.guard body []).continuesAtTest subject.method.code = true := by
  obtain ⟨_, _, ⟨testAt, test, guard, hindex, hle, htest, hguard, heq⟩ | ⟨last, _, _, ⟨chain, _, _, _, heq⟩ | heq⟩⟩ :=
    Recognizer.loopShape_cases hshape
  · obtain ⟨hhead, target, htarget⟩ := Region.loopGuard?_head hle htest hguard
    obtain ⟨span, jump, next, hblock⟩ := Graph.branchTarget?_eq_some htarget
    have hcode := hb.lt_codeBlocks_of_block? hblock nofun
    have hentry := Graph.entryBlock_of_unmarked (hb.marker?_eq_none hcode)
    rw [heq] at hbody ⊢
    simp only [Section.continuesAtTest, hhead, Option.any_some, Bool.or_eq_true, Bool.not_eq_true']
    by_cases hsettled :
        Section.settledAll (jumpsTo subject.method.code · (subject.graph.spanOf test).start) true false true body = true
    · refine .inr (hbody.avoids .outermost test rfl ?_ (.inr ⟨true, false, fun _ => ⟨rfl, ?_⟩, nofun, ?_⟩))
      · rw [hentry]
        exact hcode
      · rw [hentry]
        exact Region.not_mem_sub hnodup _ htest hindex
      · rw [hentry]
        exact hsettled
    · exact .inl (Bool.eq_false_iff.2 hsettled)
  · rw [heq]
    rfl
  · rw [heq]
    rfl

/-- A region becomes sections whose continues come from jumps, also those of the loops inside. -/
def ContinuesExplained (subject : Subject) : RegionProperty := fun around r sections =>
  ContinuesByJump subject around r sections ∧ Passes (fun _ s => s.continuesAtTest subject.method.code) around r sections

/-- The loops a step takes are continued at their tests. -/
theorem Taken.continuesAtTest (hb : Graph.Built subject.toSource subject.graph) (hnodup : r.blocks.Nodup)
    (hset : subject.settings.commentOnError = false) {found : Match}
    (ht : Taken subject (ContinuesExplained subject) around r index found) :
    ∀ s ∈ found.sections, s.continuesAtTest subject.method.code = true := by
  have hbodySections : ∀ span, ∀ s ∈ bodySections span, s.continuesAtTest subject.method.code = true := by
    intro span s hs
    unfold bodySections at hs
    split at hs <;> simp_all [Section.continuesAtTest]
  cases ht with
  | straight _ _ _ => exact hbodySections _
  | falling _ _ _ => exact hbodySections _
  | jumping _ _ _ hjump =>
    intro s hs
    rcases List.mem_append.1 hs with hs | hs
    · exact hbodySections _ s hs
    · rw [List.mem_singleton.1 hs]
      rcases resolveFrom_isJump hjump with ⟨d, rfl⟩ | ⟨d, rfl⟩ <;> rfl
  | loop _ hshape hbody => simpa using continuesAtTest_loopShape hb hnodup hshape (hbody.of_strict hset).1
  | _ => simp [Section.continuesAtTest]

end

end CodeLift
