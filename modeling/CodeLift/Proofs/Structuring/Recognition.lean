import CodeLift.Graph.Build
import CodeLift.Proofs.Structuring.Judgement
import CodeLift.Proofs.Structuring.Protected
import CodeLift.Proofs.Structuring.Taken

/-!
# Recognizers find what can be taken

Every recognizer that matches gives something that `Taken` allows, leaves the session as it was, and fails only for a reason that
lies in the method. What it counts on and how it may fail are its `Terms`; recognizers are read once, for all terms.
`Subject.sections_meets` packages the induction over nested regions: a property that `Scanned` regions have, given that their inner
regions have it, holds of every method that is structured.
-/

namespace CodeLift

open Structuring

/-- Every block of the region is a block of the graph, its gotos end code, and its markers belong to entries of the table of
handlers. -/
def Region.Valid (subject : Subject) (r : Region) : Prop :=
  ∀ id ∈ r.blocks, ∃ block, subject.graph.block? id = some block ∧ (∀ target, block.kind = .goto target → 0 < block.span.stop) ∧
    ∀ mark, block.kind = .marker mark → mark.entry < subject.method.handlerTable.length

/-- Fewer blocks are still blocks of the graph. -/
theorem Region.Valid.of_subset {subject : Subject} {r r' : Region} (h : r.Valid subject)
    (hsub : ∀ id ∈ r'.blocks, id ∈ r.blocks) : r'.Valid subject :=
  fun id hid => h id (hsub id hid)

/-- The marks of the blocks of a region are of entries of the handler table. -/
theorem Region.Valid.marker {subject : Subject} {r : Region} (h : r.Valid subject) (id : BlockId) (hid : id ∈ r.blocks)
    (mark : Marker) (hmark : subject.graph.marker? id = some mark) : mark.entry < subject.method.handlerTable.length := by
  obtain ⟨span, hblock⟩ := Graph.marker?_eq_some hmark
  obtain ⟨block, hblock', _, hentry⟩ := h id hid
  rw [hblock] at hblock'
  cases hblock'
  exact hentry mark rfl

/-- Whether structuring went wrong, rather than anything being wrong with the method: a place or an entry that does not exist was
asked for, or a recognizer took no block. -/
def StructuringError.isFault : StructuringError → Bool
  | .noProgress _ | .outOfRegion _ | .missingEntry _ => true
  | _ => false

/-- An error that is no fault of the structuring is a genuine one. -/
theorem StructuringError.isGenuine_of_isFault {e : StructuringError} (h : e.isFault = false) : e.isGenuine = true := by
  cases e with
  | outOfRegion index => cases h
  | missingEntry entry => cases h
  | _ => rfl

/-! ## What recognizers go by -/

/-- What structuring may count on, and how it may fail: the regions that it is used on, the blocks that these and the constructs
around them lead to, and the failures that are allowed for a region. -/
structure Terms (subject : Subject) where
  known : BlockId → Prop
  region : Region → Prop
  fails : Region → StructuringError → Prop
  known_mem : ∀ {r id}, region r → id ∈ r.blocks → known id
  known_follow : ∀ {r id}, region r → r.follow = some id → known id
  known_entry : ∀ {id}, known id → known (subject.graph.entryBlock id)
  region_sub : ∀ {r follow} (start stop : Nat), region r → (∀ id, follow = some id → known id) → region (r.sub start stop follow)
  region_body : ∀ {r index shape last stop tail}, region r →
    Recognizer.ProtectedAt subject.graph r index shape last stop tail → region shape.body
  fails_subset : ∀ {r r' e}, (∀ id ∈ r'.blocks, id ∈ r.blocks) → fails r' e → fails r e
  fails_method : ∀ {r e}, e.isFault = false → fails r e
  fails_block : ∀ {r id} (index : Nat), region r → id ∈ r.blocks → subject.graph.block? id = none → fails r (.outOfRegion index)
  fails_goto : ∀ {r id start target} (index : Nat), region r → id ∈ r.blocks →
    subject.graph.block? id = some ⟨⟨start, 0⟩, .goto target⟩ → fails r (.outOfRegion index)
  fails_entry : ∀ {r id mark}, region r → id ∈ r.blocks → subject.graph.marker? id = some mark →
    subject.method.handlerTable.length ≤ mark.entry → fails r (.missingEntry mark.entry)

namespace Terms

variable {subject : Subject} (T : Terms subject)

/-- A known block, if it is one. -/
def LeadsTo (target : Option BlockId) : Prop := ∀ id, target = some id → T.known id

/-- The loops and switches around the region at hand lead to known blocks. -/
def Around (s : Session) : Prop := ∀ b ∈ s.breakables, T.LeadsTo b.breakTo ∧ T.LeadsTo b.continueTo

/-- Structuring an inner region gives sections with the property. -/
def Structures (P : RegionProperty) (nested : Nested) : Prop :=
  ∀ (r : Region) (s : Session), T.region r → T.Around s → Ends (T.fails r) s (nested r) (P s.breakables r)

/-- A recognizer that matches gives something that can be taken, whatever inner regions become. -/
def Finds (P : RegionProperty) (recognizer : Recognizer) : Prop :=
  ∀ nested : Nested, T.Structures P nested → ∀ (r : Region) (index : Nat) (s : Session), T.region r → T.Around s →
    index < r.length → Ends (T.fails r) s (recognizer subject nested r index) fun found =>
      ∀ m, found = some m → Taken subject P s.breakables r index m

variable {T} {r : Region} {s t : Session}

theorem leadsTo_none : T.LeadsTo none := fun _ h => by cases h

/-- A block that is known is one to which a region may lead. -/
theorem leadsTo_some {id : BlockId} (h : T.known id) : T.LeadsTo (some id) := by
  intro id' hid'
  cases hid'
  exact h

/-- One of two ways out, where both are known. -/
theorem LeadsTo.or {a b : Option BlockId} (ha : T.LeadsTo a) (hb : T.LeadsTo b) : T.LeadsTo (a.or b) := by
  cases a with
  | none => exact hb
  | some id => exact ha

/-- A region leads to a known block after it. -/
theorem leadsTo_follow (hr : T.region r) : T.LeadsTo r.follow := fun _ => T.known_follow hr

/-- The blocks of a region are known. -/
theorem known_getElem (hr : T.region r) {index : Nat} {id : BlockId} (h : r.blocks[index]? = some id) : T.known id :=
  T.known_mem hr (List.mem_of_getElem? h)

/-- The block at a place of a region, or the one after the region, is known. -/
theorem leadsTo_blockOrFollow? (hr : T.region r) (index : Nat) : T.LeadsTo (r.blockOrFollow? index) :=
  LeadsTo.or (fun _ h => known_getElem hr h) (leadsTo_follow hr)

/-- Only what can be left matters around an action. -/
theorem Around.of_breakables (hs : T.Around s) (h : t.breakables = s.breakables) : T.Around t := by
  intro b hb
  rw [h] at hb
  exact hs b hb

/-- Sessions that agree have the same around them. -/
theorem Around.of_agrees (hs : T.Around s) (h : s.Agrees t) : T.Around t := hs.of_breakables h.breakables

/-- Inside one more loop or switch. -/
theorem Around.push (hs : T.Around s) {b : Breakable} (hbreak : T.LeadsTo b.breakTo) (hcontinue : T.LeadsTo b.continueTo)
    (ht : t.breakables = b :: s.breakables) : T.Around t := by
  intro b' hb'
  rw [ht] at hb'
  rcases List.mem_cons.1 hb' with rfl | hb'
  · exact ⟨hbreak, hcontinue⟩
  · exact hs b' hb'

/-- A loop leads to known blocks. -/
theorem known_loopShape {index : Nat} {first : BlockId} {shape : Recognizer.LoopShape} (hr : T.region r)
    (hfirst : r.blocks[index]? = some first) (h : Recognizer.loopShape subject.graph r index first = .ok (some shape)) :
    T.known shape.follow ∧ T.known shape.continueTo := by
  have hknown := known_getElem hr hfirst
  obtain ⟨_, _, ⟨testAt, test, guard, _, _, htest, _, heq⟩ | ⟨last, _, _, ⟨chain, _, _, _, heq⟩ | heq⟩⟩ :=
    Recognizer.loopShape_cases h
  · rw [heq]
    exact ⟨known_getElem hr htest, known_getElem hr htest⟩
  · rw [heq]
    exact ⟨hknown, T.known_entry hknown⟩
  · rw [heq]
    exact ⟨hknown, T.known_entry hknown⟩

end Terms

/-! ## Recognizers -/

namespace Terms

variable {subject : Subject} {T : Terms subject} {P : RegionProperty} {nested : Nested}

/-- With the fallback to a comment an inner region becomes sections with the property, or a comment. -/
theorem orComment_structures (hn : T.Structures P nested) {r : Region} {s : Session} (hr : T.region r) (hs : T.Around s) :
    Ends (T.fails r) s (nested.orComment subject r) (Inner subject P s.breakables r) := by
  unfold Nested.orComment
  refine (Ends.attempt (hn r s hr hs)).bind fun outcome t ht houtcome => ?_
  cases outcome with
  | ok sections => exact Ends.pure (.inl houtcome)
  | error e =>
    refine Ends.get.bind fun now u _ _ => ?_
    split
    · rename_i hset
      rw [Bool.and_eq_true] at hset
      refine Ends.bind (Ends.report (· ++ [_])) fun _ _ _ _ => ?_
      exact Ends.pure (.inr ⟨hset.1, rfl⟩)
    · exact Ends.throw houtcome.2

/-- A failure on a part of a region is one on the region. -/
theorem ends_sub {α : Type} {r : Region} {start stop : Nat} {follow : Option BlockId} {s : Session} {x : Structuring α}
    {Q : α → Prop} (h : Ends (T.fails (r.sub start stop follow)) s x Q) : Ends (T.fails r) s x Q :=
  h.imp (fun _ => T.fails_subset fun _ => Region.mem_of_mem_sub) fun _ => id

section

variable {r : Region} {s : Session} (hn : T.Structures P nested) (hr : T.region r) (hs : T.Around s) (start stop : Nat)
include hn hr hs

/-- A list of its own, inside a region. -/
theorem orComment_ends {follow : Option BlockId} (hfollow : T.LeadsTo follow) :
    Ends (T.fails r) s (nested.orComment subject (r.sub start stop follow))
      (Inner subject P s.breakables (r.sub start stop follow)) :=
  ends_sub (orComment_structures hn (T.region_sub start stop hr hfollow) hs)

/-- The body of a loop, inside a region. -/
theorem loopBody_ends {follow : Option BlockId} (hfollow : T.LeadsTo follow) (head : BlockId) {breakTo : Option BlockId}
    {continueTo : BlockId} (hbreak : T.LeadsTo breakTo) (hcontinue : T.known continueTo) :
    Ends (T.fails r) s (nested.loopBody subject (r.sub start stop follow) head breakTo continueTo)
      (Inner subject P (⟨breakTo, some continueTo⟩ :: s.breakables) (r.sub start stop follow)) :=
  Ends.inLoop (Ends.inBreakable (orComment_ends hn hr (hs.push hbreak (leadsTo_some hcontinue) rfl) start stop hfollow))

/-- A case of a switch, inside a region. -/
theorem breakable_ends {follow breakTo : Option BlockId} (hfollow : T.LeadsTo follow) (hbreak : T.LeadsTo breakTo) :
    Ends (T.fails r) s (nested.breakable subject (r.sub start stop follow) breakTo)
      (Inner subject P (⟨breakTo, none⟩ :: s.breakables) (r.sub start stop follow)) :=
  Ends.inBreakable (orComment_ends hn hr (hs.push hbreak leadsTo_none rfl) start stop hfollow)

end

/-- Nothing is claimed where nothing is found. -/
theorem ends_none {E : StructuringError → Prop} {s : Session} {Q : Match → Prop} :
    Ends E s (pure none : Structuring (Option Match)) fun found => ∀ m, found = some m → Q m :=
  Ends.pure fun _ h => by cases h

theorem ends_some {E : StructuringError → Prop} {s : Session} {Q : Match → Prop} {m : Match} (h : Q m) :
    Ends E s (pure (some m) : Structuring (Option Match)) fun found => ∀ m, found = some m → Q m :=
  Ends.pure fun _ hm => by cases hm; exact h

/-- A branch that is found holds its condition and two parts of the region. -/
theorem finds_branch : T.Finds P Recognizer.branch := by
  intro nested hn r index s hr hs hindex
  refine (Ends.ofSucceeds (Region.succeeds_guardChain hindex)).bind fun chain s₁ hs₁ hchain => ?_
  have hs := hs.of_agrees hs₁
  rw [← hs₁.breakables]
  cases chain with
  | none => exact ends_none
  | some chain =>
    have hchain := toOption_join_eq_some.2 hchain
    refine (Ends.ofSucceeds ⟨_, Recognizer.skipPlace_eq _ r chain⟩).bind fun skip s₂ hs₂ hskip => ?_
    have hs := hs.of_agrees hs₂
    rw [← hs₂.breakables]
    cases skip with
    | none =>
      refine (Ends.resolveJump _ _ _).bind fun jump t ht hjump => ?_
      cases jump with
      | none => exact ends_none
      | some jump => exact ends_some (.leaving hchain hskip hjump.symm)
    | some skipAt =>
      obtain ⟨_, hle, hlen⟩ := Recognizer.skipPlace_bounds hskip
      refine (Ends.ofSucceeds (Recognizer.succeeds_elseEnd _ r _ skipAt)).bind fun exit s₃ hs₃ helse => ?_
      have hs := hs.of_agrees hs₃
      rw [← hs₃.breakables]
      cases exit with
      | none =>
        refine (Ends.regionSlice hle hlen).bind fun inner t ht hinner => ?_
        subst hinner
        refine (orComment_ends hn hr (hs.of_agrees ht) _ _ (leadsTo_blockOrFollow? hr _)).bind fun thenPart u hu hthen => ?_
        rw [ht.breakables] at hthen
        exact ends_some (.branch hchain hskip helse hthen)
      | some exitAt =>
        obtain ⟨_, _, hlt, hexit, _⟩ := Recognizer.elseEnd_cases helse
        refine (Ends.regionSlice hle hlen).bind fun inner t ht hinner => ?_
        subst hinner
        refine (orComment_ends hn hr (hs.of_agrees ht) _ _ (leadsTo_blockOrFollow? hr _)).bind fun thenPart u hu hthen => ?_
        refine (Ends.regionSlice (by omega) hexit).bind fun inner v hv hinner => ?_
        subst hinner
        have hv := ht.trans (hu.trans hv)
        refine (orComment_ends hn hr (hs.of_agrees hv) _ _ (leadsTo_blockOrFollow? hr _)).bind fun elsePart w hw helsePart => ?_
        rw [ht.breakables] at hthen
        rw [hv.breakables] at helsePart
        exact ends_some (.branchElse hchain hskip helse hthen helsePart)

/-- A loop that is found holds its body and its condition. -/
theorem finds_loop : T.Finds P Recognizer.loop := by
  intro nested hn r index s hr hs hindex
  refine (Ends.regionGet hindex).bind fun first t ht hfirst => ?_
  refine (Ends.isLoopHead _).bind fun isHead u hu _ => ?_
  split
  · exact ends_none
  · refine (Ends.ofSucceeds (Recognizer.succeeds_loopShape hindex first)).bind fun shape v hv hshape => ?_
    cases shape with
    | none => exact ends_none
    | some shape =>
      obtain ⟨_, h2, h3, h4⟩ := Recognizer.loopShape_bounds hshape
      obtain ⟨hfollow, hcontinue⟩ := known_loopShape hr hfirst hshape
      refine (Ends.regionSlice h2 (by omega)).bind fun inner w hw hinner => ?_
      subst hinner
      have hw := ht.trans (hu.trans (hv.trans hw))
      refine (loopBody_ends hn hr (hs.of_agrees hw) _ _ (leadsTo_some hfollow) _ (leadsTo_blockOrFollow? hr _) hcontinue).bind
        fun body x hx hbody => ?_
      rw [hw.breakables] at hbody
      exact ends_some (.loop hfirst hshape hbody)

/-- Actions judged by how they end inside the given loops and switches. -/
def judgement (T : Terms subject) (r : Region) (around : List Breakable) : Judgement where
  Holds good x _ := ∀ s : Session, s.breakables = around → Ends (T.fails r) s x good
  visible := False
  pure h _ _ := Ends.pure h
  bind hx hf _ s hs := (hx s hs).bind fun a t ht ha => hf a ha t (ht.breakables.trans hs)
  attempt hx hf _ s hs := by
    refine (Ends.attempt (Ends.strictly (hx { s with strict := s.strict + 1 } hs))).bind fun outcome t ht houtcome => ?_
    refine hf outcome (fun a ha => ?_) t (ht.breakables.trans hs)
    subst ha
    exact houtcome

/-- A loop found by its first goto holds its body, its condition and maybe an update. -/
theorem finds_entryLoop : T.Finds P Recognizer.entryLoop := by
  intro nested hn r index s hr hs hindex
  refine (Ends.ofSucceeds (Recognizer.succeeds_entryLoopShape hindex)).bind fun shape t ht hshape => ?_
  cases shape with
  | none => exact ends_none
  | some shape =>
    obtain ⟨_, htest, hlt, hle, hlen, _⟩ := Recognizer.entryLoopShape_cases hshape
    have hknown := known_getElem hr htest
    have hbreak := leadsTo_blockOrFollow? hr (shape.last + 1)
    have hs : ∀ u : Session, u.breakables = s.breakables → T.Around u := fun u hu => hs.of_breakables hu
    have hplain : (T.judgement r s.breakables).Holds
        (Inner subject P (⟨r.blockOrFollow? (shape.last + 1), some shape.test⟩ :: s.breakables)
          (r.sub (index + 1) shape.testAt (some shape.test)))
        (shape.plainBody subject nested r index) (shape.plainBody subject nested r index) := by
      intro u hu
      unfold Recognizer.EntryLoopShape.plainBody
      rw [Region.slice_eq (by omega) (by omega), pure_bind, ← hu]
      exact loopBody_ends hn hr (hs u hu) _ _ (leadsTo_some hknown) _ hbreak hknown
    have hfound : (T.judgement r s.breakables).Holds (Taken subject P s.breakables r index)
        (shape.structured subject nested r index) (shape.structured subject nested r index) := by
      refine Judgement.structured hshape hplain (fun body hbody => .entryLoop hshape hbody) nofun
        fun updateAt place entry hupdateAt hplace hplaceLt hentry => ?_
      have hentryKnown := known_getElem hr hentry
      refine ⟨Inner subject P (⟨r.blockOrFollow? (shape.last + 1), some entry⟩ :: s.breakables)
        (r.sub (index + 1) place (some entry)), P s.breakables (r.sub place shape.testAt (some shape.test)),
        fun u hu => ?_, fun u hu => ?_, fun body update hbody hupdate => ?_, nofun⟩
      · rw [← hu]
        exact loopBody_ends hn hr (hs u hu) _ _ (leadsTo_some hentryKnown) _ hbreak hentryKnown
      · rw [← hu]
        exact ends_sub (hn _ u (T.region_sub _ _ hr (leadsTo_some hknown)) (hs u hu))
      · exact .entryLoopUpdate hshape hupdateAt hplace hplaceLt hentry hbody hupdate
    exact (hfound t ht.breakables).bind fun found u _ hfound => ends_some hfound

/-- Cases at ascending places before the end of the switch. -/
theorem switchCases_ends (hn : T.Structures P nested) {r : Region} (hr : T.region r) (layout : Recognizer.SwitchLayout)
    {stop : Nat} (hstop : stop ≤ r.length) (places : List Nat) (hsorted : places.Pairwise (· < ·))
    (hlt : ∀ place ∈ places, place < stop) {s : Session} (hs : T.Around s) :
    Ends (T.fails r) s (Recognizer.switchCases subject nested r stop (places.map layout.caseAt))
      (CasesTaken subject P s.breakables r layout stop places) := by
  induction places generalizing s with
  | nil => exact Ends.pure .nil
  | cons start rest ih =>
    obtain ⟨hfirst, hrest⟩ := List.pairwise_cons.1 hsorted
    have hbounds := Recognizer.switchCase_bounds hstop hfirst hlt
    rw [List.map_cons, Recognizer.SwitchLayout.caseAt, Recognizer.switchCases, Recognizer.SwitchLayout.map_head?_caseAt]
    dsimp only
    refine (Ends.regionSlice hbounds.1 hbounds.2).bind fun inner t ht hinner => ?_
    subst hinner
    refine (breakable_ends hn hr (hs.of_agrees ht) _ _ (leadsTo_blockOrFollow? hr _) (leadsTo_blockOrFollow? hr _)).bind
      fun body u hu hbody => ?_
    have hu := ht.trans hu
    have hlt := fun place hplace => hlt place (List.mem_cons_of_mem _ hplace)
    refine (ih hrest hlt (hs.of_agrees hu)).bind fun cases v hv hcases => ?_
    rw [ht.breakables] at hbody
    rw [hu.breakables] at hcases
    exact Ends.pure (.cons hbounds.1 hbounds.2 hbody hcases)

/-- A switch that is found holds its key and its cases. -/
theorem finds_switch : T.Finds P Recognizer.switch := by
  intro nested hn r index s hr hs hindex
  refine (Ends.ofSucceeds (Recognizer.succeeds_switchLayout hindex)).bind fun layout t ht hlayout => ?_
  have hs := hs.of_agrees ht
  rw [← ht.breakables]
  cases layout with
  | none => exact ends_none
  | some layout =>
    obtain ⟨key, layout, stop⟩ := layout
    obtain ⟨_, _, _, _, _, _, _, _, hstop⟩ := Recognizer.switchLayout_cases hlayout
    have hcases := switchCases_ends hn hr layout hstop _ (layout.starts_pairwise_lt _)
      (fun _ => Recognizer.SwitchLayout.lt_of_mem_starts) hs
    dsimp only
    rw [Recognizer.SwitchLayout.labels_eq (Recognizer.switchLayout_arms_le hlayout)]
    exact hcases.bind fun cases u hu hcases => ends_some (.switch hlayout hcases)

/-- The shape of a handler fails as is allowed. -/
theorem fails_handlerShape {r : Region} (hr : T.region r) {exit : Option BlockId} {first : Marker} {pending : List Marker}
    {cursor : Nat} {e : StructuringError} (h : Recognizer.handlerShape subject r exit first pending cursor = .error e) :
    T.fails r e := by
  rcases Recognizer.handlerShape_error_cases h with ⟨entry, fault, rfl⟩ | ⟨id, hid, mark, hmark, hle, rfl⟩
  · exact T.fails_method rfl
  · exact T.fails_entry hr hid hmark hle

/-- Each clause serves a pending entry, so that as many clauses as entries are enough. -/
theorem clauses_ends (hn : T.Structures P nested) {r : Region} (hr : T.region r) {exit : Option BlockId} (hexit : T.LeadsTo exit)
    (n : Nat) (pending : List Marker) (cursor : Nat) (hlen : pending.length ≤ n) {s : Session} (hs : T.Around s) :
    Ends (T.fails r) s (Recognizer.clauses subject nested r exit n pending cursor) fun found =>
      ClausesTaken subject P s.breakables r exit pending cursor found.1 found.2 := by
  induction n generalizing pending cursor s with
  | zero =>
    cases pending with
    | nil => exact Ends.pure (.nil cursor)
    | cons first rest => simp at hlen
  | succ n ih =>
    cases pending with
    | nil => exact Ends.pure (.nil cursor)
    | cons first rest =>
      unfold Recognizer.clauses
      refine (Ends.ofExcept (fun _ => id) fun e he => fails_handlerShape hr he).bind fun shape t ht hshape => ?_
      obtain ⟨entries, used, handler, hat⟩ := Recognizer.handlerShape_cases hshape
      have hserved := hat.taken.length_le.2
      have hpos := List.length_pos_iff.2 hat.nonempty
      refine (Ends.regionSlice hat.bodyStart_le hat.bodyStop_le).bind fun inner u hu hinner => ?_
      subst hinner
      have hu := ht.trans hu
      refine (orComment_ends hn hr (hs.of_agrees hu) _ _ (hexit.or (leadsTo_blockOrFollow? hr _))).bind
        fun body v hv hbody => ?_
      have hv := hu.trans hv
      refine (ih shape.pending shape.bodyStop (by omega) (hs.of_agrees hv)).bind fun others w hw hothers => ?_
      rw [hu.breakables] at hbody
      rw [hv.breakables] at hothers
      exact Ends.pure (.cons hshape hbody hothers)

/-- A try that is found holds what is tried and its handlers. -/
theorem finds_tryCatch : T.Finds P Recognizer.tryCatch := by
  intro nested hn r index s hr hs hindex
  unfold Recognizer.tryCatch
  dsimp only
  refine (Ends.regionGet hindex).bind fun first t ht hfirst => ?_
  split
  · exact ends_none
  · rename_i start hstart
    refine (Ends.isLoopHead _).bind fun inLoop u hu _ => ?_
    have herror : ∀ e, Recognizer.protectedShape subject.graph r index first start inLoop = .error e → T.fails r e := by
      intro e he
      obtain ⟨_, _, rfl⟩ := Recognizer.protectedShape_error he
      exact T.fails_method rfl
    refine (Ends.ofExcept (fun _ => id) herror).bind fun shape v hv hshape => ?_
    cases shape with
    | none => exact ends_none
    | some shape =>
      obtain ⟨last, stop, tail, hat⟩ := Recognizer.protectedShape_cases hshape
      have hv := ht.trans (hu.trans hv)
      have hregion := T.region_body hr hat
      have hbody := (orComment_structures hn hregion (hs.of_agrees hv)).imp
        (fun _ => T.fails_subset fun _ => hat.mem_of_mem_body) fun _ => id
      refine hbody.bind fun body w hw hbody => ?_
      have hw := hv.trans hw
      refine (clauses_ends hn hr (leadsTo_follow hregion) _ _ _ (Nat.le_refl _) (hs.of_agrees hw)).bind
        fun handlers x hx hhandlers => ?_
      rw [hv.breakables] at hbody
      rw [hw.breakables] at hhandlers
      exact ends_some (.tryCatch hfirst hstart hshape hbody hhandlers)

/-- Every recognizer gives what can be taken. -/
theorem finds_of_mem_all {recognizer : Recognizer} (h : recognizer ∈ Recognizer.all) : T.Finds P recognizer := by
  simp only [Recognizer.all, List.mem_cons, List.not_mem_nil, or_false] at h
  rcases h with rfl | rfl | rfl | rfl | rfl
  · exact finds_tryCatch
  · exact finds_loop
  · exact finds_entryLoop
  · exact finds_switch
  · exact finds_branch

/-! ## From recognizers to methods -/

/-- A block that no recognizer takes. -/
theorem blockSections_ends {r : Region} (hr : T.region r) {index : Nat} (hindex : index < r.length) (s : Session) :
    Ends (T.fails r) s (blockSections subject r index) fun sections =>
      Taken subject P s.breakables r index ⟨sections, index + 1⟩ := by
  unfold blockSections
  dsimp only
  refine (Ends.regionGet hindex).bind fun id t ht hid => ?_
  split
  · rename_i hnone
    exact Ends.throw (T.fails_block index hr (List.mem_of_getElem? hid) hnone)
  · rename_i span kind hblock
    cases kind with
    | marker mark => exact Ends.throw (T.fails_method rfl)
    | body next => exact Ends.pure (.straight hid hblock (.inr ⟨next, rfl⟩))
    | exit => exact Ends.pure (.straight hid hblock (.inl rfl))
    | branch test target next => exact Ends.throw (T.fails_method rfl)
    | switch arms otherwise => exact Ends.throw (T.fails_method rfl)
    | goto target =>
      dsimp only
      split
      · rename_i hnext
        exact Ends.pure (.falling hid hblock hnext)
      · rename_i hnext
        obtain ⟨start, stop⟩ := span
        cases stop with
        | zero => exact Ends.throw (T.fails_goto index hr (List.mem_of_getElem? hid) hblock)
        | succ last =>
          refine (Ends.resolveJump _ _ _).bind fun jump u hu hjump => ?_
          cases jump with
          | none => exact Ends.throw (T.fails_method rfl)
          | some jump =>
            rw [ht.breakables] at hjump
            exact Ends.pure (.jumping hid hblock hnext hjump.symm)

section

variable (hn : T.Structures P nested) {recognizers : List Recognizer}
  (hrec : ∀ recognizer ∈ recognizers, recognizer ∈ Recognizer.all) {r : Region} (hr : T.region r)
include hn hrec hr

/-- What a recognizer finds at a place is taken from the region. -/
theorem recognize_ends {index : Nat} (hindex : index < r.length) {s : Session} (hs : T.Around s) :
    Ends (T.fails r) s (recognize subject nested r index recognizers) fun found =>
      ∀ m, found = some m → Taken subject P s.breakables r index m := by
  induction recognizers generalizing s with
  | nil => exact ends_none
  | cons recognizer rest ih =>
    unfold recognize
    have hfirst : T.Finds P recognizer := finds_of_mem_all (hrec _ List.mem_cons_self)
    refine (hfirst nested hn r index s hr hs hindex).bind fun found t ht hfound => ?_
    cases found with
    | some m => exact ends_some (hfound m rfl)
    | none =>
      rw [← ht.breakables]
      exact ih (fun x hx => hrec x (List.mem_cons_of_mem _ hx)) (hs.of_agrees ht)

/-- A step takes a block, whether a recognizer finds a construct there or not. -/
theorem step_ends {index : Nat} (hindex : index < r.length) {s : Session} (hs : T.Around s) :
    Ends (T.fails r) s (step subject recognizers nested r index) (Taken subject P s.breakables r index) := by
  unfold step
  refine (recognize_ends hn hrec hr hindex hs).bind fun found t ht hfound => ?_
  cases found with
  | none =>
    refine (blockSections_ends (P := P) hr hindex t).bind fun sections u hu hsections => ?_
    rw [ht.breakables] at hsections
    exact Ends.pure hsections
  | some found =>
    have htaken := hfound found rfl
    dsimp only
    rw [if_pos htaken.bounds.1]
    exact Ends.pure htaken

/-- A scan with as many steps as there are blocks left reaches the end of the region. -/
theorem scan_ends (steps index : Nat) (hsteps : r.length ≤ index + steps) {s : Session} (hs : T.Around s) :
    Ends (T.fails r) s (scan subject recognizers nested r steps index) (Scanned subject P s.breakables r index) := by
  induction steps generalizing index s with
  | zero => exact Ends.pure (.done hsteps)
  | succ steps ih =>
    unfold scan
    by_cases hle : r.length ≤ index
    · rw [if_pos hle]
      exact Ends.pure (.done hle)
    · rw [if_neg hle]
      refine (step_ends hn hrec hr (Nat.lt_of_not_le hle) hs).bind fun found t ht hfound => ?_
      have hlt := hfound.bounds.1
      refine (ih found.resume (by omega) (hs.of_agrees ht)).bind fun rest u hu hrest => ?_
      rw [ht.breakables] at hrest
      exact Ends.pure (.step hfound hlt hrest)

end

section

variable (hclosed : ∀ around r sections, Scanned subject P around r 0 sections → P around r sections)
  {recognizers : List Recognizer} (hrec : ∀ recognizer ∈ recognizers, recognizer ∈ Recognizer.all)
include hclosed hrec

/-- Structuring to any depth gives the property, if what can be scanned has it. -/
theorem structures_flattenWithin (levels : Nat) : T.Structures P (flattenWithin subject recognizers levels) := by
  induction levels with
  | zero => exact fun r s _ _ => Ends.throw (T.fails_method rfl)
  | succ levels ih =>
    intro r s hr hs
    have hdeeper : T.Around { s with depth := s.depth + 1 } := hs
    refine Ends.deeper ?_
    exact (scan_ends ih hrec hr r.length 0 (by omega) hdeeper).mono fun sections hsections => hclosed _ _ _ hsections

/-- Structuring a region with recognizers that are on these terms is on them too. -/
theorem structures_flatten : T.Structures P (flatten subject recognizers) := by
  intro r s hr hs
  refine Ends.get.bind fun _ t ht _ => ?_
  rw [← ht.breakables]
  exact structures_flattenWithin hclosed hrec _ r t hr (hs.of_agrees ht)

end

end Terms

/-! ## Regions of any kind -/

/-- Structuring an inner region gives sections with the property. -/
def Nested.Meets (subject : Subject) (P : RegionProperty) (nested : Nested) : Prop :=
  ∀ (r : Region) (s : Session), Structuring.Meets (r.Valid subject) s (nested r) (P s.breakables r)

/-- Nothing is asked of regions and of the blocks they lead to. -/
def Terms.any (subject : Subject) : Terms subject where
  known _ := True
  region _ := True
  fails r e := r.Valid subject → e.isGenuine = true
  known_mem _ _ := trivial
  known_follow _ _ := trivial
  known_entry _ := trivial
  region_sub _ _ _ _ := trivial
  region_body _ _ := trivial
  fails_subset hsub h hv := h (hv.of_subset hsub)
  fails_method h _ := StructuringError.isGenuine_of_isFault h
  fails_block _ _ hid hnone hv := by
    obtain ⟨block, hblock, _⟩ := hv _ hid
    rw [hnone] at hblock
    cases hblock
  fails_goto _ _ hid hblock hv := by
    obtain ⟨block, hblock', hgoto, _⟩ := hv _ hid
    rw [hblock] at hblock'
    cases hblock'
    exact absurd (hgoto _ rfl) (Nat.lt_irrefl 0)
  fails_entry _ hid hmark hle hv := absurd (hv.marker _ hid _ hmark) (Nat.not_lt.2 hle)

/-- Nothing is asked of what is around. -/
theorem Terms.around_any (subject : Subject) (s : Session) : (Terms.any subject).Around s :=
  fun _ _ => ⟨fun _ _ => trivial, fun _ _ => trivial⟩

section

variable {subject : Subject} {P : RegionProperty}
  (hclosed : ∀ around r sections, Scanned subject P around r 0 sections → P around r sections)
  {recognizers : List Recognizer} (hrec : ∀ recognizer ∈ recognizers, recognizer ∈ Recognizer.all)
include hclosed hrec

/-- Regions are structured into sections with the property. -/
theorem flatten_meets : Nested.Meets subject P (flatten subject recognizers) :=
  fun r s => (Terms.any subject).structures_flatten hclosed hrec r s trivial (Terms.around_any subject s)

/-- A property that scanned regions have, given that their inner regions have it, holds of what a method becomes. -/
theorem Subject.sections_meets (s : Session) :
    Structuring.Meets (Region.Valid subject ⟨subject.graph.order, none⟩) s (subject.sections recognizers)
      (Inner subject P s.breakables ⟨subject.graph.order, none⟩) := by
  have hflatten : (Terms.any subject).Structures P (flatten subject recognizers) := Terms.structures_flatten hclosed hrec
  exact Terms.orComment_structures hflatten trivial (Terms.around_any subject s)

/-- The property of the sections a method becomes, as an implication. -/
theorem Subject.inner_of_sections {s t : Session} {sections : List Section}
    (h : subject.sections recognizers s = .ok sections t) :
    Inner subject P s.breakables ⟨subject.graph.order, none⟩ sections := by
  have hmeets := Subject.sections_meets hclosed hrec s
  unfold Structuring.Meets Structuring.Ends at hmeets
  rw [h] at hmeets
  exact hmeets.2

end

/-- Where comments are allowed, a failure that says something about the method becomes one. -/
theorem orComment_isOk {subject : Subject} {nested : Nested} {r : Region} {s : Session} {Q : List Section → Prop}
    (h : Structuring.Meets (r.Valid subject) s (nested r) Q) (hvalid : r.Valid subject)
    (hset : subject.settings.commentOnError = true) (hstrict : s.strict = 0) :
    ∃ sections t, nested.orComment subject r s = .ok sections t := by
  unfold Structuring.Meets Structuring.Ends at h
  cases hr : nested r s with
  | ok sections t => exact ⟨sections, t, orComment_of_ok hr⟩
  | error e t =>
    simp only [hr] at h
    have hattempt : Structuring.attempt (nested r) s = .ok (.error e) t := by
      simp only [Structuring.attempt, hr, h.2 hvalid, if_true]
    have ht : t.strict = 0 := h.1.strict.trans hstrict
    have hcomment : (subject.settings.commentOnError && t.strict == 0) = true := by rw [hset, ht]; rfl
    unfold Nested.orComment
    rw [run_bind_of_ok hattempt]
    dsimp only
    rw [run_bind_of_ok (rfl : (get : Structuring Session) t = .ok t t), if_pos hcomment]
    exact ⟨[commentSection subject r], _, rfl⟩

/-- A method is structured in a session of its own. -/
theorem Subject.exists_of_sectionsTraced {subject : Subject} {recognizers : List Recognizer} {events events' : List Event}
    {sections : List Section} (h : subject.sectionsTraced recognizers events = .ok sections events') :
    ∃ s, subject.sections recognizers (.start events) = .ok sections s := by
  unfold Subject.sectionsTraced at h
  split at h
  · rename_i sections' s hs
    cases h
    exact ⟨s, hs⟩
  · cases h

/-- Whether a method has a graph and sections that pass a test. -/
def Source.structuresInto (src : Source) (settings : Settings) (test : List Section → Bool) : Bool :=
  match Graph.build src Producer.all with
  | .error _ => false
  | .ok g =>
    match Subject.sectionsTraced ⟨src, g, settings⟩ Recognizer.all [] with
    | .error _ _ => false
    | .ok sections _ => test sections

/-- A method that is structured has a graph, and sections that pass the test. -/
theorem Source.exists_of_structuresInto {src : Source} {settings : Settings} {test : List Section → Bool}
    (h : src.structuresInto settings test = true) :
    ∃ g sections events, Graph.build src Producer.all = .ok g ∧
      Subject.sectionsTraced ⟨src, g, settings⟩ Recognizer.all [] = .ok sections events ∧ test sections = true := by
  unfold structuresInto at h
  split at h
  · cases h
  · rename_i g hg
    split at h
    · cases h
    · rename_i sections events hs
      exact ⟨g, sections, events, hg, hs, h⟩

end CodeLift
