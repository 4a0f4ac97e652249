import CodeLift.Proofs.Graph.Refinement
import CodeLift.Proofs.Structuring.Shapes

/-!
# Building graphs is safe

The producers link and mark blocks that exist: every graph they work on is laid out and its code blocks hold code
(`Graph.Linkable`), so that a block to link has a last instruction and a block to mark has a place in the layout. In the graph they
leave every name is the name of a block, and all code lies in the code of the method (`Graph.InRange`).
-/

namespace CodeLift

/-- Whether a block that does not exist was asked for, rather than anything being wrong with the method. -/
def GraphError.isFault : GraphError → Bool
  | .missingBlock _ => true
  | _ => false

/-! ## Failures that are no faults -/

/-- The result satisfies `Q`, and a failure is no fault. -/
def Safely {α : Type} (x : Except GraphError α) (Q : α → Prop) : Prop :=
  match x with
  | .ok a => Q a
  | .error e => e.isFault = false

namespace Safely

variable {α β : Type}

/-- A value with the property. -/
theorem ok {a : α} {Q : α → Prop} (h : Q a) : Safely (.ok a) Q := h

/-- Values have the property, and errors are no faults. -/
theorem of_cases {x : Except GraphError α} {Q : α → Prop} (hok : ∀ a, x = .ok a → Q a)
    (herror : ∀ e, x = .error e → e.isFault = false) : Safely x Q := by
  cases x with
  | ok a => exact hok a rfl
  | error e => exact herror e rfl

/-- An error of what goes safely is no fault. -/
theorem isFault {x : Except GraphError α} {Q : α → Prop} (h : Safely x Q) {e : GraphError} (he : x = .error e) :
    e.isFault = false := by
  subst he
  exact h

/-- Actions go safely in a row. -/
theorem bind {x : Except GraphError α} {f : α → Except GraphError β} {Q : α → Prop} {R : β → Prop} (hx : Safely x Q)
    (hf : ∀ a, Q a → Safely (f a) R) : Safely (x >>= f) R := by
  cases x with
  | ok a => exact hf a hx
  | error e => exact hx

/-- A weaker property of the value holds too. -/
theorem mono {x : Except GraphError α} {Q R : α → Prop} (h : Safely x Q) (hQ : ∀ a, Q a → R a) : Safely x R := by
  cases x with
  | ok a => exact hQ a h
  | error e => exact h

/-- Mapping goes safely where each step does. -/
theorem mapM {f : α → Except GraphError β} {Q : β → Prop} {xs : List α} (h : ∀ x ∈ xs, Safely (f x) Q) :
    Safely (xs.mapM f) fun ys => ∀ y ∈ ys, Q y := by
  induction xs with
  | nil => exact ok fun y hy => by cases hy
  | cons x xs ih =>
    rw [List.mapM_cons]
    refine (h x List.mem_cons_self).bind fun y hy => ?_
    refine (ih fun x' hx' => h x' (List.mem_cons_of_mem x hx')).bind fun ys hys => ?_
    exact ok (List.forall_mem_cons.2 ⟨hy, hys⟩)

/-- What each step of a pass keeps, the pass keeps. -/
theorem foldlM {f : β → α → Except GraphError β} {I : β → Prop} {xs : List α} (h : ∀ b, ∀ x ∈ xs, I b → Safely (f b x) I)
    {b : β} (hb : I b) : Safely (xs.foldlM f b) I := by
  induction xs generalizing b with
  | nil => exact ok hb
  | cons x xs ih =>
    rw [List.foldlM_cons]
    refine (h b x List.mem_cons_self hb).bind fun b' hb' => ?_
    exact ih (fun c y hy => h c y (List.mem_cons_of_mem x hy)) hb'

end Safely

namespace Graph

/-! ## Graphs in the making -/

/-- The layout holds every block once and follows the code, and the code blocks are not empty. -/
structure Linkable (code : List Insn) (g : Graph) : Prop where
  laidOut : g.LaidOut code.length
  nonempty : ∀ id : Nat, id < g.codeBlocks → (g.spanOf id).start < (g.spanOf id).stop

variable {code : List Insn} {g : Graph}

/-- A block is in the layout of a graph exactly if it is a block of it. -/
theorem LaidOut.mem_order {n : Nat} (hg : g.LaidOut n) {id : BlockId} : id ∈ g.order ↔ id < g.blocks.size := by
  rw [hg.perm.mem_iff, List.mem_range]

/-- Code that has been cut anywhere is ready to be linked. -/
theorem linkable_ofSpans (breaks : List Nat) : (ofSpans (Span.cutAt code.length breaks)).Linkable code := by
  refine ⟨laidOut_ofSpans (Span.cutAt_abut _ _), ?_⟩
  intro id hid
  have hid : id < (Span.cutAt code.length breaks).length := hid
  rw [spanOf_ofSpans (List.getElem?_eq_getElem hid)]
  exact (Span.mem_cutAt (List.getElem_mem hid)).1

/-- A code block has a last instruction. -/
theorem Linkable.exists_last (hg : g.Linkable code) {id : Nat} (hid : id < g.codeBlocks) :
    ∃ insn, g.lastInsn? code id = some insn := by
  have hlt := hg.nonempty id hid
  have hmem : id ∈ g.order := hg.laidOut.mem_order.2 (hid.trans_le hg.laidOut.codeBlocks_le)
  have hle := (hg.laidOut.abut.bounds (List.mem_map_of_mem hmem)).2
  have hcode : (g.spanOf id).isEmpty = false := by simpa [Span.isEmpty] using hlt
  refine ⟨code[(g.spanOf id).stop - 1], ?_⟩
  rw [lastInsn?, hcode]
  exact List.getElem?_eq_getElem (by omega)

/-- Linking code blocks keeps a graph linkable. -/
theorem Relinked.linkable {h : Graph} {among : Nat → Prop} (hrel : g.Relinked h among)
    (hamong : ∀ id, among id → id < g.codeBlocks) (hg : g.Linkable code) : h.Linkable code := by
  refine ⟨hrel.laidOut hamong hg.laidOut, ?_⟩
  intro id hid
  rw [hrel.sameCode.codeBlocks] at hid
  rw [hrel.sameCode.spanOf hid]
  exact hg.nonempty id hid

/-- So does marking code blocks. -/
theorem Extends.linkable {h : Graph} (hext : g.Extends h) (hlaid : h.LaidOut code.length) (hg : g.Linkable code) :
    h.Linkable code := by
  refine ⟨hlaid, ?_⟩
  intro id hid
  rw [hext.codeBlocks] at hid
  rw [(hext.sameCode hg.laidOut.codeBlocks_le).spanOf hid]
  exact hg.nonempty id hid

/-! ## Marking -/

/-- A block of a layout has a place to put another before. -/
theorem insertBefore_isSome (id : BlockId) {target : BlockId} {order : List BlockId} (h : target ∈ order) :
    ∃ order', insertBefore id target order = some order' := by
  induction order with
  | nil => cases h
  | cons b rest ih =>
    unfold insertBefore
    by_cases hb : b = target
    · rw [if_pos hb]
      exact ⟨_, rfl⟩
    · obtain ⟨rest', hrest⟩ := ih ((List.mem_cons.1 h).resolve_left fun heq => hb heq.symm)
      rw [if_neg hb, hrest]
      exact ⟨_, rfl⟩

/-- A marker can be put before any code block. -/
theorem LaidOut.addMarker_isOk {n : Nat} (hg : g.LaidOut n) (mark : Marker) {target : Nat} (htarget : target < g.codeBlocks) :
    ∃ h, g.addMarker mark target = .ok h := by
  have hlt := htarget.trans_le hg.codeBlocks_le
  have hblock : g.block? target = some g.blocks[target] := Array.getElem?_eq_getElem hlt
  obtain ⟨order, horder⟩ := insertBefore_isSome g.blocks.size (hg.mem_order.2 hlt)
  unfold addMarker
  rw [hblock, horder]
  exact ⟨_, rfl⟩

/-- The three markers of an entry can be put before any code blocks. -/
theorem LaidOut.addTriple_isOk {n : Nat} (hg : g.LaidOut n) (entry : Nat) {start stop handler : Nat}
    (hstart : start < g.codeBlocks) (hstop : stop < g.codeBlocks) (hhandler : handler < g.codeBlocks) :
    ∃ h, g.addTriple entry start stop handler = .ok h := by
  unfold addTriple
  dsimp only
  obtain ⟨g₁, h₁⟩ := hg.addMarker_isOk ⟨.tryStart, entry, g.blocks.size, g.blocks.size + 1, g.blocks.size + 2⟩ hstart
  obtain ⟨hlaid₁, hext₁, _⟩ := addMarker_spec hg hstart h₁
  obtain ⟨g₂, h₂⟩ := hlaid₁.addMarker_isOk ⟨.tryEnd, entry, g.blocks.size, g.blocks.size + 1, g.blocks.size + 2⟩
    (by rw [hext₁.codeBlocks]; exact hstop)
  obtain ⟨hlaid₂, hext₂, _⟩ := addMarker_spec hlaid₁ (by rw [hext₁.codeBlocks]; exact hstop) h₂
  obtain ⟨g₃, h₃⟩ := hlaid₂.addMarker_isOk ⟨.handler, entry, g.blocks.size, g.blocks.size + 1, g.blocks.size + 2⟩
    (by rw [hext₂.codeBlocks, hext₁.codeBlocks]; exact hhandler)
  exact ⟨g₃, bind_eq_ok.2 ⟨g₁, h₁, bind_eq_ok.2 ⟨g₂, h₂, h₃⟩⟩⟩

end Graph

/-! ## The producers -/

namespace Source

variable (src : Source) (g : Graph)

/-- A label that is missing is no fault. -/
theorem labelIndex_safely (label : Label) : Safely (src.labelIndex label) fun _ => True := by
  unfold labelIndex
  cases src.labels.index label with
  | ok index => exact trivial
  | error e => exact rfl

/-- Breaking before labels goes safely. -/
theorem labelBreaks_safely (labels : List Label) : Safely (src.labelBreaks labels) fun _ => True := by
  unfold labelBreaks
  refine (Safely.mapM (Q := fun _ => True) fun label _ => ?_).bind fun _ _ => trivial
  exact (src.labelIndex_safely label).bind fun _ _ => trivial

/-- A label that starts a block starts a code block. -/
theorem labelBlock_safely (label : Label) : Safely (src.labelBlock g label) (· < g.codeBlocks) := by
  refine .of_cases (fun id hid => (starts_of_labelBlock hid).1) ?_
  intro e he
  rcases bind_eq_error he with hindex | ⟨index, _, hblock⟩
  · exact (src.labelIndex_safely label).isFault hindex
  · split at hblock
    · cases hblock
    · cases hblock
      rfl

end Source

namespace Producer

variable {src : Source} {g : Graph}

/-- No producer asks for a block before the code is cut. -/
theorem breaks_safely {p : Producer} (hp : p ∈ all) : Safely (p.breaks src) fun _ => True := by
  simp only [all, List.mem_cons, List.not_mem_nil, or_false] at hp
  rcases hp with rfl | rfl | rfl
  · refine (Safely.mapM (Q := fun _ => True) ?_).bind fun _ _ => trivial
    rintro ⟨insn, index⟩ _
    dsimp only
    split
    · exact trivial
    · exact (src.labelBreaks_safely _).bind fun _ _ => trivial
  · refine (Safely.mapM (Q := fun _ => True) ?_).bind fun _ _ => trivial
    rintro ⟨insn, index⟩ _
    dsimp only
    split
    · exact (src.labelBreaks_safely _).bind fun _ _ => trivial
    · exact trivial
  · refine (Safely.mapM (Q := fun _ => True) ?_).bind fun _ _ => trivial
    intro entry _
    refine (src.labelBreaks_safely _).bind fun _ _ => ?_
    exact (src.labelIndex_safely _).bind fun _ _ => trivial

/-- A pass over the code blocks that links each of them. -/
theorem foldlM_linkBlock_safely {f : Graph → Nat → Except GraphError Graph} {code : List Insn}
    (hok : ∀ g id h, f g id = .ok h → g.Relinked h (· = id))
    (herror : ∀ g id e, g.Linkable code → id < g.codeBlocks → f g id = .error e → e.isFault = false) (hg : g.Linkable code) :
    Safely ((List.range g.codeBlocks).foldlM f g) fun h => h.Linkable code ∧ h.codeBlocks = g.codeBlocks := by
  refine Safely.foldlM ?_ ⟨hg, rfl⟩
  rintro h id hid ⟨hh, hcode⟩
  have hid : id < h.codeBlocks := by
    rw [hcode]
    exact List.mem_range.1 hid
  refine .of_cases ?_ fun e he => herror h id e hh hid he
  intro h' hh'
  have hrel := hok h id h' hh'
  exact ⟨hrel.linkable (fun other hother => hother ▸ hid) hh, hrel.sameCode.codeBlocks.trans hcode⟩

/-- Linking a jump of a graph that can be linked has no fault. -/
theorem jumps_linkBlock_error {id : Nat} {e : GraphError} (hg : g.Linkable src.method.code) (hid : id < g.codeBlocks)
    (h : jumps.linkBlock src g id = .error e) : e.isFault = false := by
  obtain ⟨insn, hlast⟩ := hg.exists_last hid
  unfold jumps.linkBlock at h
  split at h
  · rename_i hnone
    rw [hlast] at hnone
    cases hnone
  · cases h
  · cases h
  · rename_i label _
    rcases bind_eq_error h with htarget | ⟨_, _, h⟩
    · exact (src.labelBlock_safely g label).isFault htarget
    · cases h
  · rename_i test label _
    rcases bind_eq_error h with htarget | ⟨_, _, h⟩
    · exact (src.labelBlock_safely g label).isFault htarget
    · split at h
      · cases h
      · cases h
        rfl
  · cases h

/-- Linking a switch of a graph that can be linked has no fault. -/
theorem switches_linkBlock_error {id : Nat} {e : GraphError} (hg : g.Linkable src.method.code) (hid : id < g.codeBlocks)
    (h : switches.linkBlock src g id = .error e) : e.isFault = false := by
  obtain ⟨insn, hlast⟩ := hg.exists_last hid
  unfold switches.linkBlock at h
  split at h
  · rename_i hnone
    rw [hlast] at hnone
    cases hnone
  · rename_i otherwise arms _
    rcases bind_eq_error h with harms | ⟨_, _, h⟩
    · refine (Safely.mapM (Q := fun _ => True) fun arm _ => ?_).isFault harms
      exact (src.labelBlock_safely g arm.2).bind fun _ _ => trivial
    · rcases bind_eq_error h with hdefault | ⟨_, _, h⟩
      · exact (src.labelBlock_safely g otherwise).isFault hdefault
      · cases h
  · cases h

/-- Adding the marks of tries goes safely. -/
theorem tries_link_safely (hg : g.Linkable src.method.code) :
    Safely (tries.link src g) fun h => h.Linkable src.method.code ∧ h.codeBlocks = g.codeBlocks := by
  refine Safely.bind (Q := fun targets : List (Nat × Nat × Nat) => ∀ target ∈ targets, target.1 < g.codeBlocks ∧
    target.2.1 < g.codeBlocks ∧ target.2.2 < g.codeBlocks) (Safely.mapM fun entry _ => ?_) fun targets htargets => ?_
  · refine (src.labelBlock_safely g _).bind fun start hstart => ?_
    refine (src.labelBlock_safely g _).bind fun stop hstop => ?_
    refine (src.labelBlock_safely g _).bind fun handler hhandler => ?_
    exact ⟨hstart, hstop, hhandler⟩
  · refine Safely.foldlM ?_ ⟨hg, rfl⟩
    rintro h ⟨⟨start, stop, handler⟩, entry⟩ hitem ⟨hh, hcode⟩
    have htarget := htargets _ (List.fst_mem_of_mem_zipIdx (List.mem_reverse.1 hitem))
    rw [← hcode] at htarget
    obtain ⟨hstart, hstop, hhandler⟩ := htarget
    obtain ⟨h', hadd⟩ := hh.laidOut.addTriple_isOk entry hstart hstop hhandler
    obtain ⟨hlaid, hext, _⟩ := Graph.addTriple_spec hh.laidOut hstart hstop hhandler hadd
    dsimp only
    rw [hadd]
    exact ⟨hext.linkable hlaid hh, hext.codeBlocks.trans hcode⟩

/-- From a graph that can be linked each producer makes one, and asks for no block that does not exist. -/
theorem link_safely {p : Producer} (hp : p ∈ all) (hg : g.Linkable src.method.code) :
    Safely (p.link src g) fun h => h.Linkable src.method.code ∧ h.codeBlocks = g.codeBlocks := by
  simp only [all, List.mem_cons, List.not_mem_nil, or_false] at hp
  rcases hp with rfl | rfl | rfl
  · exact foldlM_linkBlock_safely (fun _ _ _ h => (jumps_linkBlock h).1) (fun _ _ _ => jumps_linkBlock_error) hg
  · exact foldlM_linkBlock_safely (fun _ _ _ h => (switches_linkBlock h).1) (fun _ _ _ => switches_linkBlock_error) hg
  · exact tries_link_safely hg

end Producer

/-- Building a graph never asks for a block that does not exist. -/
theorem Graph.build_safely (src : Source) : Safely (Graph.build src Producer.all) fun _ => True := by
  unfold Graph.build
  dsimp only
  refine (Safely.mapM fun p hp => Producer.breaks_safely hp).bind fun breaks _ => ?_
  refine (Safely.foldlM (I := (·.Linkable src.method.code)) ?_ (Graph.linkable_ofSpans _)).bind fun g _ => ?_
  · intro g p hp hg
    exact (Producer.link_safely hp hg).mono fun h hh => hh.1
  · split
    · exact rfl
    · exact trivial

/-! ## The graph that is left -/

/-- The blocks that a block names: those control goes to from it, or those of its entry. -/
def BlockKind.names : BlockKind → List BlockId
  | .body next => next.toList
  | .goto target => [target]
  | .branch _ target next => [target, next]
  | .switch arms otherwise => otherwise :: arms.map (·.2)
  | .exit => []
  | .marker mark => [mark.start, mark.stop, mark.handler]

namespace Graph

/-- Whatever a graph names is there: blocks, entries of the table of handlers, and code. -/
structure InRange (m : Method) (g : Graph) : Prop where
  codeBlocks_le : g.codeBlocks ≤ g.blocks.size
  /-- Every block has one place in the layout. -/
  order : g.order.Perm (List.range g.blocks.size)
  spans : ∀ id block, g.block? id = some block → block.span.start ≤ block.span.stop ∧ block.span.stop ≤ m.code.length
  /-- A block that is no marker holds code, so that it has a last instruction. -/
  unmarked : ∀ id block, g.block? id = some block → (∀ mark, block.kind ≠ .marker mark) →
    id < g.codeBlocks ∧ block.span.start < block.span.stop
  names : ∀ id block, g.block? id = some block → ∀ other ∈ block.kind.names, other < g.blocks.size
  entries : ∀ id mark, g.marker? id = some mark → mark.entry < m.handlerTable.length

variable {src : Source} {g : Graph}

/-- The next block of the code is one of its blocks. -/
theorem nextCodeBlock?_lt {id next : BlockId} (h : g.nextCodeBlock? id = some next) : next < g.codeBlocks := by
  unfold nextCodeBlock? at h
  split at h
  · rename_i hlt
    cases h
    exact hlt
  · cases h

/-- Where control goes from a block are code blocks. -/
theorem Dictated.lt_of_mem_names {id : Nat} {last : Option Insn} {kind : BlockKind} (h : Dictated src g id last kind)
    {other : BlockId} (hother : other ∈ kind.names) : other < g.codeBlocks := by
  cases h with
  | ret _ => cases hother
  | throw => cases hother
  | goto htarget =>
    rw [List.mem_singleton.1 hother]
    exact htarget.1
  | jump htarget hnext =>
    rcases List.mem_cons.1 hother with rfl | hother
    · exact htarget.1
    · rw [List.mem_singleton.1 hother]
      exact nextCodeBlock?_lt hnext
  | switch hdefault harms =>
    rcases List.mem_cons.1 hother with rfl | hother
    · exact hdefault.1
    · obtain ⟨target, htarget, rfl⟩ := List.mem_map.1 hother
      obtain ⟨arm, _, harm⟩ := exists_mem_of_forall₂_right harms htarget
      exact harm.2.1
  | plain _ =>
    simp only [BlockKind.names, Option.mem_toList] at hother
    exact nextCodeBlock?_lt hother

/-- In a graph that has been built all names are in range. -/
theorem Built.inRange (hb : Built src g) : g.InRange src.method := by
  have hle := hb.laidOut.codeBlocks_le
  refine ⟨hle, hb.laidOut.perm, ?_, ?_, ?_, ?_⟩
  · intro id block hblock
    have hspan : g.spanOf id = block.span := by rw [spanOf, hblock]; rfl
    rw [← hspan]
    exact hb.spanOf_bounds id
  · rintro id ⟨span, kind⟩ hblock hkind
    have hid := hb.lt_codeBlocks_of_block? hblock hkind
    have hspan : g.spanOf id = span := by rw [spanOf, hblock]; rfl
    exact ⟨hid, hspan ▸ hb.nonempty id hid⟩
  · rintro id ⟨span, kind⟩ hblock other hother
    by_cases hid : id < g.codeBlocks
    · obtain ⟨kind', hblock', hdictated⟩ := hb.dictated id hid
      cases hblock.symm.trans hblock'
      exact (hdictated.lt_of_mem_names hother).trans_le hle
    · obtain ⟨first, e, entry, start, stop, handler, _, _, _, _, htriple, _, hcase⟩ :=
        hb.exists_triple (Nat.le_of_not_lt hid) (lt_size_of_block? hblock)
      have hlast := lt_size_of_block? htriple.atHandler
      have hnames : kind.names = [first, first + 1, first + 2] := by
        rcases hcase with rfl | rfl | rfl
        · cases hblock.symm.trans htriple.atStart
          rfl
        · cases hblock.symm.trans htriple.atStop
          rfl
        · cases hblock.symm.trans htriple.atHandler
          rfl
      dsimp only at hother
      rw [hnames] at hother
      simp only [List.mem_cons, List.not_mem_nil, or_false] at hother
      rcases hother with heq | heq | heq <;> rw [heq]
      · exact (Nat.le_add_right first 2).trans_lt hlast
      · exact (Nat.lt_succ_self (first + 1)).trans hlast
      · exact hlast
  · intro id mark hmark
    obtain ⟨entry, start, stop, handler, hm⟩ := hb.markerOf hmark
    exact (List.getElem?_eq_some_iff.1 hm.entryAt).1

end Graph

end CodeLift
