import Dataflow.Proofs.CheckInsertion

/-!
# Numbers are never handed out twice

A graph is changed call by call, by whoever holds it. Quads get their numbers
from three places: the script that built the graph, a caller that puts a quad
with a number of its own choice into a block, and the graph itself, when it is
asked for a fresh number. This file follows a graph through any sequence of
calls and shows that a fresh number is fresh: above all numbers that are in the
graph, whoever chose them, and above all that were handed out before, whether
they were used or not. Nothing that a call does takes away a block or a quad or
renumbers it.

Inserting null checks asks for numbers as well, and may fail half way. It is
taken apart into the calls that it makes (`Graph.splitCalls`), so that its calls
stand in the history of the graph like all others and whatever holds of a call
holds of them.

What carries the argument is `Graph.Issued`: the keys lie below one counter and
the numbers handed out below the other. Quads that a caller has put in may lie
above it, which is why a fresh number looks at the graph too.
-/

namespace Dataflow

/-! ## Calls and what they answer -/

/-- A change to one block. -/
inductive Change where
  | push (q : Quad)
  | withSucc (s : BlockId)
  | withPred (p : BlockId)
  | divertSucc (old new : BlockId)
  | divertPred (old new : BlockId)
  | retargetLast (target : BlockId)

def Change.apply : Change → Block → Block
  | .push q => (·.push q)
  | .withSucc s => (·.withSucc s)
  | .withPred p => (·.withPred p)
  | .divertSucc old new => (·.divertSucc old new)
  | .divertPred old new => (·.divertPred old new)
  | .retargetLast target => (·.retargetLast target)

/-- A call that changes a graph. -/
inductive Call where
  | freshQuad
  | freshBlock
  | change (b : BlockId) (c : Change)
  | connect (a b : BlockId)

/-- What a call answers that goes well. -/
inductive Answer where
  | quad (q : QuadId)
  | block (b : BlockId)
  | done

/-- A call made on a graph. -/
structure Act where
  before : Graph
  call : Call

namespace Act

/-- The graph after a call, and the answer. A call that fails changes
nothing. -/
def outcome (x : Act) : Graph × Except Error Answer :=
  match x.call with
  | .freshQuad =>
    match x.before.freshQuad with
    | .ok (q, g) => (g, .ok (.quad q))
    | .error f => (x.before, .error (.fault f))
  | .freshBlock =>
    match x.before.freshBlock with
    | .ok (b, g) => (g, .ok (.block b))
    | .error f => (x.before, .error (.fault f))
  | .change b c =>
    match x.before.editBlock b c.apply with
    | .ok g => (g, .ok .done)
    | .error e => (x.before, .error e)
  | .connect a b =>
    match x.before.connect a b with
    | .ok g => (g, .ok .done)
    | .error e => (x.before, .error e)

def after (x : Act) : Graph := x.outcome.1

def answer (x : Act) : Except Error Answer := x.outcome.2

/-- The quad number that a call has handed out. -/
def handed? (x : Act) : Option QuadId :=
  match x.answer with
  | .ok (.quad q) => some q
  | _ => none

end Act

/-- Calls one after the other, from one graph to another. -/
def Chain : Graph → List Act → Graph → Prop
  | g, [], g' => g' = g
  | g, x :: rest, g' => x.before = g ∧ Chain x.after rest g'

theorem Chain.append {xs ys : List Act} {g₁ g₂ g₃ : Graph} (h : Chain g₁ xs g₂)
    (h' : Chain g₂ ys g₃) : Chain g₁ (xs ++ ys) g₃ := by
  induction xs generalizing g₁ with
  | nil =>
      cases h
      exact h'
  | cons x rest ih => exact ⟨h.1, ih h.2⟩

theorem Chain.split {xs ys : List Act} {g g' : Graph}
    (h : Chain g (xs ++ ys) g') : ∃ mid, Chain g xs mid ∧ Chain mid ys g' := by
  induction xs generalizing g with
  | nil => exact ⟨g, rfl, h⟩
  | cons x rest ih =>
      obtain ⟨mid, hrest, hys⟩ := ih h.2
      exact ⟨mid, ⟨h.1, hrest⟩, hys⟩

namespace Graph

/-- Makes calls up to the first that fails: the graph then, and whether all went
well. -/
def perform (g : Graph) : List Call → Graph × Except Error Unit
  | [] => (g, .ok ())
  | c :: rest =>
    match (Act.mk g c).outcome with
    | (g', .ok _) => g'.perform rest
    | (g', .error e) => (g', .error e)

/-- The calls that are made in doing so. -/
def performed (g : Graph) : List Call → List Act
  | [] => []
  | c :: rest =>
    ⟨g, c⟩ :: match (Act.mk g c).outcome with
      | (g', .ok _) => g'.performed rest
      | (_, .error _) => []

/-- The calls that split one edge. -/
def splitCalls (guard : Option Register) (s : Site) (g : Graph) : List Call :=
  let check : Quad := ⟨⟨g.topQuad.val + 1⟩, .nullCheck guard s.register⟩
  let b : BlockId := ⟨g.nextBlock⟩
  [.freshQuad, .freshBlock, .change b (.push check),
    .change b (.withPred s.block), .change b (.withSucc s.nonNull),
    .change s.block (.divertSucc s.nonNull b)] ++
    (if s.taken then [.change s.block (.retargetLast b)] else []) ++
    [.change s.nonNull (.divertPred s.block b)]

/-- The calls made in splitting edges one after the other. -/
def splitActs (guard : Option Register) : List Site → Graph → List Act
  | [], _ => []
  | s :: rest, g =>
    g.performed (splitCalls guard s g) ++
      match splitEdge guard s g with
      | (g', .ok _) => splitActs guard rest g'
      | (_, .error _) => []

/-- The calls made in inserting null checks. -/
def insertionActs (g : Graph) : List Act :=
  match g.templateGuard? with
  | some guard => splitActs guard (g.nullTests.filterMap NullTest.site?) g
  | none => []

end Graph

/-- What can be asked of a graph from outside. -/
inductive Request where
  | call (c : Call)
  | insertChecks

/-- The graph after a request, whatever came of it. -/
def Request.apply (g : Graph) : Request → Graph
  | .call c => (Act.mk g c).after
  | .insertChecks => g.insertChecks.graph

def Request.acts (g : Graph) : Request → List Act
  | .call c => [⟨g, c⟩]
  | .insertChecks => g.insertionActs

namespace Graph

/-- The graph after requests. -/
def serve (g : Graph) (requests : List Request) : Graph :=
  requests.foldl Request.apply g

/-- All calls that are made in serving requests. -/
def history (g : Graph) : List Request → List Act
  | [] => []
  | r :: rest => r.acts g ++ (r.apply g).history rest

end Graph

/-! ## Inserting checks is a sequence of calls -/

/-- Two changes under one key count as one. -/
theorem KeyedList.modify_modify {κ β : Type} [DecidableEq κ]
    (m : KeyedList κ β) (k : κ) (f f' : β → β) :
    (m.modify k f).modify k f' = m.modify k (f' ∘ f) := by
  apply eq_of_entries
  simp only [modify, List.map_map]
  apply List.map_congr_left
  intro e _
  by_cases h : e.1 = k <;> simp [h]

namespace Graph

variable {g : Graph} {guard : Option Register} {s : Site}

theorem chain_performed (calls : List Call) :
    ∀ g : Graph, Chain g (g.performed calls) (g.perform calls).1 := by
  induction calls with
  | nil => exact fun g => rfl
  | cons c rest ih =>
      intro g
      refine ⟨rfl, ?_⟩
      simp only [perform, Act.after]
      split
      · next g' a hout =>
          rw [hout]
          exact ih g'
      · next g' e hout =>
          rw [hout]
          rfl

theorem perform_eq_error_iff {e : Error} (calls : List Call) :
    ∀ g : Graph, (g.perform calls).2 = .error e ↔
      ∃ x ∈ g.performed calls, x.answer = .error e := by
  induction calls with
  | nil => simp [perform, performed]
  | cons c rest ih =>
      intro g
      simp only [perform, performed, List.mem_cons, exists_eq_or_imp,
        Act.answer]
      split
      · next g' a hout => simp [hout, ih g', Act.answer]
      · next g' e' hout => simp [hout]

/-- A call that was made had all calls before it go well. -/
theorem exists_of_mem_performed {calls : List Call} {x : Act} :
    ∀ {g : Graph}, x ∈ g.performed calls →
      ∃ pre post, calls = pre ++ x.call :: post ∧
      x.before = (g.perform pre).1 ∧ (g.perform pre).2 = .ok () := by
  induction calls with
  | nil => exact fun hx => absurd hx (List.not_mem_nil)
  | cons c rest ih =>
      intro g hx
      rcases List.mem_cons.1 hx with rfl | hx
      · exact ⟨[], rest, rfl, rfl, rfl⟩
      · split at hx
        · next g' a hout =>
            obtain ⟨pre, post, hcalls, hbefore, hok⟩ := ih hx
            refine ⟨c :: pre, post, by rw [hcalls]; rfl, ?_, ?_⟩
            · rw [perform, hout]
              exact hbefore
            · rw [perform, hout]
              exact hok
        · cases hx

theorem outcome_change_of_mem {b : BlockId} (hb : b ∈ g.blocks.keys)
    (c : Change) :
    (Act.mk g (.change b c)).outcome =
      ({ g with blocks := g.blocks.modify b c.apply }, .ok .done) := by
  simp [Act.outcome, editBlock, KeyedList.contains, hb]

theorem outcome_change_of_notMem {b : BlockId} (hb : b ∉ g.blocks.keys)
    (c : Change) :
    (Act.mk g (.change b c)).outcome = (g, .error (.unknownBlock b)) := by
  simp [Act.outcome, editBlock, KeyedList.contains, hb]

theorem perform_change {b : BlockId} (hb : b ∈ g.blocks.keys) (c : Change)
    (rest : List Call) : g.perform (.change b c :: rest) =
      { g with blocks := g.blocks.modify b c.apply }.perform rest := by
  rw [perform, outcome_change_of_mem hb]

theorem freshQuad_ok {g' : Graph} {q : QuadId} (h : g.freshQuad = .ok (q, g')) :
    q = ⟨g.topQuad.val + 1⟩ ∧
      g' = { g with nextQuad := g.topQuad.val + 2 } := by
  simp only [freshQuad] at h
  split at h
  · cases h
    exact ⟨rfl, rfl⟩
  · cases h

/-- Two changes to the block behind a branch count as one, and nothing is lost
with the event that a split ends in. -/
theorem perform_divert (s : Site) (b : BlockId) (g : Graph) (event : Event) :
    g.perform (.change s.block (.divertSucc s.nonNull b) ::
        ((if s.taken then [.change s.block (.retargetLast b)] else []) ++
          [.change s.nonNull (.divertPred s.block b)])) =
      let ended : Graph × Except Error Event :=
        match g.editBlock s.block fun blk =>
            let blk := blk.divertSucc s.nonNull b
            if s.taken then blk.retargetLast b else blk with
        | .error e => (g, .error e)
        | .ok g =>
          match g.editBlock s.nonNull fun blk => blk.divertPred s.block b with
          | .error e => (g, .error e)
          | .ok g => (g, .ok event)
      (ended.1, ended.2.map fun _ => ()) := by
  by_cases hfrom : s.block ∈ g.blocks.keys
  · by_cases hto : s.nonNull ∈ g.blocks.keys <;> cases htaken : s.taken <;>
      simp [perform, outcome_change_of_mem, outcome_change_of_notMem,
        hfrom, hto, editBlock, KeyedList.contains, KeyedList.modify_modify,
        Change.apply, Function.comp_def, Except.map]
  · simp [perform, outcome_change_of_notMem hfrom, editBlock,
      KeyedList.contains, hfrom, Except.map]

/-- Splitting an edge is making its calls. -/
theorem perform_splitCalls (guard : Option Register) (s : Site) (g : Graph) :
    g.perform (splitCalls guard s g) =
      ((splitEdge guard s g).1, (splitEdge guard s g).2.map fun _ => ()) := by
  simp only [splitCalls, splitEdge, List.cons_append, List.nil_append]
  cases hquad : g.freshQuad with
  | error f => simp [perform, Act.outcome, hquad, Except.map]
  | ok made =>
      obtain ⟨q, g₁⟩ := made
      obtain ⟨rfl, hg₁⟩ := freshQuad_ok hquad
      cases hblock : g₁.freshBlock with
      | error f => simp [perform, Act.outcome, hquad, hblock, Except.map]
      | ok made =>
          obtain ⟨b, g₂⟩ := made
          obtain ⟨hb, next, -, hg₂⟩ := Draft.freshBlock_eq hblock
          have hnew : (⟨g.nextBlock⟩ : BlockId) = b := by rw [hb, hg₁]
          have hmem : b ∈ g₂.blocks.keys := by
            rw [hg₂]
            show b ∈ (g₁.blocks.insert b (.new b)).keys
            rw [KeyedList.keys_insert]
            split
            · assumption
            · simp
          rw [hnew, perform, Act.outcome]
          simp only [hquad]
          rw [perform, Act.outcome]
          simp only [hblock]
          rw [perform_change hmem, perform_change (by simpa using hmem),
            perform_change (by simpa using hmem), KeyedList.modify_modify,
            KeyedList.modify_modify,
            perform_divert s b _ (.checkInserted s.branch
              ⟨g.topQuad.val + 1⟩ s.register b)]
          rfl

/-- Splitting edges is a chain of calls, and fails as the last of them does. -/
theorem chain_splitActs (guard : Option Register) (sites : List Site) :
    ∀ g : Graph,
      Chain g (splitActs guard sites g) (splitEdges guard sites g).1 ∧
      ∀ e, (splitEdges guard sites g).2.2 = .error e ↔
        ∃ x ∈ splitActs guard sites g, x.answer = .error e := by
  induction sites with
  | nil => exact fun g => ⟨rfl, by simp [splitEdges, splitActs]⟩
  | cons s rest ih =>
      intro g
      have hchain := chain_performed (splitCalls guard s g) g
      have herror :=
        fun e => perform_eq_error_iff (e := e) (splitCalls guard s g) g
      rw [perform_splitCalls] at hchain
      simp only [perform_splitCalls] at herror
      rcases hsplit : splitEdge guard s g with ⟨g', e | event⟩
      · rw [hsplit] at hchain herror
        simp only [splitActs, splitEdges, hsplit, List.append_nil]
        exact ⟨hchain, fun e => (by simpa [Except.map] using herror e)⟩
      · rw [hsplit] at hchain herror
        simp only [splitActs, splitEdges, hsplit]
        obtain ⟨hrest, hfail⟩ := ih g'
        refine ⟨hchain.append hrest, fun e => ?_⟩
        have hnone : ¬ ∃ x ∈ g.performed (splitCalls guard s g),
            x.answer = .error e := by
          rw [← herror]
          simp [Except.map]
        simp only [List.mem_append, or_and_right, exists_or]
        rw [hfail, or_iff_right hnone]

/-- Inserting checks is a chain of calls, and faults as the last of them
does. -/
theorem chain_insertionActs (g : Graph) :
    Chain g g.insertionActs g.insertChecks.graph ∧
      ∀ f, g.insertChecks.result = .error (.fault f) ↔
        ∃ x ∈ g.insertionActs, x.answer = .error (.fault f) := by
  simp only [insertionActs, insertChecks]
  cases htemplate : g.templateGuard? with
  | none =>
      dsimp only
      split
      · exact ⟨rfl, by simp⟩
      · exact ⟨rfl, by simp⟩
  | some guard =>
      dsimp only
      split
      · next hnone =>
          rw [List.isEmpty_iff.1 hnone]
          exact ⟨rfl, by simp [splitActs]⟩
      · obtain ⟨hchain, hfail⟩ :=
          chain_splitActs guard (g.nullTests.filterMap NullTest.site?) g
        rcases hedges :
          splitEdges guard (g.nullTests.filterMap NullTest.site?) g
          with ⟨g', events, e | done⟩
        · rw [hedges] at hchain hfail
          exact ⟨hchain, fun f => by simpa using hfail (.fault f)⟩
        · rw [hedges] at hchain hfail
          exact ⟨hchain, fun f => by simpa using hfail (.fault f)⟩

theorem chain_history (requests : List Request) :
    ∀ g : Graph, Chain g (g.history requests) (g.serve requests) := by
  induction requests with
  | nil => exact fun g => rfl
  | cons r rest ih =>
      intro g
      refine Chain.append ?_ (ih (r.apply g))
      cases r with
      | call c => exact ⟨rfl, rfl⟩
      | insertChecks => exact g.chain_insertionActs.1

end Graph

/-! ## What one call does -/

namespace Graph

/-- The blocks of the first graph stand in the second under the same keys, each
with its number and with the numbers of its quads in their places. Keys and
quads may have come in addition, behind those that were there. -/
structure Keeps (g g' : Graph) : Prop where
  keys : g.blocks.keys <+: g'.blocks.keys
  block : ∀ k blk, g.block? k = some blk → ∃ blk', g'.block? k = some blk' ∧
    blk'.id = blk.id ∧ blk.quads.map Quad.id <+: blk'.quads.map Quad.id

theorem Keeps.refl (g : Graph) : g.Keeps g :=
  ⟨List.prefix_refl _, fun _ blk hblk => ⟨blk, hblk, rfl, List.prefix_refl _⟩⟩

theorem Keeps.trans {g₁ g₂ g₃ : Graph} (h : g₁.Keeps g₂) (h' : g₂.Keeps g₃) :
    g₁.Keeps g₃ := by
  refine ⟨h.keys.trans h'.keys, fun k blk hblk => ?_⟩
  obtain ⟨blk', hblk', hid, hquads⟩ := h.block k blk hblk
  obtain ⟨blk'', hblk'', hid', hquads'⟩ := h'.block k blk' hblk'
  exact ⟨blk'', hblk'', hid'.trans hid, hquads.trans hquads'⟩

end Graph

theorem Block.ids_retargetLast (blk : Block) (target : BlockId) :
    (blk.retargetLast target).quads.map Quad.id = blk.quads.map Quad.id := by
  simp only [retargetLast]
  cases hlast : blk.last? with
  | none =>
      have hnil : blk.quads = [] := by simpa [last?] using hlast
      simp [hnil]
  | some q =>
      conv_rhs => rw [quads_of_last hlast]
      simp

/-- A change to a block may add a quad to it, and that is all. -/
theorem Change.keeps (c : Change) (blk : Block) : (c.apply blk).id = blk.id ∧
    blk.quads.map Quad.id <+: (c.apply blk).quads.map Quad.id := by
  cases c with
  | push q => exact ⟨rfl, by simp [Change.apply, Block.push]⟩
  | withSucc s => exact ⟨rfl, List.prefix_refl _⟩
  | withPred p => exact ⟨rfl, List.prefix_refl _⟩
  | divertSucc old new =>
      simp [Change.apply, Block.divertSucc_eq]
  | divertPred old new =>
      simp [Change.apply, Block.divertPred_eq]
  | retargetLast target =>
      simp only [Change.apply, Block.ids_retargetLast]
      exact ⟨rfl, List.prefix_refl _⟩

namespace Graph

variable {g g' : Graph}

/-- A change to the blocks alone that keeps what is there and makes no block. -/
structure Amended (g g' : Graph) : Prop extends g.Keeps g' where
  same_keys : g'.blocks.keys = g.blocks.keys
  nextQuad : g'.nextQuad = g.nextQuad
  nextBlock : g'.nextBlock = g.nextBlock

theorem Amended.trans {g₁ g₂ g₃ : Graph} (h : g₁.Amended g₂)
    (h' : g₂.Amended g₃) : g₁.Amended g₃ :=
  ⟨h.toKeeps.trans h'.toKeeps, h'.same_keys.trans h.same_keys,
    h'.nextQuad.trans h.nextQuad, h'.nextBlock.trans h.nextBlock⟩

theorem amended_of_editBlock {b : BlockId} {c : Change}
    (h : g.editBlock b c.apply = .ok g') : g.Amended g' := by
  rw [editBlock_eq h]
  have hkeys : (g.blocks.modify b c.apply).keys = g.blocks.keys :=
    KeyedList.keys_modify ..
  refine ⟨⟨hkeys ▸ List.prefix_refl _, fun k blk hblk => ?_⟩, hkeys, rfl, rfl⟩
  refine ⟨if k = b then c.apply blk else blk, ?_, ?_⟩
  · rw [block?, KeyedList.get?_modify_eq_map,
      show g.blocks.get? k = some blk from hblk]
    rfl
  · split
    · exact c.keeps blk
    · exact ⟨rfl, List.prefix_refl _⟩

theorem amended_of_connect {a b : BlockId} (h : g.connect a b = .ok g') :
    g.Amended g' := by
  simp only [connect] at h
  split at h
  · cases h
  · cases hfirst : g.editBlock a (·.withSucc b) with
    | error e => rw [hfirst] at h; cases h
    | ok g₁ =>
        rw [hfirst] at h
        have hsecond : g₁.editBlock b (·.withPred a) = .ok g' := h
        exact (amended_of_editBlock (c := .withSucc b) hfirst).trans
          (amended_of_editBlock (c := .withPred a) hsecond)

end Graph

/-- All that a call can come to. -/
theorem Act.outcome_cases (x : Act) :
    (∃ e, x.outcome = (x.before, .error e)) ∨
    (∃ q g', x.before.freshQuad = .ok (q, g') ∧
      x.outcome = (g', .ok (.quad q))) ∨
    (∃ b g', x.before.freshBlock = .ok (b, g') ∧
      x.outcome = (g', .ok (.block b))) ∨
    ∃ g', x.before.Amended g' ∧ x.outcome = (g', .ok .done) := by
  obtain ⟨g, call⟩ := x
  cases call with
  | freshQuad =>
      simp only [Act.outcome]
      rcases hmade : g.freshQuad with f | ⟨q, g'⟩
      · exact Or.inl ⟨_, rfl⟩
      · exact Or.inr (Or.inl ⟨q, g', rfl, rfl⟩)
  | freshBlock =>
      simp only [Act.outcome]
      rcases hmade : g.freshBlock with f | ⟨b, g'⟩
      · exact Or.inl ⟨_, rfl⟩
      · exact Or.inr (Or.inr (Or.inl ⟨b, g', rfl, rfl⟩))
  | change b c =>
      simp only [Act.outcome]
      rcases hmade : g.editBlock b c.apply with e | g'
      · exact Or.inl ⟨_, rfl⟩
      · exact Or.inr
          (Or.inr (Or.inr ⟨g', Graph.amended_of_editBlock hmade, rfl⟩))
  | connect a b =>
      simp only [Act.outcome]
      rcases hmade : g.connect a b with e | g'
      · exact Or.inl ⟨_, rfl⟩
      · exact Or.inr (Or.inr (Or.inr ⟨g', Graph.amended_of_connect hmade, rfl⟩))

/-! ## Fresh numbers -/

namespace Graph

variable {g g' : Graph}

theorem mem_allQuads {q : Quad} :
    q ∈ g.allQuads ↔ ∃ k blk, g.block? k = some blk ∧ q ∈ blk.quads := by
  simp only [allQuads, List.mem_flatMap, KeyedList.values, List.mem_map]
  constructor
  · rintro ⟨blk, ⟨⟨k, blk⟩, hmem, rfl⟩, hq⟩
    exact ⟨k, blk, KeyedList.get?_of_mem_entries hmem, hq⟩
  · rintro ⟨k, blk, hblk, hq⟩
    exact ⟨blk, ⟨_, KeyedList.mem_entries_of_get? hblk, rfl⟩, hq⟩

theorem id_le_topQuad {q : Quad} (hq : q ∈ g.allQuads) :
    q.id.val ≤ g.topQuad.val :=
  ((foldl_max_le_iff _ _).1 (UInt32.le_refl _)).2 _
    (List.mem_map.2 ⟨q, hq, rfl⟩)

theorem id_lt_freshQuad {q : QuadId} (h : g.freshQuad = .ok (q, g')) {p : Quad}
    (hp : p ∈ g.allQuads) : p.id.val < q.val := by
  simp only [freshQuad] at h
  split at h
  · next hroom =>
      cases h
      have hle := UInt32.le_iff_toNat_le.1 (id_le_topQuad hp)
      rw [UInt32.lt_iff_toNat_lt, Draft.toNat_next (by omega)]
      omega
  · cases h

theorem freshQuad_eq_error_iff {f : Fault} :
    g.freshQuad = .error f ↔
      f = .overflow ∧ UInt32.size - 2 ≤ g.topQuad.val.toNat := by
  simp only [freshQuad, UInt32.size]
  split
  · next hroom => simp; omega
  · next hroom => simp [eq_comm]; omega

theorem freshBlock_eq_error_iff {f : Fault} :
    g.freshBlock = .error f ↔
      f = .overflow ∧ g.nextBlock.toNat = UInt32.size - 1 := by
  have hword := g.nextBlock.toNat_lt
  simp only [freshBlock, UInt32.size]
  split
  · next hroom => simp; omega
  · next hroom => simp [eq_comm]; omega

/-- The keys lie below the counter of blocks, and the quad numbers that were
handed out lie below the counter of quads. -/
structure Issued (g : Graph) (handed : List QuadId) : Prop where
  keys : ∀ b ∈ g.blocks.keys, b.val < g.nextBlock
  quads : ∀ q ∈ handed, q.val < g.nextQuad

theorem Issued.notMem {handed : List QuadId} (h : g.Issued handed) :
    (⟨g.nextBlock⟩ : BlockId) ∉ g.blocks.keys :=
  fun hb => UInt32.lt_irrefl _ (h.keys _ hb)

/-- A graph that is new or comes from a script. -/
def AtStart (g : Graph) : Prop :=
  (∃ m, g = .new m) ∨ ∃ name script, Graph.build name script = .ok g

theorem AtStart.issued (h : g.AtStart) : g.Issued [] := by
  refine ⟨?_, by simp⟩
  rcases h with ⟨m, rfl⟩ | ⟨name, script, hbuild⟩
  · show ∀ b ∈ [BlockId.entry, BlockId.exit], b.val < 2
    decide
  · obtain ⟨d, hrun, hfinish⟩ := exists_draft hbuild
    have hsound := Draft.sound_kept.run (Draft.new_sound name) hrun
    obtain ⟨-, -, rfl⟩ := Draft.finish_eq_ok_iff.1 hfinish
    intro b hb
    refine hsound.fresh b (Option.isSome_iff_ne_none.2 fun hnone => ?_)
    exact KeyedList.get?_eq_none_iff.1 hnone hb

end Graph

namespace Act

variable {x : Act} {handed : List QuadId}

/-- What a call keeps of the counters. -/
theorem issued_after (h : x.before.Issued handed) :
    x.after.Issued (handed ++ x.handed?.toList) := by
  simp only [after, handed?, answer]
  rcases x.outcome_cases with
    ⟨e, hout⟩ | ⟨q, g', hfresh, hout⟩ | ⟨b, g', hfresh, hout⟩ |
    ⟨g', hamended, hout⟩
  · simpa [hout] using h
  · obtain ⟨habove, next, hbelow, hg'⟩ := Graph.freshQuad_eq hfresh
    rw [hout]
    refine ⟨by rw [hg']; exact h.keys, fun p hp => ?_⟩
    have hnext : q.val < g'.nextQuad := by rw [hg']; exact hbelow
    rcases List.mem_append.1 hp with hp | hp
    · exact UInt32.lt_trans (UInt32.lt_of_lt_of_le (h.quads p hp) habove) hnext
    · rw [List.mem_singleton.1 hp]
      exact hnext
  · obtain ⟨hb, next, hnext, hg'⟩ := Draft.freshBlock_eq hfresh
    rw [hout, hg']
    refine ⟨fun k hk => ?_, by simpa using h.quads⟩
    have hkeys : (x.before.blocks.insert b (.new b)).keys =
        x.before.blocks.keys ++ [b] := by
      rw [KeyedList.keys_insert, if_neg (hb ▸ h.notMem)]
    rcases List.mem_append.1 (hkeys ▸ hk) with hk | hk
    · exact UInt32.lt_trans (h.keys k hk) hnext
    · rw [List.mem_singleton.1 hk, hb]
      exact hnext
  · rw [hout]
    refine ⟨?_, ?_⟩
    · rw [hamended.same_keys, hamended.nextBlock]
      exact h.keys
    · simpa [hamended.nextQuad] using h.quads

/-- What is asked of a call, when the given numbers were handed out before it.
It loses nothing. A quad number that it hands out is above all of these and
above all in the graph. A block that it makes is new, and the other blocks are
as they were. Asked for a number it answers with one, unless a counter has come
to its end, and in no other case does a call fault. -/
structure Sound (handed : List QuadId) (x : Act) : Prop where
  keeps : x.before.Keeps x.after
  quad : ∀ q, x.answer = .ok (.quad q) →
    (∀ p ∈ x.before.allQuads, p.id.val < q.val) ∧ ∀ p ∈ handed, p.val < q.val
  block : ∀ b, x.answer = .ok (.block b) → b ∉ x.before.blocks.keys ∧
    x.after.block? b = some (.new b) ∧
    ∀ k ∈ x.before.blocks.keys, x.after.block? k = x.before.block? k
  freshQuad : x.call = .freshQuad →
    (∃ q, x.answer = .ok (.quad q)) ∨ x.answer = .error (.fault .overflow)
  freshBlock : x.call = .freshBlock →
    (∃ b, x.answer = .ok (.block b)) ∨ x.answer = .error (.fault .overflow)
  fault : ∀ f, x.answer = .error (.fault f) ↔ f = .overflow ∧
    ((x.call = .freshQuad ∧ UInt32.size - 2 ≤ x.before.topQuad.val.toNat) ∨
      (x.call = .freshBlock ∧ x.before.nextBlock.toNat = UInt32.size - 1))

theorem keeps_after (h : x.before.Issued handed) : x.before.Keeps x.after := by
  simp only [after]
  rcases x.outcome_cases with
    ⟨e, hout⟩ | ⟨q, g', hfresh, hout⟩ | ⟨b, g', hfresh, hout⟩ |
    ⟨g', hamended, hout⟩
  · rw [hout]
    exact .refl _
  · obtain ⟨-, hg'⟩ := Graph.freshQuad_ok hfresh
    rw [hout, hg']
    exact ⟨(Graph.Keeps.refl _).keys, (Graph.Keeps.refl _).block⟩
  · obtain ⟨hb, next, -, hg'⟩ := Draft.freshBlock_eq hfresh
    have hfree : b ∉ x.before.blocks.keys := hb ▸ h.notMem
    rw [hout, hg']
    refine ⟨?_, fun k blk hblk => ⟨blk, ?_, rfl, List.prefix_refl _⟩⟩
    · show x.before.blocks.keys <+: (x.before.blocks.insert b (.new b)).keys
      rw [KeyedList.keys_insert, if_neg hfree]
      exact List.prefix_append _ _
    · have hne : k ≠ b := by
        rintro rfl
        rw [Graph.block?, KeyedList.get?_eq_none_iff.2 hfree] at hblk
        cases hblk
      show (x.before.blocks.insert b (.new b)).get? k = some blk
      rw [KeyedList.get?_insert, if_neg hne]
      exact hblk
  · rw [hout]
    exact hamended.toKeeps

theorem editBlock_ne_fault {g : Graph} {b : BlockId} {c : Change} {f : Fault} :
    g.editBlock b c.apply ≠ .error (.fault f) := by
  simp only [Graph.editBlock]
  split <;> simp

theorem connect_ne_fault {g : Graph} {a b : BlockId} {f : Fault} :
    g.connect a b ≠ .error (.fault f) := by
  simp only [Graph.connect]
  split
  · intro h
    cases h
  · intro h
    cases hfirst : g.editBlock a (·.withSucc b) with
    | error e =>
        rw [hfirst] at h
        cases h
        exact editBlock_ne_fault (c := .withSucc b) hfirst
    | ok g₁ =>
        rw [hfirst] at h
        exact editBlock_ne_fault (c := .withPred a) h

theorem answer_eq_fault_iff (f : Fault) :
    x.answer = .error (.fault f) ↔ f = .overflow ∧
    ((x.call = .freshQuad ∧ UInt32.size - 2 ≤ x.before.topQuad.val.toNat) ∨
      (x.call = .freshBlock ∧ x.before.nextBlock.toNat = UInt32.size - 1)) := by
  obtain ⟨g, call⟩ := x
  cases call with
  | freshQuad =>
      have hfail := Graph.freshQuad_eq_error_iff (g := g) (f := f)
      simp only [answer, outcome]
      rcases hmade : g.freshQuad with f' | ⟨q, g'⟩ <;> simpa [hmade] using hfail
  | freshBlock =>
      have hfail := Graph.freshBlock_eq_error_iff (g := g) (f := f)
      simp only [answer, outcome]
      rcases hmade : g.freshBlock with f' | ⟨b, g'⟩ <;>
        simpa [hmade] using hfail
  | change b c =>
      simp only [answer, outcome]
      rcases hmade : g.editBlock b c.apply with e | g'
      · have hne : e ≠ .fault f := fun h => editBlock_ne_fault (h ▸ hmade)
        simpa using hne
      · simp
  | connect a b =>
      simp only [answer, outcome]
      rcases hmade : g.connect a b with e | g'
      · have hne : e ≠ .fault f := fun h => connect_ne_fault (h ▸ hmade)
        simpa using hne
      · simp

theorem sound (h : x.before.Issued handed) : x.Sound handed := by
  have hcases := x.outcome_cases
  refine ⟨keeps_after h, fun q hq => ?_, fun b hb => ?_, fun hcall => ?_,
    fun hcall => ?_, answer_eq_fault_iff⟩
  · simp only [answer] at hq
    rcases hcases with
      ⟨e, hout⟩ | ⟨q', g', hfresh, hout⟩ | ⟨b, g', -, hout⟩ | ⟨g', -, hout⟩
    all_goals rw [hout] at hq; cases hq
    obtain ⟨habove, -⟩ := Graph.freshQuad_eq hfresh
    exact ⟨fun p hp => Graph.id_lt_freshQuad hfresh hp,
      fun p hp => UInt32.lt_of_lt_of_le (h.quads p hp) habove⟩
  · simp only [answer] at hb
    rcases hcases with
      ⟨e, hout⟩ | ⟨q, g', -, hout⟩ | ⟨b', g', hfresh, hout⟩ | ⟨g', -, hout⟩
    all_goals rw [hout] at hb; cases hb
    obtain ⟨hnumber, next, -, hg'⟩ := Draft.freshBlock_eq hfresh
    have hfree : b ∉ x.before.blocks.keys := hnumber ▸ h.notMem
    have hblock : ∀ k, x.after.block? k =
        if k = b then some (.new b) else x.before.block? k := by
      intro k
      rw [after, hout, hg']
      exact KeyedList.get?_insert ..
    refine ⟨hfree, by rw [hblock, if_pos rfl], fun k hk => ?_⟩
    rw [hblock, if_neg fun heq : k = b => hfree (heq ▸ hk)]
  · simp only [answer, outcome, hcall]
    rcases hmade : x.before.freshQuad with f | ⟨q, g'⟩
    · exact Or.inr (by rw [(Graph.freshQuad_eq_error_iff.1 hmade).1])
    · exact Or.inl ⟨q, rfl⟩
  · simp only [answer, outcome, hcall]
    rcases hmade : x.before.freshBlock with f | ⟨b, g'⟩
    · exact Or.inr (by rw [(Graph.freshBlock_eq_error_iff.1 hmade).1])
    · exact Or.inl ⟨b, rfl⟩

end Act

/-! ## Whole runs -/

theorem Chain.issued {xs : List Act} :
    ∀ {g g' : Graph} {handed : List QuadId}, Chain g xs g' → g.Issued handed →
      g'.Issued (handed ++ xs.filterMap Act.handed?) := by
  induction xs with
  | nil =>
      intro g g' handed h hg
      cases h
      simpa using hg
  | cons x rest ih =>
      intro g g' handed h hg
      obtain ⟨rfl, hrest⟩ := h
      have hg' := ih hrest (Act.issued_after hg)
      rw [List.append_assoc] at hg'
      cases hx : x.handed? with
      | none => simpa [hx] using hg'
      | some q => simpa [hx] using hg'

theorem Chain.keeps {xs : List Act} :
    ∀ {g g' : Graph} {handed : List QuadId}, Chain g xs g' → g.Issued handed →
      g.Keeps g' := by
  induction xs with
  | nil =>
      intro g g' handed h _
      cases h
      exact .refl g
  | cons x rest ih =>
      intro g g' handed h hg
      obtain ⟨rfl, hrest⟩ := h
      exact (Act.keeps_after hg).trans (ih hrest (Act.issued_after hg))

/-- Every call of a chain is sound after the ones before it. -/
theorem Chain.sound {earlier later : List Act} {x : Act} {g g' : Graph}
    {handed : List QuadId} (h : Chain g (earlier ++ x :: later) g')
    (hg : g.Issued handed) :
    x.Sound (handed ++ earlier.filterMap Act.handed?) := by
  obtain ⟨mid, hearlier, hx, -⟩ := h.split
  exact Act.sound (hx ▸ hearlier.issued hg)

namespace Graph

variable {g : Graph} {guard : Option Register} {s : Site}

/-- The one quad that a split adds comes third, when the graph has not changed
but for an empty block. -/
theorem lt_pushed_of_mem_performed {x : Act}
    (hx : x ∈ g.performed (splitCalls guard s g)) {k : BlockId} {p : Quad}
    (hcall : x.call = .change k (.push p)) :
    ∀ q ∈ x.before.allQuads, q.id.val < p.id.val := by
  obtain ⟨pre, post, hcalls, hbefore, hok⟩ := exists_of_mem_performed hx
  rw [hcall, splitCalls] at hcalls
  rcases pre with _ | ⟨first, _ | ⟨second, _ | ⟨third, pre⟩⟩⟩
  · cases hcalls
  · cases hcalls
  · cases hcalls
    rcases hquad : g.freshQuad with f | ⟨q, g₁⟩
    · simp [perform, Act.outcome, hquad] at hok
    rcases hblock : g₁.freshBlock with f | ⟨b, g₂⟩
    · simp [perform, Act.outcome, hquad, hblock] at hok
    obtain ⟨rfl, hg₁⟩ := freshQuad_ok hquad
    obtain ⟨hb, next, -, hg₂⟩ := Draft.freshBlock_eq hblock
    have hbefore : x.before = g₂ := by
      simpa [perform, Act.outcome, hquad, hblock] using hbefore
    intro q hq
    rw [hbefore, mem_allQuads] at hq
    obtain ⟨k, blk, hblk, hq⟩ := hq
    have hget : g₂.block? k = if k = b then some (.new b) else g.block? k := by
      rw [hg₂, hg₁]
      exact KeyedList.get?_insert ..
    rw [hget] at hblk
    split at hblk
    · cases hblk
      cases hq
    · exact id_lt_freshQuad hquad (mem_allQuads.2 ⟨k, blk, hblk, hq⟩)
  · have hmem :
        Call.change k (.push p) ∈ pre ++ Call.change k (.push p) :: post := by
      simp
    simp only [List.cons_append, List.nil_append, List.cons.injEq] at hcalls
    rw [← hcalls.2.2.2] at hmem
    split at hmem <;> simp at hmem

theorem lt_pushed_of_mem_splitActs {x : Act} {k : BlockId} {p : Quad}
    (hcall : x.call = .change k (.push p)) (sites : List Site) :
    ∀ g : Graph, x ∈ splitActs guard sites g →
      ∀ q ∈ x.before.allQuads, q.id.val < p.id.val := by
  induction sites with
  | nil => exact fun g hx => absurd hx List.not_mem_nil
  | cons s rest ih =>
      intro g hx
      rcases List.mem_append.1 hx with hx | hx
      · exact lt_pushed_of_mem_performed hx hcall
      · split at hx
        · exact ih _ hx
        · cases hx

theorem lt_pushed_of_mem_insertionActs {x : Act} (hx : x ∈ g.insertionActs)
    {k : BlockId} {p : Quad} (hcall : x.call = .change k (.push p)) :
    ∀ q ∈ x.before.allQuads, q.id.val < p.id.val := by
  simp only [insertionActs] at hx
  split at hx
  · exact lt_pushed_of_mem_splitActs hcall _ g hx
  · cases hx

end Graph

/-- Numbers are never reused and nothing is lost, over whole runs. A graph that
is new or comes from a script is served any sequence of requests: calls with
numbers and blocks of the caller's choice, and insertions of null checks,
whatever comes of them. The calls that are made form a chain that leads to the
graph it ends with, and each of them is sound after those before it, so what the
graph held it still holds. The same goes for an insertion of null checks that
comes next: it loses nothing, each quad that it adds has a number above all that
are in the graph at that moment, and it faults exactly when one of its calls
does. -/
theorem numbers_never_reused {g : Graph} (hstart : g.AtStart)
    (requests : List Request) :
    Chain g (g.history requests) (g.serve requests) ∧
    g.Keeps (g.serve requests) ∧
    (∀ earlier x later, g.history requests = earlier ++ x :: later →
      x.Sound (earlier.filterMap Act.handed?)) ∧
    Chain (g.serve requests) (g.serve requests).insertionActs
      (g.serve requests).insertChecks.graph ∧
    (g.serve requests).Keeps (g.serve requests).insertChecks.graph ∧
    (∀ x ∈ (g.serve requests).insertionActs, ∀ b p,
      x.call = .change b (.push p) →
        ∀ q ∈ x.before.allQuads, q.id.val < p.id.val) ∧
    ∀ f, (g.serve requests).insertChecks.result = .error (.fault f) ↔
      ∃ x ∈ (g.serve requests).insertionActs, x.answer = .error (.fault f) := by
  have hchain := Graph.chain_history requests g
  have hissued := hchain.issued hstart.issued
  obtain ⟨hinsertion, hfault⟩ := (g.serve requests).chain_insertionActs
  refine ⟨hchain, hchain.keeps hstart.issued, fun earlier x later hsplit => ?_,
    hinsertion, hinsertion.keeps hissued,
    fun x hx b p hcall => Graph.lt_pushed_of_mem_insertionActs hx hcall, hfault⟩
  exact (hsplit ▸ hchain).sound hstart.issued

/-- A caller puts in a quad with a high number between two fresh ones, and then
checks are inserted into what the script had built. -/
theorem numbers_never_reused_nullLoop :
    Graph.nullLoop.AtStart ∧
      let requests : List Request := [.call .freshQuad,
        .call (.change ⟨3⟩ (.push ⟨⟨40⟩, .nop⟩)), .call .freshQuad,
        .insertChecks, .call .freshBlock]
      (Graph.nullLoop.history requests).filterMap Act.handed? =
        [⟨5⟩, ⟨41⟩, ⟨42⟩, ⟨43⟩, ⟨44⟩] ∧
      Chain .nullLoop (Graph.nullLoop.history requests)
        (Graph.nullLoop.serve requests) ∧
      ∀ earlier x later,
        Graph.nullLoop.history requests = earlier ++ x :: later →
          x.Sound (earlier.filterMap Act.handed?) := by
  have hstart : Graph.nullLoop.AtStart :=
    Or.inr ⟨"loop", Graph.nullLoopScript, rfl⟩
  obtain ⟨hchain, -, hsound, -⟩ := numbers_never_reused hstart _
  exact ⟨hstart, by decide +kernel, hchain, hsound⟩

end Dataflow
