import Dataflow.Proofs.Lawful

/-!
# Rewriting quads in place

A transformation that exchanges instructions and leaves numbers and edges alone
does not move control. The program order follows the edges, the neighbour lists
name quads by their numbers, so both are the same before and after, and the
quads that are visited are the old ones, rewritten.

What a rewriting does to a block that the entry does not reach is nobody's
concern, so `rewrite` leaves such blocks as they are.
-/

namespace Dataflow

/-- A block with its quads passed through a function. -/
def Block.rewrite (f : Quad → Quad) (b : Block) : Block :=
  { b with quads := b.quads.map f }

namespace Graph

/-- The block under a key, rewritten if the entry reaches it. -/
def rewriteAt (g : Graph) (f : Quad → Quad) (b : BlockId) (blk : Block) :
    Block :=
  if b ∈ g.programOrder then blk.rewrite f else blk

/-- A graph with its visited quads passed through a function. -/
def rewrite (g : Graph) (f : Quad → Quad) : Graph :=
  { g with blocks := g.blocks.mapEach (g.rewriteAt f) }

variable {g : Graph} {f : Quad → Quad}

@[simp] theorem succs_rewriteAt (b : BlockId) (blk : Block) :
    (g.rewriteAt f b blk).succs = blk.succs := by
  unfold rewriteAt
  split <;> rfl

@[simp] theorem preds_rewriteAt (b : BlockId) (blk : Block) :
    (g.rewriteAt f b blk).preds = blk.preds := by
  unfold rewriteAt
  split <;> rfl

theorem ids_rewriteAt (hid : ∀ q, (f q).id = q.id) (b : BlockId) (blk : Block) :
    (g.rewriteAt f b blk).quads.map Quad.id = blk.quads.map Quad.id := by
  unfold rewriteAt
  split
  · show (blk.quads.map f).map Quad.id = blk.quads.map Quad.id
    rw [List.map_map]
    exact List.map_congr_left fun q _ => hid q
  · rfl

theorem block?_rewrite (g : Graph) (f : Quad → Quad) (b : BlockId) :
    (g.rewrite f).block? b = (g.block? b).map (g.rewriteAt f b) :=
  KeyedList.get?_mapEach _ _ _

/-! ## Control does not move -/

theorem flatMap_values_rewrite {γ : Type} (view : Block → List γ)
    (hview : ∀ b blk, view (g.rewriteAt f b blk) = view blk) :
    (g.rewrite f).blocks.values.flatMap view =
      g.blocks.values.flatMap view := by
  unfold KeyedList.values rewrite KeyedList.mapEach
  rw [List.map_map, List.flatMap_map, List.flatMap_map]
  exact List.flatMap_congr fun entry _ => hview entry.1 entry.2

theorem succs_rewrite (g : Graph) (f : Quad → Quad) :
    (g.rewrite f).succs = g.succs := by
  funext b
  unfold succs
  rw [block?_rewrite]
  cases g.block? b with
  | none => rfl
  | some blk => exact succs_rewriteAt b blk

theorem programOrder_rewrite (g : Graph) (f : Quad → Quad) :
    (g.rewrite f).programOrder = g.programOrder := by
  unfold programOrder succCount
  rw [succs_rewrite, flatMap_values_rewrite Block.succs succs_rewriteAt]

theorem quadsAt_rewrite {b : BlockId} (hb : b ∈ g.programOrder) :
    (g.rewrite f).quadsAt b = (g.quadsAt b).map f := by
  unfold quadsAt rewrite
  rw [KeyedList.listAt_mapEach]
  simp only [rewriteAt, if_pos hb]
  unfold KeyedList.listAt
  cases g.blocks.get? b <;> rfl

theorem quads_rewrite (g : Graph) (f : Quad → Quad) :
    (g.rewrite f).quads = g.quads.map f := by
  rw [quads_eq, quads_eq, programOrder_rewrite, List.map_flatMap]
  exact List.flatMap_congr fun b hb => quadsAt_rewrite hb

theorem mem_quads_rewrite {q' : Quad} :
    q' ∈ (g.rewrite f).quads ↔ ∃ q ∈ g.quads, f q = q' := by
  rw [quads_rewrite, List.mem_map]

/-! ## Neighbours go by number -/

theorem lookBack_rewrite (hid : ∀ q, (f q).id = q.id)
    (reachable : List BlockId) :
    (g.rewrite f).lookBack reachable = g.lookBack reachable := by
  funext b
  unfold lookBack
  rw [block?_rewrite]
  cases g.block? b with
  | none => rfl
  | some blk =>
      have hlast : (g.rewriteAt f b blk).last?.map Quad.id =
          blk.last?.map Quad.id := by
        unfold Block.last?
        rw [← List.getLast?_map, ← List.getLast?_map, ids_rewriteAt hid]
      simp only [Option.map_some, preds_rewriteAt]
      cases hold : blk.last? with
      | none =>
          rw [hold, Option.map_none, Option.map_eq_none_iff] at hlast
          simp only [hlast]
      | some q =>
          rw [hold, Option.map_some, Option.map_eq_some_iff] at hlast
          obtain ⟨q', hnew, hq'⟩ := hlast
          simp only [hnew, hq']

theorem lookAhead_rewrite (hid : ∀ q, (f q).id = q.id)
    (reachable : List BlockId) :
    (g.rewrite f).lookAhead reachable = g.lookAhead reachable := by
  funext b
  unfold lookAhead
  rw [block?_rewrite]
  cases g.block? b with
  | none => rfl
  | some blk =>
      have hfirst : (g.rewriteAt f b blk).first?.map Quad.id =
          blk.first?.map Quad.id := by
        unfold Block.first?
        rw [← List.head?_map, ← List.head?_map, ids_rewriteAt hid]
      simp only [Option.map_some, succs_rewriteAt]
      cases hold : blk.first? with
      | none =>
          rw [hold, Option.map_none, Option.map_eq_none_iff] at hfirst
          simp only [hfirst]
      | some q =>
          rw [hold, Option.map_some, Option.map_eq_some_iff] at hfirst
          obtain ⟨q', hnew, hq'⟩ := hfirst
          simp only [hnew, hq']

theorem incoming_rewrite (hid : ∀ q, (f q).id = q.id)
    (reachable : List BlockId) :
    (g.rewrite f).incoming reachable = g.incoming reachable := by
  funext blocks
  unfold incoming predCount
  rw [lookBack_rewrite hid, flatMap_values_rewrite Block.preds preds_rewriteAt]

theorem outgoing_rewrite (hid : ∀ q, (f q).id = q.id)
    (reachable : List BlockId) :
    (g.rewrite f).outgoing reachable = g.outgoing reachable := by
  funext blocks
  unfold outgoing succCount
  rw [lookAhead_rewrite hid, flatMap_values_rewrite Block.succs succs_rewriteAt]

theorem chain_map (hid : ∀ q, (f q).id = q.id) (behind : List Neighbour)
    (quads : List Quad) :
    ∀ before, chain before behind (quads.map f) =
      chain before behind quads := by
  induction quads with
  | nil => exact fun _ => rfl
  | cons q rest ih =>
      intro before
      cases rest with
      | nil => simp only [List.map_cons, List.map_nil, chain, hid]
      | cons q' rest =>
          have hrest := ih [some q.id]
          simp only [List.map_cons] at hrest ⊢
          rw [chain, chain, hid, hid, hrest]

theorem orderedBlocks_rewrite (g : Graph) (f : Quad → Quad) :
    (g.rewrite f).orderedBlocks = g.orderedBlocks.map (Block.rewrite f) := by
  unfold orderedBlocks
  rw [programOrder_rewrite, List.map_filterMap]
  refine List.filterMap_congr fun b hb => ?_
  rw [block?_rewrite]
  cases g.block? b with
  | none => rfl
  | some blk => simp only [Option.map_some, rewriteAt, if_pos hb]

theorem sentinel_rewrite (g : Graph) (f : Quad → Quad) (b : BlockId) :
    (g.rewrite f).sentinel b = (g.sentinel b).map (g.rewriteAt f b) := by
  unfold sentinel
  rw [block?_rewrite]
  cases g.block? b <;> rfl

/-- Control passes between the rewritten quads as it did between the old
ones. -/
theorem quadGraph_rewrite (hid : ∀ q, (f q).id = q.id) :
    (g.rewrite f).quadGraph = g.quadGraph := by
  unfold quadGraph
  simp only [programOrder_rewrite, orderedBlocks_rewrite, sentinel_rewrite,
    incoming_rewrite hid, outgoing_rewrite hid, List.flatMap_map, Block.rewrite,
    chain_map hid]
  cases g.sentinel .exit with
  | error fault => rfl
  | ok exit =>
      cases g.sentinel .entry with
      | error fault => rfl
      | ok entry =>
          simp only [Except.map, bind, Except.bind, preds_rewriteAt,
            succs_rewriteAt]

/-! ## What is asked of a graph -/

theorem HasEnds.rewrite (h : g.HasEnds) (f : Quad → Quad) :
    (g.rewrite f).HasEnds := by
  unfold HasEnds
  rw [block?_rewrite, block?_rewrite, Option.isSome_map, Option.isSome_map]
  exact h

theorem DistinctQuads.rewrite (h : g.DistinctQuads)
    (hid : ∀ q, (f q).id = q.id) : (g.rewrite f).DistinctQuads := by
  unfold DistinctQuads
  rw [quads_rewrite, List.map_map]
  have hids : Quad.id ∘ f = Quad.id := funext hid
  rw [hids]
  exact h

theorem visits_rewrite (hid : ∀ q, (f q).id = q.id) {i : QuadId} :
    (g.rewrite f).Visits i ↔ g.Visits i := by
  unfold Visits
  constructor
  · rintro ⟨q', hq', rfl⟩
    obtain ⟨q, hq, rfl⟩ := mem_quads_rewrite.1 hq'
    exact ⟨q, hq, (hid q).symm⟩
  · rintro ⟨q, hq, rfl⟩
    exact ⟨f q, mem_quads_rewrite.2 ⟨q, hq, rfl⟩, hid q⟩

end Graph

end Dataflow
