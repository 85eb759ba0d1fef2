import Mathlib.Data.List.Nodup
import Dataflow.Proofs.Search
import Dataflow.Solver.Problem

/-!
# Neighbours are quads of the program order

The solver keeps facts for the quads that the program order visits, and reads
facts of whatever the neighbour lists name. This file shows that the lists
name nothing else, on any graph at all: edge lists may dangle, repeat or
disagree with each other, because both walks look only at reachable blocks
that are there, and a quad of such a block is in the program order.

With that, a graph with both sentinels has a `Route`, laid out as `origins`
and `finals` say: forward along predecessors, backward along successors.
-/

namespace Dataflow

namespace Graph

/-- Both sentinels are there. -/
def HasEnds (g : Graph) : Prop :=
  (g.block? .entry).isSome ∧ (g.block? .exit).isSome

/-- No two quads in the program order have the same number. -/
def DistinctQuads (g : Graph) : Prop := (g.quads.map Quad.id).Nodup

/-- The program order has a quad with this number. -/
def Visits (g : Graph) (q : QuadId) : Prop := ∃ quad ∈ g.quads, quad.id = q

/-- The quads of the block under a key; none where there is no block. -/
def quadsAt (g : Graph) (b : BlockId) : List Quad :=
  g.blocks.listAt Block.quads b

/-- The predecessors of the block under a key; none where there is no block. -/
def predsAt (g : Graph) (b : BlockId) : List BlockId :=
  g.blocks.listAt Block.preds b

theorem quadsAt_of_block {g : Graph} {b : BlockId} {blk : Block}
    (h : g.block? b = some blk) : g.quadsAt b = blk.quads :=
  KeyedList.listAt_of_get? h _

theorem predsAt_of_block {g : Graph} {b : BlockId} {blk : Block}
    (h : g.block? b = some blk) : g.predsAt b = blk.preds :=
  KeyedList.listAt_of_get? h _

instance (g : Graph) : Decidable g.HasEnds :=
  inferInstanceAs (Decidable (_ ∧ _))

instance (g : Graph) : Decidable g.DistinctQuads :=
  inferInstanceAs (Decidable (List.Nodup _))

theorem DistinctQuads.eq_of_id_eq {g : Graph} (h : g.DistinctQuads)
    {p q : Quad} (hp : p ∈ g.quads) (hq : q ∈ g.quads) (hid : p.id = q.id) :
    p = q :=
  List.inj_on_of_nodup_map h hp hq hid

/-- What is made of the blocks in program order, block by block. -/
theorem flatMap_orderedBlocks (g : Graph) {γ : Type} {f : Block → List γ}
    {f' : BlockId → List γ} (hnone : ∀ b, g.block? b = none → f' b = [])
    (hsome : ∀ b blk, g.block? b = some blk → f' b = f blk) :
    g.orderedBlocks.flatMap f = g.programOrder.flatMap f' := by
  unfold orderedBlocks
  induction g.programOrder with
  | nil => rfl
  | cons b rest ih =>
      rw [List.flatMap_cons, ← ih]
      cases hb : g.block? b with
      | none => rw [List.filterMap_cons_none hb, hnone b hb, List.nil_append]
      | some blk =>
          rw [List.filterMap_cons_some hb, hsome b blk hb, List.flatMap_cons]

theorem quads_eq (g : Graph) : g.quads = g.programOrder.flatMap g.quadsAt := by
  refine g.flatMap_orderedBlocks (fun b hb => ?_)
    fun b blk hb => quadsAt_of_block hb
  exact congrArg (fun o => (Option.map Block.quads o).getD []) hb

theorem mem_quads_of_block {g : Graph} {b : BlockId} {blk : Block} {q : Quad}
    (hb : b ∈ g.programOrder) (hblk : g.block? b = some blk)
    (hq : q ∈ blk.quads) : q ∈ g.quads :=
  List.mem_flatMap.2 ⟨blk, List.mem_filterMap.2 ⟨b, hb, hblk⟩, hq⟩

/-! ## The walks report quads of the program order -/

theorem visits_of_lookBack {g : Graph} {b : BlockId} {q : QuadId}
    (h : g.lookBack g.programOrder b = .shows (some q)) : g.Visits q := by
  unfold lookBack at h
  split at h
  · cases h
  · next hb =>
      split at h
      · cases h
      · split at h
        · cases h
        · next blk hblk =>
            split at h
            · next last hlast =>
                cases h
                exact ⟨last, mem_quads_of_block (Decidable.not_not.1 hb) hblk
                  (List.mem_of_getLast? hlast), rfl⟩
            · cases h

theorem visits_of_lookAhead {g : Graph} {b : BlockId} {q : QuadId}
    (h : g.lookAhead g.programOrder b = .shows (some q)) : g.Visits q := by
  unfold lookAhead at h
  split at h
  · cases h
  · next hb =>
      split at h
      · cases h
      · split at h
        · cases h
        · next blk hblk =>
            split at h
            · next first hfirst =>
                cases h
                exact ⟨first, mem_quads_of_block (Decidable.not_not.1 hb) hblk
                  (List.mem_of_head? hfirst), rfl⟩
            · cases h

theorem visits_of_mem_incoming {g : Graph} {blocks : List BlockId} {q : QuadId}
    (h : some q ∈ g.incoming g.programOrder blocks) : g.Visits q := by
  obtain ⟨b, hb⟩ := Search.mem_lookThrough h
  exact visits_of_lookBack hb

theorem visits_of_mem_outgoing {g : Graph} {blocks : List BlockId} {q : QuadId}
    (h : some q ∈ g.outgoing g.programOrder blocks) : g.Visits q := by
  obtain ⟨b, hb⟩ := Search.mem_lookThrough h
  exact visits_of_lookAhead hb

/-- Inside a block the neighbours are quads of the block, and at its ends what
the walks have found. -/
theorem mem_chain {behind : List Neighbour} {l : Link} {n : Neighbour} :
    ∀ {quads : List Quad} {before : List Neighbour},
      l ∈ chain before behind quads →
      (n ∈ l.preds → n ∈ before ∨ ∃ q ∈ quads, n = some q.id) ∧
        (n ∈ l.succs → n ∈ behind ∨ ∃ q ∈ quads, n = some q.id) := by
  intro quads
  induction quads with
  | nil =>
      intro before h
      cases h
  | cons q rest ih =>
      intro before h
      cases rest with
      | nil =>
          obtain rfl := List.mem_singleton.1 h
          exact ⟨Or.inl, Or.inl⟩
      | cons q' rest =>
          rw [chain] at h
          rcases List.mem_cons.1 h with rfl | h
          · refine ⟨Or.inl, fun hn => Or.inr ⟨q', by simp, ?_⟩⟩
            exact List.mem_singleton.1 hn
          · obtain ⟨hpreds, hsuccs⟩ := ih h
            refine ⟨fun hn => Or.inr ?_, fun hn => ?_⟩
            · rcases hpreds hn with hn | ⟨p, hp, hn⟩
              · exact ⟨q, by simp, List.mem_singleton.1 hn⟩
              · exact ⟨p, List.mem_cons_of_mem q hp, hn⟩
            · rcases hsuccs hn with hn | ⟨p, hp, hn⟩
              · exact Or.inl hn
              · exact Or.inr ⟨p, List.mem_cons_of_mem q hp, hn⟩

/-! ## The neighbour lists -/

theorem quadGraph_eq {g : Graph} {e : QuadGraph} (h : g.quadGraph = .ok e) :
    e.links = (g.orderedBlocks.flatMap fun b =>
      chain (g.incoming g.programOrder b.preds)
        (g.outgoing g.programOrder b.succs) b.quads) ∧
      (∃ blocks, e.exitPreds = g.incoming g.programOrder blocks) ∧
      (∃ blocks, e.entrySuccs = g.outgoing g.programOrder blocks) := by
  unfold quadGraph at h
  cases hexit : g.sentinel .exit with
  | error f => rw [hexit] at h; cases h
  | ok exit =>
      rw [hexit] at h
      cases hentry : g.sentinel .entry with
      | error f => rw [hentry] at h; cases h
      | ok entry =>
          rw [hentry] at h
          cases h
          exact ⟨rfl, ⟨_, rfl⟩, ⟨_, rfl⟩⟩

theorem HasEnds.quadGraph_ok {g : Graph} (h : g.HasEnds) :
    ∃ e, g.quadGraph = .ok e := by
  obtain ⟨entry, hentry⟩ := Option.isSome_iff_exists.1 h.1
  obtain ⟨exit, hexit⟩ := Option.isSome_iff_exists.1 h.2
  unfold quadGraph sentinel
  rw [hentry, hexit]
  exact ⟨_, rfl⟩

theorem visits_of_mem_link {g : Graph} {e : QuadGraph}
    (h : g.quadGraph = .ok e) {l : Link} (hl : l ∈ e.links) {q : QuadId}
    (hq : some q ∈ l.preds ∨ some q ∈ l.succs) : g.Visits q := by
  rw [(quadGraph_eq h).1] at hl
  obtain ⟨b, hb, hl⟩ := List.mem_flatMap.1 hl
  have hmem : ∀ {p : Quad}, p ∈ b.quads → some q = some p.id → g.Visits q :=
    fun hp heq =>
      ⟨_, List.mem_flatMap.2 ⟨b, hb, hp⟩, (Option.some.inj heq).symm⟩
  rcases hq with hq | hq
  · rcases (mem_chain hl).1 hq with hq | ⟨p, hp, heq⟩
    · exact visits_of_mem_incoming hq
    · exact hmem hp heq
  · rcases (mem_chain hl).2 hq with hq | ⟨p, hp, heq⟩
    · exact visits_of_mem_outgoing hq
    · exact hmem hp heq

end Graph

namespace QuadGraph

/-- The neighbours that the facts of a quad arrive from. -/
def origins (e : QuadGraph) : Direction → QuadId → List Neighbour
  | .forward => e.preds
  | .backward => e.succs

/-- The neighbours that the fact at the target arrives from. -/
def finals (e : QuadGraph) : Direction → List Neighbour
  | .forward => e.exitPreds
  | .backward => e.entrySuccs

theorem mem_links_of_link? {e : QuadGraph} {q : QuadId} {l : Link}
    (h : e.link? q = some l) : l ∈ e.links :=
  (List.mem_filter.1 (List.mem_of_getLast? h)).1

/-- Every neighbour that is a quad is in the program order. -/
theorem visits_of_mem_origins {g : Graph} {e : QuadGraph}
    (h : g.quadGraph = .ok e) {d : Direction} {q p : QuadId}
    (hp : some p ∈ e.origins d q) : g.Visits p := by
  cases d with
  | forward =>
      change some p ∈ e.preds q at hp
      unfold preds at hp
      split at hp
      · next l hl =>
          exact Graph.visits_of_mem_link h (mem_links_of_link? hl) (Or.inl hp)
      · cases hp
  | backward =>
      change some p ∈ e.succs q at hp
      unfold succs at hp
      split at hp
      · next l hl =>
          exact Graph.visits_of_mem_link h (mem_links_of_link? hl) (Or.inr hp)
      · cases hp

theorem visits_of_mem_finals {g : Graph} {e : QuadGraph}
    (h : g.quadGraph = .ok e) {d : Direction} {p : QuadId}
    (hp : some p ∈ e.finals d) : g.Visits p := by
  obtain ⟨-, ⟨preds, hpreds⟩, ⟨succs, hsuccs⟩⟩ := Graph.quadGraph_eq h
  cases d with
  | forward =>
      rw [finals, hpreds] at hp
      exact Graph.visits_of_mem_incoming hp
  | backward =>
      rw [finals, hsuccs] at hp
      exact Graph.visits_of_mem_outgoing hp

end QuadGraph

/-! ## The route of a graph -/

namespace Graph

/-- The quads in the order in which a sweep takes them. -/
def sweepOrder (g : Graph) : Direction → List Quad
  | .forward => g.quads
  | .backward => g.quads.reverse

theorem mem_sweepOrder {g : Graph} {d : Direction} {q : Quad} :
    q ∈ g.sweepOrder d ↔ q ∈ g.quads := by
  cases d with
  | forward => exact Iff.rfl
  | backward => exact List.mem_reverse

theorem length_sweepOrder (g : Graph) (d : Direction) :
    (g.sweepOrder d).length = g.quads.length := by
  cases d with
  | forward => rfl
  | backward => exact List.length_reverse

/-- The quads of a graph laid out along the flow of facts. -/
def layout (g : Graph) (e : QuadGraph) (d : Direction) : Route where
  stations := (g.sweepOrder d).map fun q => ⟨q, e.origins d q.id⟩
  final := e.finals d

theorem mem_layout {g : Graph} {e : QuadGraph} {d : Direction} {s : Station} :
    s ∈ (g.layout e d).stations ↔ ∃ q ∈ g.quads, s = ⟨q, e.origins d q.id⟩ := by
  unfold layout
  rw [List.mem_map]
  constructor
  · rintro ⟨q, hq, rfl⟩
    exact ⟨q, mem_sweepOrder.1 hq, rfl⟩
  · rintro ⟨q, hq, rfl⟩
    exact ⟨q, mem_sweepOrder.2 hq, rfl⟩

theorem layout_quads (g : Graph) (e : QuadGraph) (d : Direction) :
    (g.layout e d).stations.map Station.quad = g.sweepOrder d := by
  unfold layout
  rw [List.map_map]
  exact List.map_id _

theorem route_eq {g : Graph} {e : QuadGraph} (h : g.quadGraph = .ok e)
    (d : Direction) : g.route d = .ok (g.layout e d) := by
  unfold route
  rw [h]
  cases d with
  | forward => rfl
  | backward => rfl

end Graph

end Dataflow
