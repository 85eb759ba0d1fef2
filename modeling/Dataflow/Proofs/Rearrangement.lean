import Dataflow.Proofs.Columns
import Dataflow.Proofs.NonNull
import Dataflow.Proofs.ReachingDefinitions
import Dataflow.Proofs.Unreachable

/-!
# The order of edges and blocks does not count

Two graphs can hold the same blocks and name the same edges in another order.
Then the search from the entry takes another way, the program order is another
one, sweeps come to the quads in another order and see other facts on the way,
and there may be more of them or fewer. `Graph.Rearranged` says that two graphs
differ in nothing but such order, and the theorem of this file that they have
the same facts all the same.

Nothing is compared step by step, because no two steps match. What the two
graphs share is their equations. Reachability asks of an edge list only what is
in it, and so does seeing through empty blocks, so every quad has the same
neighbours in both graphs, listed in some order; a meet does not depend on that
order. Each graph's answer therefore solves the equations of the other, lies
below the other's answer because that is the best solution, and the two are
equal.

The marks on redundant checks are set and taken back in sweep order, and are
settled by the last sweep, so they follow from the facts as well.
-/

namespace Dataflow

/-! ## Walks that differ in the order of their lists -/

namespace Search

variable {α β : Type}

/-- What the first sight shows the second shows, and where the first leads to
the second leads to. -/
structure Sight.Within (s s' : Sight α β) : Prop where
  shows : ∀ b, s = .shows b → s' = .shows b
  onward : ∀ a ∈ s.onward, a ∈ s'.onward

theorem Sight.Within.refl (s : Sight α β) : s.Within s :=
  ⟨fun _ h => h, fun _ h => h⟩

theorem Sight.Within.leadsTo {next next' : List α} (h : ∀ a ∈ next, a ∈ next') :
    (Sight.leadsTo next : Sight α β).Within (.leadsTo next') :=
  ⟨fun _ hshows => (nomatch hshows), h⟩

/-- A walk asks of the lists only what is in them. -/
theorem Sees.congr {look look' : α → Sight α β}
    (hlook : ∀ a, (look a).Within (look' a)) {start : List α} {b : β}
    (h : Sees look start b) : Sees look' start b := by
  induction h with
  | here ha hshows => exact .here ha ((hlook _).shows _ hshows)
  | through ha _ ih => exact .through ha (ih.mono (hlook _).onward)

end Search

/-! ## Two graphs with the same blocks -/

/-- Two blocks with the same number and quads, whose edges are the same up to
their order. -/
structure Block.Rearranged (blk blk' : Block) : Prop where
  id : blk'.id = blk.id
  quads : blk'.quads = blk.quads
  preds : blk'.preds.Perm blk.preds
  succs : blk'.succs.Perm blk.succs

instance (blk blk' : Block) : Decidable (blk.Rearranged blk') :=
  decidable_of_iff (blk'.id = blk.id ∧ blk'.quads = blk.quads ∧
    blk'.preds.Perm blk.preds ∧ blk'.succs.Perm blk.succs)
    ⟨fun h => ⟨h.1, h.2.1, h.2.2.1, h.2.2.2⟩,
      fun h => ⟨h.id, h.quads, h.preds, h.succs⟩⟩

theorem Block.Rearranged.symm {blk blk' : Block} (h : blk.Rearranged blk') :
    blk'.Rearranged blk :=
  ⟨h.id.symm, h.quads.symm, h.preds.symm, h.succs.symm⟩

namespace Graph

/-- Two graphs of one method that hold the same blocks under the same keys. The
blocks may have come in another order, and so may the edges of each block. -/
structure Rearranged (g g' : Graph) : Prop where
  method : g'.method = g.method
  block : ∀ b, Option.Rel Block.Rearranged (g.block? b) (g'.block? b)

variable {g g' : Graph}

instance (o o' : Option Block) : Decidable (Option.Rel Block.Rearranged o o') :=
  match o, o' with
  | none, none => isTrue .none
  | some blk, some blk' =>
      decidable_of_iff (blk.Rearranged blk') ⟨.some, fun | .some h => h⟩
  | none, some _ => isFalse nofun
  | some _, none => isFalse nofun

theorem rearranged_iff : g.Rearranged g' ↔ g'.method = g.method ∧
    ∀ b ∈ g.blocks.keys ++ g'.blocks.keys,
      Option.Rel Block.Rearranged (g.block? b) (g'.block? b) := by
  refine ⟨fun h => ⟨h.method, fun b _ => h.block b⟩,
    fun h => ⟨h.1, fun b => ?_⟩⟩
  by_cases hb : b ∈ g.blocks.keys ++ g'.blocks.keys
  · exact h.2 b hb
  · rw [List.mem_append, not_or] at hb
    rw [show g.block? b = none from KeyedList.get?_eq_none_iff.2 hb.1,
      show g'.block? b = none from KeyedList.get?_eq_none_iff.2 hb.2]
    exact .none

instance (g g' : Graph) : Decidable (g.Rearranged g') :=
  decidable_of_iff _ rearranged_iff.symm

namespace Rearranged

theorem symm (h : g.Rearranged g') : g'.Rearranged g := by
  refine ⟨h.method.symm, fun b => ?_⟩
  have hrel := h.block b
  revert hrel
  cases g.block? b <;> cases g'.block? b
  · exact fun _ => .none
  · exact nofun
  · exact nofun
  · exact fun | .some hblk => .some hblk.symm

theorem block_cases (h : g.Rearranged g') (b : BlockId) :
    (g.block? b = none ∧ g'.block? b = none) ∨
      ∃ blk blk', g.block? b = some blk ∧ g'.block? b = some blk' ∧
        blk.Rearranged blk' := by
  generalize hblk : g.block? b = o
  generalize hblk' : g'.block? b = o'
  have hrel := h.block b
  rw [hblk, hblk'] at hrel
  cases hrel with
  | none => exact Or.inl ⟨rfl, rfl⟩
  | some hsame => exact Or.inr ⟨_, _, rfl, rfl, hsame⟩

variable (h : g.Rearranged g')

include h

theorem mem_succs {a b : BlockId} : b ∈ g'.succs a ↔ b ∈ g.succs a := by
  rcases h.block_cases a with ⟨hblk, hblk'⟩ | ⟨blk, blk', hblk, hblk', hsame⟩
  · simp [Graph.succs, hblk, hblk']
  · rw [succs_of_block hblk, succs_of_block hblk', hsame.succs.mem_iff]

theorem mem_predsAt {a b : BlockId} : a ∈ g'.predsAt b ↔ a ∈ g.predsAt b := by
  rcases h.block_cases b with ⟨hblk, hblk'⟩ | ⟨blk, blk', hblk, hblk', hsame⟩
  · rw [Graph.predsAt, Graph.predsAt, listAt_of_none _ hblk,
      listAt_of_none _ hblk']
  · rw [predsAt_of_block hblk, predsAt_of_block hblk', hsame.preds.mem_iff]

theorem quadsAt (b : BlockId) : g'.quadsAt b = g.quadsAt b := by
  rcases h.block_cases b with ⟨hblk, hblk'⟩ | ⟨blk, blk', hblk, hblk', hsame⟩
  · rw [Graph.quadsAt, Graph.quadsAt, listAt_of_none _ hblk,
      listAt_of_none _ hblk']
  · rw [quadsAt_of_block hblk, quadsAt_of_block hblk', hsame.quads]

theorem idsAt (b : BlockId) : g'.idsAt b = g.idsAt b :=
  congrArg (List.map Quad.id) (h.quadsAt b)

theorem hasEnds (hends : g.HasEnds) : g'.HasEnds := by
  have hsome : ∀ b, (g.block? b).isSome → (g'.block? b).isSome := by
    intro b hb
    rcases h.block_cases b with ⟨hblk, -⟩ | ⟨_, _, -, hblk', -⟩
    · simp [hblk] at hb
    · simp [hblk']
  exact ⟨hsome _ hends.1, hsome _ hends.2⟩

theorem mem_programOrder {b : BlockId} :
    b ∈ g'.programOrder ↔ b ∈ g.programOrder := by
  have hstep : (fun a b => b ∈ g'.succs a) = fun a b => b ∈ g.succs a := by
    funext a b
    exact propext h.mem_succs
  rw [mem_programOrder_iff, mem_programOrder_iff, Reachable, Reachable, hstep]

/-- The two program orders list the same blocks, and so the same quads. -/
theorem quads_perm : g'.quads.Perm g.quads := by
  have hblocks : g'.programOrder.Perm g.programOrder :=
    (List.perm_ext_iff_of_nodup (Search.nodup_reversePostorder _ _ _)
      (Search.nodup_reversePostorder _ _ _)).2 fun b => h.mem_programOrder
  rw [quads_eq, quads_eq, funext h.quadsAt]
  exact hblocks.flatMap_right _

theorem mem_quads {q : Quad} : q ∈ g'.quads ↔ q ∈ g.quads :=
  h.quads_perm.mem_iff

theorem distinctQuads (hdist : g.DistinctQuads) : g'.DistinctQuads :=
  (h.quads_perm.map Quad.id).nodup_iff.2 hdist

theorem visits {q : QuadId} : g'.Visits q ↔ g.Visits q := by
  simp only [Visits, h.mem_quads]

theorem name : g'.name = g.name := congrArg Method.name h.method

theorem params : g'.params = g.params := congrArg Method.params h.method

theorem registers : g'.registers = g.registers := by
  refine OrdSet.ext fun r => ?_
  simp only [mem_registers, h.mem_quads, h.params]

end Rearranged

/-! ## The neighbours -/

namespace Rearranged

theorem lookBack (h : g.Rearranged g') (b : BlockId) :
    (g.lookBack g.programOrder b).Within (g'.lookBack g'.programOrder b) := by
  simp only [Graph.lookBack, h.mem_programOrder]
  split
  · exact .refl _
  · split
    · exact .refl _
    · rcases h.block_cases b with
        ⟨hblk, hblk'⟩ | ⟨blk, blk', hblk, hblk', hsame⟩
      · rw [hblk, hblk']
        exact .refl _
      · rw [hblk, hblk']
        simp only [Block.last?, hsame.quads]
        split
        · exact .refl _
        · exact .leadsTo fun _ => hsame.preds.mem_iff.2

theorem lookAhead (h : g.Rearranged g') (b : BlockId) :
    (g.lookAhead g.programOrder b).Within (g'.lookAhead g'.programOrder b) := by
  simp only [Graph.lookAhead, h.mem_programOrder]
  split
  · exact .refl _
  · split
    · exact .refl _
    · rcases h.block_cases b with
        ⟨hblk, hblk'⟩ | ⟨blk, blk', hblk, hblk', hsame⟩
      · rw [hblk, hblk']
        exact .refl _
      · rw [hblk, hblk']
        simp only [Block.first?, hsame.quads]
        split
        · exact .refl _
        · exact .leadsTo fun _ => hsame.succs.mem_iff.2

theorem incoming_subset (h : g.Rearranged g') {b : BlockId} {n : Neighbour}
    (hn : n ∈ g.incoming g.programOrder (g.predsAt b)) :
    n ∈ g'.incoming g'.programOrder (g'.predsAt b) := by
  have hsees := Search.sees_of_mem_lookThrough hn
  refine mem_incoming_of_sees ((hsees.congr h.lookBack).mono fun a ha => ?_)
  exact h.mem_predsAt.2 ha

theorem outgoing_subset (h : g.Rearranged g') {b : BlockId} {n : Neighbour}
    (hn : n ∈ g.outgoing g.programOrder (g.succs b)) :
    n ∈ g'.outgoing g'.programOrder (g'.succs b) := by
  have hsees := Search.sees_of_mem_lookThrough hn
  refine mem_outgoing_of_sees ((hsees.congr h.lookAhead).mono fun a ha => ?_)
  exact h.mem_succs.2 ha

theorem mem_incoming (h : g.Rearranged g') {b : BlockId} {n : Neighbour} :
    n ∈ g'.incoming g'.programOrder (g'.predsAt b) ↔
      n ∈ g.incoming g.programOrder (g.predsAt b) :=
  ⟨h.symm.incoming_subset, h.incoming_subset⟩

theorem mem_outgoing (h : g.Rearranged g') {b : BlockId} {n : Neighbour} :
    n ∈ g'.outgoing g'.programOrder (g'.succs b) ↔
      n ∈ g.outgoing g.programOrder (g.succs b) :=
  ⟨h.symm.outgoing_subset, h.outgoing_subset⟩

variable {e e' : QuadGraph}

theorem mem_origins (h : g.Rearranged g') (hdist : g.DistinctQuads)
    (he : g.quadGraph = .ok e) (he' : g'.quadGraph = .ok e') {q : Quad}
    (hq : q ∈ g.quads) (d : Direction) {n : Neighbour} :
    n ∈ e'.origins d q.id ↔ n ∈ e.origins d q.id := by
  obtain ⟨b, hb, left, right, hids⟩ := exists_ids_of_visits ⟨q, hq, rfl⟩
  have hat := neighbours_at hdist he hb hids
  have hat' := neighbours_at (h.distinctQuads hdist) he'
    (h.mem_programOrder.2 hb) ((h.idsAt b).trans hids)
  cases d with
  | forward =>
      show n ∈ e'.preds q.id ↔ n ∈ e.preds q.id
      rw [hat.1, hat'.1]
      cases left.getLast? with
      | none => exact h.mem_incoming
      | some i => exact Iff.rfl
  | backward =>
      show n ∈ e'.succs q.id ↔ n ∈ e.succs q.id
      rw [hat.2, hat'.2]
      cases right.head? with
      | none => exact h.mem_outgoing
      | some i => exact Iff.rfl

theorem mem_finals (h : g.Rearranged g') (he : g.quadGraph = .ok e)
    (he' : g'.quadGraph = .ok e') (d : Direction) {n : Neighbour} :
    n ∈ e'.finals d ↔ n ∈ e.finals d := by
  obtain ⟨hexit, hentry⟩ := sentinels_of_quadGraph he
  obtain ⟨hexit', hentry'⟩ := sentinels_of_quadGraph he'
  cases d with
  | forward =>
      show n ∈ e'.exitPreds ↔ n ∈ e.exitPreds
      rw [hexit, hexit']
      exact h.mem_incoming
  | backward =>
      show n ∈ e'.entrySuccs ↔ n ∈ e.entrySuccs
      rw [hentry, hentry']
      exact h.mem_outgoing

end Rearranged

end Graph

/-! ## One system of equations -/

namespace Problem

variable {α : Type} [Element α] {p : Problem α} {g g' : Graph}
  {e e' : QuadGraph} {v v' : Valuation α}

/-- Facts meet in any order, and as often as they like. -/
theorem inflow_congr {origins origins' : List Neighbour}
    (h : ∀ n, n ∈ origins' ↔ n ∈ origins) :
    p.inflow v origins' = p.inflow v origins := by
  refine OrdSet.ext fun a => ?_
  cases hmeet : p.meet with
  | union => simp only [mem_inflow_union hmeet, h]
  | intersection => simp only [mem_inflow_intersection hmeet, h]

theorem Lawful.rearranged (hlaw : p.Lawful g) (h : g.Rearranged g') :
    p.Lawful g' :=
  ⟨fun q hq => hlaw.monotone q (h.mem_quads.1 hq),
    fun q hq => hlaw.closed q (h.mem_quads.1 hq), hlaw.source⟩

theorem IsSolution.rearranged (hv : p.IsSolution g e v) (h : g.Rearranged g')
    (hdist : g.DistinctQuads) (he : g.quadGraph = .ok e)
    (he' : g'.quadGraph = .ok e') :
    p.IsSolution g' e' v := by
  refine ⟨fun q hq => ?_, fun q hq => hv.departure q (h.mem_quads.1 hq),
    hv.source, ?_⟩
  · have hq := h.mem_quads.1 hq
    rw [hv.arrival q hq]
    exact (inflow_congr fun n => h.mem_origins hdist he he' hq _).symm
  · rw [hv.target]
    exact (inflow_congr fun n => h.mem_finals he he' _).symm

variable [DecidableEq α] {passes passes' : List (Pass α)}

/-- The answer for one graph lies below the answer for the other. -/
theorem Settles.under_rearranged (hlaw : p.Lawful g) (h : g.Rearranged g')
    (hdist : g.DistinctQuads) (he : g.quadGraph = .ok e)
    (he' : g'.quadGraph = .ok e')
    (hs : p.Settles (g.layout e p.direction) p.start passes v)
    (hs' : p.Settles (g'.layout e' p.direction) p.start passes' v') :
    p.Under g v' v := by
  have hdist' := h.distinctQuads hdist
  have hlaw' := hlaw.rearranged h
  have hv' := hs'.isSolution
  have hw : p.IsSolution g e v' := hv'.rearranged h.symm hdist' he' he
  have hover := (hs'.bounded hlaw' he').within he' hv'
  refine hs.above hlaw he (hw.tenable ⟨fun q hq => ?_, hover.terminal⟩) ?_
  · exact hover.fact q (h.mem_quads.2 hq)
  · rw [hv'.source]
    exact Meet.below_refl _ _

/-- The answers for the two graphs are one. -/
theorem Settles.eq_rearranged (hlaw : p.Lawful g) (h : g.Rearranged g')
    (hdist : g.DistinctQuads) (he : g.quadGraph = .ok e)
    (he' : g'.quadGraph = .ok e')
    (hs : p.Settles (g.layout e p.direction) p.start passes v)
    (hs' : p.Settles (g'.layout e' p.direction) p.start passes' v') :
    (∀ q, g.Visits q → ∀ side, v'.fact side q = v.fact side q) ∧
      ∀ t, v'.terminal t = v.terminal t := by
  have hbelow := hs.under_rearranged hlaw h hdist he he' hs'
  have habove := hs'.under_rearranged (hlaw.rearranged h) h.symm
    (h.distinctQuads hdist) he' he hs
  have hfact : ∀ q, g.Visits q → ∀ side, v'.fact side q = v.fact side q :=
    fun q hq side => Meet.below_antisymm (hbelow.fact q hq side)
      (habove.fact q (h.visits.2 hq) side)
  have hsource := Meet.below_antisymm hbelow.source habove.source
  refine ⟨hfact, fun t => ?_⟩
  rcases p.direction.terminal_eq t with rfl | rfl
  · exact hsource
  · have hv := hs.isSolution
    have hv' := hs'.isSolution.rearranged h.symm (h.distinctQuads hdist) he' he
    rw [hv.target, hv'.target]
    have hvisits : ∀ q, some q ∈ e.finals p.direction → g.Visits q :=
      fun q hq => QuadGraph.visits_of_mem_finals he hq
    have hunder : p.Under g v v' :=
      ⟨fun q hq side => habove.fact q (h.visits.2 hq) side, habove.source⟩
    exact Meet.below_antisymm (hbelow.inflow hvisits) (hunder.inflow hvisits)

end Problem

/-! ## One table

A table has its slots by ascending number, whichever way the sweeps went, so it
is determined by the facts that it shows. -/

namespace FactMap

variable {α : Type} [Element α]

theorem Shows.unique {g : Graph} {t t' : FactMap (OrdSet α)} {v : Valuation α}
    (h : t.Shows g v) (h' : t'.Shows g v)
    (hids : t.ids = (OrdSet.ofList (g.quads.map Quad.id)).toList)
    (hids' : t'.ids = t.ids) : t' = t := by
  have hnodup : t.ids.Nodup := by
    rw [hids]
    exact (OrdSet.ofList _).nodup_toList
  refine eq_of_slot? hnodup hids' (fun q => ?_)
    fun e => (h'.terminal e).trans (h.terminal e).symm
  by_cases hq : q ∈ t.ids
  · have hvisits : g.Visits q := by
      rw [hids] at hq
      simpa [Graph.Visits] using OrdSet.mem_ofList.1 hq
    obtain ⟨slot, hslot⟩ := Option.isSome_iff_exists.1 (isSome_slot?_iff.2 hq)
    obtain ⟨slot', hslot'⟩ :=
      Option.isSome_iff_exists.1 (isSome_slot?_iff.2 (hids' ▸ hq))
    have hsame : ∀ side, slot'.get side = slot.get side := by
      intro side
      have hfact := (h'.fact q hvisits side).trans (h.fact q hvisits side).symm
      simpa [get?, hslot, hslot'] using hfact
    rw [hslot, hslot']
    obtain ⟨before, after⟩ := slot
    obtain ⟨before', after'⟩ := slot'
    rw [show before' = before from hsame .before,
      show after' = after from hsame .after]
  · rw [Option.not_isSome_iff_eq_none.1 (mt isSome_slot?_iff.1 hq),
      Option.not_isSome_iff_eq_none.1 (mt isSome_slot?_iff.1 (hids' ▸ hq))]

end FactMap

namespace Problem

variable {α : Type} [DecidableEq α] [Element α] {p : Problem α}

/-- Solutions of one problem on two graphs, with the same table, each with the
loop of sweeps that led to it. -/
structure Counterparts (p : Problem α) (g g' : Graph) (sol sol' : Solution α) :
    Prop where
  solved : p.solve g = .ok sol
  solved' : p.solve g' = .ok sol'
  facts : sol'.facts = sol.facts
  quads : sol'.quads = sol.quads
  settled : ∃ e e' v v', sol.facts.Shows g v ∧
    p.Settles (g.layout e p.direction) p.start sol.passes v ∧
    p.Settles (g'.layout e' p.direction) p.start sol'.passes v' ∧
    ∀ q, g.Visits q → ∀ side, v'.fact side q = v.fact side q

theorem Lawful.exists_counterparts {g g' : Graph} (hlaw : p.Lawful g)
    (h : g.Rearranged g') (hends : g.HasEnds) (hdist : g.DistinctQuads) :
    ∃ sol sol', p.Counterparts g g' sol sol' := by
  obtain ⟨e, sol, v, he, hsol, hshown, hsettles, hquads, -⟩ :=
    hlaw.solve_ok hends hdist
  obtain ⟨e', sol', v', he', hsol', hshown', hsettles', hquads', -⟩ :=
    (hlaw.rearranged h).solve_ok (h.hasEnds hends) (h.distinctQuads hdist)
  obtain ⟨hfact, hterminal⟩ :=
    hsettles.eq_rearranged hlaw h hdist he he' hsettles'
  have hshows : sol'.facts.Shows g v := by
    refine ⟨fun q hq side => ?_, fun t => ?_⟩
    · rw [hshown'.fact q (h.visits.2 hq) side, hfact q hq side]
    · rw [hshown'.terminal t, hterminal t]
  have hids : sol'.facts.ids = sol.facts.ids := by
    rw [ids_solve hsol, ids_solve hsol']
    refine congrArg OrdSet.toList (OrdSet.ext fun q => ?_)
    simp only [OrdSet.mem_ofList, (h.quads_perm.map Quad.id).mem_iff]
  refine ⟨sol, sol', hsol, hsol',
    hshown.unique hshows (ids_solve hsol) hids, ?_, e, e', v, v', hshown,
    hsettles, hsettles', hfact⟩
  rw [hquads, hquads', h.quads_perm.length_eq]

end Problem

/-! ## What the analyses answer -/

/-- Two visits that both end well, of graphs with as many quads, and leave the
same to see in the analysis; the facts it holds are those of one valuation, at
the quads of either graph and at both ends. One visit may take more sweeps than
the other. -/
structure Visit.Alike {σ τ α : Type} [Element α] (seen : σ → τ)
    (facts : σ → FactMap (OrdSet α)) (x y : Visit σ) : Prop where
  result : ∃ stats stats', x.result = .ok stats ∧ y.result = .ok stats' ∧
    stats'.quads = stats.quads
  state : seen y.state = seen x.state
  facts : ∃ v, (facts x.state).Shows x.graph v ∧ (facts y.state).Shows y.graph v

/-- What reaching definitions hold, without the order in which registers were
first seen to be defined. -/
def ReachingDefinitions.State.seen (s : State) :
    OrdSet QuadId × (Register → OrdSet QuadId) × FactMap (OrdSet QuadId) ×
      Option FactReport :=
  (s.domain, definitionsOf s.definitions, s.facts, s.report)

namespace Graph.Rearranged

variable {g g' : Graph} (h : g.Rearranged g')

include h

/-- It is enough that an analysis concludes the same from two such solutions. -/
theorem alike {σ τ α : Type} [DecidableEq α] [Element α] (hends : g.HasEnds)
    (hdist : g.DistinctQuads) {p : Problem α} (hlaw : p.Lawful g) {seen : σ → τ}
    {facts : σ → FactMap (OrdSet α)} {old old' : σ}
    {prepared prepared' : List Event}
    {conclude conclude' : Solution α → σ × List Event} (f : OrdSet α → OrdSet α)
    (hfacts : ∀ sol, facts (conclude sol).1 = sol.facts.map f)
    (hfacts' : ∀ sol, facts (conclude' sol).1 = sol.facts.map f)
    (hseen : ∀ sol sol', p.Counterparts g g' sol sol' →
      seen (conclude' sol').1 = seen (conclude sol).1) :
    Visit.Alike seen facts (Visit.solve old g prepared p conclude)
      (Visit.solve old' g' prepared' p conclude') := by
  obtain ⟨sol, sol', hboth⟩ := hlaw.exists_counterparts h hends hdist
  obtain ⟨-, -, v, -, hshown, -⟩ := hboth.settled
  obtain ⟨hresult, hstate⟩ := Visit.solve_eq hboth.solved old prepared conclude
  obtain ⟨hresult', hstate'⟩ :=
    Visit.solve_eq hboth.solved' old' prepared' conclude'
  refine ⟨⟨_, _, hresult, hresult', hboth.quads⟩, ?_, v.map f, ?_, ?_⟩
  · rw [hstate, hstate', hseen sol sol' hboth]
  · rw [Visit.graph_solve, hstate, hfacts]
    exact hshown.map f
  · rw [Visit.graph_solve, hstate', hfacts', hboth.facts]
    exact ⟨fun q hq => (hshown.map f).fact q (h.visits.1 hq),
      (hshown.map f).terminal⟩

theorem definitionsOf (r : Register) :
    ReachingDefinitions.definitionsOf (ReachingDefinitions.definitions g') r =
      ReachingDefinitions.definitionsOf
        (ReachingDefinitions.definitions g) r := by
  refine OrdSet.ext fun d => ?_
  simp only [ReachingDefinitions.mem_definitionsOf, h.mem_quads]

theorem domain :
    ReachingDefinitions.domain g' = ReachingDefinitions.domain g := by
  refine OrdSet.ext fun d => ?_
  simp only [ReachingDefinitions.mem_domain, h.mem_quads]

theorem reachingDefinitions :
    ReachingDefinitions.problem g' = ReachingDefinitions.problem g := by
  have htransfer :
      ReachingDefinitions.transfer (ReachingDefinitions.definitions g') =
      ReachingDefinitions.transfer (ReachingDefinitions.definitions g) := by
    funext q s
    simp only [ReachingDefinitions.transfer, h.definitionsOf]
  simp only [ReachingDefinitions.problem, htransfer, h.domain]

/-- Which checks are redundant is read off the last sweep, in whatever order it
came to them. -/
theorem redundant (hdist : g.DistinctQuads) {sol sol' : Solution Register}
    (hboth : (NonNull.problem g).Counterparts g g' sol sol') :
    NonNull.redundant sol'.passes = NonNull.redundant sol.passes := by
  obtain ⟨e, e', v, v', -, hsettles, hsettles', hfact⟩ := hboth.settled
  have hproblem : NonNull.problem g' = NonNull.problem g := by
    simp only [NonNull.problem, h.registers, h.params]
  rw [← hproblem] at hsettles'
  refine OrdSet.ext fun i => ?_
  rw [NonNull.mem_redundant hdist hsettles,
    NonNull.mem_redundant (h.distinctQuads hdist) hsettles']
  simp only [h.mem_quads]
  refine exists_congr fun q => and_congr_right fun hq => ?_
  rw [hfact q.id ⟨q, hq, rfl⟩ .before]

end Graph.Rearranged

/-- No analysis depends on the order in which edges are listed or blocks came.
Two graphs that differ in nothing else have the same reachable quads, and each
of the four analyses ends well on both, whatever it held before. It then holds
the same facts on both sides of each of these quads and at both ends, the same
report and, for null checks, the same redundant ones. -/
theorem order_of_edges_ignored {g g' : Graph} (hends : g.HasEnds)
    (hdist : g.DistinctQuads) (h : g.Rearranged g') :
    g'.quads.Perm g.quads ∧
    (∀ s s', Visit.Alike ReachingDefinitions.State.seen
      ReachingDefinitions.State.facts
      (ReachingDefinitions.visit s g) (ReachingDefinitions.visit s' g')) ∧
    (∀ s s', Visit.Alike id Liveness.State.facts
      (Liveness.visit s g) (Liveness.visit s' g')) ∧
    (∀ s s', Visit.Alike id Faintness.State.facts
      (Faintness.visit s g) (Faintness.visit s' g')) ∧
    ∀ s s', s.inserting = false → s'.inserting = false →
      Visit.Alike id NonNull.State.facts (NonNull.visit s g)
        (NonNull.visit s' g') := by
  have hid : ∀ {α : Type} [Element α] (t : FactMap (OrdSet α)),
      t = t.map id := by
    intro α _ t
    simp [FactMap.map]
  refine ⟨h.quads_perm, fun s s' => ?_, fun s s' => ?_, fun s s' => ?_,
    fun s s' hs hs' => ?_⟩
  · simp only [ReachingDefinitions.visit, h.reachingDefinitions]
    refine h.alike hends hdist (ReachingDefinitions.lawful g) id
      (fun sol => hid _) (fun sol => hid _) fun sol sol' hboth => ?_
    simp only [ReachingDefinitions.State.seen, h.domain, funext h.definitionsOf,
      hboth.facts, h.name]
  · simp only [Liveness.visit, Liveness.problem, h.registers, h.name]
    refine h.alike hends hdist (Liveness.lawful g) id (fun sol => hid _)
      (fun sol => hid _) fun sol sol' hboth => ?_
    simp only [hboth.facts]
  · simp only [Faintness.visit, Faintness.problem, h.registers, h.name]
    refine h.alike hends hdist (Faintness.lawful g) _ (fun sol => rfl)
      (fun sol => rfl) fun sol sol' hboth => ?_
    simp only [hboth.facts]
  · rw [NonNull.visit_eq_analyse hs, NonNull.visit_eq_analyse hs']
    simp only [NonNull.analyse, NonNull.problem, h.registers, h.params, h.name]
    refine h.alike hends hdist (NonNull.lawful g) id (fun sol => hid _)
      (fun sol => hid _) fun sol sol' hboth => ?_
    simp only [hboth.facts, h.redundant hdist hboth, hs, hs']

/-- A cycle of two blocks that is entered at either of them, so that the order
of two edges decides which comes first. One makes doubtful what the other
needs. -/
def Graph.crossing : Graph where
  method := ⟨"crossing", [⟨"R0"⟩]⟩
  blocks := .ofList [
    (.entry, ⟨.entry, [], [], [⟨2⟩]⟩),
    (.exit, ⟨.exit, [], [⟨3⟩], []⟩),
    (⟨2⟩, ⟨⟨2⟩, [⟨⟨1⟩, .branch (.reg ⟨"R0"⟩) (.const .null) .eq ⟨4⟩⟩],
      [.entry], [⟨3⟩, ⟨4⟩]⟩),
    (⟨3⟩, ⟨⟨3⟩, [⟨⟨2⟩, .nullCheck none ⟨"R1"⟩⟩,
      ⟨⟨3⟩, .move ⟨"R1"⟩ (.reg ⟨"R0"⟩)⟩], [⟨2⟩, ⟨4⟩], [⟨4⟩, .exit]⟩),
    (⟨4⟩, ⟨⟨4⟩, [⟨⟨4⟩, .nullCheck none ⟨"R1"⟩⟩], [⟨2⟩, ⟨3⟩], [⟨3⟩]⟩)]
  nextQuad := 5
  nextBlock := 5

/-- The same cycle, with the edges and the blocks of the cycle the other way
round. -/
def Graph.crossingTurned : Graph where
  method := ⟨"crossing", [⟨"R0"⟩]⟩
  blocks := .ofList [
    (.exit, ⟨.exit, [], [⟨3⟩], []⟩),
    (⟨4⟩, ⟨⟨4⟩, [⟨⟨4⟩, .nullCheck none ⟨"R1"⟩⟩], [⟨3⟩, ⟨2⟩], [⟨3⟩]⟩),
    (⟨3⟩, ⟨⟨3⟩, [⟨⟨2⟩, .nullCheck none ⟨"R1"⟩⟩,
      ⟨⟨3⟩, .move ⟨"R1"⟩ (.reg ⟨"R0"⟩)⟩], [⟨4⟩, ⟨2⟩], [.exit, ⟨4⟩]⟩),
    (⟨2⟩, ⟨⟨2⟩, [⟨⟨1⟩, .branch (.reg ⟨"R0"⟩) (.const .null) .eq ⟨4⟩⟩],
      [.entry], [⟨4⟩, ⟨3⟩]⟩),
    (.entry, ⟨.entry, [], [], [⟨2⟩]⟩)]
  nextQuad := 5
  nextBlock := 5

/-- The two take the blocks in different orders and need different numbers of
sweeps for the same answers. -/
theorem order_of_edges_ignored_crossing :
    Graph.crossing.HasEnds ∧ Graph.crossing.DistinctQuads ∧
      Graph.crossing.Rearranged .crossingTurned ∧
      Graph.crossing.programOrder ≠ Graph.crossingTurned.programOrder ∧
      (NonNull.visit (.fresh false) .crossing).result.toOption = some ⟨2, 4⟩ ∧
      (NonNull.visit (.fresh false) .crossingTurned).result.toOption =
        some ⟨3, 4⟩ ∧
      Visit.Alike ReachingDefinitions.State.seen ReachingDefinitions.State.facts
        (ReachingDefinitions.visit .fresh .crossing)
        (ReachingDefinitions.visit .fresh .crossingTurned) ∧
      Visit.Alike id NonNull.State.facts
        (NonNull.visit (.fresh false) .crossing)
        (NonNull.visit (.fresh false) .crossingTurned) := by
  have hsame : Graph.crossing.Rearranged .crossingTurned := by decide
  obtain ⟨-, hreaching, -, -, hnonnull⟩ :=
    order_of_edges_ignored (by decide) (by decide) hsame
  exact ⟨by decide, by decide, hsame, by decide, by decide +kernel,
    by decide +kernel, hreaching _ _, hnonnull _ _ rfl rfl⟩

end Dataflow
