import Mathlib.Data.List.Flatten
import Dataflow.Proofs.Convergence
import Dataflow.Proofs.DepthFirst
import Dataflow.Proofs.Rearrangement
import Dataflow.Proofs.Transparency

/-!
# Without loops one sweep does the work

A sweep sees what it has already done. So if it comes to every quad after all
that facts are taken from, it finds them final, and leaves the quad final too.
This file says so of a list of stations first (`Downstream`): each is steady
once the sweep has been there, because nothing that the sweep writes later is
read by it. Nothing is asked of the problem for that, neither that facts fall
nor that the transfer is monotone.

That a graph without loops is swept in such an order has three parts. Every edge
between blocks goes forward in program order, since one that does not closes a
cycle. A hop from quad to quad may go through empty blocks, but these too are
passed in order, so it also goes forward. And a sweep against control takes the
same quads in the reverse order and their facts over the same hops.

Inserted checks do not bring in a loop. A new block is ranked halfway between
the two ends of its edge, and then all edges still rise.
-/

namespace Dataflow

/-! ## Stations that facts pass in order -/

/-- Stations in the order in which facts pass them: none takes facts from
itself, and none writes facts that one before it has or takes. -/
structure Downstream (l : List Station) : Prop where
  self : ∀ s ∈ l, some s.quad.id ∉ s.origins
  later : l.Pairwise fun s s' => s'.quad.id ≠ s.quad.id ∧
    some s'.quad.id ∉ s.origins

namespace Problem

variable {α : Type} [Element α] {p : Problem α} {v : Valuation α}
  {l : List Station} {r : Route}

theorem steps_of_ne {q : QuadId} (h : ∀ s ∈ l, s.quad.id ≠ q) (side : Side) :
    (p.steps v l).fact side q = v.fact side q := by
  refine steps_keep (fun w => w.fact side q = v.fact side q)
    (fun s hs w hw => ?_) rfl
  rw [step_of_ne (h s hs).symm]
  exact hw

theorem inflow_steps {origins : List Neighbour}
    (h : ∀ s ∈ l, some s.quad.id ∉ origins) :
    p.inflow (p.steps v l) origins = p.inflow v origins := by
  refine OrdSet.ext fun a => mem_inflow_congr fun n hn => ?_
  cases n with
  | none => rw [outflow, outflow, steps_terminal]
  | some q =>
      have hne : ∀ s ∈ l, s.quad.id ≠ q := fun s hs heq => h s hs (heq ▸ hn)
      rw [outflow, outflow, steps_of_ne hne]

/-- A station that is brought up to date stays so, since nothing that comes
after it is sent to it. -/
theorem steady_steps (h : Downstream l) :
    ∀ s ∈ l, p.Steady (p.steps v l) s := by
  induction l generalizing v with
  | nil => simp
  | cons first rest ih =>
      obtain ⟨hlater, hrest⟩ := List.pairwise_cons.1 h.later
      intro s hs
      rcases List.mem_cons.1 hs with rfl | hs
      · have hfact : ∀ side, (p.steps v (s :: rest)).fact side s.quad.id =
            (p.step v s).fact side s.quad.id :=
          steps_of_ne fun s' hs' => (hlater s' hs').1
        have hin : p.inflow (p.steps v (s :: rest)) s.origins =
            p.inflow v s.origins := by
          refine inflow_steps fun s' hs' => ?_
          rcases List.mem_cons.1 hs' with rfl | hs'
          · exact h.self s' List.mem_cons_self
          · exact (hlater s' hs').2
        refine ⟨?_, ?_⟩
        · rw [hin, hfact, step_arrival]
        · rw [hin, hfact, step_departure]
      · refine ih ⟨fun s' hs' => ?_, hrest⟩ s hs
        exact h.self s' (List.mem_cons_of_mem first hs')

/-- One sweep downstream leaves nothing to do. -/
theorem atRest_swept (h : Downstream r.stations) :
    p.AtRest r (p.swept r v) := by
  refine ⟨fun s hs => ?_, ?_⟩
  · obtain ⟨harrival, hdeparture⟩ := steady_steps (p := p) (v := v) h s hs
    refine ⟨?_, ?_⟩
    · rw [swept, inflow_setTarget]
      exact harrival
    · rw [swept, inflow_setTarget]
      exact hdeparture
  · rw [swept, inflow_setTarget, Valuation.terminal_setTerminal_self]

section Passes

variable [DecidableEq α]

/-- A sweep at rest moves nothing. -/
theorem AtRest.sweep (h : p.AtRest r v) :
    (p.passFrom r v).changes = 0 ∧ p.swept r v = v := by
  have hsteps := steps_of_steady h.1
  have htarget : p.inflow (p.steps v r.stations) r.final =
      v.terminal p.direction.target := by rw [hsteps, h.2]
  refine ⟨Pass.changes_eq_zero.2 ⟨fun a ha => ?_, ?_⟩, ?_⟩
  · rw [passFrom, arrivalsFrom_of_steady h.1] at ha
    obtain ⟨s, -, rfl⟩ := List.mem_map.1 ha
    rfl
  · simp [passFrom, htarget]
  · rw [swept, htarget, hsteps]
    exact Valuation.setTerminal_eq_self rfl

theorem settles_downstream (h : Downstream r.stations) :
    ∃ passes, p.Settles r v passes (p.swept r v) ∧ passes.length ≤ 2 := by
  by_cases hmoved : (p.passFrom r v).changes = 0
  · exact ⟨_, .last hmoved, by simp⟩
  · obtain ⟨hzero, hsame⟩ := (atRest_swept (p := p) (v := v) h).sweep
    have hlast := Settles.last hzero
    rw [hsame] at hlast
    exact ⟨_, .more hmoved hlast, by simp⟩

/-- The first sweep over a graph leaves a table in which the second finds
nothing to change, neither at a quad nor at the target. -/
def DoneAtOnce (p : Problem α) (g : Graph) (t : FactMap (OrdSet α)) : Prop :=
  ∃ r first second, g.route p.direction = .ok r ∧
    p.sweep r (p.initial g) = .ok (t, first) ∧
    p.sweep r t = .ok (t, second) ∧ second.changes = 0

theorem solve_downstream {g : Graph} {e : QuadGraph} (he : g.quadGraph = .ok e)
    (h : Downstream (g.layout e p.direction).stations) :
    ∃ sol, p.solve g = .ok sol ∧ sol.stats.sweeps ≤ 2 ∧
      p.DoneAtOnce g sol.facts := by
  have hwithin := Graph.layout_within he p.direction
  obtain ⟨passes, hsettles, hlen⟩ :=
    settles_downstream (p := p) (v := p.start) h
  have hlim : passes.length ≤ p.sweepLimit (g.sweepOrder p.direction) :=
    Nat.le_trans hlen (Nat.le_add_left _ _)
  obtain ⟨sol, hsol, hshown, rfl, -, -⟩ := solve_eq he hsettles hlim
  have hids := ids_solve hsol
  obtain ⟨t₁, hfirst, hshown₁⟩ := sweep_eq (p := p) hwithin (p.initial_shows g)
  have hids₁ : t₁.ids = sol.facts.ids := by
    rw [(uses_sweep _).ids_eq hfirst, hids, initial]
    simp
  obtain rfl := hshown.unique hshown₁ hids hids₁
  -- the table after the second sweep shows the same valuation
  obtain ⟨t₂, hsecond, hshown₂⟩ := sweep_eq (p := p) hwithin hshown₁
  obtain ⟨hzero, hsame⟩ := (atRest_swept (p := p) (v := p.start) h).sweep
  rw [hsame] at hshown₂
  obtain rfl := hshown₁.unique hshown₂ hids ((uses_sweep _).ids_eq hsecond)
  exact ⟨sol, hsol, hlen, _, _, _, Graph.route_eq he p.direction, hfirst,
    hsecond, hzero⟩

end Passes

end Problem

/-! ## Graphs without loops -/

theorem Search.sublist_of_idxOf_lt {α : Type} [DecidableEq α] {u v : α}
    {l : List α} (hv : v ∈ l) (h : l.idxOf u < l.idxOf v) :
    [u, v].Sublist l := by
  induction l with
  | nil => cases hv
  | cons x l ih =>
      have hne : x ≠ v := by
        rintro rfl
        rw [List.idxOf_cons_self] at h
        exact Nat.not_lt_zero _ h
      have hv : v ∈ l := (List.mem_cons.1 hv).resolve_left hne.symm
      by_cases hu : x = u
      · subst hu
        exact (List.singleton_sublist.2 hv).cons_cons x
      · rw [List.idxOf_cons_ne l hu, List.idxOf_cons_ne l hne] at h
        exact (ih hv (Nat.lt_of_succ_lt_succ h)).cons x

namespace Graph

/-- No block that can be reached lies on a cycle. -/
def LoopFree (g : Graph) : Prop :=
  ∀ b, g.Reachable b → ¬ Relation.TransGen (fun a c => c ∈ g.succs a) b b

variable {g g' : Graph} {e : QuadGraph} {a b : BlockId} {i j : QuadId}

theorem loopFree_of_rank (rank : BlockId → Nat)
    (h : ∀ a ∈ g.programOrder, ∀ b ∈ g.succs a, rank a < rank b) :
    g.LoopFree := by
  intro b hb hcycle
  have hrise : ∀ c, Relation.TransGen (fun a c => c ∈ g.succs a) b c →
      c ∈ g.programOrder ∧ rank b < rank c := by
    intro c hc
    have hb := mem_programOrder_iff.2 hb
    induction hc with
    | single hc => exact ⟨g.programOrder_closed.2 b hb _ hc, h b hb _ hc⟩
    | tail _ hd ih =>
        obtain ⟨hc, hlt⟩ := ih
        exact ⟨g.programOrder_closed.2 _ hc _ hd,
          Nat.lt_trans hlt (h _ hc _ hd)⟩
  exact Nat.lt_irrefl _ (hrise b hcycle).2

theorem LoopFree.idxOf_lt (h : g.LoopFree) (ha : a ∈ g.programOrder)
    (hb : b ∈ g.succs a) : g.programOrder.idxOf a < g.programOrder.idxOf b := by
  by_contra hlt
  exact h a (mem_programOrder_iff.1 ha) (.head' hb (leads_of_not_lt ha hb hlt))

/-- A graph has no loop when every edge goes forward in program order. -/
theorem loopFree_iff : g.LoopFree ↔ ∀ a ∈ g.programOrder, ∀ b ∈ g.succs a,
    g.programOrder.idxOf a < g.programOrder.idxOf b :=
  ⟨fun h _ ha _ hb => h.idxOf_lt ha hb, loopFree_of_rank _⟩

instance : DecidablePred LoopFree :=
  fun _ => decidable_of_iff _ loopFree_iff.symm

/-- Empty blocks on the way do not change the order. -/
theorem LoopFree.idxOf_lt_of_corridor (h : g.LoopFree) (ha : a ∈ g.programOrder)
    (hab : g.Corridor a b) :
    g.programOrder.idxOf a < g.programOrder.idxOf b := by
  induction hab with
  | edge hb => exact h.idxOf_lt ha hb
  | past _ hvacant hc ih => exact Nat.lt_trans ih (h.idxOf_lt hvacant.1 hc)

theorem ids_eq (g : Graph) :
    g.quads.map Quad.id = g.programOrder.flatMap g.idsAt := by
  rw [quads_eq, List.map_flatMap]
  rfl

theorem LoopFree.sublist_of_hop (h : g.LoopFree)
    (hop : g.Hop (some i) (some j)) : [i, j].Sublist (g.quads.map Quad.id) := by
  rw [ids_eq]
  generalize hm : some i = m at hop
  generalize hn : some j = n at hop
  cases hop with
  | @within b before behind _ _ hb hids =>
      cases hm
      cases hn
      have hblock : (g.idsAt b).Sublist (g.programOrder.flatMap g.idsAt) := by
        simpa using (List.singleton_sublist.2 hb).flatMap g.idsAt
      refine List.Sublist.trans ?_ hblock
      rw [hids]
      refine List.Sublist.trans ?_ (List.sublist_append_right _ _)
      exact ((List.nil_sublist behind).cons_cons j).cons_cons i
  | @across a b _ _ ha hlast hcorridor hfirst =>
      subst hm hn
      have hlt := h.idxOf_lt_of_corridor ha hcorridor
      have hblocks : [a, b].Sublist g.programOrder :=
        Search.sublist_of_idxOf_lt (hcorridor.mem_programOrder ha) hlt
      have hboth : (g.idsAt a ++ g.idsAt b).Sublist
          (g.programOrder.flatMap g.idsAt) := by
        simpa using hblocks.flatMap g.idsAt
      refine List.Sublist.trans ?_ hboth
      exact (List.singleton_sublist.2 (List.mem_of_getLast? hlast)).append
        (List.singleton_sublist.2 (List.mem_of_head? hfirst))

/-- Control never hops back in the order in which quads are visited. -/
theorem LoopFree.pairwise (h : g.LoopFree) (hdist : g.DistinctQuads) :
    g.quads.Pairwise fun q q' => q.id ≠ q'.id ∧
      ¬ g.Hop (some q'.id) (some q.id) := by
  have hids : (g.quads.map Quad.id).Pairwise fun i j =>
      i ≠ j ∧ ¬ g.Hop (some j) (some i) := by
    refine List.pairwise_iff_forall_sublist.2 fun {i j} hij => ?_
    have hlt := Search.idxOf_lt_idxOf_of_sublist hdist hij
    refine ⟨fun heq => ?_, fun hop => ?_⟩
    · rw [heq] at hlt
      exact Nat.lt_irrefl _ hlt
    · have hback :=
        Search.idxOf_lt_idxOf_of_sublist hdist (h.sublist_of_hop hop)
      exact Nat.lt_asymm hlt hback
  exact List.pairwise_map.1 hids

theorem LoopFree.downstream (h : g.LoopFree) (hg : g.Regular)
    (he : g.quadGraph = .ok e) (d : Direction) :
    Downstream (g.layout e d).stations := by
  have hself : ∀ i, ¬ g.Hop (some i) (some i) := fun i hop =>
    List.nodup_iff_sublist.1 hg.distinct i (h.sublist_of_hop hop)
  have hpairs := h.pairwise hg.distinct
  refine ⟨fun s hs hmem => ?_, List.pairwise_map.2 ?_⟩
  · obtain ⟨q, -, rfl⟩ := mem_layout.1 hs
    have hfeeds := (hg.mem_origins_iff he).1 hmem
    cases d <;> exact hself _ hfeeds
  · cases d with
    | forward =>
        refine hpairs.imp fun hpair => ⟨hpair.1.symm, fun hmem => hpair.2 ?_⟩
        exact (hg.mem_origins_iff he (d := .forward)).1 hmem
    | backward =>
        refine List.pairwise_reverse.2
          (hpairs.imp fun hpair => ⟨hpair.1, fun hmem => ?_⟩)
        exact hpair.2 ((hg.mem_origins_iff he (d := .backward)).1 hmem)

/-! ## Inserted checks make no loops -/

/-- A new block ranks between the two ends of its edge. -/
theorem Split.loopFree {guard : Option Register} {p : Splice}
    (hg : g.WellFormed) (hsplit : g.Split guard p g') (h : g.LoopFree) :
    g'.LoopFree := by
  let rank : BlockId → Nat := fun k =>
    2 * g.programOrder.idxOf (p.behind k) + if k = p.block then 1 else 0
  have hnew : rank p.block = 2 * g.programOrder.idxOf p.site.block + 1 := by
    simp [rank, Splice.behind]
  have hold : ∀ k, k ≠ p.block → rank k = 2 * g.programOrder.idxOf k := by
    intro k hk
    simp [rank, Splice.behind, hk]
  refine loopFree_of_rank rank fun a ha b hb => ?_
  have ha := hsplit.behind_mem_programOrder hg ha
  rcases (hsplit.mem_succs hg).1 hb with ⟨hb, -⟩ | ⟨rfl, rfl⟩ | ⟨rfl, rfl⟩
  · have hane := hsplit.ne_of_mem_succs hg hb
    rw [Splice.behind, if_neg hane] at ha
    have hbne :=
      hsplit.ne_of_mem_programOrder hg (g.programOrder_closed.2 a ha b hb)
    have hlt := h.idxOf_lt ha hb
    rw [hold a hane, hold b hbne]
    omega
  · rw [hold _ (hsplit.ne_of_mem_succs hg (hsplit.edge_mem hg)), hnew]
    omega
  · rw [Splice.behind, if_pos rfl] at ha
    have hedge := hsplit.edge_mem hg
    have hbne :=
      hsplit.ne_of_mem_programOrder hg (g.programOrder_closed.2 _ ha _ hedge)
    have hlt := h.idxOf_lt ha hedge
    rw [hnew, hold _ hbne]
    omega

theorem Splits.loopFree {guard : Option Register} {plan : List Splice}
    (hsplits : Splits guard g plan g') (hready : g.Ready (plan.map Splice.site))
    (h : g.LoopFree) : g'.LoopFree := by
  induction hsplits with
  | nil => exact h
  | cons hsplit _ ih =>
      exact ih (hready.step hsplit) (hsplit.loopFree hready.wellFormed h)

theorem LoopFree.insertChecks {stats : CheckStats} (h : g.LoopFree)
    (hg : g.WellFormed) (hresult : g.insertChecks.result = .ok stats) :
    g.insertChecks.graph.LoopFree := by
  obtain ⟨guard, plan, hplan, hsplits, -⟩ := insertChecks_splits hg hresult
  exact hsplits.loopFree (hplan ▸ hg.ready) h

end Graph

/-! ## The analyses -/

/-- A visit that solves a problem on a graph without loops ends well, after two
sweeps at most. -/
theorem Graph.LoopFree.visit_at_once {σ α : Type} [DecidableEq α] [Element α]
    {g : Graph} (h : g.LoopFree) (hg : g.Regular) (p : Problem α) (old : σ)
    (prepared : List Event) (conclude : Solution α → σ × List Event) :
    ∃ sol, (Visit.solve old g prepared p conclude).result = .ok sol.stats ∧
      (Visit.solve old g prepared p conclude).state = (conclude sol).1 ∧
      sol.stats.sweeps ≤ 2 ∧ p.DoneAtOnce g sol.facts := by
  obtain ⟨e, he⟩ := hg.ends.quadGraph_ok
  obtain ⟨sol, hsol, hlen, hdone⟩ :=
    Problem.solve_downstream (p := p) he (h.downstream hg he p.direction)
  obtain ⟨hresult, hstate⟩ := Visit.solve_eq hsol old prepared conclude
  exact ⟨sol, hresult, hstate, hlen, hdone⟩

/-- The non-null analysis of a graph as it is, whatever came before. -/
theorem NonNull.analyse_at_once {g : Graph} (hfree : g.LoopFree)
    (hg : g.Regular) (s : State) (inserted : Option CheckStats)
    (earlier : List Event) :
    ∃ stats, (analyse s g inserted earlier).result = .ok stats ∧
      stats.sweeps ≤ 2 ∧
      (problem g).DoneAtOnce g (analyse s g inserted earlier).state.facts := by
  obtain ⟨sol, hresult, hstate, hlen, hdone⟩ :=
    hfree.visit_at_once hg (problem g) s _ _
  have hfacts : (analyse s g inserted earlier).state.facts = sol.facts :=
    congrArg State.facts hstate
  exact ⟨sol.stats, hresult, hlen, hfacts ▸ hdone⟩

/-- A method without loops takes one working sweep, whatever the analysis. All
four end well after at most two sweeps; the first leaves the table that they end
with, the fact at the target included, and a second leaves that table as it is.
For the non-null analysis that holds with and without checks inserted before,
when the insertion itself succeeds. -/
theorem loop_free_done_at_once {name : String} {script : List Command}
    {g : Graph} (hbuild : Graph.build name script = .ok g)
    (hfree : g.LoopFree) :
    (∀ s, ∃ stats, (ReachingDefinitions.visit s g).result = .ok stats ∧
      stats.sweeps ≤ 2 ∧ (ReachingDefinitions.problem g).DoneAtOnce g
        (ReachingDefinitions.visit s g).state.facts) ∧
    (∀ s, ∃ stats, (Liveness.visit s g).result = .ok stats ∧ stats.sweeps ≤ 2 ∧
      (Liveness.problem g).DoneAtOnce g (Liveness.visit s g).state.facts) ∧
    (∀ s, ∃ stats live, (Faintness.visit s g).result = .ok stats ∧
      stats.sweeps ≤ 2 ∧ (Faintness.visit s g).state.live = some live ∧
      (Faintness.problem g).DoneAtOnce g live ∧
      (Faintness.visit s g).state.facts =
        Faintness.complement g.registers live) ∧
    (∀ s, s.inserting = false →
      ∃ stats, (NonNull.visit s g).result = .ok stats ∧ stats.sweeps ≤ 2 ∧
        (NonNull.problem g).DoneAtOnce g (NonNull.visit s g).state.facts) ∧
    (∀ s, s.inserting = true →
      let g' := g.insertChecks.graph
      (∀ error, g.insertChecks.result = .error error →
        (NonNull.visit s g).result = .error error) ∧
      ∀ made, g.insertChecks.result = .ok made →
        ∃ stats, (NonNull.visit s g).result = .ok stats ∧ stats.sweeps ≤ 2 ∧
          (NonNull.problem g').DoneAtOnce g'
            (NonNull.visit s g).state.facts) := by
  have hg := Graph.build_wellFormed hbuild
  refine ⟨fun s => ?_, fun s => ?_, fun s => ?_, fun s hs => ?_, fun s hs => ?_⟩
  · obtain ⟨sol, hresult, hstate, hlen, hdone⟩ :=
      hfree.visit_at_once hg.regular (ReachingDefinitions.problem g) s _ _
    have hfacts : (ReachingDefinitions.visit s g).state.facts = sol.facts :=
      congrArg ReachingDefinitions.State.facts hstate
    exact ⟨sol.stats, hresult, hlen, hfacts ▸ hdone⟩
  · obtain ⟨sol, hresult, hstate, hlen, hdone⟩ :=
      hfree.visit_at_once hg.regular (Liveness.problem g) s _ _
    have hfacts : (Liveness.visit s g).state.facts = sol.facts :=
      congrArg Liveness.State.facts hstate
    exact ⟨sol.stats, hresult, hlen, hfacts ▸ hdone⟩
  · obtain ⟨sol, hresult, hstate, hlen, hdone⟩ :=
      hfree.visit_at_once hg.regular (Faintness.problem g) s _ _
    exact ⟨sol.stats, sol.facts, hresult, hlen,
      congrArg Faintness.State.live hstate, hdone,
      congrArg Faintness.State.facts hstate⟩
  · rw [NonNull.visit_eq_analyse hs]
    exact NonNull.analyse_at_once hfree hg.regular s none []
  · intro g'
    unfold NonNull.visit
    rw [if_pos hs]
    refine ⟨fun error herror => ?_, fun made hmade => ?_⟩
    · simp only [herror]
    · simp only [hmade]
      exact NonNull.analyse_at_once (hfree.insertChecks hg hmade)
        (hg.insertChecks hmade).regular s (some made) _

/-- Two ways from a branch to a return, one of them through an empty block. -/
def Graph.forkedPath : Graph where
  method := ⟨"path", [⟨"R0"⟩]⟩
  blocks := .ofList [
    (.entry, ⟨.entry, [], [], [⟨2⟩]⟩),
    (.exit, ⟨.exit, [], [⟨5⟩], []⟩),
    (⟨2⟩, ⟨⟨2⟩, [⟨⟨1⟩, .nullCheck none ⟨"R0"⟩⟩,
      ⟨⟨2⟩, .branch (.reg ⟨"R0"⟩) (.const .null) .eq ⟨4⟩⟩], [.entry],
      [⟨3⟩, ⟨4⟩]⟩),
    (⟨3⟩, ⟨⟨3⟩, [], [⟨2⟩], [⟨5⟩]⟩),
    (⟨4⟩, ⟨⟨4⟩, [⟨⟨3⟩, .move ⟨"R1"⟩ (.reg ⟨"R0"⟩)⟩], [⟨2⟩], [⟨5⟩]⟩),
    (⟨5⟩, ⟨⟨5⟩, [⟨⟨4⟩, .nullCheck none ⟨"R0"⟩⟩], [⟨3⟩, ⟨4⟩], [.exit]⟩)]
  nextQuad := 5
  nextBlock := 6

/-- The commands that make it. -/
def Graph.forkedPathScript : List Command :=
  [.param ⟨"R0"⟩, .block, .block, .block, .block,
    .push ⟨2⟩ (.nullCheck none ⟨"R0"⟩),
    .push ⟨2⟩ (.branch (.reg ⟨"R0"⟩) (.const .null) .eq ⟨4⟩),
    .push ⟨4⟩ (.move ⟨"R1"⟩ (.reg ⟨"R0"⟩)), .push ⟨5⟩ (.nullCheck none ⟨"R0"⟩),
    .edge .entry ⟨2⟩, .edge ⟨2⟩ ⟨3⟩, .edge ⟨2⟩ ⟨4⟩, .edge ⟨3⟩ ⟨5⟩,
    .edge ⟨4⟩ ⟨5⟩, .edge ⟨5⟩ .exit]

/-- Two sweeps do, with the check that is inserted before the empty block and
without it. -/
theorem loop_free_done_at_once_forkedPath :
    Graph.build "path" Graph.forkedPathScript = .ok .forkedPath ∧
      Graph.forkedPath.LoopFree ∧
      Graph.forkedPath.insertChecks.result = .ok ⟨1, 1, 0⟩ ∧
      (∃ stats, (Liveness.visit .fresh .forkedPath).result = .ok stats ∧
        stats.sweeps ≤ 2) ∧
      (∃ stats, (NonNull.visit (.fresh false) .forkedPath).result = .ok stats ∧
        stats.sweeps ≤ 2) ∧
      ∃ stats, (NonNull.visit (.fresh true) .forkedPath).result = .ok stats ∧
        stats.sweeps ≤ 2 ∧
        (NonNull.problem Graph.forkedPath.insertChecks.graph).DoneAtOnce
          Graph.forkedPath.insertChecks.graph
          (NonNull.visit (.fresh true) .forkedPath).state.facts := by
  have hbuild : Graph.build "path" Graph.forkedPathScript =
      .ok .forkedPath := rfl
  have hfree : Graph.forkedPath.LoopFree := by decide +kernel
  have hmade : Graph.forkedPath.insertChecks.result = .ok ⟨1, 1, 0⟩ := rfl
  obtain ⟨-, hliveness, -, hplain, hinserting⟩ :=
    loop_free_done_at_once hbuild hfree
  obtain ⟨stats, hresult, hlen, -⟩ := hliveness .fresh
  obtain ⟨stats', hresult', hlen', -⟩ := hplain (.fresh false) rfl
  exact ⟨hbuild, hfree, hmade, ⟨stats, hresult, hlen⟩,
    ⟨stats', hresult', hlen'⟩, (hinserting (.fresh true) rfl).2 _ hmade⟩

end Dataflow
