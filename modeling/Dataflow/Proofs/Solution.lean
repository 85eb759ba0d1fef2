import Dataflow.Analysis.Visit
import Dataflow.Proofs.Lawful
import Dataflow.Proofs.Settling

/-!
# What the solver answers

A lawful problem on a graph with both sentinels and distinct quad numbers has a
solution that lies above every other, and the solver finds it. That it solves
the equations is what being at rest means; that no solution lies above it
follows because the running valuation starts above all of them and no step
takes it below one.

Extremality asks less of the other valuation than that it solves the equations.
It need only be `Tenable`, an inequality where a solution has an equation, to
lie below the solver's.
-/

namespace Dataflow

/-- All facts at the quads of the program order and at both ends are subsets of
a set. -/
structure Valuation.Within {α : Type} [Element α] (g : Graph)
    (domain : OrdSet α) (v : Valuation α) : Prop where
  fact : ∀ q ∈ g.quads, ∀ side, v.fact side q.id ⊆ domain
  terminal : ∀ t, v.terminal t ⊆ domain

theorem Direction.terminal_eq (d : Direction) (t : Terminal) :
    t = d.source ∨ t = d.target := by
  cases d <;> cases t <;> decide

namespace Problem

section Equations

variable {α : Type} [Element α]

/-- The dataflow equations of a problem. What arrives at a quad is the meet of
what leaves its origins, where the end of the method sends out the fact at the
source; what leaves it is the transfer of what arrives; the fact at the source
is the one that the analysis gives; and the fact at the target is the meet of
what leaves the quads that lead there. -/
structure IsSolution (p : Problem α) (g : Graph) (e : QuadGraph)
    (v : Valuation α) : Prop where
  arrival : ∀ q ∈ g.quads, v.fact p.direction.arrival q.id =
    p.inflow v (e.origins p.direction q.id)
  departure : ∀ q ∈ g.quads, v.fact p.direction.departure q.id =
    p.transfer q (v.fact p.direction.arrival q.id)
  source : v.terminal p.direction.source = p.atSource
  target : v.terminal p.direction.target = p.inflow v (e.finals p.direction)

theorem Over.within {p : Problem α} {g : Graph} {e : QuadGraph}
    {v : Valuation α} (he : g.quadGraph = .ok e) (hv : p.IsSolution g e v)
    (h : p.Over g v) : v.Within g p.domain := by
  refine ⟨fun q hq side => h.fact q.id ⟨q, hq, rfl⟩ side, fun t => ?_⟩
  rcases p.direction.terminal_eq t with rfl | rfl
  · exact h.source
  · rw [hv.target]
    exact h.inflow_subset fun _ hp => QuadGraph.visits_of_mem_finals he hp

theorem domain_subset_support (p : Problem α) (quads : List Quad) :
    p.domain ⊆ p.support quads := by
  have hfold : ∀ (known s : OrdSet α), p.domain ⊆ s →
      p.domain ⊆ quads.foldl (fun s q => s.union (p.transfer q known)) s := by
    intro known
    induction quads with
    | nil => exact fun s hs => hs
    | cons q rest ih =>
        intro s hs
        exact ih _ fun a ha => OrdSet.mem_union.2 (Or.inl (hs a ha))
  refine hfold _ _ fun a ha => ?_
  exact OrdSet.mem_union.2 (Or.inl (OrdSet.mem_union.2 (Or.inl ha)))

end Equations

variable {α : Type} [DecidableEq α] [Element α]

section Settled

variable {p : Problem α} {g : Graph} {e : QuadGraph} {v w : Valuation α}
  {passes : List (Pass α)}

theorem Settles.isSolution
    (h : p.Settles (g.layout e p.direction) p.start passes v) :
    p.IsSolution g e v := by
  obtain ⟨⟨hsteady, hfinal⟩, -⟩ := h.atRest
  have hstation : ∀ q ∈ g.quads,
      p.Steady v ⟨q, e.origins p.direction q.id⟩ :=
    fun q hq => hsteady _ (Graph.mem_layout.2 ⟨q, hq, rfl⟩)
  have hsource : v.terminal p.direction.source = p.atSource := by
    refine h.keep (fun v => v.terminal p.direction.source = p.atSource)
      (fun _ _ _ hv => hv) (fun x v hv => ?_) p.start_source
    rw [Valuation.terminal_setTerminal_of_ne p.direction.source_ne_target]
    exact hv
  refine ⟨fun q hq => (hstation q hq).1.symm, fun q hq => ?_, hsource,
    hfinal.symm⟩
  rw [← (hstation q hq).1]
  exact (hstation q hq).2.symm

theorem Settles.bounded (hlaw : p.Lawful g) (he : g.quadGraph = .ok e)
    (h : p.Settles (g.layout e p.direction) p.start passes v) :
    p.Over g v := by
  refine h.keep (p.Over g) (fun s hs v hv => ?_)
    (fun x v hv => hv.setTarget x) (start_descending hlaw he).bounded
  obtain ⟨q, hq, rfl⟩ := Graph.mem_layout.1 hs
  exact hv.step hlaw hq fun _ hp => QuadGraph.visits_of_mem_origins he hp

/-- The solver's valuation lies above every tenable one. -/
theorem Settles.above (hlaw : p.Lawful g) (he : g.quadGraph = .ok e)
    (h : p.Settles (g.layout e p.direction) p.start passes v)
    (hw : p.Tenable g e w)
    (hsource : p.meet.below (w.terminal p.direction.source) p.atSource) :
    p.Under g w v := by
  have hstart : p.Under g w p.start := by
    refine ⟨fun q hq side => Meet.below_top (hw.bounded.fact q hq side), ?_⟩
    rw [start_source]
    exact hsource
  have hboth : p.Over g v ∧ p.Under g w v := by
    refine h.keep (fun v => p.Over g v ∧ p.Under g w v) (fun s hs v hv => ?_)
      (fun x v hv => ⟨hv.1.setTarget x, hv.2.setTarget x⟩)
      ⟨(start_descending hlaw he).bounded, hstart⟩
    refine ⟨?_, hw.under_step hlaw he hs hv.1 hv.2⟩
    obtain ⟨q, hq, rfl⟩ := Graph.mem_layout.1 hs
    exact hv.1.step hlaw hq fun _ hp => QuadGraph.visits_of_mem_origins he hp
  exact hboth.2

theorem IsSolution.tenable (hw : p.IsSolution g e w)
    (hover : w.Within g p.domain) : p.Tenable g e w := by
  refine ⟨⟨?_, hover.terminal _⟩, fun q hq => ?_, fun q hq => ?_⟩
  · rintro q ⟨quad, hquad, rfl⟩ side
    exact hover.fact quad hquad side
  · rw [hw.arrival q hq]
    exact Meet.below_refl _ _
  · rw [hw.departure q hq]
    exact Meet.below_refl _ _

end Settled

end Problem

/-- A loop whose way back leads through an empty block, around a check that the
block before it has already made. -/
def Graph.smallLoop : Graph where
  method := ⟨"loop", [⟨"R0"⟩]⟩
  blocks := .ofList [
    (.entry, ⟨.entry, [], [], [⟨2⟩]⟩),
    (.exit, ⟨.exit, [], [⟨3⟩], []⟩),
    (⟨2⟩, ⟨⟨2⟩, [⟨⟨1⟩, .nullCheck none ⟨"R0"⟩⟩], [.entry], [⟨3⟩]⟩),
    (⟨3⟩, ⟨⟨3⟩, [⟨⟨2⟩, .nullCheck none ⟨"R0"⟩⟩,
      ⟨⟨3⟩, .move ⟨"R1"⟩ (.reg ⟨"R0"⟩)⟩,
      ⟨⟨4⟩, .branch (.reg ⟨"R1"⟩) (.const .null) .eq .exit⟩],
      [⟨2⟩, ⟨4⟩], [⟨4⟩, .exit]⟩),
    (⟨4⟩, ⟨⟨4⟩, [], [⟨3⟩], [⟨3⟩]⟩)]
  nextQuad := 5
  nextBlock := 5

/-! ## The best solution -/

namespace Problem

variable {α : Type} [DecidableEq α] [Element α]

/-- The loop of a lawful problem settles, and the solver answers with where it
does: within the bound, and the same under every limit that covers it. -/
theorem Lawful.solve_ok {p : Problem α} {g : Graph} (hlaw : p.Lawful g)
    (hends : g.HasEnds) (hdist : g.DistinctQuads) :
    ∃ e sol v, g.quadGraph = .ok e ∧ p.solve g = .ok sol ∧
      sol.facts.Shows g v ∧
      p.Settles (g.layout e p.direction) p.start sol.passes v ∧
      sol.quads = g.quads.length ∧
      sol.passes.length ≤ (2 * g.quads.length + 1) * p.domain.size + 2 ∧
      ∀ limit, sol.passes.length ≤ limit →
        p.settle (g.layout e p.direction) 0 limit (p.initial g) =
          .ok (sol.facts, sol.passes) := by
  obtain ⟨e, he⟩ := hends.quadGraph_ok
  obtain ⟨passes, v, hsettles, hlen⟩ := settles_from_start hlaw he hdist
  have hlim : passes.length ≤ p.sweepLimit (g.sweepOrder p.direction) := by
    have hsize := OrdSet.size_le_of_subset
      (p.domain_subset_support (g.sweepOrder p.direction))
    refine Nat.le_trans hlen ?_
    unfold sweepLimit
    rw [Graph.length_sweepOrder]
    exact Nat.add_le_add_right (Nat.mul_le_mul_left _ hsize) 2
  obtain ⟨sol, hsol, hshown, rfl, hquads, hlimit⟩ := solve_eq he hsettles hlim
  exact ⟨e, sol, v, he, hsol, hshown, hsettles, hquads, hlen, hlimit⟩

/-- The solver returns the best solution of the dataflow equations: the facts
it ends with solve them, and every solution over the domain lies below, at each
quad and at both ends. -/
theorem solve_best_solution {p : Problem α} {g : Graph} (hends : g.HasEnds)
    (hdist : g.DistinctQuads) (hlaw : p.Lawful g) :
    ∃ e sol v, g.quadGraph = .ok e ∧ p.solve g = .ok sol ∧
      sol.facts.Shows g v ∧ p.IsSolution g e v ∧ v.Within g p.domain ∧
      ∀ w : Valuation α, w.Within g p.domain → p.IsSolution g e w →
        (∀ q ∈ g.quads, ∀ side,
          p.meet.below (w.fact side q.id) (v.fact side q.id)) ∧
        ∀ t, p.meet.below (w.terminal t) (v.terminal t) := by
  obtain ⟨e, sol, v, he, hsol, hshown, hsettles, -⟩ :=
    hlaw.solve_ok hends hdist
  have hv := hsettles.isSolution
  refine ⟨e, sol, v, he, hsol, hshown, hv,
    (hsettles.bounded hlaw he).within he hv, fun w hover hw => ?_⟩
  have hsource : p.meet.below (w.terminal p.direction.source) p.atSource := by
    rw [hw.source]
    exact Meet.below_refl _ _
  have hunder := hsettles.above hlaw he (hw.tenable hover) hsource
  refine ⟨fun q hq side => hunder.fact q.id ⟨q, hq, rfl⟩ side, fun t => ?_⟩
  rcases p.direction.terminal_eq t with rfl | rfl
  · exact hunder.source
  · rw [hw.target, hv.target]
    exact hunder.inflow fun _ hp => QuadGraph.visits_of_mem_finals he hp

/-- The non-null analysis of a small loop, taken through the theorem. -/
theorem solve_best_solution_smallLoop :
    Graph.smallLoop.HasEnds ∧ Graph.smallLoop.DistinctQuads ∧
      (NonNull.problem .smallLoop).Lawful .smallLoop ∧
      ∃ e sol v, Graph.smallLoop.quadGraph = .ok e ∧
        (NonNull.problem .smallLoop).solve .smallLoop = .ok sol ∧
        sol.facts.Shows .smallLoop v ∧
        (NonNull.problem .smallLoop).IsSolution .smallLoop e v ∧
        ∀ w : Valuation Register,
          w.Within .smallLoop Graph.smallLoop.registers →
          (NonNull.problem .smallLoop).IsSolution .smallLoop e w →
          ∀ q ∈ Graph.smallLoop.quads, ∀ side,
            Meet.intersection.below (w.fact side q.id) (v.fact side q.id) := by
  have hlaw := NonNull.lawful .smallLoop
  refine ⟨by decide, by decide, hlaw, ?_⟩
  obtain ⟨e, sol, v, he, hsol, hshown, hv, -, hbest⟩ :=
    solve_best_solution (by decide) (by decide) hlaw
  exact ⟨e, sol, v, he, hsol, hshown, hv,
    fun w hover hw => (hbest w hover hw).1⟩

end Problem

/-! ## How many sweeps it takes -/

theorem Problem.run_eq {α : Type} [DecidableEq α] [Element α] {p : Problem α}
    {g : Graph} {sol : Solution α} (h : p.solve g = .ok sol) :
    ∃ events, p.run g = (events, .ok sol) := by
  unfold Problem.solve at h
  cases hroute : g.route p.direction with
  | error f => rw [hroute] at h; cases h
  | ok r =>
      rw [hroute] at h
      have halong : p.solveAlong g r = .ok sol := h
      unfold Problem.run
      simp only [hroute, halong]
      exact ⟨_, rfl⟩

/-- A visit of a graph whose problem is solved ends well, and leaves what the
analysis concludes from the solution. -/
theorem Visit.solve_eq {σ α : Type} [DecidableEq α] [Element α]
    {p : Problem α} {g : Graph} {sol : Solution α} (h : p.solve g = .ok sol)
    (old : σ) (prepared : List Event) (conclude : Solution α → σ × List Event) :
    (Visit.solve old g prepared p conclude).result = .ok sol.stats ∧
      (Visit.solve old g prepared p conclude).state = (conclude sol).1 := by
  obtain ⟨events, hrun⟩ := Problem.run_eq h
  unfold Visit.solve
  rw [hrun]
  exact ⟨rfl, rfl⟩

/-- A visit of a proper graph with a lawful problem ends well. -/
theorem Problem.Lawful.visit_ok {σ α : Type} [DecidableEq α] [Element α]
    {p : Problem α} {g : Graph} (hlaw : p.Lawful g) (hends : g.HasEnds)
    (hdist : g.DistinctQuads) (old : σ) (prepared : List Event)
    (conclude : Solution α → σ × List Event) :
    ∃ e sol v, g.quadGraph = .ok e ∧
      (Visit.solve old g prepared p conclude).result = .ok sol.stats ∧
      (Visit.solve old g prepared p conclude).state = (conclude sol).1 ∧
      sol.facts.Shows g v ∧
      p.Settles (g.layout e p.direction) p.start sol.passes v ∧
      sol.stats.sweeps ≤ (2 * g.quads.length + 1) * p.domain.size + 2 := by
  obtain ⟨e, sol, v, he, hsol, hshown, hsettles, -, hlen, -⟩ :=
    hlaw.solve_ok hends hdist
  obtain ⟨hresult, hstate⟩ := Visit.solve_eq hsol old prepared conclude
  exact ⟨e, sol, v, he, hresult, hstate, hshown, hsettles, hlen⟩

theorem Problem.Lawful.visit_bounded {σ α : Type} [DecidableEq α] [Element α]
    {p : Problem α} {g : Graph} (hlaw : p.Lawful g) (hends : g.HasEnds)
    (hdist : g.DistinctQuads) (old : σ) (prepared : List Event)
    (conclude : Solution α → σ × List Event) :
    ∃ stats, (Visit.solve old g prepared p conclude).result = .ok stats ∧
      stats.sweeps ≤ (2 * g.quads.length + 1) * p.domain.size + 2 := by
  obtain ⟨-, sol, -, -, hresult, -, -, -, hlen⟩ :=
    hlaw.visit_ok hends hdist old prepared conclude
  exact ⟨sol.stats, hresult, hlen⟩

theorem NonNull.visit_eq_analyse {s : NonNull.State} {g : Graph}
    (h : s.inserting = false) :
    NonNull.visit s g = NonNull.analyse s g none [] := by
  unfold NonNull.visit
  rw [if_neg (by simp [h])]

/-- The loop of full sweeps stops by itself, whatever cycles, empty blocks or
broken edge lists the graph has: a lawful problem over a domain of `u` elements
is solved on `n` quads after at most `(2 * n + 1) * u + 2` sweeps, under any
limit that allows for as many as it takes. The four analyses are lawful, so
solving such a graph always ends, for the non-null analysis also when the graph
is one that checks have been inserted into. -/
theorem sweeps_bounded {g : Graph} (hends : g.HasEnds)
    (hdist : g.DistinctQuads) :
    (∀ (α : Type) [DecidableEq α] [Element α] (p : Problem α), p.Lawful g →
      ∃ r sol, g.route p.direction = .ok r ∧ p.solve g = .ok sol ∧
        sol.stats.sweeps ≤ (2 * g.quads.length + 1) * p.domain.size + 2 ∧
        ∀ limit, sol.stats.sweeps ≤ limit →
          p.settle r 0 limit (p.initial g) = .ok (sol.facts, sol.passes)) ∧
    (∀ s, ∃ stats, (ReachingDefinitions.visit s g).result = .ok stats ∧
      stats.sweeps ≤
        (2 * g.quads.length + 1) * (ReachingDefinitions.domain g).size + 2) ∧
    (∀ s, ∃ stats, (Liveness.visit s g).result = .ok stats ∧
      stats.sweeps ≤ (2 * g.quads.length + 1) * g.registers.size + 2) ∧
    (∀ s, ∃ stats, (Faintness.visit s g).result = .ok stats ∧
      stats.sweeps ≤ (2 * g.quads.length + 1) * g.registers.size + 2) ∧
    (∀ s inserted earlier,
      ∃ stats, (NonNull.analyse s g inserted earlier).result = .ok stats ∧
        stats.sweeps ≤ (2 * g.quads.length + 1) * g.registers.size + 2) ∧
    (∀ s, s.inserting = false →
      ∃ stats, (NonNull.visit s g).result = .ok stats ∧
        stats.sweeps ≤ (2 * g.quads.length + 1) * g.registers.size + 2) := by
  refine ⟨fun α _ _ p hlaw => ?_, fun s => ?_, fun s => ?_, fun s => ?_,
    fun s inserted earlier => ?_, fun s hs => ?_⟩
  · obtain ⟨e, sol, v, he, hsol, -, -, -, hlen, hlimit⟩ :=
      hlaw.solve_ok hends hdist
    exact ⟨_, sol, Graph.route_eq he p.direction, hsol, hlen, hlimit⟩
  · exact (ReachingDefinitions.lawful g).visit_bounded hends hdist _ _ _
  · exact (Liveness.lawful g).visit_bounded hends hdist _ _ _
  · exact (Faintness.lawful g).visit_bounded hends hdist _ _ _
  · exact (NonNull.lawful g).visit_bounded hends hdist _ _ _
  · rw [NonNull.visit_eq_analyse hs]
    exact (NonNull.lawful g).visit_bounded hends hdist _ _ _

/-- The four quads and two registers of a small loop, at most twenty sweeps. -/
theorem sweeps_bounded_smallLoop :
    Graph.smallLoop.HasEnds ∧ Graph.smallLoop.DistinctQuads ∧
      (Faintness.problem .smallLoop).Lawful .smallLoop ∧
      (∃ sol, (Faintness.problem .smallLoop).solve .smallLoop = .ok sol ∧
        sol.stats.sweeps ≤ 20) ∧
      ∃ stats, (NonNull.visit (.fresh false) .smallLoop).result = .ok stats ∧
        stats.sweeps ≤ 20 := by
  have hlaw := Faintness.lawful .smallLoop
  obtain ⟨hsolve, -, -, -, -, hvisit⟩ :=
    sweeps_bounded (g := .smallLoop) (by decide) (by decide)
  refine ⟨by decide, by decide, hlaw, ?_, hvisit _ rfl⟩
  obtain ⟨-, sol, -, hsol, hlen, -⟩ := hsolve Register _ hlaw
  exact ⟨sol, hsol, hlen⟩

end Dataflow
