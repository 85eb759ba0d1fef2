import Dataflow.Proofs.Solution

/-!
# Every fact that is asked for is there

Slots are made once, for the quads of the program order, and a fact is asked for
by number: the number of the quad that a sweep has come to, or one out of its
neighbour lists. Nothing is assumed here about the graph but its two sentinels.
Its edge lists may disagree with each other or name blocks that are not there,
blocks may stand under keys that are not their own, and two quads may have one
number, so that a sweep writes one slot twice and the loop may never come to
rest.

What makes all this harmless is an invariant of tables, `FactMap.Allocated`.
Every call that a sweep makes is on a quad that its route names
(`Route.Names`), the route names only quads of the program order, and a write
takes no slot away. So from an allocated table a sweep ends in an allocated
table, and the loop either comes to rest or runs into its limit, whatever the
limit: a fault of the table is never among the answers.
-/

namespace Dataflow

namespace FactMap

variable {F : Type}

theorem isSome_slot?_iff {t : FactMap F} {q : QuadId} :
    (t.slot? q).isSome ↔ q ∈ t.ids := by
  simp [slot?, ids]

/-- Every quad of the program order has a slot, and both ends have a fact. -/
structure Allocated (g : Graph) (t : FactMap F) : Prop where
  slot : ∀ q, g.Visits q → q ∈ t.ids
  terminal : ∀ e, (t.terminal? e).isSome

variable {α : Type} [Element α] {g : Graph} {t : FactMap (OrdSet α)}

theorem Shows.allocated {v : Valuation α} (h : t.Shows g v) :
    t.Allocated g := by
  refine ⟨fun q hq => isSome_slot?_iff.1 ?_, fun e => by simp [h.terminal e]⟩
  have hget := h.fact q hq .before
  rw [get?, Option.map_eq_some_iff] at hget
  obtain ⟨slot, hslot, -⟩ := hget
  simp [hslot]

/-- An allocated table shows the valuation that can be read off it. -/
theorem Allocated.shows (h : t.Allocated g) : ∃ v, t.Shows g v := by
  refine
    ⟨⟨fun side q => (t.get? side q).getD ∅, fun e => (t.terminal? e).getD ∅⟩,
      fun q hq side => ?_, fun e => ?_⟩
  · obtain ⟨slot, hslot⟩ :=
      Option.isSome_iff_exists.1 (isSome_slot?_iff.2 (h.slot q hq))
    simp [get?, hslot]
  · obtain ⟨f, hf⟩ := Option.isSome_iff_exists.1 (h.terminal e)
    simp [hf]

end FactMap

/-- A sweep along the route asks for facts of the quad: it comes to the quad, or
facts arrive from it. -/
def Route.Names (r : Route) (q : QuadId) : Prop :=
  (∃ s ∈ r.stations, s.quad.id = q ∨ some q ∈ s.origins) ∨ some q ∈ r.final

theorem Route.Within.visits {g : Graph} {r : Route} (h : r.Within g)
    {q : QuadId} (hq : r.Names q) : g.Visits q := by
  rcases hq with ⟨s, hs, heq | horigin⟩ | hfinal
  · exact heq ▸ h.quad s hs
  · exact h.origin s hs q horigin
  · exact h.final q hfinal

namespace Problem

variable {α : Type} [DecidableEq α] [Element α] {p : Problem α} {g : Graph}
  {r : Route}

/-- A sweep of an allocated table finds all it asks for, and takes no slot
away. -/
theorem sweep_allocated (hr : r.Within g) {t : FactMap (OrdSet α)}
    (ht : t.Allocated g) :
    ∃ t' pass, p.sweep r t = .ok (t', pass) ∧ t'.Allocated g := by
  obtain ⟨v, hv⟩ := ht.shows
  obtain ⟨t', hsweep, hv'⟩ := sweep_eq (p := p) hr hv
  exact ⟨t', _, hsweep, hv'.allocated⟩

/-- Only its limit can stop the loop before it has come to rest. -/
theorem settle_ok_or_unsettled (hr : r.Within g) (limit : Nat) :
    ∀ (done : Nat) (t : FactMap (OrdSet α)), t.Allocated g →
      (∃ out, p.settle r done limit t = .ok out) ∨
        p.settle r done limit t = .error (.unsettled (done + limit)) := by
  induction limit with
  | zero =>
      intro done t _
      exact Or.inr rfl
  | succ limit ih =>
      intro done t ht
      obtain ⟨t', pass, hsweep, ht'⟩ := sweep_allocated (p := p) hr ht
      simp only [settle, hsweep, bind, Except.bind]
      split
      · exact Or.inl ⟨_, rfl⟩
      · rcases ih (done + 1) t' ht' with ⟨out, hout⟩ | herror
        · rw [hout]
          exact Or.inl ⟨_, rfl⟩
        · rw [herror, show done + 1 + limit = done + (limit + 1) by omega]
          exact Or.inr rfl

end Problem

/-- A visit that was never refused a fact: it ended well, or the facts were
still moving at the limit of its sweeps. -/
def Visit.FindsFacts {σ : Type} (v : Visit σ) : Prop :=
  (∃ stats, v.result = .ok stats) ∨
    ∃ sweeps, v.result = .error (.fault (.unsettled sweeps))

theorem Graph.HasEnds.findsFacts {σ α : Type} [DecidableEq α] [Element α]
    {g : Graph} (hends : g.HasEnds) (old : σ) (prepared : List Event)
    (p : Problem α) (conclude : Solution α → σ × List Event) :
    (Visit.solve old g prepared p conclude).FindsFacts := by
  obtain ⟨e, he⟩ := hends.quadGraph_ok
  have hloop := Problem.settle_ok_or_unsettled (p := p)
    (Graph.layout_within he p.direction)
    (p.sweepLimit ((g.layout e p.direction).stations.map Station.quad)) 0 _
    (p.initial_shows g).allocated
  simp only [Visit.FindsFacts, Visit.solve, Problem.run, Graph.route_eq he,
    Problem.solveAlong]
  rcases hloop with ⟨out, hout⟩ | herror
  · simp only [hout, bind, Except.bind]
    exact Or.inl ⟨_, rfl⟩
  · simp only [herror, bind, Except.bind]
    exact Or.inr ⟨_, rfl⟩

/-- Solving a graph with both sentinels never asks for a fact that is not there,
however broken the graph is otherwise. Each quad that a sweep asks for has a
slot from the start. As long as the slots are there every read and every write
of such a quad succeeds, as does every read at an end, no write takes a slot
away, and so a sweep goes through and leaves the slots as they were. The loop of
sweeps therefore comes to rest or runs into its limit, and none of the four
analyses ends with a fact refused. -/
theorem solving_finds_every_fact {g : Graph} (hends : g.HasEnds) :
    (∀ (α : Type) [DecidableEq α] [Element α] (p : Problem α),
      ∃ r, g.route p.direction = .ok r ∧
        (p.initial g).Allocated g ∧
        (∀ q, r.Names q → q ∈ (p.initial g).ids) ∧
        (∀ t : FactMap (OrdSet α), t.Allocated g →
          (∀ q, r.Names q → ∀ side, (∃ f, t.get side q = .ok f) ∧
            ∀ f, ∃ t', t.update side q (fun _ => f) = .ok t' ∧ t'.Allocated g) ∧
          (∀ e, (∃ f, t.terminal e = .ok f) ∧
            ∀ f, (t.setTerminal e f).Allocated g) ∧
          ∃ t' pass, p.sweep r t = .ok (t', pass) ∧ t'.Allocated g) ∧
        ∀ limit, (∃ out, p.settle r 0 limit (p.initial g) = .ok out) ∨
          p.settle r 0 limit (p.initial g) = .error (.unsettled limit)) ∧
    (∀ s, (ReachingDefinitions.visit s g).FindsFacts) ∧
    (∀ s, (Liveness.visit s g).FindsFacts) ∧
    (∀ s, (Faintness.visit s g).FindsFacts) ∧
    ∀ s, s.inserting = false → (NonNull.visit s g).FindsFacts := by
  refine ⟨fun α _ _ p => ?_, fun s => hends.findsFacts _ _ _ _,
    fun s => hends.findsFacts _ _ _ _, fun s => hends.findsFacts _ _ _ _,
    fun s hs => ?_⟩
  · obtain ⟨e, he⟩ := hends.quadGraph_ok
    have hr := Graph.layout_within he p.direction
    have hinitial := (p.initial_shows g).allocated
    refine ⟨_, Graph.route_eq he p.direction, hinitial,
      fun q hq => hinitial.slot q (hr.visits hq), fun t ht => ?_,
      fun limit => ?_⟩
    · obtain ⟨v, hv⟩ := ht.shows
      refine ⟨fun q hq side => ⟨⟨_, hv.get (hr.visits hq) side⟩, fun f => ?_⟩,
        fun e =>
          ⟨⟨_, hv.terminal_ok e⟩, fun f => (hv.setTerminal e f).allocated⟩,
        Problem.sweep_allocated hr ht⟩
      obtain ⟨t', hupdate, hv'⟩ := hv.update (hr.visits hq) side f
      exact ⟨t', hupdate, hv'.allocated⟩
    · have hloop :=
        Problem.settle_ok_or_unsettled (p := p) hr limit 0 _ hinitial
      rwa [Nat.zero_add] at hloop
  · rw [NonNull.visit_eq_analyse hs]
    exact hends.findsFacts _ _ _ _

/-- A graph with a quad in a sentinel, a second quad of the same number in a
block under a key that is not its own, numbers above both counters, and edges
that dangle, repeat or lead one way only. The two quads write one slot in turn,
and the facts of none of the four analyses come to rest on it. -/
def Graph.tangle : Graph where
  method := ⟨"tangle", [⟨"R0"⟩]⟩
  blocks := .ofList [
    (.entry, ⟨.entry, [⟨⟨9⟩, .nullCheck none ⟨"R0"⟩⟩], [⟨7⟩], [⟨2⟩, ⟨8⟩, ⟨2⟩]⟩),
    (.exit, ⟨.exit, [], [⟨3⟩, ⟨2⟩, ⟨5⟩], [⟨3⟩]⟩),
    (⟨2⟩, ⟨⟨6⟩, [⟨⟨9⟩, .move ⟨"R0"⟩ (.const .null)⟩], [⟨4⟩, .entry], [.exit]⟩),
    (⟨3⟩, ⟨⟨3⟩, [], [], [⟨2⟩]⟩),
    (⟨4⟩, ⟨⟨4⟩, [⟨⟨12⟩, .nullCheck none ⟨"R0"⟩⟩], [], [⟨2⟩]⟩)]
  nextQuad := 1
  nextBlock := 2

/-- Even a loop that never comes to rest is never refused a fact. -/
theorem solving_finds_every_fact_tangle :
    Graph.tangle.HasEnds ∧ ¬ Graph.tangle.DistinctQuads ∧
      (Liveness.visit .fresh .tangle).FindsFacts ∧
      (NonNull.visit (.fresh false) .tangle).FindsFacts ∧
      ∃ r, Graph.tangle.route .forward = .ok r ∧
        ∀ limit, let p := NonNull.problem .tangle
          (∃ out, p.settle r 0 limit (p.initial .tangle) = .ok out) ∨
            p.settle r 0 limit (p.initial .tangle) =
              .error (.unsettled limit) := by
  have hends : Graph.tangle.HasEnds := by decide
  obtain ⟨hproblem, -, hliveness, -, hnonnull⟩ := solving_finds_every_fact hends
  obtain ⟨r, hr, -, -, -, hloop⟩ := hproblem _ (NonNull.problem .tangle)
  exact ⟨hends, by decide, hliveness _, hnonnull _ rfl, r, hr, hloop⟩

end Dataflow
