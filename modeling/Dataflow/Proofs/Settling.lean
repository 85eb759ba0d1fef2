import Mathlib.Algebra.Group.Action.Defs
import Mathlib.Algebra.Order.BigOperators.Group.List
import Mathlib.Algebra.Order.Ring.Nat
import Dataflow.Proofs.Descent

/-!
# The loop ends, and at rest

Two questions about the loop of full sweeps. Where it ends, every station is
steady at once, although stations were looked at one after the other: a sweep
that moves nothing writes every fact where it already stands, so the valuation
under its last station is still the one under its first. And it does end: from
a descending valuation each sweep that moves something lowers some fact for
good, and `headroom` plus the rank of the target's fact runs out.

The target is the odd one. Its fact before the first sweep is whatever the
analysis put there, so the first sweep may move it in any direction, and only
from then on does it fall like the others. That is the second of the two sweeps
that the bound grants beyond one per element and fact; the first is the sweep
that finds nothing to do.
-/

namespace Dataflow

namespace Pass

variable {α : Type} [Element α]

theorem changes_eq_zero {pass : Pass α} :
    pass.changes = 0 ↔
      (∀ a ∈ pass.arrivals, a.moved = false) ∧ pass.targetMoved = false := by
  unfold changes moved
  rw [Nat.add_eq_zero_iff, List.length_map, List.length_eq_zero_iff,
    List.filter_eq_nil_iff]
  cases pass.targetMoved <;> simp

end Pass

namespace Problem

variable {α : Type} [Element α]

/-! ## Writing the target -/

section Target

variable {p : Problem α} {g : Graph} {e : QuadGraph} {v w : Valuation α}

/-- No sweep reads the fact at the target. -/
theorem inflow_setTarget (p : Problem α) (v : Valuation α) (x : OrdSet α)
    (origins : List Neighbour) :
    p.inflow (v.setTerminal p.direction.target x) origins =
      p.inflow v origins := by
  have hout : p.outflow (v.setTerminal p.direction.target x) = p.outflow v := by
    funext n
    cases n with
    | none =>
        exact Valuation.terminal_setTerminal_of_ne p.direction.source_ne_target
    | some q => rfl
  unfold inflow
  rw [hout]

theorem Over.setTarget (h : p.Over g v) (x : OrdSet α) :
    p.Over g (v.setTerminal p.direction.target x) := by
  refine ⟨h.fact, ?_⟩
  rw [Valuation.terminal_setTerminal_of_ne p.direction.source_ne_target]
  exact h.source

variable [DecidableEq α]

theorem Under.setTarget (h : p.Under g w v) (x : OrdSet α) :
    p.Under g w (v.setTerminal p.direction.target x) := by
  refine ⟨h.fact, ?_⟩
  rw [Valuation.terminal_setTerminal_of_ne p.direction.source_ne_target]
  exact h.source

theorem Descending.setTarget (h : p.Descending g e v) (x : OrdSet α) :
    p.Descending g e (v.setTerminal p.direction.target x) := by
  refine ⟨h.bounded.setTarget x, fun q hq => ?_, h.departure⟩
  rw [inflow_setTarget]
  exact h.arrival q hq

end Target

/-! ## Where the loop ends -/

/-- Every station is steady, and the target has what arrives there. -/
def AtRest (p : Problem α) (r : Route) (v : Valuation α) : Prop :=
  (∀ s ∈ r.stations, p.Steady v s) ∧
    p.inflow v r.final = v.terminal p.direction.target

theorem steps_of_steady {p : Problem α} {v : Valuation α} {l : List Station}
    (h : ∀ s ∈ l, p.Steady v s) : p.steps v l = v := by
  induction l with
  | nil => rfl
  | cons s rest ih =>
      have hs := step_eq_self (h s (by simp))
      change p.steps (p.step v s) rest = v
      rw [hs]
      exact ih fun s' hs' => h s' (List.mem_cons_of_mem s hs')

variable [DecidableEq α]

theorem arrivalsFrom_of_steady {p : Problem α} {v : Valuation α}
    {l : List Station} (h : ∀ s ∈ l, p.Steady v s) :
    p.arrivalsFrom v l =
      l.map fun s => ⟨s.quad, v.fact p.direction.arrival s.quad.id, false⟩ := by
  induction l with
  | nil => rfl
  | cons s rest ih =>
      have hs := h s (by simp)
      have hat : p.arrivalAt v s =
          ⟨s.quad, v.fact p.direction.arrival s.quad.id, false⟩ := by
        change Arrival.mk s.quad (p.inflow v s.origins)
          (p.arrivalAt v s).moved = _
        rw [arrivalAt_moved.2 hs, hs.1]
      rw [arrivalsFrom, step_eq_self hs, hat,
        ih fun s' hs' => h s' (List.mem_cons_of_mem s hs')]
      rfl

/-- Where no station moved, all were steady from the start. -/
theorem steady_of_unmoved {p : Problem α} {l : List Station} :
    ∀ {v : Valuation α}, (∀ a ∈ p.arrivalsFrom v l, a.moved = false) →
      ∀ s ∈ l, p.Steady v s := by
  induction l with
  | nil =>
      intro v _ s hs
      cases hs
  | cons s rest ih =>
      intro v h s' hs'
      have hs : p.Steady v s := arrivalAt_moved.1 (h _ List.mem_cons_self)
      rcases List.mem_cons.1 hs' with rfl | hs'
      · exact hs
      · have hrest : ∀ a ∈ p.arrivalsFrom (p.step v s) rest, a.moved = false :=
          fun a ha => h a (List.mem_cons_of_mem _ ha)
        rw [step_eq_self hs] at hrest
        exact ih hrest s' hs'

theorem atRest_of_changes {p : Problem α} {r : Route} {v : Valuation α}
    (h : (p.passFrom r v).changes = 0) : p.AtRest r v ∧ p.swept r v = v := by
  obtain ⟨hmoved, htarget⟩ := Pass.changes_eq_zero.1 h
  have hsteady := steady_of_unmoved hmoved
  have hsteps := steps_of_steady hsteady
  have hfinal : p.inflow v r.final = v.terminal p.direction.target := by
    have hsame : p.inflow (p.steps v r.stations) r.final =
        v.terminal p.direction.target := by simpa [passFrom] using htarget
    rw [hsteps] at hsame
    exact hsame
  refine ⟨⟨hsteady, hfinal⟩, ?_⟩
  unfold swept
  rw [hsteps]
  exact Valuation.setTerminal_eq_self hfinal.symm

/-- The loop ends at rest, with a sweep that has looked at every station. -/
theorem Settles.atRest {p : Problem α} {r : Route} {v w : Valuation α}
    {passes : List (Pass α)} (h : p.Settles r v passes w) :
    p.AtRest r w ∧ ∃ earlier, passes = earlier ++ [p.passFrom r w] := by
  induction h with
  | @last v h =>
      obtain ⟨hrest, hswept⟩ := atRest_of_changes h
      rw [hswept]
      exact ⟨hrest, [], rfl⟩
  | @more v w passes h rest ih =>
      obtain ⟨hrest, earlier, rfl⟩ := ih
      exact ⟨hrest, p.passFrom r v :: earlier, rfl⟩

theorem arrivalsFrom_quads (p : Problem α) (l : List Station) :
    ∀ v : Valuation α,
      (p.arrivalsFrom v l).map Arrival.quad = l.map Station.quad := by
  induction l with
  | nil => exact fun _ => rfl
  | cons s rest ih => exact fun v => congrArg (s.quad :: ·) (ih (p.step v s))

/-- Every sweep comes to the quads of the route. -/
theorem Settles.arrivals_quads {p : Problem α} {r : Route} {v w : Valuation α}
    {passes : List (Pass α)} (h : p.Settles r v passes w) :
    ∀ pass ∈ passes,
      pass.arrivals.map Arrival.quad = r.stations.map Station.quad := by
  induction h with
  | @last v h =>
      intro pass hpass
      obtain rfl := List.mem_singleton.1 hpass
      exact arrivalsFrom_quads p r.stations v
  | @more v w passes h rest ih =>
      intro pass hpass
      rcases List.mem_cons.1 hpass with rfl | hpass
      · exact arrivalsFrom_quads p r.stations v
      · exact ih pass hpass

/-! ## What a run keeps -/

omit [DecidableEq α] in
theorem steps_keep {p : Problem α} (P : Valuation α → Prop) {l : List Station}
    (hstep : ∀ s ∈ l, ∀ v, P v → P (p.step v s)) :
    ∀ {v : Valuation α}, P v → P (p.steps v l) := by
  induction l with
  | nil =>
      intro v hv
      exact hv
  | cons s rest ih =>
      intro v hv
      exact ih (fun s' hs' => hstep s' (List.mem_cons_of_mem s hs'))
        (hstep s List.mem_cons_self v hv)

/-- What every step keeps, and every write of the target, the loop keeps. -/
theorem Settles.keep {p : Problem α} {r : Route} (P : Valuation α → Prop)
    (hstep : ∀ s ∈ r.stations, ∀ v, P v → P (p.step v s))
    (htarget : ∀ x v, P v → P (v.setTerminal p.direction.target x))
    {v w : Valuation α} {passes : List (Pass α)}
    (h : p.Settles r v passes w) (hv : P v) : P w := by
  induction h with
  | @last v h => exact htarget _ _ (steps_keep P hstep hv)
  | @more v w passes h rest ih =>
      exact ih (htarget _ _ (steps_keep P hstep hv))

/-! ## How much is left to fall -/

/-- How far the facts at the quads can still fall, all together. -/
def headroom (p : Problem α) (g : Graph) (v : Valuation α) : Nat :=
  (g.quads.map fun q =>
    p.meet.rank p.domain (v.fact .before q.id) +
      p.meet.rank p.domain (v.fact .after q.id)).sum

section Headroom

variable {p : Problem α} {g : Graph} {e : QuadGraph} {v w : Valuation α}

omit [DecidableEq α] in
theorem headroom_le_size (h : p.Over g v) :
    p.headroom g v ≤ 2 * g.quads.length * p.domain.size := by
  have hbound : ∀ n ∈ g.quads.map fun q =>
      p.meet.rank p.domain (v.fact .before q.id) +
        p.meet.rank p.domain (v.fact .after q.id),
      n ≤ 2 * p.domain.size := by
    intro n hn
    obtain ⟨q, hq, rfl⟩ := List.mem_map.1 hn
    have hbefore :=
      Meet.rank_le_size (m := p.meet) (h.fact q.id ⟨q, hq, rfl⟩ .before)
    have hafter :=
      Meet.rank_le_size (m := p.meet) (h.fact q.id ⟨q, hq, rfl⟩ .after)
    omega
  have hsum := List.sum_le_card_nsmul _ _ hbound
  rw [List.length_map, smul_eq_mul] at hsum
  calc p.headroom g v ≤ g.quads.length * (2 * p.domain.size) := hsum
    _ = 2 * g.quads.length * p.domain.size := by
      rw [← Nat.mul_assoc, Nat.mul_comm g.quads.length]

theorem Under.headroom_le (h : p.Under g w v) :
    p.headroom g w ≤ p.headroom g v := by
  refine List.sum_le_sum fun q hq => ?_
  exact Nat.add_le_add
    (Meet.rank_le_of_below (h.fact q.id ⟨q, hq, rfl⟩ .before))
    (Meet.rank_le_of_below (h.fact q.id ⟨q, hq, rfl⟩ .after))

theorem Under.headroom_lt (h : p.Under g w v) (hw : p.Over g w) {q : Quad}
    (hq : q ∈ g.quads) (side : Side)
    (hne : w.fact side q.id ≠ v.fact side q.id) :
    p.headroom g w < p.headroom g v := by
  have hle : ∀ side, p.meet.rank p.domain (w.fact side q.id) ≤
      p.meet.rank p.domain (v.fact side q.id) :=
    fun side => Meet.rank_le_of_below (h.fact q.id ⟨q, hq, rfl⟩ side)
  have hlt := Meet.rank_lt_of_below (hw.fact q.id ⟨q, hq, rfl⟩ side)
    (h.fact q.id ⟨q, hq, rfl⟩ side) hne
  have hbefore := hle .before
  have hafter := hle .after
  refine List.sum_lt_sum _ _ (fun q' hq' => ?_) ⟨q, hq, ?_⟩
  · exact Nat.add_le_add
      (Meet.rank_le_of_below (h.fact q'.id ⟨q', hq', rfl⟩ .before))
      (Meet.rank_le_of_below (h.fact q'.id ⟨q', hq', rfl⟩ .after))
  · cases side <;> omega

/-- A station that is not steady falls when it is brought up to date. -/
theorem Descending.headroom_step (hlaw : p.Lawful g)
    (he : g.quadGraph = .ok e) {s : Station}
    (hs : s ∈ (g.layout e p.direction).stations) (h : p.Descending g e v)
    (hmoves : ¬ p.Steady v s) :
    p.headroom g (p.step v s) < p.headroom g v := by
  have hunder := h.step_under hlaw he hs
  obtain ⟨q, hq, rfl⟩ := Graph.mem_layout.1 hs
  have hover : p.Over g (p.step v ⟨q, e.origins p.direction q.id⟩) :=
    h.bounded.step hlaw hq fun _ hp => QuadGraph.visits_of_mem_origins he hp
  by_cases harr : p.inflow v (e.origins p.direction q.id) =
      v.fact p.direction.arrival q.id
  · refine hunder.headroom_lt hover hq p.direction.departure ?_
    intro hdep
    rw [step_departure] at hdep
    exact hmoves ⟨harr, hdep⟩
  · refine hunder.headroom_lt hover hq p.direction.arrival ?_
    rw [step_arrival]
    exact harr

theorem Descending.steps (hlaw : p.Lawful g) (he : g.quadGraph = .ok e)
    (hdist : g.DistinctQuads) {l : List Station}
    (hl : ∀ s ∈ l, s ∈ (g.layout e p.direction).stations) :
    ∀ {v : Valuation α}, p.Descending g e v →
      p.Descending g e (p.steps v l) ∧ p.Under g (p.steps v l) v ∧
        ((∃ a ∈ p.arrivalsFrom v l, a.moved = true) →
          p.headroom g (p.steps v l) < p.headroom g v) := by
  induction l with
  | nil =>
      intro v h
      refine ⟨h, Under.refl p g v, ?_⟩
      rintro ⟨a, ha, -⟩
      cases ha
  | cons s rest ih =>
      intro v h
      have hs := hl s List.mem_cons_self
      have hunder := h.step_under hlaw he hs
      obtain ⟨hdesc, hrest, hfall⟩ :=
        ih (fun s' hs' => hl s' (List.mem_cons_of_mem s hs'))
          (h.step hlaw he hdist hs)
      refine ⟨hdesc, hrest.trans hunder, ?_⟩
      rintro ⟨a, ha, hmoved⟩
      rcases List.mem_cons.1 ha with rfl | ha
      · have hmoves : ¬ p.Steady v s := fun hst => by
          rw [arrivalAt_moved.2 hst] at hmoved
          cases hmoved
        exact Nat.lt_of_le_of_lt hrest.headroom_le
          (h.headroom_step hlaw he hs hmoves)
      · exact Nat.lt_of_lt_of_le (hfall ⟨a, ha, hmoved⟩) hunder.headroom_le

end Headroom

/-! ## The loop ends -/

/-- The fact at the target is over the domain, and not below what arrives
there. -/
structure Grounded (p : Problem α) (e : QuadGraph) (v : Valuation α) :
    Prop where
  bounded : v.terminal p.direction.target ⊆ p.domain
  arrival : p.meet.below (p.inflow v (e.finals p.direction))
    (v.terminal p.direction.target)

section Termination

variable {p : Problem α} {g : Graph} {e : QuadGraph} {v w : Valuation α}

/-- After any sweep the fact at the target is what arrives there. -/
theorem Descending.swept (hlaw : p.Lawful g) (he : g.quadGraph = .ok e)
    (hdist : g.DistinctQuads) (h : p.Descending g e v) :
    p.Descending g e (p.swept (g.layout e p.direction) v) ∧
      p.Grounded e (p.swept (g.layout e p.direction) v) := by
  obtain ⟨hdesc, -, -⟩ := h.steps hlaw he hdist (fun s hs => hs)
  refine ⟨hdesc.setTarget _, ?_, ?_⟩
  · rw [Problem.swept, Valuation.terminal_setTerminal_self]
    exact hdesc.bounded.inflow_subset fun _ hp =>
      QuadGraph.visits_of_mem_finals he hp
  · rw [Problem.swept, inflow_setTarget, Valuation.terminal_setTerminal_self]
    exact Meet.below_refl _ _

/-- A sweep that moves something leaves less to fall. -/
theorem Descending.swept_lt (hlaw : p.Lawful g) (he : g.quadGraph = .ok e)
    (hdist : g.DistinctQuads) (h : p.Descending g e v) (hg : p.Grounded e v)
    (hmoves : (p.passFrom (g.layout e p.direction) v).changes ≠ 0) :
    p.headroom g (p.swept (g.layout e p.direction) v) +
        p.meet.rank p.domain
          ((p.swept (g.layout e p.direction) v).terminal p.direction.target) <
      p.headroom g v +
        p.meet.rank p.domain (v.terminal p.direction.target) := by
  obtain ⟨hdesc, hunder, hfall⟩ := h.steps hlaw he hdist (fun s hs => hs)
  have hvis : ∀ q, some q ∈ (g.layout e p.direction).final → g.Visits q :=
    fun _ hp => QuadGraph.visits_of_mem_finals he hp
  have htarget : p.meet.below
      (p.inflow (p.steps v (g.layout e p.direction).stations)
        (g.layout e p.direction).final) (v.terminal p.direction.target) :=
    Meet.below_trans (hunder.inflow hvis) hg.arrival
  have hover := hdesc.bounded.inflow_subset hvis
  have hrank : p.meet.rank p.domain _ ≤ p.meet.rank p.domain _ :=
    Meet.rank_le_of_below htarget
  have hroom := hunder.headroom_le
  rw [Problem.swept, Valuation.terminal_setTerminal_self]
  change p.headroom g (p.steps v _) + p.meet.rank p.domain (p.inflow _ _) < _
  by_cases hquads :
      ∃ a ∈ p.arrivalsFrom v (g.layout e p.direction).stations, a.moved = true
  · have hlt := hfall hquads
    omega
  · -- No quad moved, so it was the target that did.
    have hne : p.inflow (p.steps v (g.layout e p.direction).stations)
        (g.layout e p.direction).final ≠ v.terminal p.direction.target := by
      intro heq
      refine hmoves (Pass.changes_eq_zero.2 ⟨fun a ha => ?_, ?_⟩)
      · exact Bool.eq_false_iff.2 fun hmoved => hquads ⟨a, ha, hmoved⟩
      · simp [passFrom, heq]
    have hlt := Meet.rank_lt_of_below hover htarget hne
    omega

theorem Descending.settles (hlaw : p.Lawful g) (he : g.quadGraph = .ok e)
    (hdist : g.DistinctQuads) :
    ∀ (n : Nat) {v : Valuation α}, p.Descending g e v → p.Grounded e v →
      p.headroom g v + p.meet.rank p.domain
        (v.terminal p.direction.target) ≤ n →
      ∃ passes w, p.Settles (g.layout e p.direction) v passes w ∧
        passes.length ≤ n + 1 := by
  intro n
  induction n with
  | zero =>
      intro v h hg hn
      by_cases hmoves : (p.passFrom (g.layout e p.direction) v).changes = 0
      · exact ⟨_, _, .last hmoves, by simp⟩
      · have hlt := h.swept_lt hlaw he hdist hg hmoves
        omega
  | succ n ih =>
      intro v h hg hn
      by_cases hmoves : (p.passFrom (g.layout e p.direction) v).changes = 0
      · exact ⟨_, _, .last hmoves, by simp⟩
      · have hlt := h.swept_lt hlaw he hdist hg hmoves
        obtain ⟨hdesc, hground⟩ := h.swept hlaw he hdist
        obtain ⟨passes, w, hsettles, hlen⟩ := ih hdesc hground (by omega)
        refine ⟨_, w, .more hmoves hsettles, ?_⟩
        rw [List.length_cons]
        omega

theorem start_descending (hlaw : p.Lawful g) (he : g.quadGraph = .ok e) :
    p.Descending g e p.start := by
  have htop := Meet.top_subset p.meet p.domain
  have hover : p.Over g p.start := by
    refine ⟨fun _ _ _ => htop, ?_⟩
    rw [start_source]
    exact hlaw.source
  refine ⟨hover, fun q _ => ?_, fun q hq => ?_⟩
  · exact Meet.below_top (hover.inflow_subset fun _ hp =>
      QuadGraph.visits_of_mem_origins he hp)
  · exact Meet.below_top (hlaw.closed q hq _ htop)

/-- From the first sweep on, one sweep for each element that one of the facts
can still fall by; before it, the one that sets the target right; and at last
the one that moves nothing. -/
theorem settles_from_start (hlaw : p.Lawful g) (he : g.quadGraph = .ok e)
    (hdist : g.DistinctQuads) :
    ∃ passes w, p.Settles (g.layout e p.direction) p.start passes w ∧
      passes.length ≤ (2 * g.quads.length + 1) * p.domain.size + 2 := by
  have hstart := start_descending hlaw he
  by_cases hmoves : (p.passFrom (g.layout e p.direction) p.start).changes = 0
  · exact ⟨_, _, .last hmoves, by simp⟩
  · obtain ⟨hdesc, hground⟩ := hstart.swept hlaw he hdist
    have hroom := headroom_le_size hdesc.bounded
    have hrank := Meet.rank_le_size (m := p.meet) hground.bounded
    obtain ⟨passes, w, hsettles, hlen⟩ :=
      hdesc.settles hlaw he hdist _ hground (Nat.add_le_add hroom hrank)
    refine ⟨_, w, .more hmoves hsettles, ?_⟩
    rw [List.length_cons, Nat.add_mul, Nat.one_mul]
    omega

end Termination

end Problem

end Dataflow
