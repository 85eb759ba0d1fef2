import Dataflow.Proofs.Lattice
import Dataflow.Proofs.Sweep

/-!
# Facts only fall, and not forever

A sweep writes facts in place, so a station sees some origins as this sweep has
left them and others as the last one did. What makes the loop end all the same
is an invariant of single steps, `Descending`: at every quad, what its origins
send lies below what is recorded as arriving, and what the transfer makes of
the arriving fact lies below what is recorded as leaving. Under it a step can
only lower the two facts it writes, and lowering facts keeps the invariant:
at other quads because inflows are monotone, at the quad itself because both
facts were just made so. Distinct numbers are needed exactly there, since a
second quad in the same slot would have a transfer of its own.

Each fact falls at most once per element of the domain. `headroom` adds up how
far all of them can still fall, every sweep that moves something uses some of
it up, and `settles_from_start` counts the sweeps.

The other invariant is about a second valuation, one whose facts are each borne
out by the others (`Tenable`). A step never takes the running valuation below
it; that is where the solver's answer gets its extremality from.
-/

namespace Dataflow

theorem Direction.side_eq (d : Direction) (side : Side) :
    side = d.arrival ∨ side = d.departure := by
  cases d <;> cases side <;> decide

namespace Problem

variable {α : Type} [Element α]

/-- What the analysis of a graph promises: at each quad of the program order
the transfer is monotone inside the domain and does not leave it, and the fact
at the source is over the domain. -/
structure Lawful (p : Problem α) (g : Graph) : Prop where
  monotone : ∀ q ∈ g.quads, ∀ s t, t ⊆ p.domain → s ⊆ t →
    p.transfer q s ⊆ p.transfer q t
  closed : ∀ q ∈ g.quads, ∀ s, s ⊆ p.domain → p.transfer q s ⊆ p.domain
  source : p.atSource ⊆ p.domain

/-! ## Facts over the domain -/

/-- All facts that a sweep reads are over the domain. -/
structure Over (p : Problem α) (g : Graph) (v : Valuation α) : Prop where
  fact : ∀ q, g.Visits q → ∀ side, v.fact side q ⊆ p.domain
  source : v.terminal p.direction.source ⊆ p.domain

theorem Over.outflow_subset {p : Problem α} {g : Graph} {v : Valuation α}
    (h : p.Over g v) {n : Neighbour} (hn : ∀ q, n = some q → g.Visits q) :
    p.outflow v n ⊆ p.domain := by
  cases n with
  | none => exact h.source
  | some q => exact h.fact q (hn q rfl) _

theorem Over.inflow_subset {p : Problem α} {g : Graph} {v : Valuation α}
    (h : p.Over g v) {origins : List Neighbour}
    (ho : ∀ q, some q ∈ origins → g.Visits q) :
    p.inflow v origins ⊆ p.domain := by
  have hfold : ∀ acc : OrdSet α, acc ⊆ p.domain →
      origins.foldl (fun acc n => p.meet.meet acc (p.outflow v n)) acc
        ⊆ p.domain := by
    induction origins with
    | nil => exact fun acc hacc => hacc
    | cons n rest ih =>
        intro acc hacc
        have hn := h.outflow_subset (n := n) fun q hq => ho q (by simp [hq])
        exact ih (fun q hq => ho q (List.mem_cons_of_mem n hq)) _
          (Meet.meet_subset hacc hn)
  exact hfold p.top (Meet.top_subset p.meet p.domain)

/-- What holds of every fact, and of the two facts that a step writes, holds of
every fact after the step. -/
theorem forall_step {p : Problem α} {g : Graph} {v : Valuation α} {s : Station}
    (P : Side → QuadId → OrdSet α → Prop)
    (hold : ∀ q, g.Visits q → ∀ side, P side q (v.fact side q))
    (harr : P p.direction.arrival s.quad.id (p.inflow v s.origins))
    (hdep : P p.direction.departure s.quad.id
      (p.transfer s.quad (p.inflow v s.origins))) :
    ∀ q, g.Visits q → ∀ side, P side q ((p.step v s).fact side q) := by
  intro q hq side
  by_cases hne : q = s.quad.id
  · subst hne
    rcases p.direction.side_eq side with rfl | rfl
    · rw [step_arrival]; exact harr
    · rw [step_departure]; exact hdep
  · rw [step_of_ne hne]; exact hold q hq side

theorem Over.step {p : Problem α} {g : Graph} {v : Valuation α} {s : Station}
    (hlaw : p.Lawful g) (hq : s.quad ∈ g.quads)
    (ho : ∀ q, some q ∈ s.origins → g.Visits q) (h : p.Over g v) :
    p.Over g (p.step v s) := by
  have hin := h.inflow_subset ho
  refine ⟨?_, h.source⟩
  exact forall_step (fun _ _ f => f ⊆ p.domain) h.fact hin
    (hlaw.closed _ hq _ hin)

/-! ## The order on valuations -/

variable [DecidableEq α]

/-- Every fact that a sweep reads lies in the first valuation at or below where
it lies in the second. -/
structure Under (p : Problem α) (g : Graph) (w v : Valuation α) : Prop where
  fact : ∀ q, g.Visits q → ∀ side,
    p.meet.below (w.fact side q) (v.fact side q)
  source : p.meet.below (w.terminal p.direction.source)
    (v.terminal p.direction.source)

theorem Under.refl (p : Problem α) (g : Graph) (v : Valuation α) :
    p.Under g v v :=
  ⟨fun _ _ _ => Meet.below_refl _ _, Meet.below_refl _ _⟩

theorem Under.trans {p : Problem α} {g : Graph} {u v w : Valuation α}
    (h : p.Under g u v) (h' : p.Under g v w) : p.Under g u w :=
  ⟨fun q hq side => Meet.below_trans (h.fact q hq side) (h'.fact q hq side),
    Meet.below_trans h.source h'.source⟩

theorem Under.outflow {p : Problem α} {g : Graph} {w v : Valuation α}
    (h : p.Under g w v) {n : Neighbour} (hn : ∀ q, n = some q → g.Visits q) :
    p.meet.below (p.outflow w n) (p.outflow v n) := by
  cases n with
  | none => exact h.source
  | some q => exact h.fact q (hn q rfl) _

theorem Under.inflow {p : Problem α} {g : Graph} {w v : Valuation α}
    (h : p.Under g w v) {origins : List Neighbour}
    (ho : ∀ q, some q ∈ origins → g.Visits q) :
    p.meet.below (p.inflow w origins) (p.inflow v origins) := by
  have hfold : ∀ acc acc' : OrdSet α, p.meet.below acc acc' →
      p.meet.below
        (origins.foldl (fun acc n => p.meet.meet acc (p.outflow w n)) acc)
        (origins.foldl
          (fun acc n => p.meet.meet acc (p.outflow v n)) acc') := by
    induction origins with
    | nil => exact fun acc acc' hacc => hacc
    | cons n rest ih =>
        intro acc acc' hacc
        have hn := h.outflow (n := n) fun q hq => ho q (by simp [hq])
        exact ih (fun q hq => ho q (List.mem_cons_of_mem n hq)) _ _
          (Meet.meet_mono hacc hn)
  exact hfold p.top p.top (Meet.below_refl _ _)

theorem Lawful.transfer_below {p : Problem α} {g : Graph} (hlaw : p.Lawful g)
    {q : Quad} (hq : q ∈ g.quads) {s t : OrdSet α} (hs : s ⊆ p.domain)
    (ht : t ⊆ p.domain) (h : p.meet.below s t) :
    p.meet.below (p.transfer q s) (p.transfer q t) :=
  Meet.below_of_monotone (hlaw.monotone q hq) hs ht h

/-! ## What a step keeps -/

/-- Each fact of the valuation lies at or above what the equations make of the
others, so that bringing a station up to date can only lower its facts. -/
structure Descending (p : Problem α) (g : Graph) (e : QuadGraph)
    (v : Valuation α) : Prop where
  bounded : p.Over g v
  arrival : ∀ q ∈ g.quads,
    p.meet.below (p.inflow v (e.origins p.direction q.id))
      (v.fact p.direction.arrival q.id)
  departure : ∀ q ∈ g.quads,
    p.meet.below (p.transfer q (v.fact p.direction.arrival q.id))
      (v.fact p.direction.departure q.id)

/-- Each fact of the valuation lies at or below what the equations make of the
others: it is borne out by them. -/
structure Tenable (p : Problem α) (g : Graph) (e : QuadGraph)
    (w : Valuation α) : Prop where
  bounded : p.Over g w
  arrival : ∀ q ∈ g.quads,
    p.meet.below (w.fact p.direction.arrival q.id)
      (p.inflow w (e.origins p.direction q.id))
  departure : ∀ q ∈ g.quads,
    p.meet.below (w.fact p.direction.departure q.id)
      (p.transfer q (w.fact p.direction.arrival q.id))

section Step

variable {p : Problem α} {g : Graph} {e : QuadGraph} {v w : Valuation α}
  {s : Station}

theorem Descending.step_under (hlaw : p.Lawful g) (he : g.quadGraph = .ok e)
    (hs : s ∈ (g.layout e p.direction).stations) (h : p.Descending g e v) :
    p.Under g (p.step v s) v := by
  obtain ⟨q, hq, rfl⟩ := Graph.mem_layout.1 hs
  have hin : p.inflow v (e.origins p.direction q.id) ⊆ p.domain :=
    h.bounded.inflow_subset fun _ => QuadGraph.visits_of_mem_origins he
  have harr := h.arrival q hq
  have hdep := Meet.below_trans
    (hlaw.transfer_below hq hin (h.bounded.fact q.id ⟨q, hq, rfl⟩ _) harr)
    (h.departure q hq)
  refine ⟨?_, Meet.below_refl _ _⟩
  exact forall_step (fun side q' f => p.meet.below f (v.fact side q'))
    (fun _ _ _ => Meet.below_refl _ _) harr hdep

theorem Descending.step (hlaw : p.Lawful g) (he : g.quadGraph = .ok e)
    (hdist : g.DistinctQuads) (hs : s ∈ (g.layout e p.direction).stations)
    (h : p.Descending g e v) : p.Descending g e (p.step v s) := by
  have hunder := h.step_under hlaw he hs
  obtain ⟨q, hq, rfl⟩ := Graph.mem_layout.1 hs
  have hvis : ∀ q' p' : QuadId,
      some p' ∈ e.origins p.direction q' → g.Visits p' :=
    fun _ _ hp => QuadGraph.visits_of_mem_origins he hp
  refine ⟨h.bounded.step hlaw hq (hvis q.id), fun q' hq' => ?_,
    fun q' hq' => ?_⟩
  · have hmono := hunder.inflow (hvis q'.id)
    by_cases hid : q'.id = q.id
    · obtain rfl := hdist.eq_of_id_eq hq' hq hid
      rw [step_arrival]
      exact hmono
    · rw [step_of_ne hid]
      exact Meet.below_trans hmono (h.arrival q' hq')
  · by_cases hid : q'.id = q.id
    · obtain rfl := hdist.eq_of_id_eq hq' hq hid
      rw [step_arrival, step_departure]
      exact Meet.below_refl _ _
    · rw [step_of_ne hid, step_of_ne hid]
      exact h.departure q' hq'

theorem Tenable.under_step (hlaw : p.Lawful g) (he : g.quadGraph = .ok e)
    (hw : p.Tenable g e w) (hs : s ∈ (g.layout e p.direction).stations)
    (hv : p.Over g v) (h : p.Under g w v) : p.Under g w (p.step v s) := by
  obtain ⟨q, hq, rfl⟩ := Graph.mem_layout.1 hs
  have hvis : ∀ p', some p' ∈ e.origins p.direction q.id → g.Visits p' :=
    fun _ hp => QuadGraph.visits_of_mem_origins he hp
  have harr := Meet.below_trans (hw.arrival q hq) (h.inflow hvis)
  have hdep := Meet.below_trans (hw.departure q hq)
    (hlaw.transfer_below hq (hw.bounded.fact q.id ⟨q, hq, rfl⟩ _)
      (hv.inflow_subset hvis) harr)
  refine ⟨?_, h.source⟩
  exact forall_step (fun side q' f => p.meet.below (w.fact side q') f)
    h.fact harr hdep

end Step

end Problem

end Dataflow
