import Dataflow.Proofs.Solution

/-!
# Solutions, element by element

The analyses are understood one register or one definition at a time, along
paths. This file turns the solver's answer into that form. An element arrives
at a quad when some origin sends it (union) or when all of them do
(intersection); that is what the equations say, and following a path quad by
quad needs no more.

The other half is an induction over the sweeps. For union, a meaning that every
arrival and every transfer respects holds of all the elements that are ever
recorded, because the loop starts with none. For intersection, the elements
that deserve to be recorded are never lost, because the loop starts with all.
Both are instances of `Settles.forall_fact`, an invariant of the facts at each
quad that a step has to establish only for the two facts it writes.
-/

namespace Dataflow.Problem

variable {α : Type} [Element α] {p : Problem α} {v : Valuation α} {g : Graph}
  {leaves : Quad → α → Prop}

/-! ## What arrives -/

theorem mem_inflow_union (h : p.meet = .union) {origins : List Neighbour}
    {a : α} :
    a ∈ p.inflow v origins ↔ ∃ n ∈ origins, a ∈ p.outflow v n := by
  have hfold : ∀ acc : OrdSet α,
      a ∈ origins.foldl (fun acc n => p.meet.meet acc (p.outflow v n)) acc ↔
        a ∈ acc ∨ ∃ n ∈ origins, a ∈ p.outflow v n := by
    induction origins with
    | nil => simp
    | cons n rest ih =>
        intro acc
        rw [List.foldl_cons, ih, h]
        simp only [Meet.meet, OrdSet.mem_union, List.exists_mem_cons_iff,
          or_assoc]
  unfold inflow top
  rw [hfold, h]
  simp [Meet.top]

theorem mem_inflow_intersection (h : p.meet = .intersection)
    {origins : List Neighbour} {a : α} :
    a ∈ p.inflow v origins ↔
      a ∈ p.domain ∧ ∀ n ∈ origins, a ∈ p.outflow v n := by
  have hfold : ∀ acc : OrdSet α,
      a ∈ origins.foldl (fun acc n => p.meet.meet acc (p.outflow v n)) acc ↔
        a ∈ acc ∧ ∀ n ∈ origins, a ∈ p.outflow v n := by
    induction origins with
    | nil => simp
    | cons n rest ih =>
        intro acc
        rw [List.foldl_cons, ih, h]
        simp only [Meet.meet, OrdSet.mem_inter, List.forall_mem_cons,
          and_assoc]
  unfold inflow top
  rw [hfold, h, Meet.top]

/-- Where the source holds nothing, every element that arrives has left a
quad. -/
theorem mem_inflow_quads (h : p.meet = .union)
    (hsource : v.terminal p.direction.source = ∅) {origins : List Neighbour}
    (ho : ∀ i, some i ∈ origins → g.Visits i) {a : α} :
    a ∈ p.inflow v origins ↔ ∃ q ∈ g.quads, some q.id ∈ origins ∧
      a ∈ v.fact p.direction.departure q.id := by
  rw [mem_inflow_union h]
  constructor
  · rintro ⟨n, hn, ha⟩
    cases n with
    | none =>
        rw [outflow, hsource] at ha
        exact absurd ha (OrdSet.not_mem_empty a)
    | some i =>
        obtain ⟨q, hq, rfl⟩ := ho i hn
        exact ⟨q, hq, hn, ha⟩
  · rintro ⟨q, -, hn, ha⟩
    exact ⟨some q.id, hn, ha⟩

/-- An element leaves a neighbour, when `leaves` says which elements leave each
quad. -/
def Sent (p : Problem α) (g : Graph) (leaves : Quad → α → Prop) :
    Neighbour → α → Prop
  | some i, a => ∃ q ∈ g.quads, q.id = i ∧ leaves q a
  | none, a => a ∈ p.atSource

theorem sent_of_mem_outflow
    (hsource : v.terminal p.direction.source = p.atSource)
    (hout : ∀ q ∈ g.quads, ∀ a ∈ v.fact p.direction.departure q.id, leaves q a)
    {n : Neighbour} (hn : ∀ i, n = some i → g.Visits i) {a : α}
    (ha : a ∈ p.outflow v n) : p.Sent g leaves n a := by
  cases n with
  | none =>
      rw [outflow, hsource] at ha
      exact ha
  | some i =>
      obtain ⟨q, hq, rfl⟩ := hn i rfl
      exact ⟨q, hq, rfl, hout q hq a ha⟩

theorem mem_outflow_of_sent
    (hsource : v.terminal p.direction.source = p.atSource) {a : α}
    (hout : ∀ q ∈ g.quads, leaves q a → a ∈ v.fact p.direction.departure q.id)
    {n : Neighbour} (ha : p.Sent g leaves n a) : a ∈ p.outflow v n := by
  cases n with
  | none =>
      rw [outflow, hsource]
      exact ha
  | some i =>
      obtain ⟨q, hq, rfl, hleaves⟩ := ha
      exact hout q hq hleaves

/-! ## Invariants of the facts -/

variable [DecidableEq α] {e : QuadGraph} {passes : List (Pass α)}

/-- A property of facts that the top has, and that a step gives to the two facts
it writes when all others have it, is one of every fact that the loop ends
with. -/
theorem Settles.forall_fact (hdist : g.DistinctQuads)
    (h : p.Settles (g.layout e p.direction) p.start passes v)
    (P : Side → Quad → OrdSet α → Prop)
    (htop : ∀ q ∈ g.quads, ∀ side, P side q p.top)
    (hstep : ∀ u : Valuation α,
      u.terminal p.direction.source = p.atSource →
      (∀ q ∈ g.quads, ∀ side, P side q (u.fact side q.id)) →
      ∀ q ∈ g.quads,
        P p.direction.arrival q (p.inflow u (e.origins p.direction q.id)) ∧
        P p.direction.departure q
          (p.transfer q (p.inflow u (e.origins p.direction q.id)))) :
    ∀ q ∈ g.quads, ∀ side, P side q (v.fact side q.id) := by
  have hboth : v.terminal p.direction.source = p.atSource ∧
      ∀ q ∈ g.quads, ∀ side, P side q (v.fact side q.id) := by
    refine h.keep (fun u => u.terminal p.direction.source = p.atSource ∧
        ∀ q ∈ g.quads, ∀ side, P side q (u.fact side q.id))
      (fun s hs u hu => ⟨hu.1, ?_⟩) (fun x u hu => ⟨?_, hu.2⟩)
      ⟨p.start_source, htop⟩
    · obtain ⟨quad, hquad, rfl⟩ := Graph.mem_layout.1 hs
      obtain ⟨harr, hdep⟩ := hstep u hu.1 hu.2 quad hquad
      -- a slot's property is that of the one quad with its number
      have hslots := forall_step (p := p) (g := g)
        (s := ⟨quad, e.origins p.direction quad.id⟩)
        (fun side i f => ∀ q ∈ g.quads, q.id = i → P side q f)
        (fun i _ side q hq hid => hid ▸ hu.2 q hq side)
        (fun q hq hid => by rw [hdist.eq_of_id_eq hq hquad hid]; exact harr)
        (fun q hq hid => by rw [hdist.eq_of_id_eq hq hquad hid]; exact hdep)
      exact fun q hq side => hslots q.id ⟨q, hq, rfl⟩ side q hq rfl
    · rw [Valuation.terminal_setTerminal_of_ne p.direction.source_ne_target]
      exact hu.1
  exact hboth.2

/-- Facts joined by union hold nothing that the origins and the transfers do not
account for. -/
theorem Settles.accounted (arrives leaves : Quad → α → Prop)
    (hunion : p.meet = .union)
    (he : g.quadGraph = .ok e) (hdist : g.DistinctQuads)
    (h : p.Settles (g.layout e p.direction) p.start passes v)
    (harr : ∀ q ∈ g.quads, ∀ n ∈ e.origins p.direction q.id, ∀ a,
      p.Sent g leaves n a → arrives q a)
    (hdep : ∀ q ∈ g.quads, ∀ s : OrdSet α, (∀ a ∈ s, arrives q a) →
      ∀ a ∈ p.transfer q s, leaves q a) :
    ∀ q ∈ g.quads, ∀ a ∈ v.fact p.direction.arrival q.id, arrives q a := by
  have hall := h.forall_fact hdist
    (fun side q f => ∀ a ∈ f,
      if side = p.direction.arrival then arrives q a else leaves q a)
    (fun q _ side a ha => by simp [top, hunion, Meet.top] at ha)
    (fun u hsource hu q hq => ?_)
  · intro q hq a ha
    simpa using hall q hq p.direction.arrival a ha
  · have hout : ∀ q ∈ g.quads, ∀ a ∈ u.fact p.direction.departure q.id,
        leaves q a := by
      intro q hq a ha
      simpa [p.direction.departure_ne_arrival] using hu q hq _ a ha
    have hin : ∀ a ∈ p.inflow u (e.origins p.direction q.id), arrives q a := by
      intro a ha
      obtain ⟨n, hn, ha⟩ := (mem_inflow_union hunion).1 ha
      exact harr q hq n hn a (sent_of_mem_outflow hsource hout
        (fun i hi => QuadGraph.visits_of_mem_origins he (hi ▸ hn)) ha)
    simp only [if_true, p.direction.departure_ne_arrival, if_false]
    exact ⟨hin, hdep q hq _ hin⟩

/-- Facts joined by intersection keep every element of the domain that all the
origins and the transfers bear out. -/
theorem Settles.borne_out (arrives leaves : Quad → α → Prop)
    (hinter : p.meet = .intersection)
    (hdist : g.DistinctQuads)
    (h : p.Settles (g.layout e p.direction) p.start passes v)
    (harr : ∀ q ∈ g.quads, ∀ a ∈ p.domain, arrives q a →
      ∀ n ∈ e.origins p.direction q.id, p.Sent g leaves n a)
    (hdep : ∀ q ∈ g.quads, ∀ s : OrdSet α,
      (∀ a ∈ p.domain, arrives q a → a ∈ s) →
      ∀ a ∈ p.domain, leaves q a → a ∈ p.transfer q s) :
    ∀ q ∈ g.quads, ∀ a ∈ p.domain, arrives q a →
      a ∈ v.fact p.direction.arrival q.id := by
  have hall := h.forall_fact hdist
    (fun side q f => ∀ a ∈ p.domain,
      (if side = p.direction.arrival then arrives q a else leaves q a) → a ∈ f)
    (fun q _ side a ha _ => by simpa [top, hinter, Meet.top] using ha)
    (fun u hsource hu q hq => ?_)
  · intro q hq a ha harrives
    exact hall q hq p.direction.arrival a ha (by simpa using harrives)
  · have hin : ∀ a ∈ p.domain, arrives q a →
        a ∈ p.inflow u (e.origins p.direction q.id) := by
      intro a ha harrives
      refine (mem_inflow_intersection hinter).2 ⟨ha, fun n hn => ?_⟩
      refine mem_outflow_of_sent hsource (fun q' hq' hleaves => ?_)
        (harr q hq a ha harrives n hn)
      refine hu q' hq' _ a ha ?_
      simpa [p.direction.departure_ne_arrival] using hleaves
    simp only [if_true, p.direction.departure_ne_arrival, if_false]
    exact ⟨hin, hdep q hq _ hin⟩

end Dataflow.Problem
