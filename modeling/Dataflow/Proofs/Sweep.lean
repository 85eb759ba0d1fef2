import Dataflow.Proofs.Valuation
import Dataflow.Solver.Sweep

/-!
# A sweep is a function of valuations

A sweep takes a valuation to another one: station by station, each seeing what
the ones before it have done, and at last the target. This file gives that
reading of `refresh`, `refreshAll` and `sweep` and shows that the solver agrees
with it. A table that shows a valuation is swept, without a fault, into a table
that shows the swept valuation, and the pass it reports is the one the reading
gives. All that is asked is that every quad on the route has a slot, which
`Route.Within` says and the layout of any graph grants.

`Settles` is the solver's loop in the same terms and without a limit: sweeps up
to and including the first that moves nothing. `settle` answers for it under
any limit that covers its length, so the limit is never what stops the loop.
-/

namespace Dataflow

/-- A route that names only quads of a graph's program order. -/
structure Route.Within (g : Graph) (r : Route) : Prop where
  quad : ∀ s ∈ r.stations, g.Visits s.quad.id
  origin : ∀ s ∈ r.stations, ∀ q, some q ∈ s.origins → g.Visits q
  final : ∀ q, some q ∈ r.final → g.Visits q

theorem Graph.layout_within {g : Graph} {e : QuadGraph}
    (h : g.quadGraph = .ok e) (d : Direction) : (g.layout e d).Within g := by
  refine ⟨fun s hs => ?_, fun s hs q hq => ?_, fun q hq => ?_⟩
  · obtain ⟨quad, hquad, rfl⟩ := mem_layout.1 hs
    exact ⟨quad, hquad, rfl⟩
  · obtain ⟨quad, -, rfl⟩ := mem_layout.1 hs
    exact QuadGraph.visits_of_mem_origins h hq
  · exact QuadGraph.visits_of_mem_finals h hq

namespace Problem

variable {α : Type} [Element α]

/-! ## What a sweep does to a valuation -/

/-- The fact that leaves a neighbour under a valuation. -/
def outflow (p : Problem α) (v : Valuation α) : Neighbour → OrdSet α
  | some q => v.fact p.direction.departure q
  | none => v.terminal p.direction.source

/-- The meet of all that leaves some neighbours under a valuation. -/
def inflow (p : Problem α) (v : Valuation α) (origins : List Neighbour) :
    OrdSet α :=
  origins.foldl (fun acc n => p.meet.meet acc (p.outflow v n)) p.top

/-- A valuation with the facts of one station brought up to date. -/
def step (p : Problem α) (v : Valuation α) (s : Station) : Valuation α :=
  (v.set p.direction.arrival s.quad.id (p.inflow v s.origins)).set
    p.direction.departure s.quad.id (p.transfer s.quad (p.inflow v s.origins))

/-- A valuation with several stations brought up to date in turn. -/
def steps (p : Problem α) (v : Valuation α) (l : List Station) : Valuation α :=
  l.foldl p.step v

/-- A valuation after a sweep. -/
def swept (p : Problem α) (r : Route) (v : Valuation α) : Valuation α :=
  (p.steps v r.stations).setTerminal p.direction.target
    (p.inflow (p.steps v r.stations) r.final)

/-- The facts at a station are what its origins and the transfer make them. -/
def Steady (p : Problem α) (v : Valuation α) (s : Station) : Prop :=
  p.inflow v s.origins = v.fact p.direction.arrival s.quad.id ∧
    p.transfer s.quad (p.inflow v s.origins) =
      v.fact p.direction.departure s.quad.id

theorem step_eq_self {p : Problem α} {v : Valuation α} {s : Station}
    (h : p.Steady v s) : p.step v s = v := by
  unfold step
  rw [Valuation.set_eq_self h.1.symm]
  exact Valuation.set_eq_self h.2.symm

theorem step_arrival (p : Problem α) (v : Valuation α) (s : Station) :
    (p.step v s).fact p.direction.arrival s.quad.id = p.inflow v s.origins := by
  rw [step, Valuation.fact_set_of_ne_side p.direction.departure_ne_arrival.symm,
    Valuation.fact_set_self]

theorem step_departure (p : Problem α) (v : Valuation α) (s : Station) :
    (p.step v s).fact p.direction.departure s.quad.id =
      p.transfer s.quad (p.inflow v s.origins) := by
  rw [step, Valuation.fact_set_self]

theorem step_of_ne {p : Problem α} {v : Valuation α} {s : Station}
    {side : Side} {q : QuadId} (h : q ≠ s.quad.id) :
    (p.step v s).fact side q = v.fact side q := by
  rw [step, Valuation.fact_set_of_ne h, Valuation.fact_set_of_ne h]

@[simp] theorem step_terminal (p : Problem α) (v : Valuation α) (s : Station) :
    (p.step v s).terminal = v.terminal := rfl

@[simp] theorem steps_terminal (p : Problem α) (v : Valuation α)
    (l : List Station) : (p.steps v l).terminal = v.terminal := by
  induction l generalizing v with
  | nil => rfl
  | cons s rest ih => exact ih (p.step v s)

/-- The valuation before the first sweep. -/
def start (p : Problem α) : Valuation α where
  fact _ _ := p.top
  terminal e := if e = p.direction.target then p.atTarget else p.atSource

theorem start_source (p : Problem α) :
    p.start.terminal p.direction.source = p.atSource :=
  if_neg p.direction.source_ne_target

theorem initial_shows (p : Problem α) (g : Graph) :
    (p.initial g).Shows g p.start := by
  refine ⟨fun q hq side => ?_, fun e => ?_⟩
  · have hslot := FactMap.slot?_uniform hq p.top
    have hinit : (p.initial g).slot? q = some ⟨p.top, p.top⟩ := by
      rw [← hslot]
      unfold initial
      cases p.direction <;> rfl
    rw [FactMap.get?, hinit]
    cases side <;> rfl
  · unfold initial start
    cases p.direction <;> cases e <;> rfl

variable [DecidableEq α]

/-- What a sweep finds at a station. -/
def arrivalAt (p : Problem α) (v : Valuation α) (s : Station) : Arrival α where
  quad := s.quad
  fact := p.inflow v s.origins
  moved :=
    decide (p.inflow v s.origins ≠ v.fact p.direction.arrival s.quad.id) ||
      decide (p.transfer s.quad (p.inflow v s.origins) ≠
        v.fact p.direction.departure s.quad.id)

/-- What a sweep finds at several stations in turn. -/
def arrivalsFrom (p : Problem α) (v : Valuation α) :
    List Station → List (Arrival α)
  | [] => []
  | s :: rest => p.arrivalAt v s :: p.arrivalsFrom (p.step v s) rest

/-- What a sweep reports. -/
def passFrom (p : Problem α) (r : Route) (v : Valuation α) : Pass α where
  arrivals := p.arrivalsFrom v r.stations
  targetMoved :=
    p.inflow (p.steps v r.stations) r.final ≠ v.terminal p.direction.target

theorem arrivalAt_moved {p : Problem α} {v : Valuation α} {s : Station} :
    (p.arrivalAt v s).moved = false ↔ p.Steady v s := by
  simp [arrivalAt, Steady]

/-! ## The solver does the same to its table -/

omit [DecidableEq α] in
theorem leaving_eq {p : Problem α} {g : Graph} {t : FactMap (OrdSet α)}
    {v : Valuation α} (h : t.Shows g v) {n : Neighbour}
    (hn : ∀ q, n = some q → g.Visits q) :
    p.leaving t n = .ok (p.outflow v n) := by
  cases n with
  | none => exact h.terminal_ok _
  | some q => exact h.get (hn q rfl) _

omit [DecidableEq α] in
theorem arriving_eq {p : Problem α} {g : Graph} {t : FactMap (OrdSet α)}
    {v : Valuation α} (h : t.Shows g v) {origins : List Neighbour}
    (ho : ∀ q, some q ∈ origins → g.Visits q) :
    p.arriving t origins = .ok (p.inflow v origins) := by
  unfold arriving inflow
  generalize p.top = acc
  induction origins generalizing acc with
  | nil => rfl
  | cons n rest ih =>
      have hn : p.leaving t n = .ok (p.outflow v n) :=
        leaving_eq h fun q hq => ho q (by simp [hq])
      rw [List.foldlM_cons, hn]
      exact ih (fun q hq => ho q (List.mem_cons_of_mem n hq)) _

theorem refresh_eq {p : Problem α} {g : Graph} {t : FactMap (OrdSet α)}
    {v : Valuation α} (h : t.Shows g v) {s : Station}
    (hq : g.Visits s.quad.id) (ho : ∀ q, some q ∈ s.origins → g.Visits q) :
    ∃ t', p.refresh t s = .ok (t', p.arrivalAt v s) ∧
      t'.Shows g (p.step v s) := by
  obtain ⟨t₁, hup₁, hsh₁⟩ :=
    h.update hq p.direction.arrival (p.inflow v s.origins)
  obtain ⟨t₂, hup₂, hsh₂⟩ :=
    hsh₁.update hq p.direction.departure
      (p.transfer s.quad (p.inflow v s.origins))
  refine ⟨t₂, ?_, hsh₂⟩
  -- Writing the arriving fact does not touch the leaving one, so what is read
  -- after that write is still the fact of `v`.
  have hleft := hsh₁.get hq p.direction.departure
  rw [Valuation.fact_set_of_ne_side p.direction.departure_ne_arrival] at hleft
  unfold refresh
  simp only [arriving_eq h ho, h.get hq, bind, Except.bind, hup₁, hleft, hup₂]
  rfl

theorem refreshAll_eq {p : Problem α} {g : Graph} {l : List Station}
    (hq : ∀ s ∈ l, g.Visits s.quad.id)
    (ho : ∀ s ∈ l, ∀ q, some q ∈ s.origins → g.Visits q) :
    ∀ {t : FactMap (OrdSet α)} {v : Valuation α}, t.Shows g v →
      ∃ t', p.refreshAll t l = .ok (t', p.arrivalsFrom v l) ∧
        t'.Shows g (p.steps v l) := by
  induction l with
  | nil =>
      intro t v h
      exact ⟨t, rfl, h⟩
  | cons s rest ih =>
      intro t v h
      obtain ⟨t₁, hr₁, hsh₁⟩ :=
        refresh_eq (p := p) h (hq s (by simp)) (ho s (by simp))
      obtain ⟨t₂, hr₂, hsh₂⟩ :=
        ih (fun s' hs' => hq s' (List.mem_cons_of_mem s hs'))
          (fun s' hs' => ho s' (List.mem_cons_of_mem s hs')) hsh₁
      refine ⟨t₂, ?_, hsh₂⟩
      rw [refreshAll, hr₁]
      simp only [bind, Except.bind, hr₂]
      rfl

/-- The solver sweeps as valuations are swept, and never faults. -/
theorem sweep_eq {p : Problem α} {g : Graph} {r : Route} (hr : r.Within g)
    {t : FactMap (OrdSet α)} {v : Valuation α} (h : t.Shows g v) :
    ∃ t', p.sweep r t = .ok (t', p.passFrom r v) ∧
      t'.Shows g (p.swept r v) := by
  obtain ⟨t₁, hr₁, hsh₁⟩ := refreshAll_eq (p := p) hr.quad hr.origin h
  refine ⟨t₁.setTerminal p.direction.target _, ?_, hsh₁.setTerminal _ _⟩
  unfold sweep
  simp only [hr₁, bind, Except.bind, arriving_eq hsh₁ hr.final,
    hsh₁.terminal_ok, steps_terminal]
  rfl

/-! ## The loop -/

/-- Sweeping from a valuation until a sweep moves nothing: what the sweeps
report, and the valuation they end with. -/
inductive Settles (p : Problem α) (r : Route) :
    Valuation α → List (Pass α) → Valuation α → Prop where
  | last {v : Valuation α} (h : (p.passFrom r v).changes = 0) :
      Settles p r v [p.passFrom r v] (p.swept r v)
  | more {v w : Valuation α} {passes : List (Pass α)}
      (h : (p.passFrom r v).changes ≠ 0)
      (rest : Settles p r (p.swept r v) passes w) :
      Settles p r v (p.passFrom r v :: passes) w

/-- The loop comes to rest in one way only. -/
theorem Settles.unique {p : Problem α} {r : Route} {v w w' : Valuation α}
    {passes passes' : List (Pass α)} (h : p.Settles r v passes w)
    (h' : p.Settles r v passes' w') : w' = w := by
  induction h generalizing passes' with
  | last hrest =>
      cases h' with
      | last => rfl
      | more hmoved => exact absurd hrest hmoved
  | more hmoved _ ih =>
      cases h' with
      | last hrest => exact absurd hrest hmoved
      | more _ rest => exact ih rest

/-- The solver's loop runs as `Settles` says under any limit that covers the
number of sweeps. -/
theorem settle_eq {p : Problem α} {g : Graph} {r : Route} (hr : r.Within g)
    {v w : Valuation α} {passes : List (Pass α)}
    (hs : p.Settles r v passes w) :
    ∀ (t : FactMap (OrdSet α)) (done limit : Nat), t.Shows g v →
      passes.length ≤ limit →
      ∃ t', p.settle r done limit t = .ok (t', passes) ∧ t'.Shows g w := by
  induction hs with
  | @last v h =>
      intro t done limit ht hlim
      obtain ⟨n, rfl⟩ : ∃ n, limit = n + 1 :=
        ⟨limit - 1, by simp at hlim; omega⟩
      obtain ⟨t', hsw, hsh⟩ := sweep_eq (p := p) hr ht
      refine ⟨t', ?_, hsh⟩
      rw [settle, hsw]
      simp only [bind, Except.bind, if_pos h]
      rfl
  | @more v w passes h rest ih =>
      intro t done limit ht hlim
      obtain ⟨n, rfl⟩ : ∃ n, limit = n + 1 :=
        ⟨limit - 1, by simp at hlim; omega⟩
      obtain ⟨t₁, hsw, hsh⟩ := sweep_eq (p := p) hr ht
      obtain ⟨t₂, hset, hsh₂⟩ :=
        ih t₁ (done + 1) n hsh (by simp at hlim; omega)
      refine ⟨t₂, ?_, hsh₂⟩
      rw [settle, hsw]
      simp only [bind, Except.bind, if_neg h, hset]
      rfl

/-- A limit under which the loop has settled is never what decides: under any
higher one it settles in the same way. -/
theorem settle_mono {p : Problem α} {r : Route} :
    ∀ {n m done done' : Nat} {t : FactMap (OrdSet α)}
      {out : FactMap (OrdSet α) × List (Pass α)}, n ≤ m →
      p.settle r done n t = .ok out → p.settle r done' m t = .ok out := by
  intro n
  induction n with
  | zero =>
      intro m done done' t out _ h
      rw [settle] at h
      cases h
  | succ n ih =>
      intro m done done' t out hle h
      obtain ⟨m, rfl⟩ : ∃ k, m = k + 1 := ⟨m - 1, by omega⟩
      rw [settle] at h ⊢
      cases hsweep : p.sweep r t with
      | error f => rw [hsweep] at h; cases h
      | ok swept =>
          obtain ⟨t₁, pass⟩ := swept
          rw [hsweep] at h
          simp only [bind, Except.bind] at h ⊢
          split at h
          · next hz => rw [if_pos hz]; exact h
          · next hz =>
              rw [if_neg hz]
              cases hrest : p.settle r (done + 1) n t₁ with
              | error f => rw [hrest] at h; cases h
              | ok rest =>
                  rw [hrest] at h
                  rw [ih (Nat.le_of_succ_le_succ hle) hrest]
                  exact h

/-- A loop that settles within the solver's limit is the solver's answer, and
the loop's under every limit that covers it. -/
theorem solve_eq {p : Problem α} {g : Graph} {e : QuadGraph}
    (he : g.quadGraph = .ok e) {w : Valuation α} {passes : List (Pass α)}
    (hs : p.Settles (g.layout e p.direction) p.start passes w)
    (hlim : passes.length ≤ p.sweepLimit (g.sweepOrder p.direction)) :
    ∃ sol, p.solve g = .ok sol ∧ sol.facts.Shows g w ∧ sol.passes = passes ∧
      sol.quads = g.quads.length ∧
      ∀ limit, passes.length ≤ limit →
        p.settle (g.layout e p.direction) 0 limit (p.initial g) =
          .ok (sol.facts, passes) := by
  obtain ⟨t, hset, hsh⟩ := settle_eq (Graph.layout_within he p.direction) hs
    (p.initial g) 0 _ (p.initial_shows g) (Nat.le_refl _)
  refine ⟨⟨t, passes, g.quads.length⟩, ?_, hsh, rfl, rfl,
    fun limit hlimit => settle_mono hlimit hset⟩
  unfold solve solveAlong
  simp only [Graph.route_eq he, bind, Except.bind, Graph.layout_quads,
    settle_mono hlim hset, Graph.length_sweepOrder]
  rfl

end Problem

end Dataflow
