import Dataflow.Analysis.Visit
import Dataflow.Fact.Store
import Dataflow.Proofs.Valuation

/-!
# Solving at a desk

An analysis that is shown one graph after another need not be thought of as a
function. It has a desk, on which lie the domain of its facts, a table of facts
that carry their lattice each, and its notes; a visit clears the desk for the
graph at hand, works on the table in place, and leaves there what it has found.
Storing a fact takes over its elements only, so a slot keeps whatever lattice it
was made with, and notes change while the sweeps go on.

`Performs.visit_eq_solve` says that nothing comes of this: if clearing the desk
lays out the initial table of a problem, and each quad does to a fact what the
transfer function says, then a visit is a run of the problem. The invariant is
that the table on the desk is a table of plain sets with one lattice put on all
of them. A step in place keeps it, and answers what the same step on plain sets
answers, faults included; sweeps and loops of sweeps follow the two step by
step.
-/

namespace Dataflow

/-- What an analysis keeps between visits. -/
structure Desk (α ν : Type) [Element α] where
  domain : OrdSet α
  facts : FactMap (Fact α)
  notes : ν

/-- A desk made ready for a graph, or the reason why that failed. -/
structure Preparation (α ν : Type) [Element α] where
  desk : Desk α ν
  graph : Graph
  events : List Event
  error : Option Error

/-- How an analysis works at its desk. -/
structure Routine (α ν : Type) [Element α] extends Traits where
  /-- Makes the desk ready for a graph, which may be changed on the way. -/
  prepare : Desk α ν → Graph → Preparation α ν
  /-- What a quad makes of the fact that arrives, and of the notes. -/
  process : ν → Quad → Fact α → Fact α × ν
  /-- Closes a visit. -/
  conclude : Desk α ν → Graph → Desk α ν × List Event
  /-- How many sweeps are tried over the quads of a graph. -/
  limit : Graph → List Quad → Nat

/-- A new domain, and a table for a graph with the top fact everywhere. -/
def Desk.clear {α ν : Type} [Element α] (d : Desk α ν) (g : Graph)
    (domain : OrdSet α) (lattice : Meet) : Desk α ν :=
  { d with domain, facts := .uniform g (.top domain lattice) }

namespace Routine

variable {α ν : Type} [Element α]

/-- The meet of what leaves some neighbours; the end of the method sends out
`boundary`. -/
def arriving (r : Routine α ν) (boundary : Fact α) (d : Desk α ν)
    (origins : List Neighbour) : Except Fault (Fact α) :=
  origins.foldlM (fun acc n =>
    match n with
    | some q => do return acc.meet (← d.facts.get r.direction.departure q)
    | none => return acc.meet boundary) (.top d.domain r.meet)

/-- Passes what arrives at a quad on to what leaves it. -/
def apply (r : Routine α ν) (d : Desk α ν) (q : Quad) :
    Except Fault (Desk α ν) := do
  let (left, notes) :=
    r.process d.notes q (← d.facts.get r.direction.arrival q.id)
  let facts ← d.facts.store r.direction.departure q.id left
  return { d with facts, notes }

variable [DecidableEq α]

/-- Brings the facts of one quad up to date, and tells whether they moved. -/
def refresh (r : Routine α ν) (boundary : Fact α) (d : Desk α ν) (s : Station) :
    Except Fault (Desk α ν × Bool) := do
  let q := s.quad.id
  let arrived ← r.arriving boundary d s.origins
  let oldArrived ← d.facts.get r.direction.arrival q
  let facts ← d.facts.store r.direction.arrival q arrived
  let oldLeft ← facts.get r.direction.departure q
  let d ← r.apply { d with facts } s.quad
  let newLeft ← d.facts.get r.direction.departure q
  return (d, !arrived.same oldArrived || !newLeft.same oldLeft)

/-- Brings quads up to date one after the other, and tells which of them
moved. -/
def refreshAll (r : Routine α ν) (boundary : Fact α) (d : Desk α ν) :
    List Station → Except Fault (Desk α ν × List Quad)
  | [] => return (d, [])
  | s :: rest => do
    let (d, moved) ← r.refresh boundary d s
    let (d, others) ← r.refreshAll boundary d rest
    return (d, if moved then s.quad :: others else others)

/-- One sweep, with the quads that it moved and its count of changes. -/
def sweep (r : Routine α ν) (boundary : Fact α) (route : Route) (d : Desk α ν) :
    Except Fault (Desk α ν × List Quad × Nat) := do
  let (d, moved) ← r.refreshAll boundary d route.stations
  let arrived ← r.arriving boundary d route.final
  let old ← d.facts.terminal r.direction.target
  let facts := d.facts.storeTerminal r.direction.target arrived
  return ({ d with facts }, moved,
    if arrived.same old then moved.length else moved.length + 1)

/-- Sweeps until nothing moves, with what there is to tell of it and the number
of sweeps. `done` sweeps came before. -/
def settle (r : Routine α ν) (boundary : Fact α) (route : Route) (done : Nat) :
    Nat → Desk α ν → Except Fault (Desk α ν × List Event × Nat)
  | 0, _ => .error (.unsettled done)
  | limit + 1, d => do
    let (d, moved, changes) ← r.sweep boundary route d
    let events := moved.map (fun q => .moved q (done + 1)) ++
      [Event.swept r.direction (done + 1) changes]
    if changes = 0 then return (d, events, done + 1)
    else
      let (d, later, sweeps) ← r.settle boundary route (done + 1) limit d
      return (d, events ++ later, sweeps)

/-- Sets every fact that leaves a quad to the top, reads the fact at the source
once and for all, and sweeps until nothing moves. -/
def solveAlong (r : Routine α ν) (d : Desk α ν) (g : Graph) (route : Route) :
    Except Fault (Desk α ν × List Event × Nat) := do
  let facts ← g.quads.foldlM (fun (t : FactMap (Fact α)) q =>
    t.store r.direction.departure q.id (.top d.domain r.meet)) d.facts
  let boundary ← facts.terminal r.direction.source
  r.settle boundary route 0 (r.limit g (route.stations.map Station.quad))
    { d with facts }

/-- Shows a graph to the analysis. A fault leaves the desk as it was
prepared. -/
def visit (r : Routine α ν) (d : Desk α ν) (g : Graph) : Visit (Desk α ν) :=
  let p := r.prepare d g
  match p.error with
  | some e => ⟨p.desk, p.graph, p.events, .error e⟩
  | none =>
    match p.graph.route r.direction with
    | .error f => ⟨p.desk, p.graph, p.events, .error (.fault f)⟩
    | .ok route =>
      let opening :=
        Event.solving r.name p.graph.name r.direction route.stations.length
      match r.solveAlong p.desk p.graph route with
      | .error f => ⟨p.desk, p.graph, p.events ++ [opening], .error (.fault f)⟩
      | .ok (d, events, sweeps) =>
        let (d, closing) := r.conclude d p.graph
        ⟨d, p.graph,
          p.events ++ opening ::
            (events ++ [.settled r.name p.graph.name sweeps]) ++ closing,
          .ok ⟨sweeps, route.stations.length⟩⟩

end Routine

/-! ## Tables with one lattice -/

/-- Two chains of steps that answer alike: the one starts with what the other's
first step answers, seen through `f`, and goes on alike from there. -/
theorem map_bind_eq_map {ε α α' β β' : Type} {x : Except ε α} {f : α → α'}
    {k : α → Except ε β} {k' : α' → Except ε β'} {g : β → β'}
    (h : ∀ a, x = .ok a → k' (f a) = g <$> k a) :
    (f <$> x) >>= k' = g <$> (x >>= k) := by
  cases x with
  | error e => rfl
  | ok a => exact h a rfl

namespace FactMap

variable {F G H : Type}

theorem map_map (f : F → G) (k : G → H) (t : FactMap F) :
    (t.map f).map k = t.map (k ∘ f) := by
  simp [map, Function.comp_def]

theorem map_id (t : FactMap F) : t.map id = t := by
  simp [map]

theorem map_uniform (f : F → G) (g : Graph) (x : F) :
    (uniform g x).map f = uniform g (f x) := by
  simp [map, uniform, Function.comp_def]

theorem map_setTerminal (f : F → G) (t : FactMap F) (e : Terminal) (x : F) :
    (t.setTerminal e x).map f = (t.map f).setTerminal e (f x) := by
  cases e <;> rfl

theorem get_map (f : F → G) (t : FactMap F) (side : Side) (q : QuadId) :
    (t.map f).get side q = f <$> t.get side q := by
  rw [get, get, get?_map]
  cases t.get? side q <;> rfl

theorem terminal_map (f : F → G) (t : FactMap F) (e : Terminal) :
    (t.map f).terminal e = f <$> t.terminal e := by
  have h : (t.map f).terminal? e = (t.terminal? e).map f := by cases e <;> rfl
  rw [terminal, terminal, h]
  cases t.terminal? e <;> rfl

/-- A change that a map carries over can be made on either side of it. -/
theorem update_map {f : F → G} {k : F → F} {k' : G → G}
    (h : ∀ x, k' (f x) = f (k x)) (t : FactMap F) (side : Side) (q : QuadId) :
    (t.map f).update side q k' = map f <$> t.update side q k := by
  have hmodify : (t.map f).modify side q k' = (t.modify side q k).map f := by
    simp only [modify, map, List.map_map, FactMap.mk.injEq, and_true]
    apply List.map_congr_left
    intro s _
    simp only [Function.comp]
    split
    · cases side <;> simp [Slot.modify, h]
    · rfl
  rw [update, update, slot?_map, hmodify]
  cases t.slot? q <;> rfl

theorem get_of_update {t t' : FactMap F} {side : Side} {q : QuadId} {x : F}
    (h : t.update side q (fun _ => x) = .ok t') : t'.get side q = .ok x := by
  cases hslot : t.slot? q with
  | none =>
      rw [update, hslot] at h
      cases h
  | some slot =>
      rw [update, hslot] at h
      cases h
      rw [get, get?, slot?_modify_self, hslot]
      cases side <;> rfl

theorem terminal_of_update {t t' : FactMap F} {side : Side} {q : QuadId}
    {k : F → F} (h : t.update side q k = .ok t') (e : Terminal) :
    t'.terminal e = t.terminal e := by
  rw [update] at h
  split at h
  · cases h
    cases e <;> rfl
  · cases h

theorem terminal_setTerminal_of_ne {t : FactMap F} {e e' : Terminal}
    (h : e' ≠ e) (x : F) : (t.setTerminal e x).terminal e' = t.terminal e' := by
  cases e <;> cases e' <;> simp_all [setTerminal, terminal, terminal?]

variable {α : Type} [Element α]

/-- Storing into a table with one lattice is storing plain sets. -/
theorem store_map {f : OrdSet α → Fact α}
    (h : ∀ s s', (f s).withElems (f s').elems = f s') (t : FactMap (OrdSet α))
    (side : Side) (q : QuadId) (s : OrdSet α) :
    (t.map f).store side q (f s) = map f <$> t.update side q fun _ => s :=
  update_map (fun x => h x s) t side q

theorem storeTerminal_map {f : OrdSet α → Fact α}
    (h : ∀ s s', (f s).withElems (f s').elems = f s') (t : FactMap (OrdSet α))
    (e : Terminal) (s : OrdSet α) :
    (t.map f).storeTerminal e (f s) = (t.setTerminal e s).map f := by
  have hterminal : (t.map f).terminal? e = (t.terminal? e).map f := by
    cases e <;> rfl
  rw [map_setTerminal, storeTerminal, hterminal]
  cases t.terminal? e with
  | none => rfl
  | some old =>
      show (t.map f).setTerminal e ((f old).withElems (f s).elems) = _
      rw [h]

end FactMap

/-! ## Following a problem -/

namespace Problem

variable {α ν : Type} [Element α]

/-- A set in the lattice of a problem. -/
def fact (p : Problem α) (s : OrdSet α) : Fact α := ⟨s, p.domain, p.meet⟩

/-- A desk with a table of a problem on it. -/
def desk (p : Problem α) (t : FactMap (OrdSet α)) (notes : ν) : Desk α ν :=
  ⟨p.domain, t.map p.fact, notes⟩

theorem initial_source (p : Problem α) (g : Graph) :
    (p.initial g).terminal p.direction.source = .ok p.atSource := by
  rw [initial, FactMap.terminal_setTerminal_of_ne p.direction.source_ne_target]
  cases p.direction <;> rfl

/-- Before the first sweep the facts of every quad are at the top already. -/
theorem update_initial (p : Problem α) {g : Graph} {q : Quad} (hq : q ∈ g.quads)
    (side : Side) :
    (p.initial g).update side q.id (fun _ => p.top) = .ok (p.initial g) := by
  have hslots : (p.initial g).slots = (FactMap.uniform g p.top).slots := by
    rw [initial]
    cases p.direction <;> rfl
  have hslot : (p.initial g).slot? q.id = some ⟨p.top, p.top⟩ := by
    rw [FactMap.slot?, hslots]
    exact FactMap.slot?_uniform ⟨q, hq, rfl⟩ p.top
  have hmodify : (p.initial g).modify side q.id (fun _ => p.top) =
      p.initial g := by
    have hsame : (p.initial g).slots.map (fun s =>
        if s.1 = q.id then (s.1, s.2.modify side fun _ => p.top) else s) =
        (p.initial g).slots := by
      rw [hslots]
      refine (List.map_congr_left fun s hs => ?_).trans (List.map_id _)
      obtain ⟨q', -, rfl⟩ := List.mem_map.1 hs
      cases side <;> exact ite_self _
    rw [FactMap.modify, hsame]
  rw [FactMap.update, hslot, hmodify]

variable [DecidableEq α]

theorem refresh_ok {p : Problem α} {t t' : FactMap (OrdSet α)} {s : Station}
    {a : Arrival α} (h : p.refresh t s = .ok (t', a)) :
    a.quad = s.quad ∧ ∀ e, t'.terminal e = t.terminal e := by
  obtain ⟨arrived, -, h⟩ := exists_of_bind_eq_ok h
  obtain ⟨oldArrived, -, h⟩ := exists_of_bind_eq_ok h
  obtain ⟨t₁, h₁, h⟩ := exists_of_bind_eq_ok h
  obtain ⟨oldLeft, -, h⟩ := exists_of_bind_eq_ok h
  obtain ⟨t₂, h₂, h⟩ := exists_of_bind_eq_ok h
  cases h
  exact ⟨rfl, fun e => (FactMap.terminal_of_update h₂ e).trans
    (FactMap.terminal_of_update h₁ e)⟩

theorem refreshAll_terminal {p : Problem α} {stations : List Station} :
    ∀ {t t' : FactMap (OrdSet α)} {as : List (Arrival α)},
      p.refreshAll t stations = .ok (t', as) →
        ∀ e, t'.terminal e = t.terminal e := by
  induction stations with
  | nil =>
      intro t t' as h e
      cases h
      rfl
  | cons s rest ih =>
      intro t t' as h e
      obtain ⟨⟨t₁, a⟩, hfirst, h⟩ := exists_of_bind_eq_ok h
      obtain ⟨⟨t₂, others⟩, hrest, h⟩ := exists_of_bind_eq_ok h
      cases h
      exact (ih hrest e).trans ((refresh_ok hfirst).2 e)

/-- A sweep leaves the fact at the source alone. -/
theorem sweep_source {p : Problem α} {r : Route} {t t' : FactMap (OrdSet α)}
    {pass : Pass α} (h : p.sweep r t = .ok (t', pass)) :
    t'.terminal p.direction.source = t.terminal p.direction.source := by
  obtain ⟨⟨t₁, arrivals⟩, hall, h⟩ := exists_of_bind_eq_ok h
  obtain ⟨arrived, -, h⟩ := exists_of_bind_eq_ok h
  obtain ⟨old, -, h⟩ := exists_of_bind_eq_ok h
  cases h
  rw [FactMap.terminal_setTerminal_of_ne p.direction.source_ne_target]
  exact refreshAll_terminal hall _

end Problem

namespace Routine

variable {α ν : Type} [Element α]

/-- The notes after some arrivals. -/
def noted (note : ν → Quad → OrdSet α → ν) (notes : ν)
    (arrivals : List (Arrival α)) : ν :=
  arrivals.foldl (fun n a => note n a.quad a.fact) notes

/-- A routine does at each quad what a problem says, as long as its notes are
fit for that, and keeps them so. -/
structure Performs (r : Routine α ν) (p : Problem α) (Fit : ν → Prop)
    (note : ν → Quad → OrdSet α → ν) : Prop where
  traits : r.toTraits = p.toTraits
  process : ∀ {notes : ν}, Fit notes → ∀ q s,
    r.process notes q (p.fact s) = (p.fact (p.transfer q s), note notes q s)
  fit : ∀ {notes : ν}, Fit notes → ∀ q s, Fit (note notes q s)

namespace Performs

variable {r : Routine α ν} {p : Problem α} {Fit : ν → Prop}
  {note : ν → Quad → OrdSet α → ν} (h : r.Performs p Fit note)
  {t : FactMap (OrdSet α)} {b : OrdSet α} {notes : ν}

include h

theorem arriving_eq (hb : t.terminal p.direction.source = .ok b)
    (origins : List Neighbour) :
    r.arriving (p.fact b) (p.desk t notes) origins =
      p.fact <$> p.arriving t origins := by
  -- At a desk the fact at the source was read before the first sweep, a problem
  -- reads it from the table each time; `hb` says that it is still the same.
  have hfold : ∀ acc : OrdSet α,
      origins.foldlM (fun acc n =>
        match n with
        | some q => do
            return acc.meet (← (t.map p.fact).get p.direction.departure q)
        | none => return acc.meet (p.fact b)) (p.fact acc) =
      p.fact <$> origins.foldlM
        (fun acc n => do return p.meet.meet acc (← p.leaving t n)) acc := by
    induction origins with
    | nil => exact fun _ => rfl
    | cons n rest ih =>
        intro acc
        rw [List.foldlM_cons, List.foldlM_cons]
        cases n with
        | none =>
            have hleaving : p.leaving t none = .ok b := hb
            rw [hleaving]
            exact ih _
        | some q =>
            have hget := FactMap.get_map p.fact t p.direction.departure q
            cases hs : t.get p.direction.departure q with
            | error f =>
                have hleaving : p.leaving t (some q) = .error f := hs
                rw [hs] at hget
                simp only [hget, hleaving]
                rfl
            | ok s =>
                have hleaving : p.leaving t (some q) = .ok s := hs
                rw [hs] at hget
                simp only [hget, hleaving]
                exact ih _
  rw [arriving, h.traits]
  exact hfold p.top

theorem apply_eq {q : Quad} {s : OrdSet α}
    (hs : t.get p.direction.arrival q.id = .ok s) (hfit : Fit notes) :
    r.apply (p.desk t notes) q = (fun t' => p.desk t' (note notes q s)) <$>
      t.update p.direction.departure q.id fun _ => p.transfer q s := by
  have hget : (p.desk t notes).facts.get p.direction.arrival q.id =
      .ok (p.fact s) := by
    rw [Problem.desk, FactMap.get_map, hs]
    rfl
  rw [apply, h.traits, hget]
  show ((t.map p.fact).store _ _ (r.process notes q (p.fact s)).1 >>=
    fun facts => Except.ok
      (Desk.mk p.domain facts (r.process notes q (p.fact s)).2)) = _
  rw [h.process hfit, FactMap.store_map fun _ _ => rfl]
  cases t.update p.direction.departure q.id fun _ => p.transfer q s <;> rfl

theorem fit_noted (hfit : Fit notes) (arrivals : List (Arrival α)) :
    Fit (noted note notes arrivals) := by
  induction arrivals generalizing notes with
  | nil => exact hfit
  | cons a rest ih => exact ih (h.fit hfit a.quad a.fact)

variable [DecidableEq α]

theorem refresh_eq (hb : t.terminal p.direction.source = .ok b)
    (hfit : Fit notes) (s : Station) :
    r.refresh (p.fact b) (p.desk t notes) s =
      (fun x => (p.desk x.1 (note notes x.2.quad x.2.fact), x.2.moved)) <$>
        p.refresh t s := by
  rw [refresh, Problem.refresh, h.arriving_eq hb, h.traits]
  refine map_bind_eq_map fun arrived _ => ?_
  simp only [Problem.desk, FactMap.get_map]
  refine map_bind_eq_map fun oldArrived _ => ?_
  rw [FactMap.store_map fun _ _ => rfl]
  refine map_bind_eq_map fun t₁ h₁ => ?_
  rw [FactMap.get_map]
  refine map_bind_eq_map fun oldLeft _ => ?_
  -- The desk reads back what it has just stored, so it passes on what arrived.
  show (r.apply (p.desk t₁ notes) s.quad >>= _) = _
  rw [h.apply_eq (FactMap.get_of_update h₁) hfit]
  refine map_bind_eq_map fun t₂ h₂ => ?_
  show ((t₂.map p.fact).get _ _ >>= _) = _
  rw [FactMap.get_map, FactMap.get_of_update h₂]
  have hmoved : (!(p.fact arrived).same (p.fact oldArrived) ||
      !(p.fact (p.transfer s.quad arrived)).same (p.fact oldLeft)) =
      (decide (arrived ≠ oldArrived) ||
        decide (p.transfer s.quad arrived ≠ oldLeft)) := by
    rw [decide_not, decide_not]
    rfl
  exact congrArg (fun m => Except.ok (_, m)) hmoved

theorem refreshAll_eq (stations : List Station) :
    ∀ {t : FactMap (OrdSet α)} {notes : ν},
      t.terminal p.direction.source = .ok b → Fit notes →
      r.refreshAll (p.fact b) (p.desk t notes) stations =
        (fun x => (p.desk x.1 (noted note notes x.2),
          (x.2.filter Arrival.moved).map Arrival.quad)) <$>
            p.refreshAll t stations := by
  induction stations with
  | nil => exact fun _ _ => rfl
  | cons s rest ih =>
      intro t notes hb hfit
      rw [refreshAll, Problem.refreshAll, h.refresh_eq hb hfit]
      refine map_bind_eq_map fun ⟨t₁, a⟩ hfirst => ?_
      obtain ⟨hquad, hterminal⟩ := Problem.refresh_ok hfirst
      have hb₁ : t₁.terminal p.direction.source = .ok b :=
        (hterminal _).trans hb
      show (r.refreshAll (p.fact b) (p.desk t₁ _) rest >>= _) = _
      rw [ih hb₁ (h.fit hfit _ _)]
      refine map_bind_eq_map fun ⟨t₂, others⟩ _ => ?_
      rw [← hquad]
      cases hmoved : a.moved <;> simp [hmoved] <;> rfl

theorem sweep_eq (hb : t.terminal p.direction.source = .ok b) (hfit : Fit notes)
    (route : Route) :
    r.sweep (p.fact b) route (p.desk t notes) =
      (fun x => (p.desk x.1 (noted note notes x.2.arrivals), x.2.moved,
        x.2.changes)) <$> p.sweep route t := by
  rw [sweep, Problem.sweep, h.refreshAll_eq _ hb hfit, h.traits]
  refine map_bind_eq_map fun ⟨t₁, arrivals⟩ hall => ?_
  have hb₁ : t₁.terminal p.direction.source = .ok b :=
    (Problem.refreshAll_terminal hall _).trans hb
  show (r.arriving (p.fact b) (p.desk t₁ _) route.final >>= _) = _
  rw [h.arriving_eq hb₁]
  refine map_bind_eq_map fun arrived _ => ?_
  show ((t₁.map p.fact).terminal p.direction.target >>= _) = _
  rw [FactMap.terminal_map]
  refine map_bind_eq_map fun old _ => ?_
  have hchanges : (if (p.fact arrived).same (p.fact old) then
        ((arrivals.filter Arrival.moved).map Arrival.quad).length
      else ((arrivals.filter Arrival.moved).map Arrival.quad).length + 1) =
      (Pass.mk arrivals (decide (arrived ≠ old))).changes := by
    by_cases heq : arrived = old <;>
      simp [Pass.changes, Pass.moved, Fact.same, Problem.fact, heq]
  show Except.ok
    (Desk.mk p.domain ((t₁.map p.fact).storeTerminal _ (p.fact arrived)) _, _) =
    Except.ok (_, _, Pass.changes _)
  rw [← hchanges, FactMap.storeTerminal_map fun _ _ => rfl]
  rfl

theorem settle_eq (route : Route) (limit : Nat) :
    ∀ {done : Nat} {t : FactMap (OrdSet α)} {notes : ν},
      t.terminal p.direction.source = .ok b → Fit notes →
      r.settle (p.fact b) route done limit (p.desk t notes) =
        (fun x => (p.desk x.1 (noted note notes (x.2.flatMap Pass.arrivals)),
          Pass.allEvents p.direction (done + 1) x.2, done + x.2.length)) <$>
            p.settle route done limit t := by
  induction limit with
  | zero => exact fun _ _ => rfl
  | succ limit ih =>
      intro done t notes hb hfit
      rw [settle, Problem.settle, h.sweep_eq hb hfit, h.traits]
      refine map_bind_eq_map fun ⟨t₁, pass⟩ hsweep => ?_
      have hb₁ : t₁.terminal p.direction.source = .ok b :=
        (Problem.sweep_source hsweep).trans hb
      dsimp only
      split
      · simp [Pass.allEvents, Pass.events]
      · rw [ih hb₁ (h.fit_noted hfit _)]
        refine map_bind_eq_map fun ⟨t₂, passes⟩ _ => ?_
        have hnotes :
            noted note (noted note notes pass.arrivals)
              (passes.flatMap Pass.arrivals) =
            noted note notes ((pass :: passes).flatMap Pass.arrivals) := by
          simp [noted]
        have hsweeps :
            done + 1 + passes.length = done + (pass :: passes).length := by
          rw [List.length_cons]
          omega
        show Except.ok (p.desk t₂ _, _, _) = Except.ok (p.desk t₂ _, _, _)
        rw [hnotes, hsweeps]
        rfl

theorem solveAlong_eq {g : Graph}
    (hlimit : ∀ quads, r.limit g quads = p.sweepLimit quads) (hfit : Fit notes)
    (route : Route) :
    r.solveAlong (p.desk (p.initial g) notes) g route =
      (fun sol =>
        (p.desk sol.facts (noted note notes (sol.passes.flatMap Pass.arrivals)),
          Pass.allEvents p.direction 1 sol.passes, sol.passes.length)) <$>
        p.solveAlong g route := by
  have hstore : ∀ l ⊆ g.quads, l.foldlM (fun (t : FactMap (Fact α)) q =>
      t.store p.direction.departure q.id (p.fact p.top))
        ((p.initial g).map p.fact) =
      .ok ((p.initial g).map p.fact) := by
    intro l hl
    induction l with
    | nil => rfl
    | cons q rest ih =>
        rw [List.cons_subset] at hl
        rw [List.foldlM_cons, FactMap.store_map fun _ _ => rfl,
          p.update_initial hl.1]
        exact ih hl.2
  rw [solveAlong, h.traits]
  show (g.quads.foldlM (fun (t : FactMap (Fact α)) q =>
    t.store p.direction.departure q.id (p.fact p.top))
      ((p.initial g).map p.fact) >>= _) = _
  rw [hstore g.quads fun _ hq => hq]
  show (((p.initial g).map p.fact).terminal p.direction.source >>= _) = _
  rw [FactMap.terminal_map, p.initial_source g]
  show r.settle (p.fact p.atSource) route 0 _ (p.desk (p.initial g) notes) = _
  rw [h.settle_eq route _ (p.initial_source g) hfit, hlimit, Problem.solveAlong]
  cases p.settle route 0 (p.sweepLimit (route.stations.map Station.quad))
    (p.initial g) with
  | error f => rfl
  | ok x =>
      exact congrArg (fun n => Except.ok (_, _, n)) (Nat.zero_add x.2.length)

/-- A visit at a desk that was prepared for a problem is a run of the
problem. -/
theorem visit_eq_solve {d : Desk α ν} {g g' : Graph} {prepared : List Event}
    (hlimit : ∀ quads, r.limit g' quads = p.sweepLimit quads) (hfit : Fit notes)
    (hprepare : r.prepare d g =
      ⟨p.desk (p.initial g') notes, g', prepared, none⟩) :
    r.visit d g =
      Visit.solve (p.desk (p.initial g') notes) g' prepared p fun sol =>
        r.conclude (p.desk sol.facts
          (noted note notes (sol.passes.flatMap Pass.arrivals))) g' := by
  have hquads : ∀ route sol, p.solveAlong g' route = .ok sol →
      sol.quads = route.stations.length := by
    intro route sol hsol
    obtain ⟨⟨facts, passes⟩, -, hsol⟩ := exists_of_bind_eq_ok hsol
    cases hsol
    exact List.length_map _
  rw [visit, hprepare, Visit.solve, Problem.run, h.traits]
  cases g'.route p.direction with
  | error f => simp
  | ok route =>
      simp only [h.solveAlong_eq hlimit hfit]
      cases hsol : p.solveAlong g' route with
      | error f => rfl
      | ok sol =>
          simp [hquads route sol hsol, Solution.stats]

end Performs

end Routine

end Dataflow
