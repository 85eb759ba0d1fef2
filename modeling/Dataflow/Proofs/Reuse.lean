import Dataflow.Analysis.Faintness
import Dataflow.Analysis.Liveness
import Dataflow.Proofs.InPlace
import Dataflow.Proofs.Reach
import Dataflow.Proofs.ReachingDefinitions

/-!
# An analysis that is kept is as good as a new one

An analysis may be shown any number of graphs, and some visits may fail. This
file shows that nothing of an earlier visit gets into a later one.

Each of the four analyses is put down twice. As a function of what it holds, a
visit looks at nothing but a setting that no visit changes. At a desk there is
more that could be left behind: the domain that new facts are made with, the
slots with their lattices, the table of definitions that a transfer looks into,
the marks of redundant checks, a table that was turned into its complement, a
report. Preparing a visit replaces all of it, or fails and replaces nothing.
What a visit does then is a run of the problem of its graph, whatever lay on the
desk before.

So both ways of putting it come to the same: after any history a visit answers
like the first visit of a new analysis, and if it ends well it leaves the same.
-/

namespace Dataflow

/-! ## Histories of visits -/

namespace Visit

variable {σ δ : Type}

/-- What an analysis holds after it was shown some graphs. -/
def held (visit : σ → Graph → Visit σ) (s : σ) (history : List Graph) : σ :=
  history.foldl (fun s g => (visit s g).state) s

/-- Two visits answer alike, leave the same graph, and if they end well, the one
leaves what the other does, seen through `view`. -/
structure Agrees (view : δ → σ) (v : Visit δ) (w : Visit σ) : Prop where
  result : v.result = w.result
  graph : v.graph = w.graph
  events : v.events = w.events
  state : ∀ stats, v.result = .ok stats → view v.state = w.state

theorem Agrees.of_eq {v w : Visit σ} (h : v = w) : v.Agrees id w := by
  rw [h]
  exact ⟨rfl, rfl, rfl, fun _ _ => rfl⟩

/-- A visit depends on what was held before only if it fails. -/
theorem solve_agrees {α : Type} [DecidableEq α] [Element α] {view : δ → σ}
    (old : δ) (old' : σ) (g : Graph) (prepared : List Event) (p : Problem α)
    {c : Solution α → δ × List Event} {c' : Solution α → σ × List Event}
    (h : ∀ sol, view (c sol).1 = (c' sol).1 ∧ (c sol).2 = (c' sol).2) :
    (solve old g prepared p c).Agrees view (solve old' g prepared p c') := by
  unfold solve
  rcases p.run g with ⟨events, f | sol⟩
  · exact ⟨rfl, rfl, rfl, nofun⟩
  · refine ⟨rfl, rfl, ?_, fun _ _ => (h sol).1⟩
    show _ ++ (c sol).2 = _ ++ (c' sol).2
    rw [(h sol).2]

theorem solve_keeps {α : Type} [DecidableEq α] [Element α] (Kept : σ → Prop)
    {old : σ} (hold : Kept old) {c : Solution α → σ × List Event}
    (hc : ∀ sol, Kept (c sol).1) (g : Graph) (prepared : List Event)
    (p : Problem α) : Kept (solve old g prepared p c).state := by
  unfold solve
  rcases p.run g with ⟨events, f | sol⟩
  · exact hold
  · exact hc sol

/-- What every visit keeps is kept over a history. -/
theorem held_keeps {visit : σ → Graph → Visit σ} {Kept : σ → Prop}
    (hkeep : ∀ {s}, Kept s → ∀ g, Kept (visit s g).state)
    (history : List Graph) :
    ∀ {s}, Kept s → Kept (held visit s history) := by
  induction history with
  | nil => exact fun hs => hs
  | cons g rest ih => exact fun hs => ih (hkeep hs g)

/-- If a visit depends on nothing but what visits keep, then a history makes no
difference. -/
theorem held_agrees {visit : σ → Graph → Visit σ} (Kept : σ → Prop)
    (hkeep : ∀ {s}, Kept s → ∀ g, Kept (visit s g).state)
    (hsame : ∀ {s s'}, Kept s → Kept s' →
      ∀ g, (visit s g).Agrees id (visit s' g))
    {s : σ} (hs : Kept s) (history : List Graph) (g : Graph) :
    (visit (held visit s history) g).Agrees id (visit s g) :=
  hsame (held_keeps hkeep history hs) hs g

end Visit

/-- An analysis, as a function `visit` of what it holds and as `work` at a desk,
is not changed by what it was shown before, and is the same analysis both
ways. -/
structure Reusable {σ δ : Type} (visit : σ → Graph → Visit σ) (fresh : σ)
    (work : δ → Graph → Visit δ) (blank : δ) (view : δ → σ) : Prop where
  visit_like_fresh : ∀ history g,
    (visit (Visit.held visit fresh history) g).Agrees id (visit fresh g)
  work_like_blank : ∀ history g,
    (work (Visit.held work blank history) g).Agrees id (work blank g)
  view_blank : view blank = fresh
  work_agrees : ∀ d g, (work d g).Agrees view (visit (view d) g)

/-- It is enough that both ways of putting it are runs of the problem of the
graph, with the same conclusions. -/
theorem Reusable.of_solve {α σ δ : Type} [DecidableEq α] [Element α]
    {visit : σ → Graph → Visit σ} {fresh : σ} {work : δ → Graph → Visit δ}
    {blank : δ} {view : δ → σ} {problem : Graph → Problem α}
    {prepared : Graph → List Event} {desk : Graph → δ}
    {conclude : Graph → Solution α → σ × List Event}
    {conclude' : Graph → Solution α → δ × List Event}
    (hvisit : ∀ s g, visit s g =
      Visit.solve s g (prepared g) (problem g) (conclude g))
    (hwork : ∀ d g, work d g =
      Visit.solve (desk g) g (prepared g) (problem g) (conclude' g))
    (hblank : view blank = fresh)
    (hview : ∀ g sol, view (conclude' g sol).1 = (conclude g sol).1 ∧
      (conclude' g sol).2 = (conclude g sol).2) :
    Reusable visit fresh work blank view where
  visit_like_fresh _ g := by
    rw [hvisit, hvisit]
    exact Visit.solve_agrees _ _ g _ _ fun _ => ⟨rfl, rfl⟩
  work_like_blank _ g := by
    rw [hwork, hwork]
    exact .of_eq rfl
  view_blank := hblank
  work_agrees d g := by
    rw [hwork, hvisit]
    exact Visit.solve_agrees _ _ g _ _ (hview g)

/-! ## Facts as the problems have them -/

namespace Fact

variable {α : Type} [Element α]

theorem foldl_insert (f : Fact α) (l : List α) :
    l.foldl insert f = f.withElems (f.elems.insertAll l) := by
  induction l generalizing f with
  | nil => rfl
  | cons a rest ih =>
      rw [List.foldl_cons, ih]
      rfl

end Fact

namespace Problem

variable {α ν : Type} [Element α]

theorem elems_desk (p : Problem α) (t : FactMap (OrdSet α)) (notes : ν) :
    (p.desk t notes).facts.map Fact.elems = t := by
  rw [desk, FactMap.map_map]
  exact t.map_id

theorem clear_facts (p : Problem α) (d : Desk α ν) (g : Graph) :
    (d.clear g p.domain p.meet).facts =
      (FactMap.uniform g p.top).map p.fact := by
  rw [FactMap.map_uniform]
  rfl

/-- Where both ends start at the top, a cleared desk is a desk before the first
sweep. -/
theorem clear_eq_desk (p : Problem α) (hsource : p.atSource = p.top)
    (htarget : p.atTarget = p.top) (d : Desk α ν) (g : Graph) (notes : ν) :
    { d.clear g p.domain p.meet with notes } = p.desk (p.initial g) notes := by
  have hinitial : p.initial g = FactMap.uniform g p.top := by
    rw [initial, hsource, htarget]
    cases p.direction <;> rfl
  rw [desk, hinitial, ← p.clear_facts d]
  rfl

end Problem

theorem Routine.noted_const {α ν : Type} [Element α] (notes : ν)
    (arrivals : List (Arrival α)) :
    noted (fun n _ _ => n) notes arrivals = notes := by
  induction arrivals with
  | nil => rfl
  | cons _ _ ih => exact ih

/-! ## Reaching definitions -/

namespace ReachingDefinitions

/-- What is noted beside the facts. -/
structure Notes where
  definitions : Definitions
  report : Option FactReport

def blank : Desk QuadId Notes := ⟨∅, .empty, ⟨∅, none⟩⟩

def prepare (d : Desk QuadId Notes) (g : Graph) : Preparation QuadId Notes :=
  let m := definitions g
  let domain := OrdSet.ofList (m.values.flatMap OrdSet.toList)
  { desk := { d.clear g domain traits.meet with
      notes := { d.notes with definitions := m, report := none } }
    graph := g
    events := [.definitionsFound g.name domain.size m.size]
    error := none }

def process (notes : Notes) (q : Quad) (f : Fact QuadId) :
    Fact QuadId × Notes :=
  let rest := q.defs.foldl (fun f r =>
    match notes.definitions.get? r with
    | some killed => f.eraseAll killed.toList
    | none => f) f
  (if q.defs.isEmpty then rest else rest.insert q.id, notes)

/-- The analysis at a desk. -/
def routine : Routine QuadId Notes where
  toTraits := traits
  prepare := prepare
  process := process
  conclude d g :=
    let report := FactReport.ofTable g.name (d.facts.map Fact.elems)
    ({ d with notes := { d.notes with report := some report } }, [])
  limit g := (problem g).sweepLimit

def view (d : Desk QuadId Notes) : State :=
  ⟨d.domain, d.notes.definitions, d.facts.map Fact.elems, d.notes.report⟩

/-- Put together, the definitions of all registers are the domain. -/
theorem ofList_values (g : Graph) :
    OrdSet.ofList ((definitions g).values.flatMap OrdSet.toList) =
      domain g := by
  refine OrdSet.ext fun i => ?_
  rw [OrdSet.mem_ofList, List.mem_flatMap, mem_domain]
  constructor
  · rintro ⟨ids, hids, hi⟩
    obtain ⟨⟨r, _⟩, hentry, rfl⟩ := List.mem_map.1 hids
    have hof : i ∈ definitionsOf (definitions g) r := by
      rw [definitionsOf, KeyedList.get?_of_mem_entries hentry]
      exact hi
    obtain ⟨q, hq, hid, hr⟩ := mem_definitionsOf.1 hof
    exact ⟨q, hq, List.ne_nil_of_mem hr, hid⟩
  · rintro ⟨q, hq, hdefs, rfl⟩
    obtain ⟨r, hr⟩ := List.exists_mem_of_ne_nil _ hdefs
    have hof : q.id ∈ definitionsOf (definitions g) r :=
      mem_definitionsOf.2 ⟨q, hq, rfl, hr⟩
    rw [definitionsOf] at hof
    cases hget : (definitions g).get? r with
    | none =>
        rw [hget] at hof
        exact absurd hof (OrdSet.not_mem_empty _)
    | some ids =>
        rw [hget] at hof
        exact ⟨ids, List.mem_map.2 ⟨_, KeyedList.mem_entries_of_get? hget, rfl⟩,
          hof⟩

theorem performs (g : Graph) :
    routine.Performs (problem g)
      (fun notes => notes.definitions = definitions g)
      fun notes _ _ => notes := by
  refine ⟨rfl, fun {notes} hnotes q s => ?_, fun hnotes _ _ => hnotes⟩
  have hkill : ∀ (l : List Register) (s : OrdSet QuadId),
      l.foldl (fun f r =>
        match notes.definitions.get? r with
        | some killed => f.eraseAll killed.toList
        | none => f) ((problem g).fact s) =
      (problem g).fact
        (l.foldl (fun s r => s.diff (definitionsOf (definitions g) r)) s) := by
    intro l
    induction l with
    | nil => exact fun _ => rfl
    | cons r rest ih =>
        intro s
        rw [List.foldl_cons, List.foldl_cons, ← ih, definitionsOf, hnotes]
        congr 1
        cases (definitions g).get? r with
        | none =>
            have hdiff : s.diff ∅ = s := OrdSet.ext fun i => by simp
            exact congrArg (problem g).fact hdiff.symm
        | some killed =>
            have hdiff : s.eraseAll killed.toList = s.diff killed :=
              OrdSet.ext fun i => by simp [← OrdSet.mem_def]
            exact congrArg (problem g).fact hdiff
  have htransfer : (problem g).transfer q s =
      transfer (definitions g) q s := rfl
  show (if q.defs.isEmpty then _ else _, notes) = _
  rw [hkill, htransfer, transfer]
  cases q.defs.isEmpty <;> rfl

theorem visit_eq (d : Desk QuadId Notes) (g : Graph) :
    routine.visit d g =
      Visit.solve
        ((problem g).desk ((problem g).initial g) ⟨definitions g, none⟩) g
        [.definitionsFound g.name (domain g).size (definitions g).size]
        (problem g) fun sol =>
          ((problem g).desk sol.facts
            ⟨definitions g, some (.ofTable g.name sol.facts)⟩, []) := by
  have hprepare : prepare d g =
      ⟨(problem g).desk ((problem g).initial g) ⟨definitions g, none⟩, g,
        [.definitionsFound g.name (domain g).size (definitions g).size],
        none⟩ := by
    rw [← (problem g).clear_eq_desk rfl rfl d]
    simp only [prepare, ofList_values]
    rfl
  rw [(performs g).visit_eq_solve (fun _ => rfl) rfl hprepare]
  congr 1
  funext sol
  rw [Routine.noted_const]
  show (Desk.mk _ _ (Notes.mk _
    (some (.ofTable g.name (((problem g).desk _ _).facts.map _)))), _) = _
  rw [Problem.elems_desk]
  rfl

theorem reusable : Reusable visit .fresh routine.visit blank view := by
  refine .of_solve (fun s g => visit.eq_1 s g) visit_eq rfl fun g sol =>
    ⟨?_, rfl⟩
  rw [view, Problem.elems_desk]
  rfl

end ReachingDefinitions

/-! ## Live registers -/

namespace Liveness

structure Notes where
  report : Option FactReport

def blank : Desk Register Notes := ⟨∅, .empty, ⟨none⟩⟩

def prepare (d : Desk Register Notes) (g : Graph) :
    Preparation Register Notes where
  desk := { d.clear g g.registers traits.meet with notes := ⟨none⟩ }
  graph := g
  events := []
  error := none

def process (notes : Notes) (q : Quad) (f : Fact Register) :
    Fact Register × Notes :=
  (q.uses.foldl Fact.insert (f.eraseAll q.defs), notes)

/-- The analysis at a desk. -/
def routine : Routine Register Notes where
  toTraits := traits
  prepare := prepare
  process := process
  conclude d g :=
    ({ d with notes := ⟨some (.ofTable g.name (d.facts.map Fact.elems))⟩ }, [])
  limit g := (problem g).sweepLimit

def view (d : Desk Register Notes) : State :=
  ⟨d.domain, d.facts.map Fact.elems, d.notes.report⟩

theorem performs (g : Graph) :
    routine.Performs (problem g) (fun _ => True) fun notes _ _ => notes := by
  refine ⟨rfl, fun {notes} _ q s => ?_, fun _ _ _ => trivial⟩
  show process notes q _ = _
  rw [process, Fact.foldl_insert]
  rfl

theorem visit_eq (d : Desk Register Notes) (g : Graph) :
    routine.visit d g =
      Visit.solve ((problem g).desk ((problem g).initial g) ⟨none⟩) g []
        (problem g) fun sol =>
          ((problem g).desk sol.facts
            ⟨some (.ofTable g.name sol.facts)⟩, []) := by
  have hprepare : prepare d g =
      ⟨(problem g).desk ((problem g).initial g) ⟨none⟩, g, [], none⟩ := by
    rw [← (problem g).clear_eq_desk rfl rfl d]
    rfl
  rw [(performs g).visit_eq_solve (fun _ => rfl) trivial hprepare]
  congr 1
  funext sol
  rw [Routine.noted_const]
  show (Desk.mk _ _ (Notes.mk
    (some (.ofTable g.name (((problem g).desk _ _).facts.map _)))), _) = _
  rw [Problem.elems_desk]
  rfl

theorem reusable : Reusable visit .fresh routine.visit blank view := by
  refine .of_solve (fun s g => visit.eq_1 s g) visit_eq rfl fun g sol =>
    ⟨?_, rfl⟩
  rw [view, Problem.elems_desk]
  rfl

end Liveness

/-! ## Faint registers -/

namespace Faintness

structure Notes where
  /-- The table before it was turned into its complement. -/
  live : Option (FactMap (Fact Register))
  report : Option FactReport

def blank : Desk Register Notes := ⟨∅, .empty, ⟨none, none⟩⟩

def prepare (d : Desk Register Notes) (g : Graph) :
    Preparation Register Notes where
  desk := { d.clear g g.registers traits.meet with
    notes := { d.notes with live := none, report := none } }
  graph := g
  events := []
  error := none

def process (notes : Notes) (q : Quad) (f : Fact Register) :
    Fact Register × Notes :=
  let rest := f.eraseAll q.defs
  (if matters q f.elems then q.uses.foldl Fact.insert rest else rest, notes)

/-- Keeps the table as it is and turns it into its complement. -/
def conclude (d : Desk Register Notes) (g : Graph) :
    Desk Register Notes × List Event :=
  let faint := d.facts.map Fact.complement
  ({ d with
      facts := faint
      notes := ⟨some d.facts, some (.ofTable g.name (faint.map Fact.elems))⟩ },
    [.complemented g.name d.domain.size])

/-- The analysis at a desk. -/
def routine : Routine Register Notes where
  toTraits := traits
  prepare := prepare
  process := process
  conclude := conclude
  limit g := (problem g).sweepLimit

def view (d : Desk Register Notes) : State :=
  ⟨d.domain, d.facts.map Fact.elems, d.notes.live.map (FactMap.map Fact.elems),
    d.notes.report⟩

theorem performs (g : Graph) :
    routine.Performs (problem g) (fun _ => True) fun notes _ _ => notes := by
  refine ⟨rfl, fun {notes} _ q s => ?_, fun _ _ _ => trivial⟩
  have htransfer : (problem g).transfer q s = transfer q s := rfl
  show process notes q _ = _
  rw [process, Fact.foldl_insert, htransfer, transfer]
  show (if matters q s then _ else _, notes) = _
  cases matters q s <;> rfl

theorem visit_eq (d : Desk Register Notes) (g : Graph) :
    routine.visit d g =
      Visit.solve ((problem g).desk ((problem g).initial g) ⟨none, none⟩) g []
        (problem g) fun sol =>
          conclude ((problem g).desk sol.facts ⟨none, none⟩) g := by
  have hprepare : prepare d g =
      ⟨(problem g).desk ((problem g).initial g) ⟨none, none⟩, g, [], none⟩ := by
    rw [← (problem g).clear_eq_desk rfl rfl d]
    rfl
  rw [(performs g).visit_eq_solve (fun _ => rfl) trivial hprepare]
  simp only [Routine.noted_const]
  rfl

theorem elems_complement (g : Graph) (t : FactMap (OrdSet Register))
    (notes : Notes) :
    (((problem g).desk t notes).facts.map Fact.complement).map Fact.elems =
      complement g.registers t := by
  rw [Problem.desk, FactMap.map_map, FactMap.map_map]
  rfl

theorem reusable : Reusable visit .fresh routine.visit blank view := by
  refine .of_solve (fun s g => visit.eq_1 s g) visit_eq rfl fun g sol =>
    ⟨?_, rfl⟩
  rw [view, conclude]
  simp only [elems_complement, Option.map_some, Problem.elems_desk]
  rfl

end Faintness

/-! ## Registers known not to be null -/

namespace NonNull

structure Notes where
  inserting : Bool
  redundant : OrdSet QuadId
  inserted : Option CheckStats
  report : Option CheckReport

def blank (inserting : Bool) : Desk Register Notes :=
  ⟨∅, .empty, ⟨inserting, ∅, none, none⟩⟩

/-- Makes the desk ready for a graph as it is. -/
def ready (d : Desk Register Notes) (g : Graph) (inserted : Option CheckStats)
    (earlier : List Event) : Preparation Register Notes :=
  let d := d.clear g g.registers traits.meet
  let start := (Fact.top d.domain traits.meet).eraseAll g.params
  { desk := { d with
      facts := d.facts.storeTerminal .entry start
      notes := { d.notes with redundant := ∅, inserted, report := none } }
    graph := g
    events := earlier ++ [.nonNullPrepared g.name d.domain.size g.params.length]
    error := none }

/-- Inserts checks first if they are wanted; if that fails, nothing on the desk
is touched. -/
def prepare (d : Desk Register Notes) (g : Graph) :
    Preparation Register Notes :=
  if d.notes.inserting then
    let i := g.insertChecks
    match i.result with
    | .error e => ⟨d, i.graph, i.events, some e⟩
    | .ok stats => ready d i.graph (some stats) i.events
  else ready d g none []

/-- Marks a check that is not needed, and takes the mark away from one that
is. -/
def process (notes : Notes) (q : Quad) (f : Fact Register) :
    Fact Register × Notes :=
  let f := f.eraseAll q.defs
  match q.checked? with
  | some r =>
    let redundant :=
      if r ∈ f.elems then notes.redundant.insert q.id
      else notes.redundant.erase q.id
    (f.insert r, { notes with redundant })
  | none => (f, notes)

/-- The analysis at a desk. -/
def routine : Routine Register Notes where
  toTraits := traits
  prepare := prepare
  process := process
  conclude d g :=
    ({ d with
      notes := { d.notes with
        report := some ⟨g.name, d.notes.redundant.toList⟩ } }, [])
  limit g := (problem g).sweepLimit

def view (d : Desk Register Notes) : State :=
  ⟨d.notes.inserting, d.domain, d.facts.map Fact.elems, d.notes.redundant,
    d.notes.inserted, d.notes.report⟩

/-- The marks after one more arrival. -/
def noteArrival (notes : Notes) (q : Quad) (s : OrdSet Register) : Notes :=
  { notes with redundant := mark notes.redundant ⟨q, s, false⟩ }

theorem performs (g : Graph) :
    routine.Performs (problem g) (fun _ => True) noteArrival := by
  refine ⟨rfl, fun {notes} _ q s => ?_, fun _ _ _ => trivial⟩
  have htransfer : (problem g).transfer q s = transfer q s := rfl
  show process notes q _ = _
  rw [process, htransfer, transfer, noteArrival, mark]
  cases q.checked? <;> rfl

theorem noted_eq (notes : Notes) (arrivals : List (Arrival Register)) :
    Routine.noted noteArrival notes arrivals =
      { notes with redundant := arrivals.foldl mark notes.redundant } := by
  induction arrivals generalizing notes with
  | nil => rfl
  | cons a rest ih => exact ih _

/-- What becomes of a graph before it is analysed, or why it is not analysed. -/
def intake (inserting : Bool) (g : Graph) :
    Except (Graph × List Event × Error)
      (Graph × Option CheckStats × List Event) :=
  if inserting then
    let i := g.insertChecks
    match i.result with
    | .error e => .error (i.graph, i.events, e)
    | .ok stats => .ok (i.graph, some stats, i.events)
  else .ok (g, none, [])

theorem visit_eq_intake (s : State) (g : Graph) :
    visit s g = match intake s.inserting g with
      | .error (g', events, e) => ⟨s, g', events, .error e⟩
      | .ok (g', inserted, earlier) => analyse s g' inserted earlier := by
  rw [visit, intake]
  obtain ⟨g', events, e | stats⟩ := g.insertChecks <;> cases s.inserting <;> rfl

theorem prepare_eq_intake (d : Desk Register Notes) (g : Graph) :
    prepare d g = match intake d.notes.inserting g with
      | .error (g', events, e) => ⟨d, g', events, some e⟩
      | .ok (g', inserted, earlier) => ready d g' inserted earlier := by
  rw [prepare, intake]
  obtain ⟨g', events, e | stats⟩ := g.insertChecks <;>
    cases d.notes.inserting <;> rfl

theorem ready_eq (d : Desk Register Notes) (g : Graph)
    (inserted : Option CheckStats) (earlier : List Event) :
    ready d g inserted earlier =
      ⟨(problem g).desk ((problem g).initial g)
        ⟨d.notes.inserting, ∅, inserted, none⟩, g,
        earlier ++ [.nonNullPrepared g.name g.registers.size g.params.length],
        none⟩ := by
  have hinitial : (problem g).initial g =
      (FactMap.uniform g (problem g).top).setTerminal .entry
        (problem g).atSource := rfl
  have hfacts : (d.clear g g.registers traits.meet).facts =
      (FactMap.uniform g (problem g).top).map (problem g).fact :=
    (problem g).clear_facts d g
  simp only [ready, hfacts]
  rw [hinitial, Problem.desk, ← FactMap.storeTerminal_map fun _ _ => rfl]
  rfl

/-- A visit at the desk, once checks are inserted. -/
def workOn (inserting : Bool) (g : Graph) (inserted : Option CheckStats)
    (earlier : List Event) : Visit (Desk Register Notes) :=
  Visit.solve
    ((problem g).desk ((problem g).initial g) ⟨inserting, ∅, inserted, none⟩) g
    (earlier ++ [.nonNullPrepared g.name g.registers.size g.params.length])
    (problem g) fun sol =>
      ((problem g).desk sol.facts ⟨inserting, redundant sol.passes, inserted,
        some ⟨g.name, (redundant sol.passes).toList⟩⟩, [])

theorem work_eq_intake (d : Desk Register Notes) (g : Graph) :
    routine.visit d g = match intake d.notes.inserting g with
      | .error (g', events, e) => ⟨d, g', events, .error e⟩
      | .ok (g', inserted, earlier) =>
          workOn d.notes.inserting g' inserted earlier := by
  have hprepare : routine.prepare d g = _ := prepare_eq_intake d g
  revert hprepare
  rcases intake d.notes.inserting g with
    ⟨g', events, e⟩ | ⟨g', inserted, earlier⟩
  · intro hprepare
    rw [Routine.visit, hprepare]
  · intro hprepare
    have hready := hprepare.trans (ready_eq d g' inserted earlier)
    show routine.visit d g = workOn d.notes.inserting g' inserted earlier
    rw [(performs g').visit_eq_solve (fun _ => rfl) trivial hready, workOn]
    simp only [noted_eq]
    rfl

/-- The setting stays as it is. -/
theorem visit_inserting (s : State) (g : Graph) :
    (visit s g).state.inserting = s.inserting := by
  rw [visit_eq_intake]
  rcases intake s.inserting g with ⟨g', events, e⟩ | ⟨g', inserted, earlier⟩
  · rfl
  · show (analyse s g' inserted earlier).state.inserting = s.inserting
    rw [analyse]
    exact Visit.solve_keeps (fun t : State => t.inserting = s.inserting) rfl
      (fun _ => rfl) g' _ _

theorem work_inserting (d : Desk Register Notes) (g : Graph) :
    (routine.visit d g).state.notes.inserting = d.notes.inserting := by
  rw [work_eq_intake]
  rcases intake d.notes.inserting g with
    ⟨g', events, e⟩ | ⟨g', inserted, earlier⟩
  · rfl
  · show (workOn _ g' inserted earlier).state.notes.inserting = _
    generalize d.notes.inserting = inserting
    rw [workOn]
    exact Visit.solve_keeps
      (fun d : Desk Register Notes => d.notes.inserting = inserting) rfl
      (fun _ => rfl) g' _ _

/-- A visit depends on the setting alone. -/
theorem visit_agrees {s s' : State} (h : s.inserting = s'.inserting)
    (g : Graph) : (visit s g).Agrees id (visit s' g) := by
  rw [visit_eq_intake, visit_eq_intake, h]
  rcases intake s'.inserting g with ⟨g', events, e⟩ | ⟨g', inserted, earlier⟩
  · exact ⟨rfl, rfl, rfl, nofun⟩
  · show (analyse s g' inserted earlier).Agrees id
      (analyse s' g' inserted earlier)
    rw [analyse, analyse]
    refine Visit.solve_agrees _ _ g' _ (problem g') fun sol => ⟨?_, rfl⟩
    show State.mk s.inserting _ _ _ _ _ = _
    rw [h]

theorem work_agrees {d d' : Desk Register Notes}
    (h : d.notes.inserting = d'.notes.inserting) (g : Graph) :
    (routine.visit d g).Agrees id (routine.visit d' g) := by
  rw [work_eq_intake, work_eq_intake, h]
  rcases intake d'.notes.inserting g with
    ⟨g', events, e⟩ | ⟨g', inserted, earlier⟩
  · exact ⟨rfl, rfl, rfl, nofun⟩
  · exact .of_eq rfl

theorem work_agrees_visit (d : Desk Register Notes) (g : Graph) :
    (routine.visit d g).Agrees view (visit (view d) g) := by
  have hview : (view d).inserting = d.notes.inserting := rfl
  rw [work_eq_intake, visit_eq_intake, hview]
  rcases intake d.notes.inserting g with
    ⟨g', events, e⟩ | ⟨g', inserted, earlier⟩
  · exact ⟨rfl, rfl, rfl, nofun⟩
  · show (workOn _ g' inserted earlier).Agrees view
      (analyse (view d) g' inserted earlier)
    rw [workOn, analyse]
    refine Visit.solve_agrees _ _ g' _ (problem g') fun sol => ⟨?_, rfl⟩
    rw [view, Problem.elems_desk]
    rfl

theorem reusable (inserting : Bool) :
    Reusable visit (.fresh inserting) routine.visit (blank inserting) view where
  visit_like_fresh := Visit.held_agrees (fun s => s.inserting = inserting)
    (fun {s} hs g => (visit_inserting s g).trans hs)
    (fun hs hs' => visit_agrees (hs.trans hs'.symm)) rfl
  work_like_blank := Visit.held_agrees (fun d => d.notes.inserting = inserting)
    (fun {d} hd g => (work_inserting d g).trans hd)
    (fun hd hd' => work_agrees (hd.trans hd'.symm)) rfl
  view_blank := rfl
  work_agrees := work_agrees_visit

end NonNull

/-- An analysis that was shown any graphs before, with whatever outcome, visits
a further graph like a new one: it answers the same, tells the same and leaves
the same graph, and if the visit ends well it leaves the same facts, marks,
statistics and report. This holds of the four analyses, the last with and
without insertion of checks, whether what they hold is handed from visit to
visit or kept on a desk and changed in place, and the two are one analysis. -/
theorem reused_like_fresh :
    Reusable ReachingDefinitions.visit .fresh ReachingDefinitions.routine.visit
        ReachingDefinitions.blank ReachingDefinitions.view ∧
      Reusable Liveness.visit .fresh Liveness.routine.visit Liveness.blank
        Liveness.view ∧
      Reusable Faintness.visit .fresh Faintness.routine.visit Faintness.blank
        Faintness.view ∧
      ∀ inserting, Reusable NonNull.visit (.fresh inserting)
        NonNull.routine.visit (NonNull.blank inserting) NonNull.view :=
  ⟨ReachingDefinitions.reusable, Liveness.reusable, Faintness.reusable,
    NonNull.reusable⟩

end Dataflow
