import Dataflow.Proofs.CheckInsertion
import Dataflow.Proofs.Convergence
import Dataflow.Proofs.Redundancy
import Dataflow.Proofs.Reuse
import Dataflow.Proofs.StrongLiveness

/-!
# A report shows the table that was solved

The sweeps go through a method in program order, and a report goes through it by
ascending number. Nothing is sorted in between: the slots of a table are made in
ascending order when it is made, and a sweep changes what stands in a slot and
never the slots. So the rows of a report are the visited quads, whatever the
program order, and a row can be looked up exactly where a fact can.

Inside a row the elements stand in the order of their set. That order is the
strict one of `Element`, and here it is spelled out for the two kinds of
element: numbers by their size, registers by the code points of their names.
That no element lies outside the domain of the analysis is the bound that all
sweeps keep.

The report of redundant checks needs less. Marks are only ever put on quads that
a sweep comes to and that are checks, so it holds on every graph, also on one
that checks have been inserted into.
-/

namespace Dataflow

/-! ## The order of elements -/

theorem QuadId.lt_iff {i j : QuadId} : i < j ↔ i.val.toNat < j.val.toNat :=
  UInt32.lt_iff_toNat_lt

/-- The code points of a register's name. -/
def Register.codePoints (r : Register) : List Nat :=
  r.name.toList.map Char.toNat

/-- Registers stand by the code points of their names. -/
theorem Register.lt_iff {r s : Register} :
    r < s ↔ r.codePoints < s.codePoints := by
  have hchars : ∀ cs ds : List Char,
      cs < ds ↔ cs.map Char.toNat < ds.map Char.toNat := by
    intro cs
    induction cs with
    | nil =>
        intro ds
        cases ds <;> simp
    | cons c cs ih =>
        intro ds
        cases ds with
        | nil => simp
        | cons d ds =>
            have hsame : c = d ↔ c.toNat = d.toNat := Char.toNat_inj.symm
            have hless : c < d ↔ c.toNat < d.toNat := UInt32.lt_iff_toNat_lt
            rw [List.map_cons, List.map_cons, List.cons_lt_cons_iff,
              List.cons_lt_cons_iff, ih, hsame, hless]
  exact String.lt_iff.trans (hchars _ _)

/-! ## Rows and slots -/

namespace OrdSet

variable {α : Type} [Element α]

/-- A list of texts shows a fact: the texts are those of its elements, in
strictly ascending order, and all of these lie in the domain. -/
def ListedAs (fact : OrdSet α) (below : α → α → Prop) (domain : OrdSet α)
    (texts : List String) : Prop :=
  ∃ elems : List α, texts = elems.map Element.text ∧ elems.Pairwise below ∧
    (∀ a, a ∈ elems ↔ a ∈ fact) ∧ ∀ a ∈ elems, a ∈ domain

theorem listedAs_texts {below : α → α → Prop} {domain s : OrdSet α}
    (hbelow : ∀ {a b : α}, a < b → below a b) (h : s ⊆ domain) :
    s.ListedAs below domain s.texts :=
  ⟨s.toList, rfl, s.ascending.imp hbelow, fun _ => Iff.rfl, h⟩

end OrdSet

namespace FactMap

variable {α : Type} [Element α] {g : Graph} {domain : OrdSet α}
  {t : FactMap (OrdSet α)}

/-- A table with one slot for each visited quad, in ascending order, and with no
element outside the domain in it. -/
structure Filled (g : Graph) (domain : OrdSet α) (t : FactMap (OrdSet α)) :
    Prop where
  ids : t.ids = (OrdSet.ofList (g.quads.map Quad.id)).toList
  shown : ∃ v, t.Shows g v ∧ v.Within g domain

theorem Filled.mem_ids (h : t.Filled g domain) {i : QuadId} :
    i ∈ t.ids ↔ g.Visits i := by
  rw [h.ids]
  exact OrdSet.mem_ofList.trans List.mem_map

theorem Filled.get (h : t.Filled g domain) {i : QuadId} (hi : g.Visits i)
    (side : Side) : ∃ fact, t.get side i = .ok fact ∧ fact ⊆ domain := by
  obtain ⟨v, hshown, hwithin⟩ := h.shown
  obtain ⟨q, hq, rfl⟩ := id hi
  exact ⟨_, hshown.get hi side, hwithin.fact q hq side⟩

theorem Filled.terminal (h : t.Filled g domain) (e : Terminal) :
    ∃ fact, t.terminal? e = some fact ∧ fact ⊆ domain := by
  obtain ⟨v, hshown, hwithin⟩ := h.shown
  exact ⟨_, hshown.terminal e, hwithin.terminal e⟩

/-- Turning facts into what the domain leaves over keeps them inside. -/
theorem Filled.diff (h : t.Filled g domain) :
    (t.map domain.diff).Filled g domain := by
  obtain ⟨v, hshown, -⟩ := h.shown
  refine ⟨(ids_map _ t).trans h.ids, _, hshown.map domain.diff, ⟨?_, ?_⟩⟩
  · exact fun q _ side a ha => (OrdSet.mem_diff.1 ha).1
  · exact fun e a ha => (OrdSet.mem_diff.1 ha).1

end FactMap

/-- A visit of a proper graph with a lawful problem concludes from a filled
table. -/
theorem Problem.Lawful.visit_filled {σ α : Type} [DecidableEq α] [Element α]
    {p : Problem α} {g : Graph} (hlaw : p.Lawful g) (hends : g.HasEnds)
    (hdist : g.DistinctQuads) (old : σ) (prepared : List Event)
    (conclude : Solution α → σ × List Event) :
    ∃ sol, (Visit.solve old g prepared p conclude).result = .ok sol.stats ∧
      (Visit.solve old g prepared p conclude).state = (conclude sol).1 ∧
      sol.facts.Filled g p.domain := by
  obtain ⟨e, sol, v, he, hsol, hshown, hsettles, -⟩ := hlaw.solve_ok hends hdist
  obtain ⟨hresult, hstate⟩ := Visit.solve_eq hsol old prepared conclude
  have hwithin := (hsettles.bounded hlaw he).within he hsettles.isSolution
  exact ⟨sol, hresult, hstate, Problem.ids_solve hsol, v, hshown, hwithin⟩

/-! ## Reports of facts -/

namespace FactReport

variable {α : Type} [Element α]

/-- A report shows a table: its rows are the visited quads by ascending number,
a row is found exactly for these, and the row and both ends list the facts of
the table. -/
structure Renders (below : α → α → Prop) (g : Graph) (domain : OrdSet α)
    (t : FactMap (OrdSet α)) (r : FactReport) : Prop where
  method : r.method = g.name
  ascending :
    (r.rows.map ReportRow.id).Pairwise fun i j => i.val.toNat < j.val.toNat
  mem_rows : ∀ i, i ∈ r.rows.map ReportRow.id ↔ ∃ q ∈ g.quads, q.id = i
  found : ∀ i, (r.row? i).isSome ↔ ∃ q ∈ g.quads, q.id = i
  row : ∀ i row, r.row? i = some row → row.id = i ∧
    (∃ fact, t.get .before i = .ok fact ∧
      fact.ListedAs below domain row.before) ∧
    ∃ fact, t.get .after i = .ok fact ∧ fact.ListedAs below domain row.after
  entry : ∃ fact, t.terminal .entry = .ok fact ∧
    fact.ListedAs below domain r.entry
  exit : ∃ fact, t.terminal .exit = .ok fact ∧ fact.ListedAs below domain r.exit

theorem ids_ofTable (name : String) (t : FactMap (OrdSet α)) :
    (ofTable name t).rows.map ReportRow.id = t.ids := by
  simp [ofTable, FactMap.ids, Function.comp_def]

/-- The row of a quad is what stands in its slot. -/
theorem row?_ofTable (name : String) (t : FactMap (OrdSet α)) (i : QuadId) :
    (ofTable name t).row? i =
      (t.slot? i).map fun s => ⟨i, s.before.texts, s.after.texts⟩ := by
  unfold row? ofTable FactMap.slot?
  rw [List.find?_map, Option.map_map]
  cases hfind : t.slots.find? fun s => s.1 = i with
  | none => exact congrArg (Option.map _) hfind
  | some s =>
      have hs : s.1 = i := by simpa using List.find?_some hfind
      rw [show t.slots.find? ((fun row : ReportRow => decide (row.id = i)) ∘
        fun s => ⟨s.1, s.2.before.texts, s.2.after.texts⟩) = some s from hfind]
      simp [hs]

theorem renders_of_filled {below : α → α → Prop} {g : Graph} {domain : OrdSet α}
    {t : FactMap (OrdSet α)} (hbelow : ∀ {a b : α}, a < b → below a b)
    (h : t.Filled g domain) : (ofTable g.name t).Renders below g domain t := by
  have hfound : ∀ i, ((ofTable g.name t).row? i).isSome ↔ g.Visits i := by
    intro i
    rw [row?_ofTable, Option.isSome_map, FactMap.isSome_slot?_iff, h.mem_ids]
  have hend : ∀ e, ∃ fact, t.terminal e = .ok fact ∧
      fact.ListedAs below domain
        (((t.terminal? e).map OrdSet.texts).getD []) := by
    intro e
    obtain ⟨fact, hfact, hinside⟩ := h.terminal e
    rw [FactMap.terminal, hfact]
    exact ⟨fact, rfl, OrdSet.listedAs_texts hbelow hinside⟩
  refine ⟨rfl, ?_, fun i => ?_, hfound, fun i row hrow => ?_, hend .entry,
    hend .exit⟩
  · rw [ids_ofTable, h.ids]
    exact (OrdSet.ofList _).ascending.imp QuadId.lt_iff.1
  · rw [ids_ofTable]
    exact h.mem_ids
  · have hi : g.Visits i :=
      (hfound i).1 (Option.isSome_iff_exists.2 ⟨row, hrow⟩)
    rw [row?_ofTable, Option.map_eq_some_iff] at hrow
    obtain ⟨s, hs, rfl⟩ := hrow
    have hside : ∀ side, ∃ fact, t.get side i = .ok fact ∧
        fact.ListedAs below domain (s.get side).texts := by
      intro side
      obtain ⟨fact, hfact, hinside⟩ := h.get hi side
      have hslot : t.get side i = .ok (s.get side) := by
        simp [FactMap.get, FactMap.get?, hs]
      obtain rfl := Except.ok.inj (hslot.symm.trans hfact)
      exact ⟨_, hfact, OrdSet.listedAs_texts hbelow hinside⟩
    exact ⟨rfl, hside .before, hside .after⟩

end FactReport

/-! ## Reports of redundant checks -/

namespace NonNull

/-- A mark is on a check that is visited, on whatever graph. -/
theorem visited_of_mem_redundant {g : Graph} {sol : Solution Register}
    (h : (problem g).solve g = .ok sol) {i : QuadId}
    (hi : i ∈ redundant sol.passes) :
    ∃ q ∈ g.quads, q.id = i ∧ q.opcode = .nullCheck := by
  obtain ⟨e, v, -, hsettles, -⟩ := Problem.exists_settles_of_solve h
  rcases exists_of_mem_foldl_mark hi with hempty | ⟨a, ha, hid, hcheck⟩
  · exact absurd hempty (OrdSet.not_mem_empty i)
  · obtain ⟨pass, hpass, ha⟩ := List.mem_flatMap.1 ha
    have hquads := hsettles.arrivals_quads pass hpass
    rw [Graph.layout_quads] at hquads
    refine ⟨a.quad, Graph.mem_sweepOrder.1 (hquads ▸ List.mem_map_of_mem ha),
      hid, ?_⟩
    unfold Quad.checked? at hcheck
    unfold Quad.opcode
    cases hinstr : a.quad.instr <;> simp_all [Instr.opcode]

theorem analyse_report {s : State} {g : Graph} {inserted : Option CheckStats}
    {earlier : List Event} {stats : Stats}
    (h : (analyse s g inserted earlier).result = .ok stats) :
    ∃ r, (analyse s g inserted earlier).state.report = some r ∧
      r.method = g.name ∧
      r.redundant = (analyse s g inserted earlier).state.redundant.toList ∧
      ∀ i ∈ r.redundant, ∃ q ∈ g.quads, q.id = i ∧ q.opcode = .nullCheck := by
  obtain ⟨sol, hsol, -⟩ := Visit.exists_solution h
  have hstate := (Visit.solve_eq hsol s
    (earlier ++ [Event.nonNullPrepared g.name g.registers.size g.params.length])
    fun sol => ({ s with
      domain := g.registers, facts := sol.facts, redundant :=
        redundant sol.passes
      inserted := inserted
      report := some ⟨g.name, (redundant sol.passes).toList⟩ }, [])).2
  have hreport : (analyse s g inserted earlier).state.report =
      some ⟨g.name, (redundant sol.passes).toList⟩ :=
    congrArg State.report hstate
  have hmarks : (analyse s g inserted earlier).state.redundant =
      redundant sol.passes :=
    congrArg State.redundant hstate
  refine ⟨_, hreport, rfl, by rw [hmarks], fun i hi => ?_⟩
  exact visited_of_mem_redundant hsol hi

/-- A visit that ends well analyses the graph it leaves. -/
theorem exists_analyse_of_ok {s : State} {g : Graph} {stats : Stats}
    (h : (visit s g).result = .ok stats) :
    ∃ inserted earlier,
      visit s g = analyse s (visit s g).graph inserted earlier := by
  rw [visit_eq_intake] at h ⊢
  revert h
  rcases intake s.inserting g with ⟨g', events, e⟩ | ⟨g', inserted, earlier⟩
  · exact nofun
  · intro _
    have hgraph : (analyse s g' inserted earlier).graph = g' :=
      Visit.graph_solve ..
    exact ⟨inserted, earlier,
      congrArg (analyse s · inserted earlier) hgraph.symm⟩

theorem visit_report {s : State} {g : Graph} {stats : Stats}
    (h : (visit s g).result = .ok stats) :
    ∃ r, (visit s g).state.report = some r ∧ r.method = (visit s g).graph.name ∧
      r.redundant = (visit s g).state.redundant.toList ∧
      ∀ i ∈ r.redundant, ∃ q ∈ (visit s g).graph.quads,
        q.id = i ∧ q.opcode = .nullCheck := by
  obtain ⟨inserted, earlier, hvisit⟩ := exists_analyse_of_ok h
  have hreport := analyse_report ((congrArg Visit.result hvisit).symm.trans h)
  rwa [← hvisit] at hreport

end NonNull

/-- A report shows exactly the facts that were solved for. The rows of a report
of reaching definitions, of live or of faint registers are the visited quads, by
ascending number whatever the program order, and a row can be found for no
other. A row and the two ends list the elements that the analysis holds there,
definitions by their number and registers by the code points of their names, and
all of them belong to the domain. The report of redundant checks lists them by
ascending number, and each is a check that is visited, in the graph as the visit
leaves it; without insertion that is the graph as it was, and the visit ends
well. -/
theorem reports_show_solved_facts {g : Graph} (hends : g.HasEnds)
    (hdist : g.DistinctQuads) :
    (∀ s, let visit := ReachingDefinitions.visit s g
      ∃ stats r, visit.result = .ok stats ∧ visit.state.report = some r ∧
        visit.state.domain = ReachingDefinitions.domain g ∧
        r.Renders (fun i j : QuadId => i.val.toNat < j.val.toNat) g
          visit.state.domain visit.state.facts) ∧
    (∀ s, let visit := Liveness.visit s g
      ∃ stats r, visit.result = .ok stats ∧ visit.state.report = some r ∧
        visit.state.domain = g.registers ∧
        r.Renders (fun a b : Register => a.codePoints < b.codePoints) g
          visit.state.domain visit.state.facts) ∧
    (∀ s, let visit := Faintness.visit s g
      ∃ stats r, visit.result = .ok stats ∧ visit.state.report = some r ∧
        visit.state.domain = g.registers ∧
        r.Renders (fun a b : Register => a.codePoints < b.codePoints) g
          visit.state.domain visit.state.facts) ∧
    (∀ s, s.inserting = false →
      ∃ stats, (NonNull.visit s g).result = .ok stats ∧
        (NonNull.visit s g).graph = g) ∧
    ∀ s stats, let visit := NonNull.visit s g
      visit.result = .ok stats →
      ∃ r, visit.state.report = some r ∧ r.method = visit.graph.name ∧
        (r.redundant.Pairwise fun i j => i.val.toNat < j.val.toNat) ∧
        (∀ i, i ∈ r.redundant ↔ i ∈ visit.state.redundant) ∧
        ∀ i ∈ r.redundant,
          ∃ q ∈ visit.graph.quads, q.id = i ∧ q.opcode = .nullCheck := by
  refine ⟨fun s => ?_, fun s => ?_, fun s => ?_, fun s hs => ?_,
    fun s stats => ?_⟩
  · have hvisit : ∃ sol : Solution QuadId,
        (ReachingDefinitions.visit s g).result = .ok sol.stats ∧
        (ReachingDefinitions.visit s g).state = ⟨ReachingDefinitions.domain g,
          ReachingDefinitions.definitions g, sol.facts,
          some (.ofTable g.name sol.facts)⟩ ∧
        sol.facts.Filled g (ReachingDefinitions.domain g) :=
      (ReachingDefinitions.lawful g).visit_filled hends hdist s _ _
    obtain ⟨sol, hresult, hstate, hfilled⟩ := hvisit
    dsimp only
    rw [hstate]
    exact ⟨_, _, hresult, rfl, rfl,
      FactReport.renders_of_filled QuadId.lt_iff.1 hfilled⟩
  · have hvisit : ∃ sol : Solution Register,
        (Liveness.visit s g).result = .ok sol.stats ∧
        (Liveness.visit s g).state =
          ⟨g.registers, sol.facts, some (.ofTable g.name sol.facts)⟩ ∧
        sol.facts.Filled g g.registers :=
      (Liveness.lawful g).visit_filled hends hdist s _ _
    obtain ⟨sol, hresult, hstate, hfilled⟩ := hvisit
    dsimp only
    rw [hstate]
    exact ⟨_, _, hresult, rfl, rfl,
      FactReport.renders_of_filled Register.lt_iff.1 hfilled⟩
  · have hvisit : ∃ sol : Solution Register,
        (Faintness.visit s g).result = .ok sol.stats ∧
        (Faintness.visit s g).state =
          ⟨g.registers, sol.facts.map g.registers.diff, some sol.facts,
            some (.ofTable g.name (sol.facts.map g.registers.diff))⟩ ∧
        sol.facts.Filled g g.registers :=
      (Faintness.lawful g).visit_filled hends hdist s _ _
    obtain ⟨sol, hresult, hstate, hfilled⟩ := hvisit
    dsimp only
    rw [hstate]
    exact ⟨_, _, hresult, rfl, rfl,
      FactReport.renders_of_filled Register.lt_iff.1 hfilled.diff⟩
  · obtain ⟨-, stats, -, -, -, hresult, -⟩ :=
      NonNull.visit_settles hends hdist hs
    rw [NonNull.visit_eq_analyse hs] at hresult ⊢
    exact ⟨stats, hresult, Visit.graph_solve ..⟩
  · intro visit hresult
    obtain ⟨r, hreport, hmethod, hlist, hchecks⟩ := NonNull.visit_report hresult
    refine ⟨r, hreport, hmethod, ?_, fun i => ?_, hchecks⟩
    · rw [hlist]
      exact OrdSet.ascending _ |>.imp QuadId.lt_iff.1
    · rw [hlist]
      exact Iff.rfl

/-- The checks put into the loop get the highest numbers and come early in the
program order; the rows stand by number all the same. -/
theorem reports_show_solved_facts_nullLoop :
    let g := Graph.nullLoop.insertChecks.graph
    g.HasEnds ∧ g.DistinctQuads ∧
      g.quads.map Quad.id = [⟨1⟩, ⟨2⟩, ⟨5⟩, ⟨3⟩, ⟨4⟩, ⟨7⟩, ⟨6⟩] ∧
      (∃ r, (Liveness.visit .fresh g).state.report = some r ∧
        ((r.rows.map ReportRow.id).Pairwise fun i j =>
          i.val.toNat < j.val.toNat) ∧
        (r.row? ⟨5⟩).isSome ∧ ¬ (r.row? ⟨8⟩).isSome) ∧
      ∃ r, (NonNull.visit (.fresh false) g).state.report = some r ∧
        ∀ i ∈ r.redundant, ∃ q ∈ g.quads, q.id = i ∧ q.opcode = .nullCheck := by
  intro g
  have hends : g.HasEnds := by decide
  have hdist : g.DistinctQuads := by decide
  have hquads : g.quads.map Quad.id =
      [⟨1⟩, ⟨2⟩, ⟨5⟩, ⟨3⟩, ⟨4⟩, ⟨7⟩, ⟨6⟩] := by decide
  have hvisits : ∀ i, (∃ q ∈ g.quads, q.id = i) ↔ i ∈ g.quads.map Quad.id :=
    fun i => List.mem_map.symm
  obtain ⟨-, hlive, -, hkept, hchecks⟩ := reports_show_solved_facts hends hdist
  obtain ⟨-, r, -, hr, -, hrenders⟩ := hlive .fresh
  obtain ⟨stats, hresult, hgraph⟩ := hkept (.fresh false) rfl
  obtain ⟨r', hr', -, -, -, hredundant⟩ := hchecks _ stats hresult
  rw [hgraph] at hredundant
  refine ⟨hends, hdist, hquads, ⟨r, hr, hrenders.ascending, ?_, ?_⟩, r', hr',
    hredundant⟩
  · rw [hrenders.found, hvisits, hquads]
    decide
  · rw [hrenders.found, hvisits, hquads]
    decide

end Dataflow
