import Dataflow.Proofs.Built
import Dataflow.Proofs.Elementwise

/-!
# A check is redundant when every path has made it

A register is known not to be null at a quad when it is so on every path from
the start of the method: the path has checked it and not defined it since, or
it has left a register alone that was no parameter. This file shows that the
analysis of a built graph knows exactly these registers, and that the checks it
ends up calling redundant are the ones of known registers.

That what is known holds on every path follows the path quad by quad. For the
converse the sweeps start with everything known and must not lose what all
paths bear out. A quad that no path leads to would break it, since all paths
vacuously bear out whatever the quad defines; a built graph has none, because
its edges are mirrored.

The marks are set and taken back as facts fall, sweep by sweep, so what is left
depends on the last sweep alone: it moves nothing, comes to every check once,
and sees at each the fact that the solver ends with.
-/

namespace Dataflow.NonNull

/-! ## What a path bears out -/

/-- A path from the start of the method leaves a register not null: some quad of
it checks the register and none behind that one defines it, or none defines it
at all and it is not a parameter. -/
def Known (g : Graph) (r : Register) (path : List Quad) : Prop :=
  (∃ before check behind, path = before ++ check :: behind ∧
    check.checked? = some r ∧ ∀ p ∈ behind, r ∉ p.defs) ∨
  ((∀ p ∈ path, r ∉ p.defs) ∧ r ∉ g.params)

variable {g : Graph} {r : Register}

theorem known_nil : Known g r [] ↔ r ∉ g.params := by
  constructor
  · rintro (⟨before, check, behind, hsplit, -⟩ | ⟨-, hparam⟩)
    · cases before <;> cases hsplit
    · exact hparam
  · exact fun hparam => Or.inr ⟨by simp, hparam⟩

theorem known_snoc {path : List Quad} {q : Quad} :
    Known g r (path ++ [q]) ↔
      (Known g r path ∧ r ∉ q.defs) ∨ q.checked? = some r := by
  constructor
  · rintro (⟨before, check, behind, hsplit, hcheck, hclear⟩ | ⟨hclear, hparam⟩)
    · -- the check is the new quad or lies in the old path
      cases behind using List.reverseRecOn with
      | nil =>
          obtain ⟨-, hq⟩ := List.append_inj' hsplit rfl
          cases hq
          exact Or.inr hcheck
      | append_singleton behind p =>
          have hsplit : path ++ [q] = (before ++ check :: behind) ++ [p] := by
            rw [hsplit, List.append_assoc, List.cons_append]
          obtain ⟨rfl, hq⟩ := List.append_inj' hsplit rfl
          cases hq
          refine Or.inl ⟨Or.inl ⟨before, check, behind, rfl, hcheck, ?_⟩, ?_⟩
          · exact fun x hx => hclear x (List.mem_append_left _ hx)
          · exact hclear q (List.mem_append_right _ List.mem_cons_self)
    · refine Or.inl ⟨Or.inr ⟨?_, hparam⟩, ?_⟩
      · exact fun x hx => hclear x (List.mem_append_left _ hx)
      · exact hclear q (List.mem_append_right _ List.mem_cons_self)
  · have hboth : ∀ {l : List Quad}, (∀ p ∈ l, r ∉ p.defs) → r ∉ q.defs →
        ∀ p ∈ l ++ [q], r ∉ p.defs := by
      intro l hl hq p hp
      rcases List.mem_append.1 hp with hp | hp
      · exact hl p hp
      · exact List.mem_singleton.1 hp ▸ hq
    rintro (⟨⟨before, check, behind, rfl, hcheck, hclear⟩ | ⟨hclear, hparam⟩,
      hq⟩ | hcheck)
    · refine Or.inl ⟨before, check, behind ++ [q], ?_, hcheck, hboth hclear hq⟩
      rw [List.append_assoc, List.cons_append]
    · exact Or.inr ⟨hboth hclear hq, hparam⟩
    · exact Or.inl ⟨path, q, [], rfl, hcheck, by simp⟩

/-! ## What the analysis knows -/

section Found

variable {e : QuadGraph} {v : Valuation Register}
  {passes : List (Pass Register)}

theorem known_of_mem_before
    (h : (problem g).Settles (g.layout e .forward) (problem g).start passes v)
    {path : List Quad} :
    ∀ {q : Quad}, q ∈ g.quads → g.EntryPath e path q →
      r ∈ v.fact .before q.id → Known g r path := by
  have hv := Problem.Settles.isSolution (p := problem g) h
  have harr : ∀ {q : Quad}, q ∈ g.quads → r ∈ v.fact .before q.id →
      ∀ n ∈ e.preds q.id, r ∈ (problem g).outflow v n := by
    intro q hq hr
    have hfact : v.fact .before q.id = (problem g).inflow v (e.preds q.id) :=
      hv.arrival q hq
    rw [hfact] at hr
    exact ((Problem.mem_inflow_intersection (p := problem g) rfl).1 hr).2
  induction path using List.reverseRecOn with
  | nil =>
      intro q hq hpath hr
      have hentry : v.terminal .entry = g.registers.eraseAll g.params :=
        hv.source
      have hr := harr hq hr none (Graph.entryPath_nil.1 hpath)
      change r ∈ v.terminal .entry at hr
      rw [hentry, OrdSet.mem_eraseAll] at hr
      exact known_nil.2 hr.2
  | append_singleton path p ih =>
      intro q hq hpath hr
      obtain ⟨hpath, hp, hedge⟩ := Graph.entryPath_snoc.1 hpath
      have hleaves : v.fact .after p.id = transfer p (v.fact .before p.id) :=
        hv.departure p hp
      have hr := harr hq hr (some p.id) hedge
      change r ∈ v.fact .after p.id at hr
      rw [hleaves, mem_transfer] at hr
      exact known_snoc.2 (hr.imp_left fun hr => ⟨ih hp hpath hr.1, hr.2⟩)

theorem mem_before_of_known (hdist : g.DistinctQuads)
    (he : g.quadGraph = .ok e)
    (hpaths : ∀ q ∈ g.quads, ∃ path, g.EntryPath e path q)
    (h : (problem g).Settles (g.layout e .forward) (problem g).start passes v)
    {q : Quad} (hq : q ∈ g.quads) (hr : r ∈ g.registers)
    (hknown : ∀ path, g.EntryPath e path q → Known g r path) :
    r ∈ v.fact .before q.id := by
  refine Problem.Settles.borne_out (p := problem g)
    (fun q r => ∀ path, g.EntryPath e path q → Known g r path)
    (fun q r => ∀ path, g.EntryPath e path q → Known g r (path ++ [q]))
    rfl hdist h (fun q hq r hr harr n hn => ?_)
    (fun q hq s hs r hr hleaves => ?_) q hq r hr hknown
  · cases n with
    | none =>
        have hparam := known_nil.1 (harr [] (Graph.entryPath_nil.2 hn))
        exact OrdSet.mem_eraseAll.2 ⟨hr, hparam⟩
    | some i =>
        obtain ⟨p, hp, rfl⟩ :=
          QuadGraph.visits_of_mem_origins (d := .forward) he hn
        refine ⟨p, hp, rfl, fun path hpath => harr (path ++ [p]) ?_⟩
        exact Graph.entryPath_snoc.2 ⟨hpath, hp, hn⟩
  · refine mem_transfer.2 ?_
    by_cases hcheck : q.checked? = some r
    · exact Or.inr hcheck
    · have hsplit : ∀ path, g.EntryPath e path q →
          Known g r path ∧ r ∉ q.defs := fun path hpath =>
        (known_snoc.1 (hleaves path hpath)).resolve_right hcheck
      obtain ⟨path, hpath⟩ := hpaths q hq
      exact Or.inl ⟨hs r hr fun path hpath => (hsplit path hpath).1,
        (hsplit path hpath).2⟩

end Found

/-! ## What the marks end up as -/

/-- The quad of an arrival is a check of a register that is known on arrival and
that the check itself does not define. -/
def Idle (a : Arrival Register) : Prop :=
  ∃ r, a.quad.checked? = some r ∧ r ∈ surviving a.quad a.fact

theorem mem_mark {marks : OrdSet QuadId} {a : Arrival Register} {i : QuadId} :
    i ∈ mark marks a ↔ (a.quad.id = i ∧ Idle a) ∨
      (i ∈ marks ∧ (a.quad.id = i → a.quad.checked? = none)) := by
  unfold mark Idle
  cases hcheck : a.quad.checked? with
  | none => simp
  | some r =>
      simp only [Option.some.injEq, exists_eq_left', reduceCtorEq]
      split
      · next hr =>
          rw [OrdSet.mem_insert]
          grind
      · next hr =>
          rw [OrdSet.mem_erase]
          grind

theorem exists_of_mem_foldl_mark {l : List (Arrival Register)} {i : QuadId} :
    ∀ {marks : OrdSet QuadId}, i ∈ l.foldl mark marks →
      i ∈ marks ∨ ∃ a ∈ l, a.quad.id = i ∧ a.quad.checked? ≠ none := by
  induction l with
  | nil => exact fun h => Or.inl h
  | cons a rest ih =>
      intro marks h
      rcases ih h with hmark | ⟨b, hb, hfound⟩
      · rcases mem_mark.1 hmark with ⟨hid, r, hcheck, -⟩ | ⟨hold, -⟩
        · exact Or.inr ⟨a, List.mem_cons_self, hid, by simp [hcheck]⟩
        · exact Or.inl hold
      · exact Or.inr ⟨b, List.mem_cons_of_mem a hb, hfound⟩

/-- A sweep that comes to each number once settles the marks of all checks. -/
theorem mem_foldl_mark {l : List (Arrival Register)} {i : QuadId}
    (hnodup : (l.map fun a => a.quad.id).Nodup) :
    ∀ {marks : OrdSet QuadId}, i ∈ l.foldl mark marks ↔
      (∃ a ∈ l, a.quad.id = i ∧ Idle a) ∨
        (i ∈ marks ∧ ∀ a ∈ l, a.quad.id = i → a.quad.checked? = none) := by
  induction l with
  | nil => simp
  | cons a rest ih =>
      intro marks
      obtain ⟨hfirst, hrest⟩ := List.nodup_cons.1 hnodup
      have hother : a.quad.id = i → ∀ b ∈ rest, b.quad.id ≠ i := by
        rintro rfl b hb hid
        exact hfirst (List.mem_map.2 ⟨b, hb, hid⟩)
      rw [List.foldl_cons, ih hrest, mem_mark, List.exists_mem_cons_iff,
        List.forall_mem_cons]
      constructor
      · rintro (h | ⟨h | ⟨hold, hnone⟩, hall⟩)
        · exact Or.inl (Or.inr h)
        · exact Or.inl (Or.inl h)
        · exact Or.inr ⟨hold, hnone, hall⟩
      · rintro ((h | h) | ⟨hold, hnone, hall⟩)
        · exact Or.inr ⟨Or.inl h, fun b hb hid => absurd hid (hother h.1 b hb)⟩
        · exact Or.inl h
        · exact Or.inr ⟨Or.inr ⟨hold, hnone⟩, hall⟩

theorem idle_iff {q : Quad} {fact : OrdSet Register} {moved : Bool} :
    Idle ⟨q, fact, moved⟩ ↔
      ∃ guard r, q.instr = .nullCheck guard r ∧ guard ≠ some r ∧ r ∈ fact := by
  have hdefs : ∀ {guard : Option Register} {r : Register},
      q.instr = .nullCheck guard r → (r ∈ surviving q fact ↔
        r ∈ fact ∧ guard ≠ some r) := by
    intro guard r hinstr
    rw [surviving, OrdSet.mem_eraseAll, Quad.defs, hinstr, Option.mem_toList]
  constructor
  · rintro ⟨r, hcheck, hr⟩
    unfold Quad.checked? at hcheck
    split at hcheck
    · next guard checked hinstr =>
        cases hcheck
        obtain ⟨hfact, hguard⟩ := (hdefs hinstr).1 hr
        exact ⟨guard, r, hinstr, hguard, hfact⟩
    · cases hcheck
  · rintro ⟨guard, r, hinstr, hguard, hfact⟩
    refine ⟨r, ?_, (hdefs hinstr).2 ⟨hfact, hguard⟩⟩
    rw [Quad.checked?, hinstr]

theorem mem_redundant {e : QuadGraph} {v : Valuation Register}
    {passes : List (Pass Register)} (hdist : g.DistinctQuads)
    (h : (problem g).Settles (g.layout e .forward) (problem g).start passes v)
    {i : QuadId} :
    i ∈ redundant passes ↔ ∃ q ∈ g.quads, q.id = i ∧
      ∃ guard r, q.instr = .nullCheck guard r ∧ guard ≠ some r ∧
        r ∈ v.fact .before q.id := by
  have hquads := h.arrivals_quads
  obtain ⟨⟨hsteady, -⟩, earlier, rfl⟩ := h.atRest
  have hstations : (g.layout e .forward).stations.map Station.quad =
      g.quads := by
    rw [Graph.layout, List.map_map]
    exact List.map_id _
  have hlast : ((problem g).passFrom (g.layout e .forward) v).arrivals =
      g.quads.map fun q => ⟨q, v.fact .before q.id, false⟩ := by
    have hall := Problem.arrivalsFrom_of_steady hsteady
    rw [← hstations, List.map_map]
    exact hall
  have hnodup : ((g.quads.map fun q : Quad =>
      (⟨q, v.fact .before q.id, false⟩ : Arrival Register)).map
        fun a => a.quad.id).Nodup := by
    rw [List.map_map]
    exact hdist
  unfold redundant
  rw [List.flatMap_append, List.flatMap_singleton, List.foldl_append, hlast,
    mem_foldl_mark hnodup]
  constructor
  · rintro (⟨a, ha, hid, hidle⟩ | ⟨hold, hnone⟩)
    · obtain ⟨q, hq, rfl⟩ := List.mem_map.1 ha
      exact ⟨q, hq, hid, idle_iff.1 hidle⟩
    · -- an older mark is on a check, and the last sweep has come to it too
      rcases exists_of_mem_foldl_mark hold with hempty | ⟨a, ha, hid, hcheck⟩
      · exact absurd hempty (OrdSet.not_mem_empty i)
      · obtain ⟨pass, hpass, ha⟩ := List.mem_flatMap.1 ha
        have hq : a.quad ∈ g.quads := by
          rw [← hstations, ← hquads pass (List.mem_append_left _ hpass)]
          exact List.mem_map_of_mem ha
        exact absurd (hnone _ (List.mem_map.2 ⟨a.quad, hq, rfl⟩) hid) hcheck
  · rintro ⟨q, hq, hid, hidle⟩
    exact Or.inl ⟨_, List.mem_map.2 ⟨q, hq, rfl⟩, hid, idle_iff.2 hidle⟩

/-- A visit without insertion shows the facts that the loop of sweeps has left,
and it marks and reports the checks that the sweeps have left marked. -/
theorem visit_settles (hends : g.HasEnds) (hdist : g.DistinctQuads) {s : State}
    (hs : s.inserting = false) :
    ∃ e stats passes v, g.quadGraph = .ok e ∧
      (visit s g).result = .ok stats ∧ (visit s g).state.facts.Shows g v ∧
      (visit s g).state.redundant = redundant passes ∧
      (visit s g).state.report =
        some ⟨g.name, (visit s g).state.redundant.toList⟩ ∧
      (problem g).Settles (g.layout e .forward) (problem g).start passes v := by
  rw [visit_eq_analyse hs]
  obtain ⟨e, sol, v, he, hresult, hstate, hshown, hsettles, -⟩ :=
    (lawful g).visit_ok hends hdist s _ _
  have hfacts : (analyse s g none []).state.facts = sol.facts :=
    congrArg State.facts hstate
  have hmarks : (analyse s g none []).state.redundant = redundant sol.passes :=
    congrArg State.redundant hstate
  have hreport : (analyse s g none []).state.report =
      some ⟨g.name, (redundant sol.passes).toList⟩ :=
    congrArg State.report hstate
  exact ⟨e, sol.stats, sol.passes, v, he, hresult, hfacts ▸ hshown, hmarks,
    hmarks ▸ hreport, hsettles⟩

/-- On a built graph, the registers that the analysis knows before a quad are
those that every path from the start of the method bears out, and the checks it
reports as redundant are those of such registers that do not define the
register they check. -/
theorem known_iff_all_paths {name : String} {script : List Command} {g : Graph}
    (hbuild : Graph.build name script = .ok g) {s : State}
    (hs : s.inserting = false) :
    ∃ e stats v, g.quadGraph = .ok e ∧ (visit s g).result = .ok stats ∧
      (visit s g).state.facts.Shows g v ∧
      (∀ q ∈ g.quads, ∀ r ∈ g.registers, r ∈ v.fact .before q.id ↔
        ∀ path, g.EntryPath e path q → Known g r path) ∧
      (visit s g).state.report =
        some ⟨g.name, (visit s g).state.redundant.toList⟩ ∧
      ∀ i, i ∈ (visit s g).state.redundant ↔ ∃ q ∈ g.quads, q.id = i ∧
        ∃ guard r, q.instr = .nullCheck guard r ∧ guard ≠ some r ∧
          ∀ path, g.EntryPath e path q → Known g r path := by
  obtain ⟨hproper, hmirrored, hentry⟩ := Graph.build_sound hbuild
  have hdist := hproper.distinctQuads
  obtain ⟨e, stats, passes, v, he, hresult, hshown, hmarks, hreport,
    hsettles⟩ := visit_settles hproper.ends hdist hs
  have hknown : ∀ q ∈ g.quads, ∀ r ∈ g.registers, r ∈ v.fact .before q.id ↔
      ∀ path, g.EntryPath e path q → Known g r path := by
    refine fun q hq r hr => ⟨fun hmem path hpath => ?_, ?_⟩
    · exact known_of_mem_before hsettles hq hpath hmem
    · exact mem_before_of_known hdist he
        (fun q hq => hmirrored.exists_entryPath hdist hentry he hq)
          hsettles hq hr
  refine ⟨e, stats, v, he, hresult, hshown, hknown, hreport, fun i => ?_⟩
  rw [hmarks, mem_redundant hdist hsettles]
  refine exists_congr fun q => and_congr_right fun hq =>
    and_congr_right fun _ => exists_congr fun guard => exists_congr fun r =>
      and_congr_right fun hinstr => and_congr_right fun _ => hknown q hq r ?_
  refine Graph.mem_registers_of_use hq (Quad.mem_uses_of_checked? ?_)
  rw [Quad.checked?, hinstr]

/-- The commands that make the small loop. -/
def smallLoopScript : List Command :=
  [.param ⟨"R0"⟩, .block, .block, .block,
    .push ⟨2⟩ (.nullCheck none ⟨"R0"⟩),
    .push ⟨3⟩ (.nullCheck none ⟨"R0"⟩),
    .push ⟨3⟩ (.move ⟨"R1"⟩ (.reg ⟨"R0"⟩)),
    .push ⟨3⟩ (.branch (.reg ⟨"R1"⟩) (.const .null) .eq .exit),
    .edge .entry ⟨2⟩, .edge ⟨2⟩ ⟨3⟩, .edge ⟨3⟩ ⟨4⟩, .edge ⟨3⟩ .exit,
    .edge ⟨4⟩ ⟨3⟩]

/-- The check inside the small loop is reported, so all paths bear it out,
however often they go around. -/
theorem known_iff_all_paths_smallLoop :
    Graph.build "loop" smallLoopScript = .ok .smallLoop ∧
      (State.fresh false).inserting = false ∧
      ∃ e, Graph.smallLoop.quadGraph = .ok e ∧
        ∀ path, Graph.smallLoop.EntryPath e path
            ⟨⟨2⟩, .nullCheck none ⟨"R0"⟩⟩ →
          Known .smallLoop ⟨"R0"⟩ path := by
  have hbuild : Graph.build "loop" smallLoopScript = .ok .smallLoop := rfl
  refine ⟨hbuild, rfl, ?_⟩
  obtain ⟨e, -, -, he, -, -, -, -, hmarks⟩ :=
    known_iff_all_paths hbuild (s := .fresh false) rfl
  have hreported : ⟨2⟩ ∈ (visit (.fresh false) .smallLoop).state.redundant := by
    decide +kernel
  obtain ⟨q, hq, hid, guard, r, hinstr, -, hknown⟩ := (hmarks ⟨2⟩).1 hreported
  have hcheck : ∀ q ∈ Graph.smallLoop.quads, q.id = ⟨2⟩ →
      q = ⟨⟨2⟩, .nullCheck none ⟨"R0"⟩⟩ := by
    decide
  obtain rfl := hcheck q hq hid
  cases hinstr
  exact ⟨e, he, hknown⟩

end Dataflow.NonNull
