import Dataflow.Proofs.Elementwise
import Dataflow.Proofs.Path

/-!
# Reaching definitions are definitions with a clear path

A definition reaches a quad when control can come from it to the quad through
quads that leave its register alone. This file shows that the analysis finds
exactly these.

A quad kills through the table of definitions, which is built beforehand and
lists the quad itself among its own victims. `mem_transfer_definitions` puts
that in terms of registers: since a quad defines at most one, a definition
survives a quad exactly when the quad does not define its register. What is
left is to match the equations with paths. A clear path is followed quad by
quad, by induction on its length; conversely, whatever a sweep records as
arriving has a clear path, because the quad that sent it has one or is the
definition itself.
-/

namespace Dataflow.ReachingDefinitions

/-! ## The table of definitions -/

theorem mem_definitionsOf_note {m : Definitions} {i d : QuadId}
    {r r' : Register} :
    d ∈ definitionsOf (note i m r') r ↔
      (r = r' ∧ d = i) ∨ d ∈ definitionsOf m r := by
  unfold note
  rw [definitionsOf, KeyedList.get?_insert]
  by_cases h : r = r'
  · subst h
    simp
  · simp [h, definitionsOf]

theorem mem_definitionsOf {g : Graph} {r : Register} {d : QuadId} :
    d ∈ definitionsOf (definitions g) r ↔
      ∃ q ∈ g.quads, q.id = d ∧ r ∈ q.defs := by
  have hregisters : ∀ (i : QuadId) (l : List Register) (m : Definitions),
      d ∈ definitionsOf (l.foldl (note i) m) r ↔
        (i = d ∧ r ∈ l) ∨ d ∈ definitionsOf m r := by
    intro i l
    induction l with
    | nil => simp
    | cons r' rest ih =>
        intro m
        rw [List.foldl_cons, ih, mem_definitionsOf_note, List.mem_cons]
        grind
  have hquads : ∀ (l : List Quad) (m : Definitions),
      d ∈ definitionsOf
          (l.foldl (fun m q => q.defs.foldl (note q.id) m) m) r ↔
        (∃ q ∈ l, q.id = d ∧ r ∈ q.defs) ∨ d ∈ definitionsOf m r := by
    intro l
    induction l with
    | nil => simp
    | cons q rest ih =>
        intro m
        rw [List.foldl_cons, ih, hregisters, List.exists_mem_cons_iff,
          or_left_comm, or_assoc]
  have hempty : d ∉ definitionsOf ∅ r := OrdSet.not_mem_empty d
  unfold definitions
  rw [hquads, or_iff_left hempty]

/-- Which definitions leave a quad, in terms of the registers they define. -/
theorem mem_transfer_definitions {g : Graph} (hdist : g.DistinctQuads)
    {d q : Quad} (hd : d ∈ g.quads) (hq : q ∈ g.quads) {s : OrdSet QuadId} :
    d.id ∈ transfer (definitions g) q s ↔
      (d = q ∧ q.defs ≠ []) ∨ (d.id ∈ s ∧ ∀ r ∈ d.defs, r ∉ q.defs) := by
  have hkill : (∀ r ∈ q.defs, d.id ∉ definitionsOf (definitions g) r) ↔
      ∀ r ∈ d.defs, r ∉ q.defs := by
    constructor
    · intro h r hrd hrq
      exact h r hrq (mem_definitionsOf.2 ⟨d, hd, rfl, hrd⟩)
    · intro h r hrq hr
      obtain ⟨d', hd', hid, hrd⟩ := mem_definitionsOf.1 hr
      obtain rfl := hdist.eq_of_id_eq hd' hd hid
      exact h r hrd hrq
  have hself : d.id = q.id ↔ d = q :=
    ⟨hdist.eq_of_id_eq hd hq, fun h => h ▸ rfl⟩
  rw [mem_transfer, hkill, hself, or_comm, and_comm (a := q.defs ≠ [])]

/-! ## Clear paths -/

/-- Control can come from one quad to another, in one step or more, through
quads that do not define a register. -/
def DefClear (g : Graph) (e : QuadGraph) (r : Register) (d q : Quad) : Prop :=
  ∃ between : List Quad, (∀ p ∈ between, p ∈ g.quads ∧ r ∉ p.defs) ∧
    e.IsPath (d :: (between ++ [q]))

variable {g : Graph} {e : QuadGraph} {r : Register} {d p q : Quad}

theorem DefClear.direct (h : some d.id ∈ e.preds q.id) : DefClear g e r d q :=
  ⟨[], by simp, QuadGraph.isPath_pair.2 h⟩

theorem DefClear.through (h : DefClear g e r d p) (hp : p ∈ g.quads)
    (hr : r ∉ p.defs) (hedge : some p.id ∈ e.preds q.id) :
    DefClear g e r d q := by
  obtain ⟨between, hclear, hpath⟩ := h
  refine ⟨between ++ [p], fun x hx => ?_, ?_⟩
  · rcases List.mem_append.1 hx with hx | hx
    · exact hclear x hx
    · exact List.mem_singleton.1 hx ▸ ⟨hp, hr⟩
  · exact (QuadGraph.isPath_snoc (l := d :: between)).2 ⟨hpath, hedge⟩

/-- What every quad just behind a definition has, and each clear quad hands on,
every quad at the end of a clear path has. -/
theorem DefClear.induction {P : Quad → Prop} (h : DefClear g e r d q)
    (hdirect : ∀ q, some d.id ∈ e.preds q.id → P q)
    (hthrough : ∀ p ∈ g.quads, r ∉ p.defs → P p →
      ∀ q, some p.id ∈ e.preds q.id → P q) : P q := by
  obtain ⟨between, hclear, hpath⟩ := h
  induction between using List.reverseRecOn generalizing q with
  | nil => exact hdirect q (QuadGraph.isPath_pair.1 hpath)
  | append_singleton rest p ih =>
      have hsplit : e.IsPath (d :: rest ++ [p] ++ [q]) := hpath
      obtain ⟨hinit, hedge⟩ := QuadGraph.isPath_snoc.1 hsplit
      obtain ⟨hp, hr⟩ := hclear p (by simp)
      exact hthrough p hp hr
        (ih (fun x hx => hclear x (List.mem_append_left _ hx)) hinit) q hedge

/-- A definition with this number has a clear path to a quad. -/
def Reaches (g : Graph) (e : QuadGraph) (q : Quad) (i : QuadId) : Prop :=
  ∃ d ∈ g.quads, d.id = i ∧ ∃ r ∈ d.defs, DefClear g e r d q

/-- A definition with this number is the quad itself, or has a clear path that
the quad does not end. -/
def Leaves (g : Graph) (e : QuadGraph) (q : Quad) (i : QuadId) : Prop :=
  ∃ d ∈ g.quads, d.id = i ∧ ∃ r ∈ d.defs,
    d = q ∨ (DefClear g e r d q ∧ r ∉ q.defs)

/-! ## What the analysis finds -/

section Found

variable {v : Valuation QuadId} {passes : List (Pass QuadId)}

theorem mem_before (he : g.quadGraph = .ok e)
    (h : (problem g).Settles (g.layout e .forward) (problem g).start passes v)
    (hq : q ∈ g.quads) {i : QuadId} :
    i ∈ v.fact .before q.id ↔
      ∃ p ∈ g.quads, some p.id ∈ e.preds q.id ∧ i ∈ v.fact .after p.id := by
  have hv := Problem.Settles.isSolution (p := problem g) h
  have harr : v.fact .before q.id = (problem g).inflow v (e.preds q.id) :=
    hv.arrival q hq
  rw [harr]
  exact Problem.mem_inflow_quads (p := problem g) rfl hv.source
    fun i hi => QuadGraph.visits_of_mem_origins (d := .forward) he hi

theorem mem_after (hdist : g.DistinctQuads)
    (h : (problem g).Settles (g.layout e .forward) (problem g).start passes v)
    (hd : d ∈ g.quads) (hq : q ∈ g.quads) :
    d.id ∈ v.fact .after q.id ↔ (d = q ∧ q.defs ≠ []) ∨
      (d.id ∈ v.fact .before q.id ∧ ∀ r ∈ d.defs, r ∉ q.defs) := by
  have hdep : v.fact .after q.id =
      transfer (definitions g) q (v.fact .before q.id) :=
    (Problem.Settles.isSolution (p := problem g) h).departure q hq
  rw [hdep]
  exact mem_transfer_definitions hdist hd hq

theorem mem_before_of_defClear (hdist : g.DistinctQuads)
    (he : g.quadGraph = .ok e)
    (h : (problem g).Settles (g.layout e .forward) (problem g).start passes v)
    (hd : d ∈ g.quads) (hr : r ∈ d.defs) (hclear : DefClear g e r d q)
    (hq : q ∈ g.quads) : d.id ∈ v.fact .before q.id := by
  refine hclear.induction
    (P := fun q => q ∈ g.quads → d.id ∈ v.fact .before q.id)
    (fun q hedge hq => ?_) (fun p hp hrp ih q hedge hq => ?_) hq
  · have hafter : d.id ∈ v.fact .after d.id :=
      (mem_after hdist h hd hd).2 (Or.inl ⟨rfl, List.ne_nil_of_mem hr⟩)
    exact (mem_before he h hq).2 ⟨d, hd, hedge, hafter⟩
  · have hkeep : ∀ r' ∈ d.defs, r' ∉ p.defs :=
      fun r' hr' => Quad.eq_of_mem_defs hr hr' ▸ hrp
    have hafter : d.id ∈ v.fact .after p.id :=
      (mem_after hdist h hd hp).2 (Or.inr ⟨ih hp, hkeep⟩)
    exact (mem_before he h hq).2 ⟨p, hp, hedge, hafter⟩

theorem defClear_of_mem_before (hdist : g.DistinctQuads)
    (he : g.quadGraph = .ok e)
    (h : (problem g).Settles (g.layout e .forward) (problem g).start passes v)
    (hd : d ∈ g.quads) (hq : q ∈ g.quads) (hmem : d.id ∈ v.fact .before q.id) :
    ∃ r ∈ d.defs, DefClear g e r d q := by
  have hall := Problem.Settles.accounted (p := problem g) (Reaches g e)
    (Leaves g e) rfl he hdist h (fun q hq n hn i hsent => ?_)
    (fun q hq s hs i hi => ?_)
  · obtain ⟨d', hd', hid, hclear⟩ := hall q hq d.id hmem
    exact hdist.eq_of_id_eq hd' hd hid ▸ hclear
  · cases n with
    | none => exact absurd hsent (OrdSet.not_mem_empty i)
    | some j =>
        obtain ⟨p, hp, rfl, d, hd, hid, r, hr, hcase⟩ := hsent
        refine ⟨d, hd, hid, r, hr, ?_⟩
        rcases hcase with rfl | ⟨hclear, hrp⟩
        · exact DefClear.direct hn
        · exact hclear.through hp hrp hn
  · rcases mem_transfer.1 hi with ⟨his, hkill⟩ | ⟨hdefs, rfl⟩
    · obtain ⟨d, hd, rfl, r, hr, hclear⟩ := hs i his
      refine ⟨d, hd, rfl, r, hr, Or.inr ⟨hclear, fun hrq => ?_⟩⟩
      exact hkill r hrq (mem_definitionsOf.2 ⟨d, hd, rfl, hr⟩)
    · obtain ⟨r, hr⟩ := List.exists_mem_of_ne_nil _ hdefs
      exact ⟨q, hq, rfl, r, hr, Or.inl rfl⟩

end Found

theorem visit_settles (hends : g.HasEnds) (hdist : g.DistinctQuads)
    (s : State) :
    ∃ e stats passes v, g.quadGraph = .ok e ∧ (visit s g).result = .ok stats ∧
      (visit s g).state.facts.Shows g v ∧
      (problem g).Settles (g.layout e .forward) (problem g).start passes v := by
  obtain ⟨e, sol, v, he, hresult, hstate, hshown, hsettles, -⟩ :=
    (lawful g).visit_ok hends hdist s
      [.definitionsFound g.name (domain g).size (definitions g).size]
      fun sol => (⟨domain g, definitions g, sol.facts,
        some (.ofTable g.name sol.facts)⟩, [])
  have hfacts : (visit s g).state.facts = sol.facts :=
    congrArg State.facts hstate
  exact ⟨e, sol.stats, sol.passes, v, he, hresult, hfacts ▸ hshown, hsettles⟩

/-- The definitions that the analysis finds before a quad are those with a clear
path to it; those after the quad are its own and the ones of registers that it
does not define; none hold at the entry; and at the exit those hold that leave
some quad the method can end with. -/
theorem reaches_iff_clear_path {g : Graph} (hends : g.HasEnds)
    (hdist : g.DistinctQuads) (s : State) :
    ∃ e stats v, g.quadGraph = .ok e ∧ (visit s g).result = .ok stats ∧
      (visit s g).state.facts.Shows g v ∧ v.Within g (domain g) ∧
      (∀ d ∈ g.quads, ∀ q ∈ g.quads,
        (d.id ∈ v.fact .before q.id ↔ ∃ r ∈ d.defs, DefClear g e r d q) ∧
        (d.id ∈ v.fact .after q.id ↔ (d = q ∧ q.defs ≠ []) ∨
          (d.id ∈ v.fact .before q.id ∧ ∀ r ∈ d.defs, r ∉ q.defs))) ∧
      v.terminal .entry = ∅ ∧
      ∀ d ∈ g.quads, d.id ∈ v.terminal .exit ↔
        ∃ p ∈ g.quads, some p.id ∈ e.exitPreds ∧ d.id ∈ v.fact .after p.id := by
  obtain ⟨e, stats, passes, v, he, hresult, hshown, hsettles⟩ :=
    visit_settles hends hdist s
  have hv := hsettles.isSolution
  refine ⟨e, stats, v, he, hresult, hshown,
    (hsettles.bounded (lawful g) he).within he hv,
    fun d hd q hq => ⟨⟨?_, ?_⟩, ?_⟩, hv.source, fun d hd => ?_⟩
  · exact defClear_of_mem_before hdist he hsettles hd hq
  · rintro ⟨r, hr, hclear⟩
    exact mem_before_of_defClear hdist he hsettles hd hr hclear hq
  · exact mem_after hdist hsettles hd hq
  · have hexit : v.terminal .exit = (problem g).inflow v e.exitPreds :=
      hv.target
    rw [hexit]
    exact Problem.mem_inflow_quads (p := problem g) rfl hv.source
      fun i hi => QuadGraph.visits_of_mem_finals (d := .forward) he hi

/-- In a small loop the one definition comes around to the check before it. -/
theorem reaches_iff_clear_path_smallLoop :
    Graph.smallLoop.HasEnds ∧ Graph.smallLoop.DistinctQuads ∧
      ∃ stats v, (visit .fresh .smallLoop).result = .ok stats ∧
        (visit .fresh .smallLoop).state.facts.Shows .smallLoop v ∧
        ⟨3⟩ ∈ v.fact .before ⟨2⟩ := by
  refine ⟨by decide, by decide, ?_⟩
  obtain ⟨e, stats, v, he, hresult, hshown, -, hiff, -⟩ :=
    reaches_iff_clear_path (g := .smallLoop) (by decide) (by decide) .fresh
  have hedges : (Graph.smallLoop.quadGraph.map fun e =>
      decide (some ⟨3⟩ ∈ e.preds ⟨4⟩ ∧ some ⟨4⟩ ∈ e.preds ⟨2⟩)) =
        .ok true := rfl
  rw [he] at hedges
  obtain ⟨hinto, hback⟩ := of_decide_eq_true (Except.ok.inj hedges)
  let check : Quad := ⟨⟨2⟩, .nullCheck none ⟨"R0"⟩⟩
  let move : Quad := ⟨⟨3⟩, .move ⟨"R1"⟩ (.reg ⟨"R0"⟩)⟩
  let branch : Quad := ⟨⟨4⟩, .branch (.reg ⟨"R1"⟩) (.const .null) .eq .exit⟩
  have hclear : DefClear .smallLoop e ⟨"R1"⟩ move check :=
    (DefClear.direct (q := branch) hinto).through (by decide) (by decide) hback
  exact ⟨stats, v, hresult, hshown,
    (hiff move (by decide) check (by decide)).1.2 ⟨⟨"R1"⟩, by decide, hclear⟩⟩

end Dataflow.ReachingDefinitions
