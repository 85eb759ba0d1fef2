import Dataflow.Proofs.NonNull
import Dataflow.Proofs.Rewriting

/-!
# Redundant checks can go together

A check may be redundant only because of another that is redundant itself. This
file shows that all of them can be dropped at once all the same: what the
analysis knows afterwards is what it knew before, as far as the registers that
are left in the method go, and no other check changes its status. A check that
defines a guard has an effect besides and stays.

Nothing has to be said about what justifies what. The facts of the method
before, cut down to the registers that are left, are borne out by each other in
the method after, because a redundant check adds nothing to what arrives at it.
The facts of the method after are borne out by each other in the method before,
because a check only ever adds to them. The solver finds the best facts of each
method, so each lie above the others.
-/

namespace Dataflow.NonNull

/-- A check without a guard that is among the marked ones. -/
def Dispensable (marks : OrdSet QuadId) (q : Quad) : Prop :=
  q.id ∈ marks ∧ ∃ r, q.instr = .nullCheck none r

/-- Puts a quad that does nothing in the place of a marked check without a
guard. -/
def drop (marks : OrdSet QuadId) (q : Quad) : Quad :=
  match q.instr with
  | .nullCheck none _ => if q.id ∈ marks then { q with instr := .nop } else q
  | _ => q

theorem drop_of_dispensable {marks : OrdSet QuadId} {q : Quad}
    (h : Dispensable marks q) : drop marks q = ⟨q.id, .nop⟩ := by
  obtain ⟨hmark, r, hinstr⟩ := h
  unfold drop
  rw [hinstr]
  exact if_pos hmark

theorem drop_of_not_dispensable {marks : OrdSet QuadId} {q : Quad}
    (h : ¬ Dispensable marks q) : drop marks q = q := by
  unfold drop
  split
  · next r hinstr => exact if_neg fun hmark => h ⟨hmark, r, hinstr⟩
  · rfl

theorem drop_id (marks : OrdSet QuadId) (q : Quad) :
    (drop marks q).id = q.id := by
  by_cases h : Dispensable marks q
  · rw [drop_of_dispensable h]
  · rw [drop_of_not_dispensable h]

theorem transfer_nop (i : QuadId) (s : OrdSet Register) :
    transfer ⟨i, .nop⟩ s = s := rfl

theorem mem_transfer_unguarded {q : Quad} {r a : Register} {s : OrdSet Register}
    (h : q.instr = .nullCheck none r) :
    a ∈ transfer q s ↔ a ∈ s ∨ a = r := by
  simp [mem_transfer, Quad.defs, Quad.checked?, h, eq_comm (a := r)]

/-- Dropping a check never adds to what is known. -/
theorem transfer_drop_subset (marks : OrdSet QuadId) (q : Quad)
    (s : OrdSet Register) : transfer (drop marks q) s ⊆ transfer q s := by
  by_cases h : Dispensable marks q
  · obtain ⟨-, r, hinstr⟩ := id h
    rw [drop_of_dispensable h, transfer_nop]
    exact fun a ha => (mem_transfer_unguarded hinstr).2 (Or.inl ha)
  · rw [drop_of_not_dispensable h]
    exact OrdSet.subset_refl _

theorem registers_drop_subset (g : Graph) (marks : OrdSet QuadId) :
    (g.rewrite (drop marks)).registers ⊆ g.registers := by
  intro r hr
  rcases Graph.mem_registers.1 hr with hparam | ⟨q', hq', hmem⟩
  · exact Graph.mem_registers.2 (Or.inl hparam)
  · obtain ⟨q, hq, rfl⟩ := Graph.mem_quads_rewrite.1 hq'
    refine Graph.mem_registers.2 (Or.inr ⟨q, hq, ?_⟩)
    by_cases h : Dispensable marks q
    · rw [drop_of_dispensable h] at hmem
      rcases hmem with hmem | hmem <;> cases hmem
    · rwa [drop_of_not_dispensable h] at hmem

/-! ## What the analysis knows, from one quad to the next -/

section Known

variable {g : Graph} {e : QuadGraph} {v w : Valuation Register}
  {passes : List (Pass Register)} {q : Quad} {a : Register}

theorem mem_before_iff (hv : (problem g).IsSolution g e v) (hq : q ∈ g.quads) :
    a ∈ v.fact .before q.id ↔
      a ∈ g.registers ∧ ∀ n ∈ e.preds q.id, a ∈ (problem g).outflow v n := by
  have harr : v.fact .before q.id = (problem g).inflow v (e.preds q.id) :=
    hv.arrival q hq
  rw [harr]
  exact Problem.mem_inflow_intersection (p := problem g) rfl

theorem mem_exit_iff (hv : (problem g).IsSolution g e v) :
    a ∈ v.terminal .exit ↔
      a ∈ g.registers ∧ ∀ n ∈ e.exitPreds, a ∈ (problem g).outflow v n := by
  have hexit : v.terminal .exit = (problem g).inflow v e.exitPreds := hv.target
  rw [hexit]
  exact Problem.mem_inflow_intersection (p := problem g) rfl

theorem after_eq (hv : (problem g).IsSolution g e v) (hq : q ∈ g.quads) :
    v.fact .after q.id = transfer q (v.fact .before q.id) :=
  hv.departure q hq

theorem entry_eq (hv : (problem g).IsSolution g e v) :
    v.terminal .entry = g.registers.eraseAll g.params :=
  hv.source

/-- Facts about the registers of a method that bear each other out. -/
structure Upheld (g : Graph) (e : QuadGraph) (w : Valuation Register) :
    Prop where
  within : ∀ i, g.Visits i → ∀ side, w.fact side i ⊆ g.registers
  entry : w.terminal .entry ⊆ g.registers.eraseAll g.params
  before : ∀ q ∈ g.quads, ∀ a ∈ w.fact .before q.id, ∀ n ∈ e.preds q.id,
    a ∈ (problem g).outflow w n
  after : ∀ q ∈ g.quads, w.fact .after q.id ⊆ transfer q (w.fact .before q.id)

theorem Upheld.subset (hw : Upheld g e w) (he : g.quadGraph = .ok e)
    (h : (problem g).Settles (g.layout e .forward) (problem g).start passes v) :
    (∀ i, g.Visits i → ∀ side, w.fact side i ⊆ v.fact side i) ∧
      w.terminal .entry ⊆ v.terminal .entry := by
  have htenable : (problem g).Tenable g e w := by
    refine ⟨⟨hw.within, fun a ha => ?_⟩, fun q hq => ?_, fun q hq => ?_⟩
    · exact (OrdSet.mem_eraseAll.1 (hw.entry a ha)).1
    · refine Meet.below_intersection.2 fun a ha => ?_
      exact (Problem.mem_inflow_intersection (p := problem g) rfl).2
        ⟨hw.within q.id ⟨q, hq, rfl⟩ .before a ha, hw.before q hq a ha⟩
    · exact Meet.below_intersection.2 (hw.after q hq)
  have hunder := Problem.Settles.above (lawful g) he h htenable
    (Meet.below_intersection.2 hw.entry)
  exact ⟨fun i hi side => Meet.below_intersection.1 (hunder.fact i hi side),
    Meet.below_intersection.1 hunder.source⟩

end Known

/-! ## Each method's facts hold up in the other -/

section Both

variable {g : Graph} {e : QuadGraph} {marks : OrdSet QuadId}
  {v v' : Valuation Register} {passes passes' : List (Pass Register)}

theorem upheld_before_dropping (he : g.quadGraph = .ok e)
    (h' : (problem (g.rewrite (drop marks))).Settles
      ((g.rewrite (drop marks)).layout e .forward)
      (problem (g.rewrite (drop marks))).start passes' v') :
    Upheld g e v' := by
  have hv' := Problem.Settles.isSolution (p := problem (g.rewrite _)) h'
  have hover := Problem.Settles.bounded (lawful (g.rewrite (drop marks)))
    ((Graph.quadGraph_rewrite (drop_id marks)).trans he) h'
  have hsub := registers_drop_subset g marks
  have hmem : ∀ {q : Quad}, q ∈ g.quads →
      drop marks q ∈ (g.rewrite (drop marks)).quads :=
    fun hq => Graph.mem_quads_rewrite.2 ⟨_, hq, rfl⟩
  refine ⟨fun i hi side => ?_, fun a ha => ?_, fun q hq a ha n hn => ?_,
    fun q hq => ?_⟩
  · have hi' := (Graph.visits_rewrite (drop_id marks)).2 hi
    exact OrdSet.subset_trans (hover.fact i hi' side) hsub
  · rw [entry_eq hv', OrdSet.mem_eraseAll] at ha
    exact OrdSet.mem_eraseAll.2 ⟨hsub a ha.1, ha.2⟩
  · rw [← drop_id marks q] at ha hn
    exact ((mem_before_iff hv' (hmem hq)).1 ha).2 n hn
  · have hafter := after_eq hv' (hmem hq)
    rw [drop_id] at hafter
    rw [hafter]
    exact transfer_drop_subset marks q _

/-- A dropped check knew its register already. -/
theorem known_of_dispensable (hdist : g.DistinctQuads)
    (hmarks : marks = redundant passes)
    (h : (problem g).Settles (g.layout e .forward) (problem g).start passes v)
    {q : Quad} (hq : q ∈ g.quads) (hmark : q.id ∈ marks) {r : Register}
    (hinstr : q.instr = .nullCheck none r) : r ∈ v.fact .before q.id := by
  rw [hmarks, mem_redundant hdist h] at hmark
  obtain ⟨q', hq', hid, guard, r', hinstr', -, hknown⟩ := hmark
  obtain rfl := hdist.eq_of_id_eq hq' hq hid
  rw [hinstr] at hinstr'
  cases hinstr'
  exact hknown

theorem upheld_after_dropping (hdist : g.DistinctQuads)
    (hmarks : marks = redundant passes)
    (h : (problem g).Settles (g.layout e .forward) (problem g).start passes v) :
    Upheld (g.rewrite (drop marks)) e
      (v.map fun s => s.inter (g.rewrite (drop marks)).registers) := by
  have hv := Problem.Settles.isSolution (p := problem g) h
  refine ⟨fun i _ side a ha => (OrdSet.mem_inter.1 ha).2, fun a ha => ?_,
    fun q' hq' a ha n hn => ?_, fun q' hq' a ha => ?_⟩
  · obtain ⟨ha, hleft⟩ := OrdSet.mem_inter.1 ha
    rw [entry_eq hv, OrdSet.mem_eraseAll] at ha
    exact OrdSet.mem_eraseAll.2 ⟨hleft, ha.2⟩
  · obtain ⟨q, hq, rfl⟩ := Graph.mem_quads_rewrite.1 hq'
    rw [drop_id] at ha hn
    obtain ⟨ha, hleft⟩ := OrdSet.mem_inter.1 ha
    have hsent := ((mem_before_iff hv hq).1 ha).2 n hn
    cases n with
    | none => exact OrdSet.mem_inter.2 ⟨hsent, hleft⟩
    | some i => exact OrdSet.mem_inter.2 ⟨hsent, hleft⟩
  · obtain ⟨q, hq, rfl⟩ := Graph.mem_quads_rewrite.1 hq'
    rw [drop_id] at ha ⊢
    obtain ⟨ha, hleft⟩ := OrdSet.mem_inter.1 ha
    rw [after_eq hv hq] at ha
    by_cases hdrop : Dispensable marks q
    · obtain ⟨hmark, r, hinstr⟩ := id hdrop
      rw [drop_of_dispensable hdrop, transfer_nop]
      refine OrdSet.mem_inter.2 ⟨?_, hleft⟩
      rcases (mem_transfer_unguarded hinstr).1 ha with ha | rfl
      · exact ha
      · exact known_of_dispensable hdist hmarks h hq hmark hinstr
    · rw [drop_of_not_dispensable hdrop]
      rcases mem_transfer.1 ha with ⟨ha, hdef⟩ | hcheck
      · exact mem_transfer.2 (Or.inl ⟨OrdSet.mem_inter.2 ⟨ha, hleft⟩, hdef⟩)
      · exact mem_transfer.2 (Or.inr hcheck)

/-- What is known after the dropping is what was known before, as far as the
registers that are left go. -/
theorem facts_of_dropping (hdist : g.DistinctQuads) (he : g.quadGraph = .ok e)
    (hmarks : marks = redundant passes)
    (h : (problem g).Settles (g.layout e .forward) (problem g).start passes v)
    (h' : (problem (g.rewrite (drop marks))).Settles
      ((g.rewrite (drop marks)).layout e .forward)
      (problem (g.rewrite (drop marks))).start passes' v') :
    (∀ i, g.Visits i → ∀ side, v'.fact side i =
      (v.fact side i).inter (g.rewrite (drop marks)).registers) ∧
    v'.terminal .entry =
      (v.terminal .entry).inter (g.rewrite (drop marks)).registers := by
  have he' := (Graph.quadGraph_rewrite (drop_id marks)).trans he
  have hover := Problem.Settles.bounded (lawful (g.rewrite (drop marks))) he' h'
  obtain ⟨hbelow, hbelowEntry⟩ := (upheld_before_dropping he h').subset he h
  obtain ⟨habove, haboveEntry⟩ :=
    (upheld_after_dropping hdist hmarks h).subset he' h'
  constructor
  · intro i hi side
    have hi' := (Graph.visits_rewrite (drop_id marks)).2 hi
    refine OrdSet.subset_antisymm (fun a ha => ?_) (habove i hi' side)
    exact OrdSet.mem_inter.2 ⟨hbelow i hi side a ha, hover.fact i hi' side a ha⟩
  · refine OrdSet.subset_antisymm (fun a ha => ?_) haboveEntry
    exact OrdSet.mem_inter.2 ⟨hbelowEntry a ha, hover.source a ha⟩

theorem exit_of_dropping (he : g.quadGraph = .ok e)
    (hv : (problem g).IsSolution g e v)
    (hv' : (problem (g.rewrite (drop marks))).IsSolution
      (g.rewrite (drop marks)) e v')
    (hfact : ∀ i, g.Visits i → ∀ side, v'.fact side i =
      (v.fact side i).inter (g.rewrite (drop marks)).registers)
    (hentry : v'.terminal .entry =
      (v.terminal .entry).inter (g.rewrite (drop marks)).registers) :
    v'.terminal .exit =
      (v.terminal .exit).inter (g.rewrite (drop marks)).registers := by
  have hsent : ∀ n ∈ e.exitPreds, (problem g).outflow v' n =
      ((problem g).outflow v n).inter (g.rewrite (drop marks)).registers := by
    intro n hn
    cases n with
    | none => exact hentry
    | some i =>
        exact hfact i (QuadGraph.visits_of_mem_finals (d := .forward) he hn)
          .after
  refine OrdSet.ext fun a => ?_
  rw [OrdSet.mem_inter, mem_exit_iff hv, mem_exit_iff hv']
  constructor
  · rintro ⟨hleft, hall⟩
    refine ⟨⟨registers_drop_subset g marks a hleft, fun n hn => ?_⟩, hleft⟩
    have ha : a ∈ (problem g).outflow v' n := hall n hn
    rw [hsent n hn] at ha
    exact (OrdSet.mem_inter.1 ha).1
  · rintro ⟨⟨-, hall⟩, hleft⟩
    refine ⟨hleft, fun n hn => ?_⟩
    show a ∈ (problem g).outflow v' n
    rw [hsent n hn]
    exact OrdSet.mem_inter.2 ⟨hall n hn, hleft⟩

/-- The checks that are reported again are those reported before that were not
dropped. -/
theorem redundant_of_dropping (hdist : g.DistinctQuads)
    (hmarks : marks = redundant passes)
    (h : (problem g).Settles (g.layout e .forward) (problem g).start passes v)
    (h' : (problem (g.rewrite (drop marks))).Settles
      ((g.rewrite (drop marks)).layout e .forward)
      (problem (g.rewrite (drop marks))).start passes' v')
    (hfact : ∀ q ∈ g.quads, v'.fact .before q.id =
      (v.fact .before q.id).inter (g.rewrite (drop marks)).registers)
    (i : QuadId) :
    i ∈ redundant passes' ↔
      i ∈ marks ∧ ∀ q ∈ g.quads, q.id = i → ¬ Dispensable marks q := by
  have hmark : i ∈ marks ↔ i ∈ redundant passes := by rw [← hmarks]
  rw [hmark, mem_redundant (hdist.rewrite (drop_id marks)) h',
    mem_redundant hdist h]
  constructor
  · rintro ⟨q', hq', rfl, guard, r, hinstr, hguard, hknown⟩
    obtain ⟨q, hq, rfl⟩ := Graph.mem_quads_rewrite.1 hq'
    have hkept : ¬ Dispensable marks q := by
      intro hdrop
      rw [drop_of_dispensable hdrop] at hinstr
      cases hinstr
    rw [drop_of_not_dispensable hkept] at hinstr hknown ⊢
    rw [hfact q hq] at hknown
    exact
      ⟨⟨q, hq, rfl, guard, r, hinstr, hguard, (OrdSet.mem_inter.1 hknown).1⟩,
        fun q' hq' hid => hdist.eq_of_id_eq hq' hq hid ▸ hkept⟩
  · rintro ⟨⟨q, hq, rfl, guard, r, hinstr, hguard, hknown⟩, hkept⟩
    have hsame := drop_of_not_dispensable (hkept q hq rfl)
    have hmem : q ∈ (g.rewrite (drop marks)).quads :=
      Graph.mem_quads_rewrite.2 ⟨q, hq, hsame⟩
    refine ⟨q, hmem, rfl, guard, r, hinstr, hguard, ?_⟩
    rw [hfact q hq]
    refine OrdSet.mem_inter.2 ⟨hknown, ?_⟩
    refine Graph.mem_registers_of_use hmem (Quad.mem_uses_of_checked? ?_)
    rw [Quad.checked?, hinstr]

end Both

/-- When all checks without a guard that the analysis reports as redundant are
dropped at once, a second analysis knows at each point what the first knew of
the registers that are left, and reports the checks that the first reported and
that were not dropped. -/
theorem dropping_redundant_checks {g : Graph} (hends : g.HasEnds)
    (hdist : g.DistinctQuads) {s s' : State} (hs : s.inserting = false)
    (hs' : s'.inserting = false) :
    let marks := (visit s g).state.redundant
    let g' := g.rewrite (drop marks)
    ∃ stats stats' v v', (visit s g).result = .ok stats ∧
      (visit s' g').result = .ok stats' ∧
      (visit s g).state.facts.Shows g v ∧
      (visit s' g').state.facts.Shows g' v' ∧
      (∀ q ∈ g.quads, ∀ side,
        v'.fact side q.id = (v.fact side q.id).inter g'.registers) ∧
      (∀ t, v'.terminal t = (v.terminal t).inter g'.registers) ∧
      ∀ i, i ∈ (visit s' g').state.redundant ↔
        i ∈ marks ∧ ∀ q ∈ g.quads, q.id = i → ¬ Dispensable marks q := by
  intro marks g'
  obtain ⟨e, stats, passes, v, he, hresult, hshown, hmarks, -, hsettles⟩ :=
    visit_settles hends hdist hs
  have hdist' : g'.DistinctQuads := hdist.rewrite (drop_id marks)
  obtain ⟨e', stats', passes', v', he', hresult', hshown', hmarks', -,
    hsettles'⟩ :=
    visit_settles (hends.rewrite (drop marks)) hdist' hs'
  rw [Graph.quadGraph_rewrite (drop_id marks), he] at he'
  cases he'
  obtain ⟨hfact, hentry⟩ :=
    facts_of_dropping hdist he hmarks hsettles hsettles'
  have hexit := exit_of_dropping he (Problem.Settles.isSolution hsettles)
    (Problem.Settles.isSolution hsettles') hfact hentry
  have hfact : ∀ q ∈ g.quads, ∀ side,
      v'.fact side q.id = (v.fact side q.id).inter g'.registers :=
    fun q hq side => hfact q.id ⟨q, hq, rfl⟩ side
  refine ⟨stats, stats', v, v', hresult, hresult', hshown, hshown', hfact,
    fun t => ?_, fun i => ?_⟩
  · cases t with
    | entry => exact hentry
    | exit => exact hexit
  · rw [hmarks']
    exact redundant_of_dropping hdist hmarks hsettles hsettles'
      (fun q hq => hfact q hq .before) i

/-- The check inside the small loop is dropped, and what is known behind it
stays known. -/
theorem dropping_redundant_checks_smallLoop :
    Graph.smallLoop.HasEnds ∧ Graph.smallLoop.DistinctQuads ∧
      (State.fresh false).inserting = false ∧
      ⟨2⟩ ∈ (visit (.fresh false) .smallLoop).state.redundant ∧
      let g' := Graph.smallLoop.rewrite
        (drop (visit (.fresh false) .smallLoop).state.redundant)
      ⟨2⟩ ∉ (visit (.fresh false) g').state.redundant ∧
      ∃ v v', (visit (.fresh false) .smallLoop).state.facts.Shows .smallLoop v ∧
        (visit (.fresh false) g').state.facts.Shows g' v' ∧
        v'.fact .before ⟨3⟩ = (v.fact .before ⟨3⟩).inter g'.registers := by
  have hreported : ⟨2⟩ ∈ (visit (.fresh false) .smallLoop).state.redundant := by
    decide +kernel
  have hfresh : (State.fresh false).inserting = false := rfl
  refine ⟨by decide, by decide, hfresh, hreported, ?_⟩
  obtain ⟨-, -, v, v', -, -, hshown, hshown', hfact, -, hmarks⟩ :=
    dropping_redundant_checks (g := .smallLoop) (by decide) (by decide)
      hfresh hfresh
  let check : Quad := ⟨⟨2⟩, .nullCheck none ⟨"R0"⟩⟩
  let move : Quad := ⟨⟨3⟩, .move ⟨"R1"⟩ (.reg ⟨"R0"⟩)⟩
  refine ⟨fun hmem => ?_, v, v', hshown, hshown',
    hfact move (by decide) .before⟩
  exact ((hmarks ⟨2⟩).1 hmem).2 check (by decide) rfl ⟨hreported, _, rfl⟩

end Dataflow.NonNull
