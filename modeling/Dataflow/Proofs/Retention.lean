import Dataflow.Proofs.Redundancy
import Dataflow.Proofs.SplitHops

/-!
# Inserted checks take no knowledge away

Checks are inserted on edges where the analysis cannot tell what the branch in
front has found out, so afterwards it should know more. But an inserted check is
a copy of the first, and if that defines a guard the copy does so too. This file
shows that the guard is all that can be lost: what is known at a quad before the
insertion, apart from the guard, is known there after it, and so the checks that
were redundant stay so.

The facts of the two methods are not computed from each other. The facts of the
first, without the guard, are carried over to the second, where the new check is
given what was known after its branch. There they bear each other out, because a
hop of the second method is a hop of the first up to taking the check for its
branch, and the check itself adds a register and takes away the guard. The
solver finds the best facts of the second method, and these lie above.
-/

namespace Dataflow

/-- Facts carried over a split: both sides of the new check are given what is
known after the branch in front of it. -/
def Splice.carry (p : Splice) (w : Valuation Register) : Valuation Register :=
  { w with fact := fun side i =>
      if i = p.check then w.fact .after p.site.branch else w.fact side i }

theorem Splice.carry_of_ne {p : Splice} {i : QuadId} (hi : i ≠ p.check)
    (w : Valuation Register) (side : Side) :
    (p.carry w).fact side i = w.fact side i :=
  if_neg hi

theorem Splice.carry_check (p : Splice) (w : Valuation Register) (side : Side) :
    (p.carry w).fact side p.check = w.fact .after p.site.branch :=
  if_pos rfl

theorem Graph.Split.registers_subset {g g' : Graph} {guard : Option Register}
    {p : Splice} (hg : g.WellFormed) (h : g.Split guard p g') :
    g.registers ⊆ g'.registers := by
  intro r hr
  rcases mem_registers.1 hr with hparam | ⟨q, hq, hr⟩
  · refine mem_registers.2 (Or.inl ?_)
    rwa [params, h.method]
  · obtain ⟨t, ht⟩ := h.exists_retarget_mem hg hq
    exact mem_registers.2 (Or.inr ⟨_, ht, by simpa using hr⟩)

namespace NonNull

variable {g g' : Graph} {e e' : QuadGraph} {guard : Option Register}
  {p : Splice} {w : Valuation Register}

theorem transfer_retarget (q : Quad) (t : BlockId) (s : OrdSet Register) :
    transfer (q.retarget t) s = transfer q s := by
  refine OrdSet.ext fun r => ?_
  simp only [mem_transfer, Quad.defs_retarget, Quad.checked?_retarget]

theorem outflow_carry (w : Valuation Register) (n : Neighbour) :
    (problem g').outflow (p.carry w) n =
      (problem g).outflow w (p.origin n) := by
  cases n with
  | none => rfl
  | some i =>
      show (p.carry w).fact .after i =
        w.fact .after (if i = p.check then p.site.branch else i)
      by_cases hi : i = p.check
      · rw [hi, if_pos rfl, p.carry_check]
      · rw [if_neg hi, Splice.carry_of_ne hi]

/-- No fact speaks of the guard. -/
def Avoids (guard : Option Register) (w : Valuation Register) : Prop :=
  ∀ side i, ∀ r ∈ w.fact side i, guard ≠ some r

theorem Avoids.carry (h : Avoids guard w) (p : Splice) :
    Avoids guard (p.carry w) := by
  intro side i
  by_cases hi : i = p.check
  · rw [hi, p.carry_check]
    exact h .after p.site.branch
  · rw [Splice.carry_of_ne hi]
    exact h side i

/-! ## One split -/

theorem upheld_split_within (hg : g.WellFormed) (h : g.Split guard p g')
    (hw : Upheld g e w) {i : QuadId} (hi : g'.Visits i) (side : Side) :
    (p.carry w).fact side i ⊆ g'.registers := by
  obtain ⟨q, hq, rfl⟩ := hi
  rcases h.quad_cases hg hq with ⟨rfl, hbranch⟩ | ⟨q₀, hq₀, t, rfl⟩
  · rw [p.carry_check]
    exact OrdSet.subset_trans (hw.within _ hbranch .after)
      (h.registers_subset hg)
  · rw [Quad.id_retarget, Splice.carry_of_ne (h.ne_check_of_mem hg hq₀)]
    exact OrdSet.subset_trans (hw.within _ ⟨q₀, hq₀, rfl⟩ side)
      (h.registers_subset hg)

/-- What is carried to a quad is sent there by everything that hops to it. -/
theorem upheld_split_before (hg : g.WellFormed) (h : g.Split guard p g')
    (he : g.quadGraph = .ok e) (hw : Upheld g e w) {q : Quad}
    (hq : q ∈ g'.quads) {n : Neighbour} (hop : g'.Hop n (some q.id)) :
    (p.carry w).fact .before q.id ⊆ (problem g).outflow w (p.origin n) := by
  rcases h.hop_cases hg hop with ⟨rfl, hid⟩ | ⟨hne, hold⟩
  · rw [Option.some.inj hid, p.carry_check, p.origin_branch]
    exact OrdSet.subset_refl _
  · rcases h.quad_cases hg hq with ⟨rfl, -⟩ | ⟨q₀, hq₀, t, rfl⟩
    · exact absurd rfl hne
    · rw [Quad.id_retarget] at hold ⊢
      rw [Splice.carry_of_ne (h.ne_check_of_mem hg hq₀)]
      exact fun a ha => hw.before q₀ hq₀ a ha _
        ((hg.regular.mem_preds_iff he).2 hold)

theorem upheld_split_after (hg : g.WellFormed) (h : g.Split guard p g')
    (hw : Upheld g e w) (havoid : Avoids guard w) {q : Quad}
    (hq : q ∈ g'.quads) :
    (p.carry w).fact .after q.id ⊆
      transfer q ((p.carry w).fact .before q.id) := by
  rcases h.quad_cases hg hq with ⟨rfl, -⟩ | ⟨q₀, hq₀, t, rfl⟩
  · rw [p.carry_check, p.carry_check]
    intro a ha
    refine mem_transfer.2 (Or.inl ⟨ha, fun hdef => ?_⟩)
    exact havoid .after p.site.branch a ha (Option.mem_toList.1 hdef)
  · have hne := h.ne_check_of_mem hg hq₀
    rw [transfer_retarget, Quad.id_retarget, Splice.carry_of_ne hne,
      Splice.carry_of_ne hne]
    exact hw.after q₀ hq₀

/-- Facts that bear each other out and do not speak of the guard still do so
when they are carried over a split. -/
theorem Upheld.split (hw : Upheld g e w) (hg : g.WellFormed)
    (h : g.Split guard p g') (he : g.quadGraph = .ok e)
    (he' : g'.quadGraph = .ok e') (havoid : Avoids guard w) :
    Upheld g' e' (p.carry w) := by
  have hregular := (h.wellFormed hg).regular
  refine ⟨fun i hi => upheld_split_within hg h hw hi, fun a ha => ?_,
    fun q hq a ha n hn => ?_, fun q hq => upheld_split_after hg h hw havoid hq⟩
  · obtain ⟨ha, hparam⟩ := OrdSet.mem_eraseAll.1 (hw.entry a ha)
    refine OrdSet.mem_eraseAll.2 ⟨h.registers_subset hg a ha, ?_⟩
    rwa [Graph.params, h.method]
  · rw [outflow_carry (g := g)]
    have hop := (hregular.mem_preds_iff he').1 hn
    exact upheld_split_before hg h he hw hq hop a ha

/-! ## A run of splits -/

theorem Upheld.splits {plan : List Splice} (h : Graph.Splits guard g plan g')
    (hready : g.Ready (plan.map Splice.site)) (he : g.quadGraph = .ok e)
    (he' : g'.quadGraph = .ok e') (hw : Upheld g e w)
    (havoid : Avoids guard w) :
    ∃ w', Upheld g' e' w' ∧
      ∀ i, g.Visits i → ∀ side, w'.fact side i = w.fact side i := by
  induction h generalizing e w with
  | nil =>
      rw [he] at he'
      cases he'
      exact ⟨w, hw, fun i _ side => rfl⟩
  | @cons g g₁ g' p rest hsplit _ ih =>
      have hg := hready.wellFormed
      have hready₁ := hready.step hsplit
      obtain ⟨e₁, he₁⟩ := hready₁.wellFormed.proper.ends.quadGraph_ok
      obtain ⟨w', hw', hsame⟩ := ih hready₁ he₁ he'
        (hw.split hg hsplit he he₁ havoid) (havoid.carry p)
      refine ⟨w', hw', fun i hi side => ?_⟩
      obtain ⟨q, hq, rfl⟩ := hi
      obtain ⟨t, ht⟩ := hsplit.exists_retarget_mem hg hq
      rw [hsame q.id ⟨_, ht, q.id_retarget t⟩ side,
        Splice.carry_of_ne (hsplit.ne_check_of_mem hg hq)]

/-! ## The insertion -/

/-- What the analysis finds bears itself out, also without the guard. -/
theorem upheld_without {v : Valuation Register} {passes : List (Pass Register)}
    (he : g.quadGraph = .ok e)
    (h : (problem g).Settles (g.layout e .forward) (problem g).start passes v)
    (guard : Option Register) :
    Upheld g e (v.map (·.eraseAll guard.toList)) := by
  have hv := Problem.Settles.isSolution (p := problem g) h
  have hover := Problem.Settles.bounded (lawful g) he h
  refine ⟨fun i hi side a ha => ?_, fun a ha => ?_, fun q hq a ha n hn => ?_,
    fun q hq a ha => ?_⟩
  · exact hover.fact i hi side a (OrdSet.mem_eraseAll.1 ha).1
  · rw [← entry_eq hv]
    exact (OrdSet.mem_eraseAll.1 ha).1
  · obtain ⟨ha, hother⟩ := OrdSet.mem_eraseAll.1 ha
    have hsent := ((mem_before_iff hv hq).1 ha).2 n hn
    cases n with
    | none => exact OrdSet.mem_eraseAll.2 ⟨hsent, hother⟩
    | some i => exact OrdSet.mem_eraseAll.2 ⟨hsent, hother⟩
  · obtain ⟨ha, hother⟩ := OrdSet.mem_eraseAll.1 ha
    rw [after_eq hv hq] at ha
    rcases mem_transfer.1 ha with ⟨ha, hdef⟩ | hcheck
    · exact mem_transfer.2 (Or.inl ⟨OrdSet.mem_eraseAll.2 ⟨ha, hother⟩, hdef⟩)
    · exact mem_transfer.2 (Or.inr hcheck)

theorem avoids_without (v : Valuation Register) (guard : Option Register) :
    Avoids guard (v.map (·.eraseAll guard.toList)) := by
  intro side i r hr hguard
  exact (OrdSet.mem_eraseAll.1 hr).2 (Option.mem_toList.2 hguard)

theorem splits_of_insertChecks {stats : CheckStats} (hg : g.WellFormed)
    (h : g.insertChecks.result = .ok stats) :
    ∃ plan, g.Ready (plan.map Splice.site) ∧
      Graph.Splits g.templateGuard?.join g plan g.insertChecks.graph := by
  obtain ⟨plan, hplan, hsplits⟩ := hg.insertChecks_plan h
  exact ⟨plan, hplan ▸ hg.ready, hsplits⟩

section Both

variable {plan : List Splice} {v v' : Valuation Register}
  {passes passes' : List (Pass Register)}

/-- What was known before a quad is known there after a run of splits, but for
the guard. -/
theorem known_of_splits (h : Graph.Splits guard g plan g')
    (hready : g.Ready (plan.map Splice.site)) (he : g.quadGraph = .ok e)
    (he' : g'.quadGraph = .ok e')
    (hsettles : (problem g).Settles (g.layout e .forward)
      (problem g).start passes v)
    (hsettles' : (problem g').Settles (g'.layout e' .forward) (problem g').start
      passes' v') {q : Quad} (hq : q ∈ g.quads) :
    g'.Visits q.id ∧
      ∀ r ∈ v.fact .before q.id, guard ≠ some r → r ∈ v'.fact .before q.id := by
  obtain ⟨t, ht⟩ := h.exists_retarget_mem hready hq
  have hvisits : g'.Visits q.id := ⟨_, ht, q.id_retarget t⟩
  obtain ⟨w, hw, hsame⟩ := Upheld.splits h hready he he'
    (upheld_without he hsettles guard) (avoids_without v guard)
  refine ⟨hvisits, fun r hr hne => ?_⟩
  refine (hw.subset he' hsettles').1 q.id hvisits .before r ?_
  rw [hsame q.id ⟨q, hq, rfl⟩]
  exact OrdSet.mem_eraseAll.2 ⟨hr, fun hmem => hne (Option.mem_toList.1 hmem)⟩

/-- A check has no target, so it is the same quad in both methods, and it is
reported in the second if its register is known there. -/
theorem redundant_of_splits (h : Graph.Splits guard g plan g')
    (hready : g.Ready (plan.map Splice.site)) (hdist : g.DistinctQuads)
    (hdist' : g'.DistinctQuads)
    (hsettles : (problem g).Settles (g.layout e .forward)
      (problem g).start passes v)
    (hsettles' : (problem g').Settles (g'.layout e' .forward) (problem g').start
      passes' v') {i : QuadId} (hi : i ∈ redundant passes)
    (hknown : ∀ q ∈ g.quads, q.id = i → ∀ own r, q.instr = .nullCheck own r →
      r ∈ v.fact .before i → r ∈ v'.fact .before i) :
    i ∈ redundant passes' := by
  obtain ⟨q, hq, rfl, own, r, hinstr, hown, hr⟩ :=
    (mem_redundant hdist hsettles).1 hi
  obtain ⟨t, ht⟩ := h.exists_retarget_mem hready hq
  have hchecked : q.checked? = some r := by rw [Quad.checked?, hinstr]
  rw [Quad.retarget_of_checked? hchecked] at ht
  exact (mem_redundant hdist' hsettles').2
    ⟨q, ht, rfl, own, r, hinstr, hown, hknown q hq rfl own r hinstr hr⟩

end Both

/-- When checks have been inserted, every quad that was visited still is. What
the analysis knew before it, apart from the guard that the inserted checks
define, it still knows. So a check that was reported is reported again, unless
it checks the guard; without a guard all are. -/
theorem insertion_keeps_known {g : Graph} (hg : g.Assembled)
    {stats : CheckStats} (hresult : g.insertChecks.result = .ok stats)
    {s s' : State} (hs : s.inserting = false) (hs' : s'.inserting = false) :
    let g' := g.insertChecks.graph
    let guard := g.templateGuard?.join
    ∃ stats₁ stats₂ v v', (visit s g).result = .ok stats₁ ∧
      (visit s' g').result = .ok stats₂ ∧
      (visit s g).state.facts.Shows g v ∧
        (visit s' g').state.facts.Shows g' v' ∧
      (∀ q ∈ g.quads, g'.Visits q.id ∧
        ∀ r ∈ v.fact .before q.id, guard ≠ some r → r ∈ v'.fact .before q.id) ∧
      (∀ q ∈ g.quads, ∀ own r, q.instr = .nullCheck own r → guard ≠ some r →
        q.id ∈ (visit s g).state.redundant →
          q.id ∈ (visit s' g').state.redundant) ∧
      (guard = none →
        ∀ i ∈ (visit s g).state.redundant,
          i ∈ (visit s' g').state.redundant) := by
  intro g' guard
  have hwell := hg.wellFormed
  have hregular := hwell.regular
  have hregular' : g'.Regular := (hwell.insertChecks hresult).regular
  obtain ⟨e, stats₁, passes, v, he, hresult₁, hshown, hmarks, -,
    hsettles⟩ :=
    visit_settles hregular.ends hregular.distinct hs
  obtain ⟨e', stats₂, passes', v', he', hresult₂, hshown', hmarks', -,
    hsettles'⟩ :=
    visit_settles hregular'.ends hregular'.distinct hs'
  obtain ⟨plan, hready, hsplits⟩ := splits_of_insertChecks hwell hresult
  have hknown : ∀ q ∈ g.quads, g'.Visits q.id ∧
      ∀ r ∈ v.fact .before q.id, guard ≠ some r → r ∈ v'.fact .before q.id :=
    fun q hq => known_of_splits hsplits hready he he' hsettles hsettles' hq
  refine ⟨stats₁, stats₂, v, v', hresult₁, hresult₂, hshown, hshown', hknown,
    fun q hq own r hinstr hne hi => ?_, fun hnone i hi => ?_⟩
  · rw [hmarks] at hi
    rw [hmarks']
    refine redundant_of_splits hsplits hready hregular.distinct
      hregular'.distinct hsettles hsettles' hi
      fun q' hq' hid own' r' hinstr' hr => ?_
    obtain rfl := hregular.distinct.eq_of_id_eq hq' hq hid
    rw [hinstr] at hinstr'
    cases hinstr'
    exact (hknown q' hq').2 r hr hne
  · rw [hmarks] at hi
    rw [hmarks']
    refine redundant_of_splits hsplits hready hregular.distinct
      hregular'.distinct hsettles hsettles' hi fun q hq hid own r _ hr => ?_
    subst hid
    exact (hknown q hq).2 r hr (by rw [hnone]; exact nofun)

/-- A loop around one block, which leaves it when its parameter is null. The
first check defines a guard, and the one inside the loop repeats it. -/
def guardedLoop : Graph where
  method := ⟨"loop", [⟨"R0"⟩]⟩
  blocks := .ofList [
    (.entry, ⟨.entry, [], [], [⟨2⟩]⟩),
    (.exit, ⟨.exit, [], [⟨2⟩, ⟨3⟩], []⟩),
    (⟨2⟩, ⟨⟨2⟩, [⟨⟨1⟩, .nullCheck (some ⟨"G"⟩) ⟨"R0"⟩⟩,
      ⟨⟨2⟩, .branch (.reg ⟨"R0"⟩) (.const .null) .eq .exit⟩],
      [.entry], [⟨3⟩, .exit]⟩),
    (⟨3⟩, ⟨⟨3⟩, [⟨⟨3⟩, .nullCheck none ⟨"R0"⟩⟩,
      ⟨⟨4⟩, .branch (.const .null) (.reg ⟨"R0"⟩) .ne ⟨3⟩⟩],
      [⟨2⟩, ⟨3⟩], [⟨3⟩, .exit]⟩)]
  nextQuad := 5
  nextBlock := 4

/-- The commands that make it. -/
def guardedLoopScript : List Command :=
  [.param ⟨"R0"⟩, .block, .block,
    .push ⟨2⟩ (.nullCheck (some ⟨"G"⟩) ⟨"R0"⟩),
    .push ⟨2⟩ (.branch (.reg ⟨"R0"⟩) (.const .null) .eq .exit),
    .push ⟨3⟩ (.nullCheck none ⟨"R0"⟩),
    .push ⟨3⟩ (.branch (.const .null) (.reg ⟨"R0"⟩) .ne ⟨3⟩),
    .edge .entry ⟨2⟩, .edge ⟨2⟩ ⟨3⟩, .edge ⟨2⟩ .exit, .edge ⟨3⟩ ⟨3⟩,
    .edge ⟨3⟩ .exit]

/-- Both ways into the loop are split, and the check inside stays redundant. -/
theorem insertion_keeps_known_guardedLoop :
    Graph.build "loop" guardedLoopScript = .ok guardedLoop ∧
      guardedLoop.insertChecks.result = .ok ⟨2, 2, 0⟩ ∧
      guardedLoop.templateGuard? = some (some ⟨"G"⟩) ∧
      (State.fresh false).inserting = false ∧
      ⟨3⟩ ∈ (visit (.fresh false) guardedLoop).state.redundant ∧
      ⟨3⟩ ∈ (visit (.fresh false)
        guardedLoop.insertChecks.graph).state.redundant := by
  have hbuild : Graph.build "loop" guardedLoopScript = .ok guardedLoop := rfl
  have hresult : guardedLoop.insertChecks.result = .ok ⟨2, 2, 0⟩ := rfl
  have hguard : guardedLoop.templateGuard? = some (some ⟨"G"⟩) := rfl
  have hfresh : (State.fresh false).inserting = false := rfl
  have hreported :
      ⟨3⟩ ∈ (visit (.fresh false) guardedLoop).state.redundant := by
    decide +kernel
  obtain ⟨-, -, v, v', -, -, -, -, -, hchecks, -⟩ :=
    insertion_keeps_known (.built hbuild) hresult hfresh hfresh
  let check : Quad := ⟨⟨3⟩, .nullCheck none ⟨"R0"⟩⟩
  exact ⟨hbuild, hresult, hguard, hfresh, hreported,
    hchecks check (by decide) none ⟨"R0"⟩ rfl (by decide) hreported⟩

end NonNull

end Dataflow
