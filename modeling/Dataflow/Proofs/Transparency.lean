import Dataflow.Proofs.FaintRemoval
import Dataflow.Proofs.Liveness
import Dataflow.Proofs.ReachingDefinitions
import Dataflow.Proofs.Retention

/-!
# Inserted checks without a guard do not show

A null check that defines no guard uses its register and does nothing else. Put
on the edge behind a branch that compares the same register with null, it should
not be noticed by an analysis of definitions or of live registers, except at the
one point between the branch and the check. This file shows that it is not.

The two methods have different quads and different fixpoints, and an inserted
check may stand inside a loop, so the facts are not compared sweep by sweep.
Facts joined by union are the least that take in all that is sent to them
(`Saturated`), so it is enough to carry the facts of each method over to the
other and to see that they take in everything there too. From the method with
the check to the one without nothing has to be done: a hop that is no longer
there went over the check, which hands on all it is given. The other way the
check is given what stands after its branch, and what it adds is put before it
and after the branch (`Splice.lift`). There it stays, because the branch uses
the register itself.

What the argument asks of an analysis is put together in `Lucid`, for either
direction of flow, and the three analyses are shown to be lucid at the end.
-/

namespace Dataflow

/-! ## Facts that take in all that is sent -/

namespace Graph

/-- Facts pass from one neighbour to another, with control or against it. -/
def Feeds (g : Graph) : Direction → Neighbour → Neighbour → Prop
  | .forward, m, n => g.Hop m n
  | .backward, m, n => g.Hop n m

variable {g : Graph} {e : QuadGraph} {d : Direction} {i : QuadId}
  {n : Neighbour}

theorem Regular.mem_origins_iff (hg : g.Regular) (he : g.quadGraph = .ok e) :
    n ∈ e.origins d i ↔ g.Feeds d n (some i) := by
  cases d with
  | forward => exact hg.mem_preds_iff he
  | backward => exact hg.mem_succs_iff he

theorem Regular.mem_finals_iff (hg : g.Regular) (he : g.quadGraph = .ok e) :
    n ∈ e.finals d ↔ g.Feeds d n none := by
  cases d with
  | forward => exact hg.mem_exitPreds_iff he
  | backward => exact hg.mem_entrySuccs_iff he

theorem Regular.visits_of_feeds (hg : g.Regular) (he : g.quadGraph = .ok e)
    (h : g.Feeds d n (some i)) : g.Visits i := by
  cases d with
  | forward => exact visits_of_mem_preds he ((hg.mem_preds_iff he).2 h)
  | backward => exact visits_of_mem_succs he ((hg.mem_succs_iff he).2 h)

end Graph

namespace Problem

variable {α : Type} [Element α]

/-- The fact that arrives at a neighbour under a valuation; at the end of the
method that is the fact at the target. -/
def intake (p : Problem α) (v : Valuation α) : Neighbour → OrdSet α
  | some i => v.fact p.direction.arrival i
  | none => v.terminal p.direction.target

/-- Every fact takes in all that is sent to it. Of such valuations the solver's
is the least, when facts are joined by union. -/
structure Saturated (p : Problem α) (g : Graph) (w : Valuation α) : Prop where
  within : ∀ i, g.Visits i → ∀ side, w.fact side i ⊆ p.domain
  source : w.terminal p.direction.source = p.atSource
  intake : ∀ m n, g.Feeds p.direction m n → p.outflow w m ⊆ p.intake w n
  transfer : ∀ q ∈ g.quads, p.transfer q (w.fact p.direction.arrival q.id) ⊆
    w.fact p.direction.departure q.id

variable [DecidableEq α] {p : Problem α} {g : Graph} {e : QuadGraph}
  {v w : Valuation α} {passes : List (Pass α)}

theorem Settles.saturated (hunion : p.meet = .union) (hlaw : p.Lawful g)
    (hg : g.Regular) (he : g.quadGraph = .ok e)
    (h : p.Settles (g.layout e p.direction) p.start passes v) :
    p.Saturated g v := by
  have hv := h.isSolution
  refine ⟨(h.bounded hlaw he).fact, hv.source, fun m n hfeeds => ?_,
    fun q hq => ?_⟩
  · cases n with
    | none =>
        intro a ha
        rw [Problem.intake, hv.target]
        exact (mem_inflow_union hunion).2
          ⟨m, (hg.mem_finals_iff he).2 hfeeds, ha⟩
    | some i =>
        obtain ⟨q, hq, rfl⟩ := hg.visits_of_feeds he hfeeds
        intro a ha
        rw [Problem.intake, hv.arrival q hq]
        exact (mem_inflow_union hunion).2
          ⟨m, (hg.mem_origins_iff he).2 hfeeds, ha⟩
  · rw [hv.departure q hq]
    exact OrdSet.subset_refl _

/-- The solver puts nothing into a fact that is not in that of every saturated
valuation. -/
theorem Settles.subset_of_saturated (hunion : p.meet = .union)
    (hlaw : p.Lawful g) (hg : g.Regular) (he : g.quadGraph = .ok e)
    (h : p.Settles (g.layout e p.direction) p.start passes v)
    (hw : p.Saturated g w) :
    (∀ i, g.Visits i → ∀ side, v.fact side i ⊆ w.fact side i) ∧
      v.terminal p.direction.target ⊆ w.terminal p.direction.target := by
  have hsource : w.terminal p.direction.source ⊆ p.domain :=
    hw.source ▸ hlaw.source
  have htenable : p.Tenable g e w := by
    refine ⟨⟨hw.within, hsource⟩, fun q hq => ?_, fun q hq => ?_⟩
    · rw [hunion, Meet.below_union]
      intro a ha
      obtain ⟨n, hn, ha⟩ := (mem_inflow_union hunion).1 ha
      exact hw.intake n (some q.id) ((hg.mem_origins_iff he).1 hn) a ha
    · rw [hunion, Meet.below_union]
      exact hw.transfer q hq
  have hunder := h.above hlaw he htenable (hw.source ▸ Meet.below_refl _ _)
  have hfact : ∀ i, g.Visits i → ∀ side, v.fact side i ⊆ w.fact side i := by
    intro i hi side
    have hbelow := hunder.fact i hi side
    rwa [hunion, Meet.below_union] at hbelow
  refine ⟨hfact, fun a ha => ?_⟩
  rw [h.isSolution.target] at ha
  obtain ⟨n, hn, ha⟩ := (mem_inflow_union hunion).1 ha
  refine hw.intake n none ((hg.mem_finals_iff he).1 hn) a ?_
  cases n with
  | none => rwa [outflow, h.isSolution.source, ← hw.source] at ha
  | some i => exact hfact i (QuadGraph.visits_of_mem_finals he hn) _ a ha

end Problem

/-! ## Analyses that a check hardly changes -/

/-- An analysis that a null check without a guard is all but transparent to: it
lets everything through and adds what depends on its register alone, and a
branch that compares that register with null adds as much by itself. With
control it adds nothing. -/
structure Lucid {α : Type} [Element α] (problem : Graph → Problem α)
    (extra : Register → OrdSet α) : Prop where
  union : ∀ g, (problem g).meet = .union
  lawful : ∀ g, (problem g).Lawful g
  retarget : ∀ g q t x,
    (problem g).transfer (q.retarget t) x = (problem g).transfer q x
  check : ∀ g i r x,
    (problem g).transfer ⟨i, .nullCheck none r⟩ x = x.union (extra r)
  branch : ∀ g q r cond, q.nullTest? = some (r, cond) → ∀ x,
    (problem g).transfer q (x.union (extra r)) ⊆ (problem g).transfer q x
  forward : ∀ g, (problem g).direction = .forward → ∀ r, extra r = ∅
  split : ∀ {g g' : Graph} {p : Splice}, g.WellFormed → g.Split none p g' →
    problem g' = problem g

/-- Facts carried over a split: the new check is given what stands after the
branch in front of it, and what the check adds is put before it and after the
branch. -/
def Splice.lift {α : Type} [Element α] (p : Splice) (extra : OrdSet α)
    (w : Valuation α) : Valuation α :=
  { w with fact := fun side i =>
      if i = p.check then
        if side = .after then w.fact .after p.site.branch
        else (w.fact .after p.site.branch).union extra
      else if i = p.site.branch ∧ side = .after then (w.fact side i).union extra
      else w.fact side i }

namespace Splice

variable {α : Type} [Element α] {p : Splice} {extra : OrdSet α}
  {w : Valuation α} {i : QuadId} {a : α}

theorem lift_before (hi : i ≠ p.check) :
    (p.lift extra w).fact .before i = w.fact .before i := by
  simp [lift, hi]

theorem lift_before_check :
    (p.lift extra w).fact .before p.check =
      (w.fact .after p.site.branch).union extra := by
  simp [lift]

theorem lift_after_check :
    (p.lift extra w).fact .after p.check = w.fact .after p.site.branch := by
  simp [lift]

theorem mem_lift_after (hi : i ≠ p.check) :
    a ∈ (p.lift extra w).fact .after i ↔
      a ∈ w.fact .after i ∨ (p.site.branch = i ∧ a ∈ extra) := by
  by_cases hb : i = p.site.branch
  · simp [lift, hi, ← hb]
  · simp [lift, hi, hb, Ne.symm hb]

end Splice

namespace Lucid

variable {α : Type} [Element α] {problem : Graph → Problem α}
  {extra : Register → OrdSet α} {g g' : Graph} {p : Splice} {m n : Neighbour}

/-! ## One split -/

theorem feeds_split (hg : g.WellFormed) (h : g.Split none p g') {d : Direction}
    (hfeeds : g.Feeds d m n) :
    g'.Feeds d m n ∨ (p.site.block ∈ g.programOrder ∧
      g'.Feeds d m (some p.check) ∧ g'.Feeds d (some p.check) n) := by
  cases d with
  | forward =>
      refine (h.hop_split hg hfeeds).imp_right fun hnew => ?_
      obtain ⟨hb, rfl, hop⟩ := hnew
      exact ⟨hb, h.hop_branch_check hg hb, hop⟩
  | backward =>
      refine (h.hop_split hg hfeeds).imp_right fun hnew => ?_
      obtain ⟨hb, rfl, hop⟩ := hnew
      exact ⟨hb, hop, h.hop_branch_check hg hb⟩

section Back

variable {w : Valuation α}

/-- The check sends on what it takes in, and what it adds. -/
theorem check_sends (hP : Lucid problem extra) (hg : g.WellFormed)
    (h : g.Split none p g') (hw : (problem g).Saturated g' w)
    (hb : p.site.block ∈ g.programOrder) :
    ((problem g).intake w (some p.check)).union (extra p.site.register) ⊆
      (problem g).outflow w (some p.check) := by
  have hsent := hw.transfer _ (h.check_mem hg hb)
  rwa [hP.check] at hsent

/-- A valuation that is saturated after the split was so before. -/
theorem saturated_of_split (hP : Lucid problem extra) (hg : g.WellFormed)
    (h : g.Split none p g') (hw : (problem g).Saturated g' w) :
    (problem g).Saturated g w := by
  refine ⟨fun i hi => ?_, hw.source, fun m n hfeeds => ?_, fun q hq => ?_⟩
  · obtain ⟨q, hq, rfl⟩ := hi
    obtain ⟨t, ht⟩ := h.exists_retarget_mem hg hq
    exact hw.within q.id ⟨_, ht, q.id_retarget t⟩
  · rcases feeds_split hg h hfeeds with hfeeds | ⟨hb, hto, hfrom⟩
    · exact hw.intake m n hfeeds
    · intro a ha
      refine hw.intake _ n hfrom a (hP.check_sends hg h hw hb a ?_)
      exact OrdSet.mem_union.2 (Or.inl (hw.intake m _ hto a ha))
  · obtain ⟨t, ht⟩ := h.exists_retarget_mem hg hq
    have hsent := hw.transfer _ ht
    rwa [hP.retarget, Quad.id_retarget] at hsent

/-- Against control, what the check adds comes to the branch. -/
theorem extra_subset_after (hP : Lucid problem extra) (hg : g.WellFormed)
    (h : g.Split none p g') (hw : (problem g).Saturated g' w)
    (hb : p.site.block ∈ g.programOrder) :
    extra p.site.register ⊆ w.fact .after p.site.branch := by
  cases hd : (problem g).direction with
  | forward =>
      rw [hP.forward g hd]
      exact OrdSet.empty_subset _
  | backward =>
      have hfeeds :
          g'.Feeds (problem g).direction (some p.check)
            (some p.site.branch) := by
        rw [hd]
        exact h.hop_branch_check hg hb
      intro a ha
      have hsent := hw.intake _ _ hfeeds a
        (hP.check_sends hg h hw hb a (OrdSet.mem_union.2 (Or.inr ha)))
      rwa [Problem.intake, hd] at hsent

end Back

section Forth

variable {v : Valuation α}

theorem extra_subset_domain (hP : Lucid problem extra) (hg : g.WellFormed)
    (h : g.Split none p g') {q : Quad} (hq : q ∈ g.quads)
    (hid : q.id = p.site.branch) :
    extra p.site.register ⊆ (problem g).domain := by
  have hcheck := h.check_mem hg (h.site_mem_programOrder hg hq hid)
  have hclosed := (hP.lawful g').closed _ hcheck ∅ (OrdSet.empty_subset _)
  rw [hP.check, hP.split hg h] at hclosed
  exact fun a ha => hclosed a (OrdSet.mem_union.2 (Or.inr ha))

theorem lift_within (hP : Lucid problem extra) (hg : g.WellFormed)
    (h : g.Split none p g') (hv : (problem g).Saturated g v) {i : QuadId}
    (hi : g'.Visits i) (side : Side) :
    (p.lift (extra p.site.register) v).fact side i ⊆ (problem g).domain := by
  obtain ⟨q, hq, rfl⟩ := hi
  rcases h.quad_cases hg hq with ⟨rfl, hbranch⟩ | ⟨q₀, hq₀, t, rfl⟩
  · obtain ⟨branch, hmem, hid⟩ := hbranch
    have hafter := hv.within _ ⟨branch, hmem, hid⟩ .after
    cases side with
    | before =>
        rw [Splice.lift_before_check]
        intro a ha
        exact (OrdSet.mem_union.1 ha).elim (hafter a)
          (hP.extra_subset_domain hg h hmem hid a)
    | after =>
        rw [Splice.lift_after_check]
        exact hafter
  · have hne := h.ne_check_of_mem hg hq₀
    rw [Quad.id_retarget]
    cases side with
    | before =>
        rw [Splice.lift_before hne]
        exact hv.within _ ⟨q₀, hq₀, rfl⟩ .before
    | after =>
        intro a ha
        rcases (Splice.mem_lift_after hne).1 ha with ha | ⟨hid, ha⟩
        · exact hv.within _ ⟨q₀, hq₀, rfl⟩ .after a ha
        · exact hP.extra_subset_domain hg h hq₀ hid.symm a ha

/-- With control, where the check adds nothing: it is sent what the branch
sends, and sends it on. -/
theorem lift_intake_forward (hP : Lucid problem extra) (hg : g.WellFormed)
    (h : g.Split none p g') (hv : (problem g).Saturated g v)
    (hd : (problem g).direction = .forward) (hop : g'.Hop m n) :
    (problem g).outflow (p.lift (extra p.site.register) v) m ⊆
      (problem g).intake (p.lift (extra p.site.register) v) n := by
  have hafter : ∀ i, (p.lift (extra p.site.register) v).fact .after i =
      v.fact .after (if i = p.check then p.site.branch else i) := by
    intro i
    by_cases hi : i = p.check
    · rw [if_pos hi, hi, Splice.lift_after_check]
    · rw [if_neg hi]
      refine OrdSet.ext fun a => ?_
      rw [Splice.mem_lift_after hi, hP.forward g hd]
      simp
  have hout : (problem g).outflow (p.lift (extra p.site.register) v) m =
      (problem g).outflow v (p.origin m) := by
    cases m with
    | none => rfl
    | some i =>
        simp only [Problem.outflow, hd, Direction.departure, hafter,
          Splice.origin]
  rw [hout]
  rcases h.hop_cases hg hop with ⟨rfl, rfl⟩ | ⟨hn, hold⟩
  · intro a ha
    rw [Splice.origin_branch, Problem.outflow, hd] at ha
    rw [Problem.intake, hd]
    simp only [Direction.arrival, Splice.lift_before_check]
    exact OrdSet.mem_union.2 (Or.inl ha)
  · have hsent := hv.intake (p.origin m) n (by rw [hd]; exact hold)
    cases n with
    | none => exact hsent
    | some i =>
        rw [Problem.intake, hd] at hsent ⊢
        simp only [Direction.arrival] at hsent ⊢
        rwa [Splice.lift_before (fun hi => hn (congrArg some hi))]

/-- Against control the check is sent no more than the branch was, and what it
adds goes no further than to the branch. -/
theorem lift_intake_backward (hg : g.WellFormed) (h : g.Split none p g')
    (hv : (problem g).Saturated g v) (hd : (problem g).direction = .backward)
    (hop : g'.Hop n m) :
    (problem g).outflow (p.lift (extra p.site.register) v) m ⊆
      (problem g).intake (p.lift (extra p.site.register) v) n := by
  have hbranch := h.branch_ne_check hg
  rcases h.hop_cases hg hop with ⟨rfl, rfl⟩ | ⟨hm, hold⟩
  · intro a ha
    rw [Problem.outflow, hd] at ha
    rw [Problem.intake, hd]
    simp only [Direction.departure, Direction.arrival, Splice.lift_before_check,
      OrdSet.mem_union, Splice.mem_lift_after hbranch] at ha ⊢
    exact ha.imp_right fun ha => ⟨trivial, ha⟩
  · have hsent := hv.intake m (p.origin n) (by rw [hd]; exact hold)
    have hout : (problem g).outflow (p.lift (extra p.site.register) v) m =
        (problem g).outflow v m := by
      cases m with
      | none => rfl
      | some i =>
          simp only [Problem.outflow, hd, Direction.departure]
          exact Splice.lift_before fun hi => hm (congrArg some hi)
    rw [hout]
    cases n with
    | none => exact hsent
    | some i =>
        simp only [Problem.intake, Splice.origin, hd,
          Direction.arrival] at hsent ⊢
        by_cases hi : i = p.check
        · rw [if_pos hi] at hsent
          rwa [hi, Splice.lift_after_check]
        · rw [if_neg hi] at hsent
          exact fun a ha => (Splice.mem_lift_after hi).2 (Or.inl (hsent a ha))

theorem lift_transfer_check (hP : Lucid problem extra) :
    (problem g).transfer ⟨p.check, .nullCheck none p.site.register⟩
        ((p.lift (extra p.site.register) v).fact
          (problem g).direction.arrival p.check) ⊆
      (p.lift (extra p.site.register) v).fact
        (problem g).direction.departure p.check := by
  rw [hP.check]
  cases hd : (problem g).direction with
  | forward =>
      simp only [Direction.arrival, Direction.departure,
        Splice.lift_before_check, Splice.lift_after_check, hP.forward g hd]
      intro a ha
      simpa using ha
  | backward =>
      simp only [Direction.arrival, Direction.departure,
        Splice.lift_before_check, Splice.lift_after_check]
      exact OrdSet.subset_refl _

/-- What is put after the branch does not come through to the other side of
it. -/
theorem lift_transfer (hP : Lucid problem extra) (hg : g.WellFormed)
    (h : g.Split none p g') (hv : (problem g).Saturated g v) {q : Quad}
    (hq : q ∈ g.quads) :
    (problem g).transfer q
        ((p.lift (extra p.site.register) v).fact
          (problem g).direction.arrival q.id) ⊆
      (p.lift (extra p.site.register) v).fact
        (problem g).direction.departure q.id := by
  have hne := h.ne_check_of_mem hg hq
  have hsent := hv.transfer q hq
  cases hd : (problem g).direction with
  | forward =>
      simp only [hd, Direction.arrival, Direction.departure] at hsent ⊢
      rw [Splice.lift_before hne]
      exact fun a ha => (Splice.mem_lift_after hne).2 (Or.inl (hsent a ha))
  | backward =>
      simp only [hd, Direction.arrival, Direction.departure] at hsent ⊢
      rw [Splice.lift_before hne]
      refine OrdSet.subset_trans ?_ hsent
      by_cases hid : q.id = p.site.branch
      · obtain ⟨cond, htest⟩ := h.nullTest_branch hg hq hid
        have hafter : (p.lift (extra p.site.register) v).fact .after q.id =
            (v.fact .after q.id).union (extra p.site.register) :=
          OrdSet.ext fun a => by
            rw [Splice.mem_lift_after hne, OrdSet.mem_union, hid,
              and_iff_right rfl]
        rw [hafter]
        exact hP.branch g q p.site.register cond htest _
      · have hafter : (p.lift (extra p.site.register) v).fact .after q.id =
            v.fact .after q.id :=
          OrdSet.ext fun a => by simp [Splice.mem_lift_after hne, Ne.symm hid]
        rw [hafter]
        exact OrdSet.subset_refl _

/-- A valuation that is saturated before the split is so after it, when it is
carried over. -/
theorem saturated_lift (hP : Lucid problem extra) (hg : g.WellFormed)
    (h : g.Split none p g') (hv : (problem g).Saturated g v) :
    (problem g).Saturated g' (p.lift (extra p.site.register) v) := by
  refine ⟨fun i hi => hP.lift_within hg h hv hi, hv.source,
    fun m n hfeeds => ?_, fun q hq => ?_⟩
  · cases hd : (problem g).direction with
    | forward =>
        rw [hd] at hfeeds
        exact hP.lift_intake_forward hg h hv hd hfeeds
    | backward =>
        rw [hd] at hfeeds
        exact lift_intake_backward hg h hv hd hfeeds
  · rcases h.quad_cases hg hq with ⟨rfl, -⟩ | ⟨q₀, hq₀, t, rfl⟩
    · exact hP.lift_transfer_check
    · rw [hP.retarget, Quad.id_retarget]
      exact hP.lift_transfer hg h hv hq₀

end Forth

section Facts

variable [DecidableEq α] {e e' : QuadGraph} {v v' : Valuation α}
  {passes passes' : List (Pass α)}

/-- A split leaves all facts as they are, but for what the check adds after its
branch: each solution is saturated for the other graph, so each lies below the
other. -/
theorem facts_of_split (hP : Lucid problem extra) (hg : g.WellFormed)
    (h : g.Split none p g') (he : g.quadGraph = .ok e)
    (he' : g'.quadGraph = .ok e')
    (hsettles : (problem g).Settles (g.layout e (problem g).direction)
      (problem g).start passes v)
    (hsettles' : (problem g').Settles (g'.layout e' (problem g').direction)
      (problem g').start passes' v') :
    (∀ q ∈ g.quads, v'.fact .before q.id = v.fact .before q.id ∧
      ∀ a, a ∈ v'.fact .after q.id ↔ a ∈ v.fact .after q.id ∨
        (p.site.branch = q.id ∧ a ∈ extra p.site.register)) ∧
      ∀ t, v'.terminal t = v.terminal t := by
  have hg' := h.wellFormed hg
  have hlaw' := hP.lawful g'
  rw [hP.split hg h] at hsettles' hlaw'
  have hv := hsettles.saturated (hP.union g) (hP.lawful g) hg.regular he
  have hv' := hsettles'.saturated (hP.union g) hlaw' hg'.regular he'
  obtain ⟨hback, hbackTarget⟩ :=
    hsettles.subset_of_saturated (hP.union g) (hP.lawful g) hg.regular he
      (hP.saturated_of_split hg h hv')
  obtain ⟨hforth, hforthTarget⟩ :=
    hsettles'.subset_of_saturated (hP.union g) hlaw' hg'.regular he'
      (hP.saturated_lift hg h hv)
  refine ⟨fun q hq => ?_, fun t => ?_⟩
  · have hne := h.ne_check_of_mem hg hq
    obtain ⟨t, ht⟩ := h.exists_retarget_mem hg hq
    have hvisits : g'.Visits q.id := ⟨_, ht, q.id_retarget t⟩
    have hbefore := hforth q.id hvisits .before
    rw [Splice.lift_before hne] at hbefore
    refine ⟨OrdSet.subset_antisymm hbefore (hback q.id ⟨q, hq, rfl⟩ .before),
      fun a => ?_⟩
    · constructor
      · intro ha
        exact (Splice.mem_lift_after hne).1 (hforth q.id hvisits .after a ha)
      · intro ha
        rcases ha with ha | ⟨hid, ha⟩
        · exact hback q.id ⟨q, hq, rfl⟩ .after a ha
        · rw [← hid]
          exact hP.extra_subset_after hg h hv'
            (h.site_mem_programOrder hg hq hid.symm) a ha
  · rcases (problem g).direction.terminal_eq t with rfl | rfl
    · rw [hv'.source, hv.source]
    · exact OrdSet.subset_antisymm hforthTarget hbackTarget

/-! ## A run of splits -/

theorem facts_of_splits (hP : Lucid problem extra) {plan : List Splice}
    (h : Graph.Splits none g plan g') (hready : g.Ready (plan.map Splice.site))
    (he : g.quadGraph = .ok e) (he' : g'.quadGraph = .ok e')
    (hsettles : (problem g).Settles (g.layout e (problem g).direction)
      (problem g).start passes v)
    (hsettles' : (problem g').Settles (g'.layout e' (problem g').direction)
      (problem g').start passes' v') :
    (∀ q ∈ g.quads, v'.fact .before q.id = v.fact .before q.id ∧
      ∀ a, a ∈ v'.fact .after q.id ↔ a ∈ v.fact .after q.id ∨
        ∃ p ∈ plan, p.site.branch = q.id ∧ a ∈ extra p.site.register) ∧
      ∀ t, v'.terminal t = v.terminal t := by
  induction h generalizing e v passes with
  | nil g =>
      cases Except.ok.inj (he.symm.trans he')
      rw [hsettles.unique hsettles']
      exact ⟨fun q _ => ⟨rfl, fun a => by simp⟩, fun t => rfl⟩
  | @cons g g₁ g' p rest hsplit _ ih =>
      have hg := hready.wellFormed
      have hready₁ := hready.step hsplit
      have hregular₁ := hready₁.wellFormed.regular
      obtain ⟨e₁, sol, v₁, he₁, -, -, hsettles₁, -⟩ :=
        (hP.lawful g₁).solve_ok hregular₁.ends hregular₁.distinct
      obtain ⟨hfirst, hfirstEnds⟩ :=
        hP.facts_of_split hg hsplit he he₁ hsettles hsettles₁
      obtain ⟨hrest, hrestEnds⟩ := ih hready₁ he₁ he' hsettles₁ hsettles'
      refine ⟨fun q hq => ?_, fun t => (hrestEnds t).trans (hfirstEnds t)⟩
      obtain ⟨t, ht⟩ := hsplit.exists_retarget_mem hg hq
      obtain ⟨hbefore, hafter⟩ := hrest _ ht
      rw [Quad.id_retarget] at hbefore hafter
      refine ⟨hbefore.trans (hfirst q hq).1, fun a => ?_⟩
      rw [hafter, (hfirst q hq).2, or_assoc, List.exists_mem_cons_iff]

end Facts

end Lucid

/-! ## The three analyses -/

theorem Graph.Split.registers_eq {g g' : Graph} {p : Splice} (hg : g.WellFormed)
    (h : g.Split none p g') : g'.registers = g.registers := by
  refine OrdSet.subset_antisymm (fun r hr => ?_) (h.registers_subset hg)
  rcases mem_registers.1 hr with hparam | ⟨q, hq, hr⟩
  · refine mem_registers.2 (Or.inl ?_)
    rwa [params, ← h.method]
  · rcases h.quad_cases hg hq with
      ⟨rfl, branch, hbranch, hid⟩ | ⟨q₀, hq₀, t, rfl⟩
    · -- all that the check names is its register, which the branch names too
      obtain ⟨cond, htest⟩ := h.nullTest_branch hg hbranch hid
      obtain rfl : r = p.site.register := by
        simpa [Quad.defs, Quad.uses, Instr.operands, Operand.register?] using hr
      exact mem_registers_of_use hbranch (Quad.mem_uses_of_nullTest htest)
    · exact mem_registers.2 (Or.inr ⟨q₀, hq₀, by simpa using hr⟩)

theorem Graph.Splits.registers_eq {g g' : Graph} {plan : List Splice}
    (h : Splits none g plan g') (hready : g.Ready (plan.map Splice.site)) :
    g'.registers = g.registers := by
  induction h with
  | nil => rfl
  | cons hsplit _ ih =>
      rw [ih (hready.step hsplit), hsplit.registers_eq hready.wellFormed]

/-- The definitions are the same, because the check defines nothing. -/
theorem ReachingDefinitions.problem_split {g g' : Graph} {p : Splice}
    (hg : g.WellFormed) (h : g.Split none p g') : problem g' = problem g := by
  have hdomain : domain g' = domain g := OrdSet.ext fun d => by
    rw [mem_domain, mem_domain]
    exact h.exists_quad_iff hg (by simp) (by simp [Quad.defs])
  have hdefinitions : ∀ r,
      definitionsOf (definitions g') r = definitionsOf (definitions g) r :=
    fun r => OrdSet.ext fun d => by
      rw [mem_definitionsOf, mem_definitionsOf]
      exact h.exists_quad_iff hg (by simp) (by simp [Quad.defs])
  have htransfer : transfer (definitions g') = transfer (definitions g) := by
    funext q x
    refine OrdSet.ext fun d => ?_
    simp only [mem_transfer, hdefinitions]
  simp only [problem, hdomain, htransfer]

theorem ReachingDefinitions.lucid : Lucid problem fun _ => ∅ where
  union _ := rfl
  lawful := lawful
  retarget g q t x := OrdSet.ext fun d => by
    simp only [problem, mem_transfer, Quad.defs_retarget, Quad.id_retarget]
  check g i r x := OrdSet.ext fun d => by
    simp [problem, mem_transfer, Quad.defs]
  branch g q r cond _ x := by
    have hsame : x.union ∅ = x := OrdSet.ext fun d => by simp
    rw [hsame]
    exact OrdSet.subset_refl _
  forward _ _ _ := rfl
  split := problem_split

theorem Liveness.lucid : Lucid problem OrdSet.singleton where
  union _ := rfl
  lawful := lawful
  retarget g q t x := OrdSet.ext fun r => by
    simp only [problem, mem_transfer, Quad.defs_retarget, Quad.uses_retarget]
  check g i r x := OrdSet.ext fun r' => by
    simp [problem, mem_transfer, Quad.defs, Quad.uses, Instr.operands,
      Operand.register?]
  branch g q r cond htest x := by
    intro r' hr'
    simp only [problem, mem_transfer, OrdSet.mem_union,
      OrdSet.mem_singleton] at hr' ⊢
    rcases hr' with ⟨hr' | rfl, hdefs⟩ | huse
    · exact Or.inl ⟨hr', hdefs⟩
    · exact Or.inr (Quad.mem_uses_of_nullTest htest)
    · exact Or.inr huse
  forward _ hd := nomatch hd
  split hg h := by simp only [problem, h.registers_eq hg]

theorem Faintness.lucid : Lucid problem OrdSet.singleton where
  union _ := rfl
  lawful := lawful
  retarget g q t x := OrdSet.ext fun r => by
    simp only [problem, mem_transfer, matters, Quad.defs_retarget,
      Quad.uses_retarget, Quad.opcode_retarget]
  check g i r x := OrdSet.ext fun r' => by
    simp [problem, mem_transfer, matters, Quad.opcode, Instr.opcode, Quad.defs,
      Quad.uses, Instr.operands, Operand.register?]
  branch g q r cond htest x := by
    intro r' hr'
    have hmatters : ∀ live, matters q live = true := fun live => by
      rw [matters, Quad.opcode_of_nullTest htest]
    simp only [problem, mem_transfer, hmatters, true_and, OrdSet.mem_union,
      OrdSet.mem_singleton] at hr' ⊢
    rcases hr' with ⟨hr' | rfl, hdefs⟩ | huse
    · exact Or.inl ⟨hr', hdefs⟩
    · exact Or.inr (Quad.mem_uses_of_nullTest htest)
    · exact Or.inr huse
  forward _ hd := nomatch hd
  split hg h := by simp only [problem, h.registers_eq hg]

/-! ## The insertion -/

/-- Two valuations have the same facts at the quads of a graph and at both ends,
except after the branch of each site, where the second has besides the register
that the branch compares with null. -/
structure Valuation.Gains (g : Graph) (sites : List Site)
    (v v' : Valuation Register) : Prop where
  before : ∀ q ∈ g.quads, v'.fact .before q.id = v.fact .before q.id
  after : ∀ q ∈ g.quads, (∀ s ∈ sites, s.branch ≠ q.id) →
    v'.fact .after q.id = v.fact .after q.id
  branch : ∀ s ∈ sites, ∃ q ∈ g.quads, q.id = s.branch ∧
    (∃ cond, q.nullTest? = some (s.register, cond)) ∧
    v'.fact .after q.id = (v.fact .after q.id).insert s.register
  terminal : ∀ t, v'.terminal t = v.terminal t

theorem Graph.WellFormed.gains {g : Graph} (hg : g.WellFormed)
    {plan : List Splice}
    (hplan : plan.map Splice.site = g.nullTests.filterMap NullTest.site?)
    {v v' : Valuation Register}
    (h : ∀ q ∈ g.quads, v'.fact .before q.id = v.fact .before q.id ∧
      ∀ r, r ∈ v'.fact .after q.id ↔ r ∈ v.fact .after q.id ∨
        ∃ p ∈ plan, p.site.branch = q.id ∧ r ∈ OrdSet.singleton p.site.register)
    (hends : ∀ t, v'.terminal t = v.terminal t) :
    v.Gains g (g.nullTests.filterMap NullTest.site?) v' := by
  refine ⟨fun q hq => (h q hq).1, fun q hq hnone => OrdSet.ext fun r => ?_,
    fun s hs => ?_, hends⟩
  · rw [(h q hq).2 r]
    refine or_iff_left fun hsome => ?_
    obtain ⟨p, hp, hid, -⟩ := hsome
    exact hnone p.site (hplan ▸ List.mem_map_of_mem hp) hid
  · obtain ⟨q, hq, hid, cond, htest⟩ := hg.branch_of_site hs
    refine ⟨q, hq, hid, ⟨cond, htest⟩, OrdSet.ext fun r => ?_⟩
    rw [(h q hq).2 r, OrdSet.mem_insert, or_comm]
    refine or_congr_left ⟨fun hsome => ?_, fun hr => ?_⟩
    · -- a quad compares only one register with null, whatever sites it has
      obtain ⟨p, hp, hid', hr⟩ := hsome
      obtain ⟨q', hq', hid'', cond', htest'⟩ :=
        hg.branch_of_site (hplan ▸ List.mem_map_of_mem hp)
      rw [hg.regular.distinct.eq_of_id_eq hq' hq (hid''.trans hid'),
        htest] at htest'
      have hsame : s.register = p.site.register :=
        congrArg Prod.fst (Option.some.inj htest')
      rw [hsame]
      exact OrdSet.mem_singleton.1 hr
    · rw [← hplan] at hs
      obtain ⟨p, hp, rfl⟩ := List.mem_map.1 hs
      exact ⟨p, hp, hid.symm, OrdSet.mem_singleton.2 hr⟩

/-- Checks that are inserted without a guard do not show in the other analyses.
The registers stay the same. Every quad that was visited still is, and the same
definitions reach it; the same registers are live and strongly live there,
except after the branch of each site, where the register that it compares with
null is live as well. -/
theorem insertion_without_guard_unseen {g : Graph} (hg : g.Assembled)
    {stats : CheckStats} (hresult : g.insertChecks.result = .ok stats)
    (hguard : g.templateGuard?.join = none) :
    let g' := g.insertChecks.graph
    let sites := g.nullTests.filterMap NullTest.site?
    g'.registers = g.registers ∧
    (∀ q ∈ g.quads, g'.Visits q.id) ∧
    (∀ s s', ∃ stats₁ stats₂ v v',
      (ReachingDefinitions.visit s g).result = .ok stats₁ ∧
      (ReachingDefinitions.visit s' g').result = .ok stats₂ ∧
      (ReachingDefinitions.visit s g).state.facts.Shows g v ∧
      (ReachingDefinitions.visit s' g').state.facts.Shows g' v' ∧
      (∀ q ∈ g.quads, ∀ side, v'.fact side q.id = v.fact side q.id) ∧
      ∀ t, v'.terminal t = v.terminal t) ∧
    (∀ s s', ∃ stats₁ stats₂ v v',
      (Liveness.visit s g).result = .ok stats₁ ∧
      (Liveness.visit s' g').result = .ok stats₂ ∧
      (Liveness.visit s g).state.facts.Shows g v ∧
      (Liveness.visit s' g').state.facts.Shows g' v' ∧ v.Gains g sites v') ∧
    (∀ s s', ∃ stats₁ stats₂ live live' v v',
      (Faintness.visit s g).result = .ok stats₁ ∧
      (Faintness.visit s' g').result = .ok stats₂ ∧
      (Faintness.visit s g).state.live = some live ∧
      (Faintness.visit s' g').state.live = some live' ∧
      live.Shows g v ∧ live'.Shows g' v' ∧ v.Gains g sites v') := by
  intro g' sites
  have hwell := hg.wellFormed
  have hregular := hwell.regular
  have hregular' : g'.Regular := (hwell.insertChecks hresult).regular
  obtain ⟨plan, hplan, hsplits⟩ := hwell.insertChecks_plan hresult
  rw [hguard] at hsplits
  have hready : g.Ready (plan.map Splice.site) := hplan ▸ hwell.ready
  refine ⟨hsplits.registers_eq hready, fun q hq => ?_, fun s s' => ?_,
    fun s s' => ?_, fun s s' => ?_⟩
  · obtain ⟨t, ht⟩ := hsplits.exists_retarget_mem hready hq
    exact ⟨_, ht, q.id_retarget t⟩
  · obtain ⟨e, stats₁, passes, v, he, hresult₁, hshown, hsettles⟩ :=
      ReachingDefinitions.visit_settles hregular.ends hregular.distinct s
    obtain ⟨e', stats₂, passes', v', he', hresult₂, hshown', hsettles'⟩ :=
      ReachingDefinitions.visit_settles hregular'.ends hregular'.distinct s'
    obtain ⟨hfacts, hends⟩ :=
      ReachingDefinitions.lucid.facts_of_splits hsplits hready he he'
        hsettles hsettles'
    refine ⟨stats₁, stats₂, v, v', hresult₁, hresult₂, hshown, hshown',
      fun q hq side => ?_, hends⟩
    cases side with
    | before => exact (hfacts q hq).1
    | after => exact OrdSet.ext fun d => by simp [(hfacts q hq).2 d]
  · obtain ⟨e, stats₁, passes, v, he, hresult₁, hshown, hsettles⟩ :=
      Liveness.visit_settles hregular.ends hregular.distinct s
    obtain ⟨e', stats₂, passes', v', he', hresult₂, hshown', hsettles'⟩ :=
      Liveness.visit_settles hregular'.ends hregular'.distinct s'
    obtain ⟨hfacts, hends⟩ := Liveness.lucid.facts_of_splits hsplits hready
      he he' hsettles hsettles'
    exact ⟨stats₁, stats₂, v, v', hresult₁, hresult₂, hshown, hshown',
      hwell.gains hplan hfacts hends⟩
  · obtain ⟨e, stats₁, live, passes, v, he, hresult₁, hlive, hshown, -, -,
        hsettles⟩ :=
      Faintness.visit_settles hregular.ends hregular.distinct s
    obtain ⟨e', stats₂, live', passes', v', he', hresult₂, hlive',
        hshown', -, -, hsettles'⟩ :=
      Faintness.visit_settles hregular'.ends hregular'.distinct s'
    obtain ⟨hfacts, hends⟩ := Faintness.lucid.facts_of_splits hsplits hready
      he he' hsettles hsettles'
    exact ⟨stats₁, stats₂, live, live', v, v', hresult₁, hresult₂, hlive,
      hlive', hshown, hshown', hwell.gains hplan hfacts hends⟩

/-- The way back in a small loop is split. The register of its branch was not
live behind the branch, and with the check it is; nothing else changes there. -/
theorem insertion_without_guard_unseen_smallLoop :
    Graph.build "loop" NonNull.smallLoopScript = .ok .smallLoop ∧
      Graph.smallLoop.insertChecks.result = .ok ⟨1, 1, 0⟩ ∧
      Graph.smallLoop.templateGuard? = some none ∧
      ∃ v v', (Liveness.visit .fresh .smallLoop).state.facts.Shows
        .smallLoop v ∧
        (Liveness.visit .fresh
          Graph.smallLoop.insertChecks.graph).state.facts.Shows
          Graph.smallLoop.insertChecks.graph v' ∧
        ⟨"R1"⟩ ∉ v.fact .after ⟨4⟩ ∧
        v'.fact .after ⟨4⟩ = (v.fact .after ⟨4⟩).insert ⟨"R1"⟩ ∧
        v'.fact .before ⟨4⟩ = v.fact .before ⟨4⟩ := by
  have hbuild : Graph.build "loop" NonNull.smallLoopScript =
      .ok .smallLoop := rfl
  have hresult : Graph.smallLoop.insertChecks.result = .ok ⟨1, 1, 0⟩ := rfl
  have hguard : Graph.smallLoop.templateGuard? = some none := rfl
  obtain ⟨-, -, -, hliveness, -⟩ :=
    insertion_without_guard_unseen (.built hbuild) hresult
      (congrArg Option.join hguard)
  obtain ⟨-, -, v, v', -, -, hshown, hshown', hgains⟩ := hliveness .fresh .fresh
  let branch : Quad := ⟨⟨4⟩, .branch (.reg ⟨"R1"⟩) (.const .null) .eq .exit⟩
  have hbranch : branch ∈ Graph.smallLoop.quads := by decide
  have hdead :
      ((Liveness.visit .fresh .smallLoop).state.facts.get? .after ⟨4⟩).all
        (⟨"R1"⟩ ∉ ·) := by decide +kernel
  rw [hshown.fact ⟨4⟩ ⟨branch, hbranch, rfl⟩ .after, Option.all_some,
    decide_eq_true_iff] at hdead
  have hsites : Graph.smallLoop.nullTests.filterMap NullTest.site? =
      [⟨⟨3⟩, ⟨4⟩, ⟨"R1"⟩, ⟨4⟩, false⟩] := rfl
  obtain ⟨q, -, hid, -, hafter⟩ :=
    hgains.branch _ (hsites ▸ List.mem_singleton_self _)
  rw [hid] at hafter
  exact ⟨hbuild, hresult, hguard, v, v', hshown, hshown', hdead, hafter,
    hgains.before branch hbranch⟩

end Dataflow
