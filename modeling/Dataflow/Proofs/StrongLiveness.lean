import Dataflow.Proofs.FaintRemoval
import Dataflow.Proofs.Liveness
import Dataflow.Proofs.Rearrangement

/-!
# Faint, strongly live and live registers

The faintness analysis solves for strong liveness and reports what the registers
of the method leave over. This file compares the three sets: the faint registers
and the strongly live ones are two parts of a whole, and the strongly live ones
are among the live ones.

For the first, turning a fact into its complement loses nothing only as long as
the fact has no register beyond those of the method. A transfer adds registers
without asking, so that is an invariant of the sweeps: it holds at the start and
no step breaks it, since the operands of a quad that is visited are registers of
the method.

For the second, both analyses find what has a trail, and the trails differ in
one kind of link. An operand of a move or a binary operation begins a trail of
plain liveness there and then, and strong liveness asks for a trail from the
result. So a strong trail can be cut short to a plain one; and where every
result of a move or a binary operation is strongly live, a plain trail that ends
with such a quad can be drawn out to a strong one.
-/

namespace Dataflow

/-- Two sets that have nothing in common and together make up a third. -/
structure OrdSet.Parted {α : Type} [Element α] (whole s t : OrdSet α) :
    Prop where
  disjoint : ∀ a ∈ s, a ∉ t
  cover : s.union t = whole

namespace OrdSet

variable {α : Type} [Element α] {whole s : OrdSet α}

theorem parted_diff (h : s ⊆ whole) : Parted whole s (whole.diff s) := by
  refine ⟨fun a ha hmem => (mem_diff.1 hmem).2 ha, ext fun a => ?_⟩
  rw [mem_union, mem_diff]
  by_cases ha : a ∈ s
  · exact iff_of_true (Or.inl ha) (h a ha)
  · simp [ha]

end OrdSet

/-- The facts of two valuations stand in a relation at every quad of the program
order, on both sides, and at both ends. -/
structure Valuation.Pointwise {α : Type} [Element α]
    (R : OrdSet α → OrdSet α → Prop) (g : Graph) (v w : Valuation α) :
    Prop where
  fact : ∀ q ∈ g.quads, ∀ side, R (v.fact side q.id) (w.fact side q.id)
  terminal : ∀ t, R (v.terminal t) (w.terminal t)

/-- A table also shows a valuation with the same facts where it is looked at. -/
theorem FactMap.Shows.congr {α : Type} [Element α] {g : Graph}
    {t : FactMap (OrdSet α)} {v w : Valuation α} (h : t.Shows g v)
    (hsame : v.Pointwise (· = ·) g w) : t.Shows g w := by
  refine ⟨?_, fun e => by rw [h.terminal, hsame.terminal]⟩
  rintro i ⟨q, hq, rfl⟩ side
  rw [h.fact q.id ⟨q, hq, rfl⟩, hsame.fact q hq]

/-- What has a trail by one relay has one by another, if every step of the first
that goes on to a trail of the second can be made a step of the second. -/
theorem Relay.exists_trail_of_step {α : Type} {t t' : Relay α} {g : Graph}
    {e : QuadGraph} {d : Direction}
    (hstep : ∀ q ∈ g.quads, ∀ a,
      (t.brings q a ∨ ∃ b, t.hands q a b ∧
        ∃ stops, t'.Trail g e d (e.origins d q.id) b stops) →
      t'.brings q a ∨ ∃ b, t'.hands q a b ∧
        ∃ stops, t'.Trail g e d (e.origins d q.id) b stops)
    {origins : List Neighbour} {a : α}
    (h : ∃ stops, t.Trail g e d origins a stops) :
    ∃ stops, t'.Trail g e d origins a stops := by
  obtain ⟨stops, h⟩ := h
  induction stops generalizing origins a with
  | nil =>
      obtain ⟨q, hhead, -⟩ := h.first
      cases hhead
  | cons s rest ih =>
      obtain ⟨q, rest, hstops, hq, ho, hcase⟩ := h.uncons
      cases hstops
      refine exists_trail_iff.2 ⟨q, hq, ho, hstep q hq a ?_⟩
      rcases hcase with ⟨hbrings, -⟩ | ⟨b, hhands, htrail⟩
      · exact Or.inl hbrings
      · exact Or.inr ⟨b, hhands, ih htrail⟩

/-- The live registers are those with a run to a use. -/
theorem Liveness.visit_trails {g : Graph} {e : QuadGraph} (hends : g.HasEnds)
    (hdist : g.DistinctQuads) (he : g.quadGraph = .ok e) (s : State) :
    ∃ stats w, (visit s g).result = .ok stats ∧
      (visit s g).state.facts.Shows g w ∧
      (∀ q ∈ g.quads, ∀ side r, r ∈ w.fact side q.id ↔
        ∃ stops, relay.Trail g e .backward
          (Faintness.onward e side q.id) r stops) ∧
      (∀ r, r ∈ w.terminal .entry ↔
        ∃ stops, relay.Trail g e .backward e.entrySuccs r stops) ∧
      w.terminal .exit = ∅ := by
  obtain ⟨e', stats, passes, w, he', hresult, hshown, hsettles⟩ :=
    visit_settles hends hdist s
  cases Except.ok.inj (he.symm.trans he')
  have hfollows := follows g
  refine ⟨stats, w, hresult, hshown, fun q hq side r => ?_,
    fun r => hfollows.mem_target_iff he hdist hsettles,
    hsettles.isSolution.source⟩
  cases side with
  | before => exact hfollows.mem_departure_iff he hdist hsettles hq
  | after => exact hfollows.mem_arrival_iff he hdist hsettles hq

namespace Faintness

variable {g : Graph} {e : QuadGraph} {firsts : List Neighbour} {r : Register}
  {q : Quad}

/-! ## Two parts of the registers -/

/-- The solution that a visit keeps and turns into its complement. -/
theorem visit_solved (hends : g.HasEnds) (hdist : g.DistinctQuads) (s : State) :
    ∃ sol v, (problem g).solve g = .ok sol ∧
      (visit s g).result = .ok sol.stats ∧
      (visit s g).state.live = some sol.facts ∧
      (visit s g).state.facts = complement g.registers sol.facts ∧
      sol.facts.Shows g v ∧ v.Within g g.registers := by
  obtain ⟨e, sol, v, he, hsol, hshown, hsettles, -⟩ :=
    (lawful g).solve_ok hends hdist
  obtain ⟨hresult, hstate⟩ := Visit.solve_eq hsol s []
    fun sol => (⟨g.registers, complement g.registers sol.facts, some sol.facts,
        some (.ofTable g.name (complement g.registers sol.facts))⟩,
      [.complemented g.name g.registers.size])
  exact ⟨sol, v, hsol, hresult, congrArg State.live hstate,
    congrArg State.facts hstate, hshown,
    (hsettles.bounded (lawful g) he).within he hsettles.isSolution⟩

/-- The faint registers and the strongly live ones are kept for the same quads,
the visited ones. Before and after each of these quads and at both ends no
register is both, and together they are the registers of the method. Turning the
facts that are reported into their complements again gives back the strongly
live registers. -/
theorem faint_live_partition {g : Graph} (hends : g.HasEnds)
    (hdist : g.DistinctQuads) (s : State) :
    ∃ stats live v w, (visit s g).result = .ok stats ∧
      (visit s g).state.live = some live ∧
      (visit s g).state.facts.ids = live.ids ∧
        (∀ i, i ∈ live.ids ↔ g.Visits i) ∧
      live.Shows g v ∧ (visit s g).state.facts.Shows g w ∧
      v.Pointwise (OrdSet.Parted g.registers) g w ∧
      complement g.registers (visit s g).state.facts = live := by
  obtain ⟨sol, v, hsol, hresult, hlive, hfacts, hshown, hwithin⟩ :=
    visit_solved hends hdist s
  have hids := Problem.ids_solve hsol
  have hfaint := hshown.map g.registers.diff
  rw [hfacts]
  refine ⟨sol.stats, sol.facts, v, v.map g.registers.diff, hresult, hlive,
    FactMap.ids_map _ _, fun i => ?_, hshown, hfaint,
    ⟨fun q hq side => OrdSet.parted_diff (hwithin.fact q hq side),
      fun t => OrdSet.parted_diff (hwithin.terminal t)⟩, ?_⟩
  · rw [hids]
    exact OrdSet.mem_ofList.trans (by simp [Graph.Visits])
  · have htwice := (hfaint.map g.registers.diff).congr
      ⟨fun q hq side => OrdSet.diff_diff (hwithin.fact q hq side),
        fun t => OrdSet.diff_diff (hwithin.terminal t)⟩
    refine hshown.unique htwice hids ?_
    rw [complement, complement, FactMap.ids_map, FactMap.ids_map]

/-- In a loop with a counter that nobody reads, the counter is faint and the
parameter is live throughout. -/
theorem faint_live_partition_countingLoop :
    countingLoop.HasEnds ∧ countingLoop.DistinctQuads ∧
      ∃ live, (visit .fresh countingLoop).state.live = some live ∧
        ((visit .fresh countingLoop).state.facts.get? .before ⟨1⟩).all
          (⟨"R1"⟩ ∈ ·) ∧
        (live.get? .before ⟨1⟩).all (⟨"R0"⟩ ∈ ·) ∧
        complement countingLoop.registers
          (visit .fresh countingLoop).state.facts = live := by
  have hends : countingLoop.HasEnds := by decide
  have hdist : countingLoop.DistinctQuads := by decide
  obtain ⟨-, live, -, -, -, hlive, -, -, -, -, -, htwice⟩ :=
    faint_live_partition hends hdist .fresh
  refine ⟨hends, hdist, live, hlive, by decide +kernel, ?_, htwice⟩
  rw [← htwice]
  decide +kernel

/-! ## Part of the live registers -/

theorem Derives.exists_mem_defs (h : Derives q) : ∃ r, r ∈ q.defs := by
  obtain ⟨i, instr⟩ := q
  cases instr with
  | move dst _ => exact ⟨dst, List.mem_singleton_self dst⟩
  | binary _ dst _ _ => exact ⟨dst, List.mem_singleton_self dst⟩
  | _ => rcases h with h | h <;> cases h

/-- A chain goes by quads that use what they make live, so it begins a run to a
use. -/
theorem Needed.exists_trail (h : Needed g e firsts r) :
    ∃ stops, Liveness.relay.Trail g e .backward firsts r stops := by
  refine Relay.exists_trail_of_step (fun q _ r hcase => ?_) h
  rcases hcase with ⟨-, huse⟩ | ⟨r', ⟨hdef, rfl⟩ | ⟨-, huse, -⟩, htrail⟩
  · exact Or.inl huse
  · exact Or.inr ⟨r', ⟨rfl, hdef⟩, htrail⟩
  · exact Or.inl huse

/-- Where no result goes to waste, every run to a use is part of a chain. -/
theorem needed_of_trail
    (hresults : ∀ q ∈ g.quads, Derives q →
      ∀ r ∈ q.defs, Needed g e (e.succs q.id) r)
    (h : ∃ stops, Liveness.relay.Trail g e .backward firsts r stops) :
    Needed g e firsts r := by
  refine Relay.exists_trail_of_step (fun q hq r hcase => ?_) h
  rcases hcase with huse | ⟨r', ⟨rfl, hdef⟩, htrail⟩
  · by_cases hderives : Derives q
    · obtain ⟨r', hr'⟩ := hderives.exists_mem_defs
      exact Or.inr ⟨r', Or.inr ⟨hderives, huse, hr'⟩,
        hresults q hq hderives r' hr'⟩
    · exact Or.inl ⟨hderives, huse⟩
  · exact Or.inr ⟨r', Or.inl ⟨hdef, rfl⟩, htrail⟩

/-- What is strongly live is live: before and after every visited quad and at
both ends. So a register of the method that is not live is reported as faint.
And when no move or binary operation that is visited has a result that is
reported as faint after it, the two analyses find the same registers
everywhere. -/
theorem strongly_live_among_live {g : Graph} (hends : g.HasEnds)
    (hdist : g.DistinctQuads) (s : State) (s' : Liveness.State) :
    ∃ stats stats' live v faint w, (visit s g).result = .ok stats ∧
      (Liveness.visit s' g).result = .ok stats' ∧
      (visit s g).state.live = some live ∧ live.Shows g v ∧
      (visit s g).state.facts.Shows g faint ∧
      (Liveness.visit s' g).state.facts.Shows g w ∧
      v.Pointwise (· ⊆ ·) g w ∧
      faint.Pointwise (fun f l => ∀ r ∈ g.registers, r ∉ l → r ∈ f) g w ∧
      ((∀ q ∈ g.quads, ¬ Idle (visit s g).state.facts q) →
        v.Pointwise (· = ·) g w) := by
  obtain ⟨e, stats, live, v, he, hresult, hlive, hshown, hfaint, -,
    hfact, hentry, hexit⟩ := visit_needed hends hdist s
  obtain ⟨stats', w, hresult', hshown', hfact', hentry', hexit'⟩ :=
    Liveness.visit_trails hends hdist he s'
  have hbelow : v.Pointwise (· ⊆ ·) g w := by
    refine ⟨fun q hq side r hr => ?_, fun t => ?_⟩
    · exact (hfact' q hq side r).2 ((hfact q hq side r).1 hr).exists_trail
    · cases t with
      | entry => exact fun r hr => (hentry' r).2 ((hentry r).1 hr).exists_trail
      | exit => rw [hexit, hexit']; exact OrdSet.subset_refl _
  refine ⟨stats, stats', live, v, v.map g.registers.diff, w, hresult,
    hresult', hlive, hshown, hfaint, hshown', hbelow,
    ⟨fun q hq side r hr hdead => ?_, fun t r hr hdead => ?_⟩,
    fun hidle => ?_⟩
  · exact OrdSet.mem_diff.2
      ⟨hr, fun hmem => hdead (hbelow.fact q hq side r hmem)⟩
  · exact OrdSet.mem_diff.2 ⟨hr, fun hmem => hdead (hbelow.terminal t r hmem)⟩
  · have hresults : ∀ q ∈ g.quads, Derives q →
        ∀ r ∈ q.defs, Needed g e (e.succs q.id) r := by
      intro q hq hderives r hr
      refine (hfact q hq .after r).1 ?_
      by_contra hdead
      exact hidle q hq ((idle_iff hfaint hq).2 ⟨hderives, r, hr, hdead⟩)
    refine ⟨fun q hq side => ?_, fun t => ?_⟩
    · refine OrdSet.subset_antisymm (hbelow.fact q hq side) fun r hr => ?_
      exact (hfact q hq side r).2
        (needed_of_trail hresults ((hfact' q hq side r).1 hr))
    · refine OrdSet.subset_antisymm (hbelow.terminal t) ?_
      cases t with
      | entry =>
          exact fun r hr =>
            (hentry r).2 (needed_of_trail hresults ((hentry' r).1 hr))
      | exit => rw [hexit, hexit']; exact OrdSet.subset_refl _

/-- A counter that only counts on keeps itself live, though not strongly; and in
a loop where every result is put to use the analyses agree. -/
theorem strongly_live_among_live_countingLoop :
    (countingLoop.HasEnds ∧ countingLoop.DistinctQuads ∧
      ∃ live v w, (visit .fresh countingLoop).state.live = some live ∧
        live.Shows countingLoop v ∧
        (Liveness.visit .fresh countingLoop).state.facts.Shows countingLoop w ∧
        v.Pointwise (· ⊆ ·) countingLoop w ∧
        ⟨"R1"⟩ ∈ w.fact .before ⟨1⟩ ∧ ⟨"R1"⟩ ∉ v.fact .before ⟨1⟩) ∧
    (∀ q ∈ Graph.smallLoop.quads,
      ¬ Idle (visit .fresh .smallLoop).state.facts q) ∧
      ∃ live v w, (visit .fresh .smallLoop).state.live = some live ∧
        live.Shows .smallLoop v ∧
        (Liveness.visit .fresh .smallLoop).state.facts.Shows .smallLoop w ∧
        v.Pointwise (· = ·) .smallLoop w := by
  have hends : countingLoop.HasEnds := by decide
  have hdist : countingLoop.DistinctQuads := by decide
  have hidle : ∀ q ∈ Graph.smallLoop.quads,
      ¬ Idle (visit .fresh .smallLoop).state.facts q := by decide +kernel
  obtain ⟨-, -, live, v, -, w, -, -, hlive, hshown, -, hshown', hbelow, -, -⟩ :=
    strongly_live_among_live hends hdist .fresh .fresh
  obtain ⟨-, -, live₁, v₁, -, w₁, -, -, hlive₁, hshown₁, -, hshown₁', -, -,
    hsame⟩ := strongly_live_among_live (g := .smallLoop) (by decide)
      (by decide) .fresh .fresh
  let count : Quad := ⟨⟨1⟩, .binary .add ⟨"R1"⟩ (.reg ⟨"R1"⟩) (.reg ⟨"R0"⟩)⟩
  have hvisits : countingLoop.Visits ⟨1⟩ := ⟨count, by decide, rfl⟩
  have hused :
      ((Liveness.visit .fresh countingLoop).state.facts.get? .before ⟨1⟩).all
        (⟨"R1"⟩ ∈ ·) := by decide +kernel
  have hunused : ((visit .fresh countingLoop).state.live.bind
      (·.get? .before ⟨1⟩)).all (⟨"R1"⟩ ∉ ·) := by decide +kernel
  rw [hshown'.fact ⟨1⟩ hvisits .before, Option.all_some,
    decide_eq_true_iff] at hused
  rw [hlive, Option.bind_some, hshown.fact ⟨1⟩ hvisits .before, Option.all_some,
    decide_eq_true_iff] at hunused
  exact ⟨⟨hends, hdist, live, v, w, hlive, hshown, hshown', hbelow, hused,
      hunused⟩, hidle, live₁, v₁, w₁, hlive₁, hshown₁, hshown₁', hsame hidle⟩

end Faintness

end Dataflow
