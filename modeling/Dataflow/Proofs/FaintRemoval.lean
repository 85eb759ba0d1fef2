import Dataflow.Proofs.Faintness
import Dataflow.Proofs.Rewriting

/-!
# Faint assignments can go together

With an assignment that is dropped go the uses it makes. For plain liveness that
can make further assignments useless, and they show only in another round. This
file shows that for faintness one round is enough: when all assignments with a
faint result are dropped at once, nothing else becomes faint, and none is left.

The reason is that a faint assignment never lay on a chain. As a link that turns
its result into its operands it would need a chain from the result, and there is
none; all it does on a chain is to let a register pass that it does not define,
and the quad in its place does that too. Conversely that quad lets every
register pass, also the result of the old one, but a chain that used this would
go on to make the result needed. So the two methods have the same chains.
-/

namespace Dataflow.Faintness

variable {faint : FactMap (OrdSet Register)} {g : Graph} {e : QuadGraph}
  {q : Quad} {firsts : List Neighbour} {r r' : Register}

/-- A move or a binary operation whose result is reported as faint after it. -/
def Idle (faint : FactMap (OrdSet Register)) (q : Quad) : Prop :=
  Derives q ∧ ∃ r ∈ q.defs, r ∈ (faint.get? .after q.id).getD ∅

instance (faint : FactMap (OrdSet Register)) (q : Quad) :
    Decidable (Idle faint q) :=
  inferInstanceAs (Decidable (_ ∧ _))

/-- Puts a quad that does nothing in the place of an assignment with a faint
result. -/
def drop (faint : FactMap (OrdSet Register)) (q : Quad) : Quad :=
  if Idle faint q then { q with instr := .nop } else q

theorem drop_of_idle (h : Idle faint q) : drop faint q = ⟨q.id, .nop⟩ :=
  if_pos h

theorem drop_of_not_idle (h : ¬ Idle faint q) : drop faint q = q := if_neg h

theorem drop_id (faint : FactMap (OrdSet Register)) (q : Quad) :
    (drop faint q).id = q.id := by
  unfold drop
  split <;> rfl

/-! ## Chains are neither broken nor made -/

theorem not_derives_nop (i : QuadId) : ¬ Derives ⟨i, .nop⟩ := by
  intro h
  rcases h with h | h <;> cases h

theorem brings_drop_iff :
    dependence.brings (drop faint q) r ↔ dependence.brings q r := by
  by_cases h : Idle faint q
  · rw [drop_of_idle h]
    refine iff_of_false (fun hbrings => ?_) fun hbrings => hbrings.1 h.1
    exact List.not_mem_nil hbrings.2
  · rw [drop_of_not_idle h]

/-- Dropping an assignment makes no difference to a register that it does not
define. -/
theorem hands_drop_iff (hr' : Idle faint q → r' ∉ q.defs) :
    dependence.hands (drop faint q) r r' ↔ dependence.hands q r r' := by
  by_cases h : Idle faint q
  · have hdef := hr' h
    rw [drop_of_idle h]
    constructor
    · intro hhands
      rcases hhands with ⟨-, rfl⟩ | ⟨hderives, -⟩
      · exact Or.inl ⟨hdef, rfl⟩
      · exact absurd hderives (not_derives_nop q.id)
    · intro hhands
      rcases hhands with ⟨-, rfl⟩ | ⟨-, -, hresult⟩
      · exact Or.inl ⟨List.not_mem_nil, rfl⟩
      · exact absurd hresult hdef
  · rw [drop_of_not_idle h]

theorem needed_drop_iff
    (hidle : ∀ q ∈ g.quads, Idle faint q →
      ∀ r ∈ q.defs, ¬ Needed g e (e.succs q.id) r) :
    Needed (g.rewrite (drop faint)) e firsts r ↔ Needed g e firsts r := by
  constructor
  · refine Relay.exists_trail_of_matched fun q' hq' => ?_
    obtain ⟨q, hq, rfl⟩ := Graph.mem_quads_rewrite.1 hq'
    rw [drop_id]
    refine ⟨q, hq, rfl, fun r => brings_drop_iff.1, fun r r' _ hneeded => ?_⟩
    exact (hands_drop_iff fun h hr' => hidle q hq h r' hr' hneeded).1
  · refine Relay.exists_trail_of_matched fun q hq => ?_
    refine ⟨drop faint q, Graph.mem_quads_rewrite.2 ⟨q, hq, rfl⟩,
      drop_id faint q, fun r => brings_drop_iff.2, fun r r' hneeded _ => ?_⟩
    exact (hands_drop_iff fun h hr' => hidle q hq h r' hr' hneeded).2

/-! ## Which assignments go -/

/-- A register of the method is reported as faint where it is not strongly live,
and results are registers of the method. -/
theorem idle_iff {v : Valuation Register}
    (hfaint : faint.Shows g (v.map g.registers.diff)) (hq : q ∈ g.quads) :
    Idle faint q ↔ Derives q ∧ ∃ r ∈ q.defs, r ∉ v.fact .after q.id := by
  unfold Idle
  rw [hfaint.fact q.id ⟨q, hq, rfl⟩ .after, Option.getD_some]
  refine and_congr_right fun _ => exists_congr fun r =>
    and_congr_right fun hr => ?_
  have hregister : r ∈ g.registers :=
    Graph.mem_registers.2 (Or.inr ⟨q, hq, Or.inl hr⟩)
  exact OrdSet.mem_diff.trans (and_iff_right hregister)

/-- The result of a dropped assignment was not needed. -/
theorem not_needed_of_idle {v : Valuation Register}
    (hfaint : faint.Shows g (v.map g.registers.diff))
    (hfact : ∀ q ∈ g.quads, ∀ side r,
      r ∈ v.fact side q.id ↔ Needed g e (onward e side q.id) r) :
    ∀ q ∈ g.quads, Idle faint q → ∀ r ∈ q.defs,
      ¬ Needed g e (e.succs q.id) r := by
  intro q hq hidle r hr hneeded
  obtain ⟨-, r', hr', hdead⟩ := (idle_iff hfaint hq).1 hidle
  rw [Quad.eq_of_mem_defs hr' hr] at hdead
  exact hdead ((hfact q hq .after r).2 hneeded)

/-- When all moves and binary operations whose result is reported as faint are
dropped at once, a second analysis finds the same registers strongly live at
every point as the first, and reports no result of a move or binary operation
that is left as faint. -/
theorem dropping_faint_assignments {g : Graph} (hends : g.HasEnds)
    (hdist : g.DistinctQuads) (s s' : State) :
    let g' := g.rewrite (drop (visit s g).state.facts)
    ∃ stats stats' live live' v v' w', (visit s g).result = .ok stats ∧
      (visit s' g').result = .ok stats' ∧
      (visit s g).state.live = some live ∧ live.Shows g v ∧
      (visit s' g').state.live = some live' ∧ live'.Shows g' v' ∧
      (visit s' g').state.facts.Shows g' w' ∧
      (∀ q ∈ g.quads, ∀ side, v'.fact side q.id = v.fact side q.id) ∧
      (∀ t, v'.terminal t = v.terminal t) ∧
      ∀ q ∈ g'.quads, Derives q → ∀ r ∈ q.defs, r ∉ w'.fact .after q.id := by
  intro g'
  obtain ⟨e, stats, live, v, he, hresult, hlive, hshown, hfaint, -,
    hfact, hentry, hexit⟩ := visit_needed hends hdist s
  have hid := drop_id (visit s g).state.facts
  obtain ⟨e', stats', live', v', he', hresult', hlive', hshown', hfaint',
    -, hfact', hentry', hexit'⟩ :=
    visit_needed (hends.rewrite (drop (visit s g).state.facts))
      (hdist.rewrite hid) s'
  rw [Graph.quadGraph_rewrite hid, he] at he'
  cases he'
  have hidle := not_needed_of_idle hfaint hfact
  have hsame : ∀ q ∈ g.quads, ∀ side, v'.fact side q.id = v.fact side q.id := by
    intro q hq side
    refine OrdSet.ext fun r => ?_
    have hnew := hfact' _ (Graph.mem_quads_rewrite.2 ⟨q, hq, rfl⟩) side r
    rw [hid, needed_drop_iff hidle] at hnew
    rw [hnew, hfact q hq side r]
  refine ⟨stats, stats', live, live', v, v', v'.map g'.registers.diff, hresult,
    hresult', hlive, hshown, hlive', hshown', hfaint', hsame, fun t => ?_,
    fun q' hq' hderives r hr hmem => ?_⟩
  · cases t with
    | entry =>
        refine OrdSet.ext fun r => ?_
        rw [hentry' r, needed_drop_iff hidle, hentry r]
    | exit => rw [hexit', hexit]
  · obtain ⟨q, hq, rfl⟩ := Graph.mem_quads_rewrite.1 hq'
    -- a quad that was dropped is no assignment any more, so this one was kept
    have hkept : ¬ Idle (visit s g).state.facts q := by
      intro h
      rw [drop_of_idle h] at hderives
      exact not_derives_nop q.id hderives
    rw [drop_of_not_idle hkept] at hderives hr hmem
    have hdead : r ∉ v'.fact .after q.id := (OrdSet.mem_diff.1 hmem).2
    rw [hsame q hq .after] at hdead
    exact hkept ((idle_iff hfaint hq).2 ⟨hderives, r, hr, hdead⟩)

/-- A loop with a counter that only counts on, a copy of the counter that nobody
reads, and a copy of the parameter that decides about the way back. -/
def countingLoop : Graph where
  method := ⟨"count", [⟨"R0"⟩]⟩
  blocks := .ofList [
    (.entry, ⟨.entry, [], [], [⟨2⟩]⟩),
    (.exit, ⟨.exit, [], [⟨2⟩], []⟩),
    (⟨2⟩, ⟨⟨2⟩, [⟨⟨1⟩, .binary .add ⟨"R1"⟩ (.reg ⟨"R1"⟩) (.reg ⟨"R0"⟩)⟩,
      ⟨⟨2⟩, .move ⟨"R2"⟩ (.reg ⟨"R1"⟩)⟩,
      ⟨⟨3⟩, .move ⟨"R3"⟩ (.reg ⟨"R0"⟩)⟩,
      ⟨⟨4⟩, .branch (.reg ⟨"R3"⟩) (.const .null) .ne ⟨2⟩⟩],
      [.entry, ⟨2⟩], [⟨2⟩, .exit]⟩)]
  nextQuad := 5
  nextBlock := 3

/-- The counter goes together with its copy, although each is used. -/
theorem dropping_faint_assignments_countingLoop :
    countingLoop.HasEnds ∧ countingLoop.DistinctQuads ∧
      let g' :=
        countingLoop.rewrite (drop (visit .fresh countingLoop).state.facts)
      g'.quads.map Quad.instr =
        [.nop, .nop, .move ⟨"R3"⟩ (.reg ⟨"R0"⟩),
          .branch (.reg ⟨"R3"⟩) (.const .null) .ne ⟨2⟩] ∧
      ∃ live live' v v' w', (visit .fresh countingLoop).state.live = some live ∧
        live.Shows countingLoop v ∧
        (visit .fresh g').state.live = some live' ∧ live'.Shows g' v' ∧
        (visit .fresh g').state.facts.Shows g' w' ∧
        v'.fact .after ⟨4⟩ = v.fact .after ⟨4⟩ ∧
          ⟨"R3"⟩ ∉ w'.fact .after ⟨3⟩ := by
  have hends : countingLoop.HasEnds := by decide
  have hdist : countingLoop.DistinctQuads := by decide
  refine ⟨hends, hdist, by decide +kernel, ?_⟩
  obtain ⟨-, -, live, live', v, v', w', -, -, hlive, hshown, hlive', hshown',
    hfaint', hsame, -, hkept⟩ :=
    dropping_faint_assignments hends hdist .fresh .fresh
  let move : Quad := ⟨⟨3⟩, .move ⟨"R3"⟩ (.reg ⟨"R0"⟩)⟩
  let branch : Quad := ⟨⟨4⟩, .branch (.reg ⟨"R3"⟩) (.const .null) .ne ⟨2⟩⟩
  exact ⟨live, live', v, v', w', hlive, hshown, hlive', hshown', hfaint',
    hsame branch (by decide) .after,
    hkept move (by decide +kernel) (by decide) ⟨"R3"⟩ (by decide)⟩

end Dataflow.Faintness
