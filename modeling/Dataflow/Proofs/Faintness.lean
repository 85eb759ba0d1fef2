import Dataflow.Proofs.Relay

/-!
# A register is faint when no chain leads to a real use

A move or a binary operation needs its operands only for the sake of its result.
So a register matters at some point when its value flows on, from register to
register through such quads, until a quad of another kind uses it. This file
shows that the analysis finds exactly the registers with such a chain, and that
the ones it reports as faint are those without.

Whether a quad makes its operands live depends on what is live after it, so the
transfer is not of the kind that kills some registers and adds others. It still
works one register at a time, but from one register to another: what makes an
operand live is the result. That is a relay, and its trails are the chains.
-/

namespace Dataflow.Faintness

/-- A move or a binary operation, which reads its operands only to make its
result. -/
def Derives (q : Quad) : Prop := q.opcode = .move ∨ q.opcode = .binary

instance (q : Quad) : Decidable (Derives q) :=
  inferInstanceAs (Decidable (_ ∨ _))

/-- What makes a register matter before a quad: the quad uses it and is no move
or binary operation; or it matters after the quad and is not defined there; or
it is an operand of a move or a binary operation whose result matters. -/
def dependence : Relay Register where
  brings q r := ¬ Derives q ∧ r ∈ q.uses
  hands q r r' :=
    (r ∉ q.defs ∧ r' = r) ∨ (Derives q ∧ r ∈ q.uses ∧ r' ∈ q.defs)

/-- A chain leads from a register, through quads that begin with one of the
given ones and follow each other, to a quad that needs its value. -/
def Needed (g : Graph) (e : QuadGraph) (firsts : List Neighbour)
    (r : Register) : Prop :=
  ∃ stops, dependence.Trail g e .backward firsts r stops

theorem matters_iff {q : Quad} {live : OrdSet Register} :
    matters q live ↔ ¬ Derives q ∨ ∃ r ∈ q.defs, r ∈ live := by
  have hany : q.defs.any (· ∈ live) = true ↔ ∃ r ∈ q.defs, r ∈ live := by
    rw [List.any_eq_true]
    simp only [decide_eq_true_eq]
  unfold matters Derives
  split
  · next hop => simp [hop]
  · next hop => simp [hop]
  · next hmove hbinary =>
      refine iff_of_true rfl (Or.inl ?_)
      rintro (hop | hop)
      · exact hmove hop
      · exact hbinary hop

theorem follows (g : Graph) : (problem g).Follows g dependence := by
  refine ⟨rfl, rfl, fun q _ live r => ?_⟩
  show r ∈ transfer q live ↔ (¬ Derives q ∧ r ∈ q.uses) ∨
    ∃ r' ∈ live, (r ∉ q.defs ∧ r' = r) ∨ (Derives q ∧ r ∈ q.uses ∧ r' ∈ q.defs)
  rw [mem_transfer, matters_iff]
  constructor
  · rintro (⟨hlive, hdef⟩ | ⟨hother | ⟨r', hr', hlive⟩, huse⟩)
    · exact Or.inr ⟨r, hlive, Or.inl ⟨hdef, rfl⟩⟩
    · exact Or.inl ⟨hother, huse⟩
    · by_cases hderives : Derives q
      · exact Or.inr ⟨r', hlive, Or.inr ⟨hderives, huse, hr'⟩⟩
      · exact Or.inl ⟨hderives, huse⟩
  · rintro (⟨hother, huse⟩ | ⟨r', hlive, ⟨hdef, rfl⟩ | ⟨-, huse, hr'⟩⟩)
    · exact Or.inr ⟨Or.inl hother, huse⟩
    · exact Or.inl ⟨hlive, hdef⟩
    · exact Or.inr ⟨Or.inr ⟨r', hr', hlive⟩, huse⟩

/-- The points that control can pass to next from either side of a quad. -/
def onward (e : QuadGraph) : Side → QuadId → List Neighbour
  | .after, i => e.succs i
  | .before, i => [some i]

/-- A visit keeps the strongly live registers as the loop of sweeps has left
them, and reports the other registers of the method. -/
theorem visit_settles {g : Graph} (hends : g.HasEnds) (hdist : g.DistinctQuads)
    (s : State) :
    ∃ e stats live passes v, g.quadGraph = .ok e ∧
      (visit s g).result = .ok stats ∧
      (visit s g).state.live = some live ∧ live.Shows g v ∧
      (visit s g).state.facts.Shows g (v.map g.registers.diff) ∧
      (visit s g).state.report =
        some (.ofTable g.name (visit s g).state.facts) ∧
      (problem g).Settles (g.layout e .backward)
        (problem g).start passes v := by
  obtain ⟨e, sol, v, he, hresult, hstate, hshown, hsettles, -⟩ :=
    (lawful g).visit_ok hends hdist s []
      fun sol =>
        (⟨g.registers, complement g.registers sol.facts, some sol.facts,
          some (.ofTable g.name (complement g.registers sol.facts))⟩,
        [.complemented g.name g.registers.size])
  have hlive : (visit s g).state.live = some sol.facts :=
    congrArg State.live hstate
  have hfacts : (visit s g).state.facts = complement g.registers sol.facts :=
    congrArg State.facts hstate
  have hreport : (visit s g).state.report =
      some (.ofTable g.name (complement g.registers sol.facts)) :=
    congrArg State.report hstate
  exact ⟨e, sol.stats, sol.facts, sol.passes, v, he, hresult, hlive, hshown,
    hfacts ▸ hshown.map _, hfacts ▸ hreport, hsettles⟩

/-- The strongly live registers are those with a chain. -/
theorem visit_needed {g : Graph} (hends : g.HasEnds) (hdist : g.DistinctQuads)
    (s : State) :
    ∃ e stats live v, g.quadGraph = .ok e ∧ (visit s g).result = .ok stats ∧
      (visit s g).state.live = some live ∧ live.Shows g v ∧
      (visit s g).state.facts.Shows g (v.map g.registers.diff) ∧
      (visit s g).state.report =
        some (.ofTable g.name (visit s g).state.facts) ∧
      (∀ q ∈ g.quads, ∀ side r,
        r ∈ v.fact side q.id ↔ Needed g e (onward e side q.id) r) ∧
      (∀ r, r ∈ v.terminal .entry ↔ Needed g e e.entrySuccs r) ∧
      v.terminal .exit = ∅ := by
  obtain ⟨e, stats, live, passes, v, he, hresult, hlive, hshown, hfaint,
    hreport, hsettles⟩ := visit_settles hends hdist s
  refine ⟨e, stats, live, v, he, hresult, hlive, hshown, hfaint, hreport,
    fun q hq side r => ?_,
    fun r => (follows g).mem_target_iff he hdist hsettles,
    hsettles.isSolution.source⟩
  cases side with
  | before => exact (follows g).mem_departure_iff he hdist hsettles hq
  | after => exact (follows g).mem_arrival_iff he hdist hsettles hq

/-- The registers that the analysis finds live, in the strong sense, at a point
are those that a chain leads on from, whether the point is before a quad, after
one or the entry; none is at the exit. The registers that it reports as faint
are those of the method from which no chain leads on. -/
theorem live_iff_dependence_chain {g : Graph} (hends : g.HasEnds)
    (hdist : g.DistinctQuads) (s : State) :
    ∃ e stats live v w, g.quadGraph = .ok e ∧
      (visit s g).result = .ok stats ∧
      (visit s g).state.live = some live ∧ live.Shows g v ∧
      (visit s g).state.facts.Shows g w ∧
      (visit s g).state.report =
        some (.ofTable g.name (visit s g).state.facts) ∧
      (∀ q ∈ g.quads, ∀ r,
        (r ∈ v.fact .after q.id ↔ Needed g e (e.succs q.id) r) ∧
        (r ∈ v.fact .before q.id ↔ Needed g e [some q.id] r) ∧
        (r ∈ w.fact .after q.id ↔
          r ∈ g.registers ∧ ¬ Needed g e (e.succs q.id) r) ∧
        (r ∈ w.fact .before q.id ↔
          r ∈ g.registers ∧ ¬ Needed g e [some q.id] r)) ∧
      (∀ r,
        (r ∈ v.terminal .entry ↔ Needed g e e.entrySuccs r) ∧
        (r ∈ w.terminal .entry ↔
          r ∈ g.registers ∧ ¬ Needed g e e.entrySuccs r)) ∧
      v.terminal .exit = ∅ ∧ w.terminal .exit = g.registers := by
  obtain ⟨e, stats, live, v, he, hresult, hlive, hshown, hfaint, hreport,
    hfact, hentry, hexit⟩ := visit_needed hends hdist s
  -- a fact and its complement are told apart by the chain alone
  have hdiff : ∀ {live : OrdSet Register} {r : Register} {P : Prop},
      (r ∈ live ↔ P) → (r ∈ g.registers.diff live ↔ r ∈ g.registers ∧ ¬ P) :=
    fun h => OrdSet.mem_diff.trans (and_congr_right fun _ => not_congr h)
  refine ⟨e, stats, live, v, v.map g.registers.diff, he, hresult, hlive, hshown,
    hfaint, hreport, fun q hq r => ?_,
    fun r => ⟨hentry r, hdiff (hentry r)⟩, hexit, ?_⟩
  · have hafter := hfact q hq .after r
    have hbefore := hfact q hq .before r
    exact ⟨hafter, hbefore, hdiff hafter, hdiff hbefore⟩
  · show g.registers.diff (v.terminal .exit) = g.registers
    rw [hexit]
    exact OrdSet.ext fun r => by simp

/-- In a small loop the register that is moved into the one compared at the end
is live before the move, by a chain over both. -/
theorem live_iff_dependence_chain_smallLoop :
    Graph.smallLoop.HasEnds ∧ Graph.smallLoop.DistinctQuads ∧
      ∃ live v w, (visit .fresh .smallLoop).state.live = some live ∧
        live.Shows .smallLoop v ∧
        (visit .fresh .smallLoop).state.facts.Shows .smallLoop w ∧
        ⟨"R0"⟩ ∈ v.fact .after ⟨2⟩ ∧ ⟨"R0"⟩ ∉ w.fact .after ⟨2⟩ := by
  refine ⟨by decide, by decide, ?_⟩
  obtain ⟨e, -, live, v, w, he, -, hlive, hshown, hfaint, -, hiff, -⟩ :=
    live_iff_dependence_chain (g := .smallLoop) (by decide) (by decide) .fresh
  have hedges : (Graph.smallLoop.quadGraph.map fun e =>
      decide (some ⟨3⟩ ∈ e.succs ⟨2⟩ ∧ some ⟨4⟩ ∈ e.succs ⟨3⟩)) =
        .ok true := rfl
  rw [he] at hedges
  obtain ⟨hmove, hbranch⟩ := of_decide_eq_true (Except.ok.inj hedges)
  let check : Quad := ⟨⟨2⟩, .nullCheck none ⟨"R0"⟩⟩
  let move : Quad := ⟨⟨3⟩, .move ⟨"R1"⟩ (.reg ⟨"R0"⟩)⟩
  let branch : Quad := ⟨⟨4⟩, .branch (.reg ⟨"R1"⟩) (.const .null) .eq .exit⟩
  have hneeded : Needed .smallLoop e (e.succs check.id) ⟨"R0"⟩ := by
    have hlast : dependence.Trail .smallLoop e .backward (e.succs move.id)
        ⟨"R1"⟩ [(branch, ⟨"R1"⟩)] :=
      Relay.Trail.single (by decide) hbranch ⟨by decide, by decide⟩
    exact ⟨_, hlast.cons (q := move) (by decide) hmove
      (Or.inr ⟨Or.inl rfl, by decide, by decide⟩)⟩
  obtain ⟨hafter, -, hnot, -⟩ := hiff check (by decide) ⟨"R0"⟩
  exact ⟨live, v, w, hlive, hshown, hfaint, hafter.2 hneeded,
    fun hmem => (hnot.1 hmem).2 hneeded⟩

end Dataflow.Faintness
