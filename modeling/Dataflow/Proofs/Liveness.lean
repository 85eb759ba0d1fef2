import Dataflow.Proofs.Path
import Dataflow.Proofs.Relay

/-!
# A register is live when a use lies ahead

A register is live after a quad when control can run on to a quad that uses it,
through quads that leave it alone. This file shows that the analysis finds
exactly these registers.

A quad hands a register on unless it defines it, and brings it forth by using
it, also where it does both. So the register is the same all along a trail, and
what is left of the trail is the run of quads up to the use.
-/

namespace Dataflow.Liveness

/-- Control can run from a quad, in one step or more, to a quad that uses a
register, through quads that do not define it. -/
def UseAhead (g : Graph) (e : QuadGraph) (r : Register) (q : Quad) : Prop :=
  ∃ (between : List Quad) (user : Quad),
    (∀ p ∈ between, p ∈ g.quads ∧ r ∉ p.defs) ∧
    user ∈ g.quads ∧ r ∈ user.uses ∧ e.IsRun (q :: (between ++ [user]))

variable {g : Graph} {e : QuadGraph} {r : Register} {p q : Quad}

theorem UseAhead.next (hp : p ∈ g.quads) (hr : r ∈ p.uses)
    (hedge : some p.id ∈ e.succs q.id) : UseAhead g e r q :=
  ⟨[], p, by simp, hp, hr,
    QuadGraph.isRun_cons.2 ⟨hedge, QuadGraph.isRun_singleton p⟩⟩

theorem UseAhead.past (h : UseAhead g e r p) (hp : p ∈ g.quads)
    (hr : r ∉ p.defs) (hedge : some p.id ∈ e.succs q.id) :
    UseAhead g e r q := by
  obtain ⟨between, user, hclear, huser, huse, hrun⟩ := h
  refine ⟨p :: between, user, ?_, huser, huse,
    QuadGraph.isRun_cons.2 ⟨hedge, hrun⟩⟩
  intro x hx
  rcases List.mem_cons.1 hx with rfl | hx
  · exact ⟨hp, hr⟩
  · exact hclear x hx

/-- A quad brings forth what it uses and hands on what it does not define. -/
def relay : Relay Register where
  brings q r := r ∈ q.uses
  hands q r r' := r' = r ∧ r ∉ q.defs

theorem follows (g : Graph) : (problem g).Follows g relay := by
  refine ⟨rfl, rfl, fun q _ s r => ?_⟩
  show r ∈ transfer q s ↔ r ∈ q.uses ∨ ∃ b ∈ s, b = r ∧ r ∉ q.defs
  rw [mem_transfer, or_comm]
  simp

theorem useAhead_of_trail {stops : List (Quad × Register)} :
    ∀ {q : Quad}, relay.Trail g e .backward (e.succs q.id) r stops →
      UseAhead g e r q := by
  induction stops with
  | nil =>
      intro q htrail
      obtain ⟨p, hhead, -⟩ := htrail.first
      cases hhead
  | cons s rest ih =>
      intro q htrail
      obtain ⟨p, rest, hstops, hp, hedge, hcase⟩ := htrail.uncons
      cases hstops
      rcases hcase with ⟨huse, -⟩ | ⟨r', ⟨rfl, hr⟩, hrest⟩
      · exact UseAhead.next hp huse hedge
      · exact (ih hrest).past hp hr hedge

theorem UseAhead.exists_trail (h : UseAhead g e r q) :
    ∃ stops, relay.Trail g e .backward (e.succs q.id) r stops := by
  obtain ⟨between, user, hclear, huser, huse, hrun⟩ := h
  induction between generalizing q with
  | nil =>
      obtain ⟨hedge, -⟩ := QuadGraph.isRun_cons.1 hrun
      exact ⟨_, Relay.Trail.single huser hedge huse⟩
  | cons p rest ih =>
      obtain ⟨hedge, hrun⟩ := QuadGraph.isRun_cons.1 hrun
      obtain ⟨hp, hr⟩ := hclear p List.mem_cons_self
      obtain ⟨stops, htrail⟩ :=
        ih (fun x hx => hclear x (List.mem_cons_of_mem p hx)) hrun
      exact ⟨_, htrail.cons hp hedge ⟨rfl, hr⟩⟩

theorem exists_trail_iff_useAhead :
    (∃ stops, relay.Trail g e .backward (e.succs q.id) r stops) ↔
      UseAhead g e r q :=
  ⟨fun ⟨_, htrail⟩ => useAhead_of_trail htrail, UseAhead.exists_trail⟩

theorem visit_settles (hends : g.HasEnds) (hdist : g.DistinctQuads)
    (s : State) :
    ∃ e stats passes v, g.quadGraph = .ok e ∧ (visit s g).result = .ok stats ∧
      (visit s g).state.facts.Shows g v ∧
      (problem g).Settles (g.layout e .backward)
        (problem g).start passes v := by
  obtain ⟨e, sol, v, he, hresult, hstate, hshown, hsettles, -⟩ :=
    (lawful g).visit_ok hends hdist s []
      fun sol =>
        (⟨g.registers, sol.facts, some (.ofTable g.name sol.facts)⟩, [])
  have hfacts : (visit s g).state.facts = sol.facts :=
    congrArg State.facts hstate
  exact ⟨e, sol.stats, sol.passes, v, he, hresult, hfacts ▸ hshown, hsettles⟩

/-- The registers that the analysis finds live after a quad are those with a use
ahead; before the quad those are live that it uses or that are live after it
and that it does not define; none is live at the exit; and at the entry those
are live that are so before some quad the method can begin with. -/
theorem live_iff_use_ahead {g : Graph} (hends : g.HasEnds)
    (hdist : g.DistinctQuads) (s : State) :
    ∃ e stats v, g.quadGraph = .ok e ∧ (visit s g).result = .ok stats ∧
      (visit s g).state.facts.Shows g v ∧
      (∀ q ∈ g.quads, ∀ r,
        (r ∈ v.fact .after q.id ↔ UseAhead g e r q) ∧
        (r ∈ v.fact .before q.id ↔
          r ∈ q.uses ∨ (r ∈ v.fact .after q.id ∧ r ∉ q.defs))) ∧
      v.terminal .exit = ∅ ∧
      ∀ r, r ∈ v.terminal .entry ↔
        ∃ q ∈ g.quads, some q.id ∈ e.entrySuccs ∧ r ∈ v.fact .before q.id := by
  obtain ⟨e, stats, passes, v, he, hresult, hshown, hsettles⟩ :=
    visit_settles hends hdist s
  have hv := hsettles.isSolution
  refine ⟨e, stats, v, he, hresult, hshown, fun q hq r => ⟨?_, ?_⟩,
    hv.source, fun r => ?_⟩
  · rw [← exists_trail_iff_useAhead]
    exact (follows g).mem_arrival_iff he hdist hsettles hq
  · have hdep : v.fact .before q.id = transfer q (v.fact .after q.id) :=
      hv.departure q hq
    rw [hdep, mem_transfer, or_comm]
  · have hentry : v.terminal .entry = (problem g).inflow v e.entrySuccs :=
      hv.target
    rw [hentry]
    exact Problem.mem_inflow_quads (p := problem g) rfl hv.source
      fun i hi => QuadGraph.visits_of_mem_finals (d := .backward) he hi

/-- In a small loop the register that is checked at its head is live after the
branch that leads back there. -/
theorem live_iff_use_ahead_smallLoop :
    Graph.smallLoop.HasEnds ∧ Graph.smallLoop.DistinctQuads ∧
      ∃ stats v, (visit .fresh .smallLoop).result = .ok stats ∧
        (visit .fresh .smallLoop).state.facts.Shows .smallLoop v ∧
        ⟨"R0"⟩ ∈ v.fact .after ⟨4⟩ ∧ ⟨"R1"⟩ ∈ v.fact .before ⟨4⟩ ∧
        v.terminal .exit = ∅ := by
  refine ⟨by decide, by decide, ?_⟩
  obtain ⟨e, stats, v, he, hresult, hshown, hiff, hexit, -⟩ :=
    live_iff_use_ahead (g := .smallLoop) (by decide) (by decide) .fresh
  have hedges : (Graph.smallLoop.quadGraph.map fun e =>
      decide (some ⟨2⟩ ∈ e.succs ⟨4⟩)) = .ok true := rfl
  rw [he] at hedges
  have hback := of_decide_eq_true (Except.ok.inj hedges)
  let check : Quad := ⟨⟨2⟩, .nullCheck none ⟨"R0"⟩⟩
  let branch : Quad := ⟨⟨4⟩, .branch (.reg ⟨"R1"⟩) (.const .null) .eq .exit⟩
  have hahead : UseAhead .smallLoop e ⟨"R0"⟩ branch :=
    UseAhead.next (p := check) (by decide) (by decide) hback
  exact ⟨stats, v, hresult, hshown,
    (hiff branch (by decide) ⟨"R0"⟩).1.2 hahead,
    (hiff branch (by decide) ⟨"R1"⟩).2.2 (Or.inl (by decide)), hexit⟩

end Dataflow.Liveness
