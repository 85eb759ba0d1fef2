import Dataflow.Proofs.Hops
import Dataflow.Proofs.Liveness
import Dataflow.Proofs.NonNull
import Dataflow.Proofs.ReachingDefinitions

/-!
# Definitions and the uses they reach

Liveness goes against control along successor lists and asks for a use ahead.
Reaching definitions go with control along predecessor lists and ask for a
definition behind. Both analyses have been put in terms of paths, the one of
runs and the other of paths proper, and in a regular graph the two are the same
lists of quads. So a definition has a use ahead exactly when it reaches a use:
`useAhead_iff_defClear`.

What is live at the entry has no definition to start from. There the path starts
with the method, and its first quad is a successor of the entry for the one
analysis and has the entry as a predecessor for the other.
-/

namespace Dataflow

variable {g : Graph} {e : QuadGraph} {r : Register} {d q u : Quad}

theorem Graph.Regular.isRun_iff_isPath (hg : g.Regular)
    (he : g.quadGraph = .ok e) {l : List Quad} : e.IsRun l ↔ e.IsPath l := by
  simp only [QuadGraph.IsRun, QuadGraph.IsPath, hg.mem_succs_iff he,
    hg.mem_preds_iff he]

theorem Graph.entryPath_cons {path : List Quad} :
    g.EntryPath e (q :: path) u ↔ none ∈ e.preds q.id ∧
      (∀ p ∈ q :: path, p ∈ g.quads) ∧ e.IsPath (q :: (path ++ [u])) := by
  constructor
  · intro h
    obtain ⟨hvisited, hlinked, first, hfirst, hnone⟩ := h
    obtain rfl : q = first := by simpa using hfirst
    exact ⟨hnone, hvisited, hlinked⟩
  · intro h
    obtain ⟨hnone, hvisited, hlinked⟩ := h
    exact ⟨hvisited, hlinked, q, rfl, hnone⟩

/-- A definition has a use ahead exactly when it has a clear path to one. -/
theorem Liveness.useAhead_iff_defClear (hg : g.Regular)
    (he : g.quadGraph = .ok e) :
    UseAhead g e r d ↔
      ∃ u ∈ g.quads, r ∈ u.uses ∧ ReachingDefinitions.DefClear g e r d u := by
  constructor
  · intro h
    obtain ⟨between, u, hclear, hu, huse, hrun⟩ := h
    exact ⟨u, hu, huse, between, hclear, (hg.isRun_iff_isPath he).1 hrun⟩
  · intro h
    obtain ⟨u, hu, huse, between, hclear, hpath⟩ := h
    exact ⟨between, u, hclear, hu, huse, (hg.isRun_iff_isPath he).2 hpath⟩

/-- Control can run from the start of the method to a quad that uses a register,
through quads that do not define it. -/
def Liveness.UsedFromEntry (g : Graph) (e : QuadGraph) (r : Register) : Prop :=
  ∃ u ∈ g.quads, r ∈ u.uses ∧
    ∃ path, g.EntryPath e path u ∧ ∀ p ∈ path, r ∉ p.defs

namespace Liveness

theorem UsedFromEntry.of_uses (hq : q ∈ g.quads) (hnone : none ∈ e.preds q.id)
    (hr : r ∈ q.uses) : UsedFromEntry g e r :=
  ⟨q, hq, hr, [], Graph.entryPath_nil.2 hnone, by simp⟩

theorem UsedFromEntry.of_useAhead (hg : g.Regular) (he : g.quadGraph = .ok e)
    (hq : q ∈ g.quads) (hnone : none ∈ e.preds q.id) (hr : r ∉ q.defs)
    (h : UseAhead g e r q) : UsedFromEntry g e r := by
  obtain ⟨u, hu, huse, between, hclear, hpath⟩ :=
    (useAhead_iff_defClear hg he).1 h
  refine ⟨u, hu, huse, q :: between,
    Graph.entryPath_cons.2 ⟨hnone, ?_, hpath⟩, ?_⟩
  · exact List.forall_mem_cons.2 ⟨hq, fun p hp => (hclear p hp).1⟩
  · exact List.forall_mem_cons.2 ⟨hr, fun p hp => (hclear p hp).2⟩

/-- A path from the entry is a quad that the method can begin with, and what
lies ahead of it. -/
theorem usedFromEntry_iff (hg : g.Regular) (he : g.quadGraph = .ok e) :
    UsedFromEntry g e r ↔ ∃ q ∈ g.quads, none ∈ e.preds q.id ∧
      (r ∈ q.uses ∨ (r ∉ q.defs ∧ UseAhead g e r q)) := by
  constructor
  · intro h
    obtain ⟨u, hu, huse, path, hentry, hclear⟩ := h
    cases path with
    | nil => exact ⟨u, hu, Graph.entryPath_nil.1 hentry, Or.inl huse⟩
    | cons q between =>
        obtain ⟨hnone, hvisited, hpath⟩ := Graph.entryPath_cons.1 hentry
        obtain ⟨hq, hvisited⟩ := List.forall_mem_cons.1 hvisited
        obtain ⟨hr, hclear⟩ := List.forall_mem_cons.1 hclear
        refine ⟨q, hq, hnone, Or.inr ⟨hr, (useAhead_iff_defClear hg he).2 ?_⟩⟩
        exact ⟨u, hu, huse, between,
          fun p hp => ⟨hvisited p hp, hclear p hp⟩, hpath⟩
  · intro h
    obtain ⟨q, hq, hnone, huse | ⟨hr, hahead⟩⟩ := h
    · exact .of_uses hq hnone huse
    · exact .of_useAhead hg he hq hnone hr hahead

theorem exists_trail_iff_usedFromEntry (hg : g.Regular)
    (he : g.quadGraph = .ok e) :
    (∃ stops, relay.Trail g e .backward e.entrySuccs r stops) ↔
      UsedFromEntry g e r := by
  rw [Relay.exists_trail_iff, usedFromEntry_iff hg he]
  refine exists_congr fun q => and_congr_right fun hq => and_congr ?_ ?_
  · rw [hg.mem_entrySuccs_iff he, hg.mem_preds_iff he]
  · refine or_congr_right ⟨fun h => ?_, fun h => ?_⟩
    · obtain ⟨r', ⟨rfl, hr⟩, htrail⟩ := h
      exact ⟨hr, exists_trail_iff_useAhead.1 htrail⟩
    · exact ⟨r, ⟨rfl, h.1⟩, exists_trail_iff_useAhead.2 h.2⟩

end Liveness

/-- A register is found live after a quad that defines it exactly when the
definition is found to reach a quad that uses it; and it is found live at the
entry exactly when control can run from there to a use without meeting a
definition of it. -/
theorem live_iff_definition_reaches_use {g : Graph} (hg : g.Assembled)
    (s : Liveness.State) (s' : ReachingDefinitions.State) :
    ∃ e stats stats' v w, g.quadGraph = .ok e ∧
      (Liveness.visit s g).result = .ok stats ∧
      (Liveness.visit s g).state.facts.Shows g v ∧
      (ReachingDefinitions.visit s' g).result = .ok stats' ∧
      (ReachingDefinitions.visit s' g).state.facts.Shows g w ∧
      (∀ d ∈ g.quads, ∀ r ∈ d.defs,
        r ∈ v.fact .after d.id ↔
          ∃ u ∈ g.quads, r ∈ u.uses ∧ d.id ∈ w.fact .before u.id) ∧
      ∀ r, r ∈ v.terminal .entry ↔ ∃ u ∈ g.quads, r ∈ u.uses ∧
        ∃ path, g.EntryPath e path u ∧ ∀ p ∈ path, r ∉ p.defs := by
  have hregular := hg.wellFormed.regular
  have hends := hregular.ends
  have hdist := hregular.distinct
  obtain ⟨e, stats, passes, v, he, hresult, hshown, hsettles⟩ :=
    Liveness.visit_settles hends hdist s
  obtain ⟨e', stats', passes', w, he', hresult', hshown', hsettles'⟩ :=
    ReachingDefinitions.visit_settles hends hdist s'
  obtain rfl : e = e' := Except.ok.inj (he.symm.trans he')
  refine ⟨e, stats, stats', v, w, he, hresult, hshown, hresult', hshown',
    fun d hd r hr => ?_, fun r => ?_⟩
  · have hlive : r ∈ v.fact .after d.id ↔ Liveness.UseAhead g e r d := by
      rw [← Liveness.exists_trail_iff_useAhead]
      exact (Liveness.follows g).mem_arrival_iff he hdist hsettles hd
    rw [hlive, Liveness.useAhead_iff_defClear hregular he]
    refine exists_congr fun u => and_congr_right fun hu =>
      and_congr_right fun _ => ?_
    constructor
    · intro hclear
      exact ReachingDefinitions.mem_before_of_defClear hdist he hsettles' hd hr
        hclear hu
    · intro hreaches
      obtain ⟨r', hr', hclear⟩ :=
        ReachingDefinitions.defClear_of_mem_before hdist he hsettles' hd hu
          hreaches
      exact Quad.eq_of_mem_defs hr hr' ▸ hclear
  · rw [← Liveness.UsedFromEntry,
      ← Liveness.exists_trail_iff_usedFromEntry hregular he]
    exact (Liveness.follows g).mem_target_iff he hdist hsettles

/-- In a small loop the register that is moved to is live after the move, so the
move reaches a use. It is not live at the entry, so every path from there to a
use meets a definition. -/
theorem live_iff_definition_reaches_use_smallLoop :
    Graph.build "loop" NonNull.smallLoopScript = .ok .smallLoop ∧
      ∃ e v w, Graph.smallLoop.quadGraph = .ok e ∧
        (Liveness.visit .fresh .smallLoop).state.facts.Shows .smallLoop v ∧
        (ReachingDefinitions.visit .fresh .smallLoop).state.facts.Shows
          .smallLoop w ∧
        ⟨"R1"⟩ ∈ v.fact .after ⟨3⟩ ∧ ⟨"R1"⟩ ∉ v.terminal .entry ∧
        (∃ u ∈ Graph.smallLoop.quads, ⟨"R1"⟩ ∈ u.uses ∧
          ⟨3⟩ ∈ w.fact .before u.id) ∧
        ∀ u ∈ Graph.smallLoop.quads, ⟨"R1"⟩ ∈ u.uses →
          ∀ path, Graph.smallLoop.EntryPath e path u →
            ∃ p ∈ path, ⟨"R1"⟩ ∈ p.defs := by
  have hbuild : Graph.build "loop" NonNull.smallLoopScript =
      .ok .smallLoop := rfl
  obtain ⟨e, -, -, v, w, he, -, hshown, -, hshown', hreaches, hentry⟩ :=
    live_iff_definition_reaches_use (.built hbuild) .fresh .fresh
  let move : Quad := ⟨⟨3⟩, .move ⟨"R1"⟩ (.reg ⟨"R0"⟩)⟩
  have hmove : move ∈ Graph.smallLoop.quads := by decide
  have hlive :
      ((Liveness.visit .fresh .smallLoop).state.facts.get? .after ⟨3⟩).any
        (⟨"R1"⟩ ∈ ·) := by decide +kernel
  have hdead :
      ((Liveness.visit .fresh .smallLoop).state.facts.terminal? .entry).all
        (⟨"R1"⟩ ∉ ·) := by decide +kernel
  rw [hshown.fact ⟨3⟩ ⟨move, hmove, rfl⟩ .after, Option.any_some,
    decide_eq_true_iff] at hlive
  rw [hshown.terminal .entry, Option.all_some, decide_eq_true_iff] at hdead
  refine ⟨hbuild, e, v, w, he, hshown, hshown', hlive, hdead,
    (hreaches move hmove ⟨"R1"⟩ (by decide)).1 hlive,
    fun u hu huse path hpath => ?_⟩
  by_contra hclear
  exact hdead ((hentry ⟨"R1"⟩).2
    ⟨u, hu, huse, path, hpath, fun p hp hr => hclear ⟨p, hp, hr⟩⟩)

end Dataflow
