import Mathlib.Data.List.Chain
import Dataflow.Proofs.Neighbours

/-!
# Paths from quad to quad

What an analysis means is said by paths: lists of quads in which control can
pass from each to the next, as the predecessor lists have it. Paths are read
from their far end here, because facts travel forward and a statement about a
quad follows from statements about the quads just before it. So the lemmas take
the last quad off a path and put one more on.

Where facts travel backward the quads that follow matter, as the successor lists
have it. The two kinds of lists need not agree in a graph from outside, so that
is a notion of its own, a run, and it is read from the front.
-/

namespace Dataflow

namespace QuadGraph

/-- Control can pass from each quad of a list to the next. -/
def IsPath (e : QuadGraph) (l : List Quad) : Prop :=
  l.IsChain fun p q => some p.id ∈ e.preds q.id

variable {e : QuadGraph}

theorem isPath_pair {p q : Quad} :
    e.IsPath [p, q] ↔ some p.id ∈ e.preds q.id :=
  List.isChain_pair

theorem isPath_snoc {l : List Quad} {p q : Quad} :
    e.IsPath (l ++ [p] ++ [q]) ↔
      e.IsPath (l ++ [p]) ∧ some p.id ∈ e.preds q.id := by
  unfold IsPath
  rw [List.append_assoc, List.singleton_append, List.isChain_append_cons_cons]
  simp

/-- Control can pass from each quad of a list to the next, as the successor
lists have it. -/
def IsRun (e : QuadGraph) (l : List Quad) : Prop :=
  l.IsChain fun p q => some q.id ∈ e.succs p.id

theorem isRun_cons {p q : Quad} {l : List Quad} :
    e.IsRun (p :: q :: l) ↔ some q.id ∈ e.succs p.id ∧ e.IsRun (q :: l) :=
  List.isChain_cons_cons

theorem isRun_singleton (q : Quad) : e.IsRun [q] := List.isChain_singleton q

end QuadGraph

namespace Graph

/-- Control can run from the start of the method through the quads of a list,
which may be empty, to a quad. -/
structure EntryPath (g : Graph) (e : QuadGraph) (path : List Quad) (q : Quad) :
    Prop where
  visited : ∀ p ∈ path, p ∈ g.quads
  linked : e.IsPath (path ++ [q])
  entry : ∃ first, (path ++ [q]).head? = some first ∧ none ∈ e.preds first.id

variable {g : Graph} {e : QuadGraph}

theorem entryPath_nil {q : Quad} :
    g.EntryPath e [] q ↔ none ∈ e.preds q.id := by
  constructor
  · rintro ⟨-, -, first, hfirst, hnone⟩
    obtain rfl : q = first := by simpa using hfirst
    exact hnone
  · intro hnone
    exact ⟨by simp, List.isChain_singleton q, q, rfl, hnone⟩

theorem entryPath_snoc {path : List Quad} {p q : Quad} :
    g.EntryPath e (path ++ [p]) q ↔
      g.EntryPath e path p ∧ p ∈ g.quads ∧ some p.id ∈ e.preds q.id := by
  have hhead : (path ++ [p] ++ [q]).head? = (path ++ [p]).head? := by
    cases path <;> rfl
  constructor
  · rintro ⟨hvisited, hlinked, hentry⟩
    rw [QuadGraph.isPath_snoc] at hlinked
    rw [hhead] at hentry
    refine ⟨⟨fun x hx => hvisited x ?_, hlinked.1, hentry⟩,
      hvisited p ?_, hlinked.2⟩
    · exact List.mem_append_left _ hx
    · exact List.mem_append_right _ (List.mem_singleton_self p)
  · rintro ⟨⟨hvisited, hlinked, hentry⟩, hp, hedge⟩
    refine ⟨fun x hx => ?_, QuadGraph.isPath_snoc.2 ⟨hlinked, hedge⟩, ?_⟩
    · rcases List.mem_append.1 hx with hx | hx
      · exact hvisited x hx
      · exact List.mem_singleton.1 hx ▸ hp
    · rw [hhead]
      exact hentry

end Graph

end Dataflow
