/-!
# Searches over a stack

Two ways to walk a graph given by its neighbour lists, both with an explicit
stack and both safe on cycles, because a node counts only the first time it is
met.

`reversePostorder` is a depth-first search: a node is finished when all that its
neighbours lead to is finished. `lookThrough` walks on through the nodes that
have nothing to show and collects what the others show.

Each takes a bound on its steps. A node pushes its neighbours only once, so the
number of edges bounds the steps; the callers pass such a bound, and it is never
what stops the walk.
-/

namespace Dataflow.Search

variable {α β : Type} [DecidableEq α] [DecidableEq β]

/-- What is left to do with a node. -/
inductive Job (α : Type) where
  | visit (a : α)
  | finish (a : α)

/-- The neighbours of a node that are not seen yet. -/
def fresh (next : α → List α) (seen : List α) (a : α) : List α :=
  (next a).filter (· ∉ seen)

/-- Works off the stack of jobs; finished nodes are put in front, so the last
finished comes first. Only neighbours that are not seen yet are pushed. -/
def finishing (next : α → List α) :
    Nat → List (Job α) → List α → List α → List α
  | 0, _, _, finished => finished
  | _ + 1, [], _, finished => finished
  | n + 1, .finish a :: jobs, seen, finished =>
    finishing next n jobs seen (a :: finished)
  | n + 1, .visit a :: jobs, seen, finished =>
    if a ∈ seen then finishing next n jobs seen finished
    else
      finishing next n
        ((fresh next (a :: seen) a).map .visit ++ .finish a :: jobs)
        (a :: seen) finished

/-- The nodes that a depth-first search from `start` reaches, the last finished
first. `edges` is at least the number of edges. -/
def reversePostorder (next : α → List α) (edges : Nat) (start : α) : List α :=
  finishing next (2 * edges + 3) [.visit start] [] []

/-- What a walk meets at a node. -/
inductive Sight (α β : Type) where
  /-- Something to see; the walk does not go on from here. -/
  | shows (b : β)
  /-- Nothing to see; the walk goes on. -/
  | leadsTo (next : List α)
  /-- Nothing to see, and no way on. -/
  | closed

/-- Works off the stack of nodes. -/
def looking (look : α → Sight α β) : Nat → List α → List α → List β → List β
  | 0, _, _, found => found
  | _ + 1, [], _, found => found
  | n + 1, a :: rest, seen, found =>
    if a ∈ seen then looking look n rest seen found
    else
      match look a with
      | .shows b =>
        looking look n rest (a :: seen)
          (if b ∈ found then found else found ++ [b])
      | .leadsTo next => looking look n (next ++ rest) (a :: seen) found
      | .closed => looking look n rest (a :: seen) found

/-- What can be seen from the nodes of `start`, each sight once, in the order of
the walk. `edges` is at least the number of edges. -/
def lookThrough (look : α → Sight α β) (edges : Nat) (start : List α) :
    List β :=
  looking look (start.length + edges + 1) start [] []

end Dataflow.Search
