import Dataflow.Proofs.Unreachable

/-!
# Program order is the order of a depth-first search

The search of `Graph/Search.lean` is a loop over a stack of jobs under a bound
on its steps. Here both are taken away. `Search.Finishes` is the loop without
the bound, so that it can be said to end; `Search.Explores` is the search that
the loop stands for, written by recursion: to visit a node is to explore its
neighbours in the order of their list and to finish the node after them.

The two meet in `Search.Unfolds`, which reads a stack from the top: a `visit` is
an exploration of that one node, a `finish` puts the node down. Pushing the
neighbours of a node above its `finish` is then what exploring it means, and the
stack needs no other invariant. The loop does not push neighbours that are seen
already; the recursion comes to them and passes them over, which is the same
(`Explores.of_filter`).

What is known of a depth-first search is shown by induction on the exploration.
The one fact of weight is about an edge whose end is not finished before its
start. The end was met before, or it would be finished by now; it is not
finished, so the search is still inside it, and all that the search meets there
it leads to. In the reversed order such an edge is one that does not go forward,
so it closes a cycle, and without cycles the order is topological.
-/

namespace Dataflow

namespace Search

variable {α : Type}

/-! ## What a depth-first search does -/

/-- A depth-first search visits the nodes of a list one after the other: from
those seen before it comes to those seen after, and finishes the nodes of a list
in its order. A node that was seen is passed over, any other is explored: first
all its neighbours, and then it is finished. -/
inductive Explores (next : α → List α) :
    List α → List α → List α → List α → Prop where
  | nil {seen : List α} : Explores next [] seen seen []
  | skip {a : α} {rest seen seen' post : List α} (hseen : a ∈ seen)
      (h : Explores next rest seen seen' post) :
      Explores next (a :: rest) seen seen' post
  | visit {a : α} {rest seen seen₁ seen₂ post₁ post₂ : List α} (hnew : a ∉ seen)
      (hinner : Explores next (next a) (a :: seen) seen₁ post₁)
      (hrest : Explores next rest seen₁ seen₂ post₂) :
      Explores next (a :: rest) seen seen₂ (post₁ ++ a :: post₂)

theorem Explores.cons {next : α → List α} {a : α}
    {rest seen seen₁ seen₂ post₁ post₂ : List α}
    (h : Explores next [a] seen seen₁ post₁)
    (hrest : Explores next rest seen₁ seen₂ post₂) :
    Explores next (a :: rest) seen seen₂ (post₁ ++ post₂) := by
  cases h with
  | skip hseen h =>
      cases h
      exact .skip hseen hrest
  | visit hnew hinner h =>
      cases h
      rw [List.append_assoc]
      exact .visit hnew hinner hrest

theorem Explores.unique {next : α → List α} {todo seen seen₁ seen₂ : List α}
    {post₁ post₂ : List α} (h₁ : Explores next todo seen seen₁ post₁)
    (h₂ : Explores next todo seen seen₂ post₂) :
    seen₁ = seen₂ ∧ post₁ = post₂ := by
  induction h₁ generalizing seen₂ post₂ with
  | nil =>
      cases h₂
      exact ⟨rfl, rfl⟩
  | skip hseen _ ih =>
      cases h₂ with
      | skip _ h₂ => exact ih h₂
      | visit hnew _ _ => exact absurd hseen hnew
  | visit hnew _ _ ihinner ihrest =>
      cases h₂ with
      | skip hseen _ => exact absurd hseen hnew
      | visit _ hinner hrest =>
          obtain ⟨rfl, rfl⟩ := ihinner hinner
          obtain ⟨rfl, rfl⟩ := ihrest hrest
          exact ⟨rfl, rfl⟩

theorem Explores.mem_seen_iff {next : α → List α}
    {todo seen seen' post : List α} (h : Explores next todo seen seen' post)
    (x : α) :
    x ∈ seen' ↔ x ∈ seen ∨ x ∈ post := by
  induction h with
  | nil => simp
  | skip _ _ ih => exact ih
  | visit _ _ _ ihinner ihrest =>
      rw [ihrest, ihinner, List.mem_append, List.mem_cons, List.mem_cons]
      grind

theorem Explores.mem_seen {next : α → List α} {todo seen seen' post : List α}
    (h : Explores next todo seen seen' post) : ∀ a ∈ todo, a ∈ seen' := by
  induction h with
  | nil => simp
  | skip hseen h ih =>
      intro x hx
      rcases List.mem_cons.1 hx with rfl | hx
      · exact (h.mem_seen_iff x).2 (Or.inl hseen)
      · exact ih x hx
  | visit _ hinner hrest _ ihrest =>
      intro x hx
      rcases List.mem_cons.1 hx with rfl | hx
      · refine (hrest.mem_seen_iff x).2 (Or.inl ?_)
        exact (hinner.mem_seen_iff x).2 (Or.inl List.mem_cons_self)
      · exact ihrest x hx

/-- One node leads to another along neighbour lists, in no step or more. -/
def Leads (next : α → List α) : α → α → Prop :=
  Relation.ReflTransGen fun a b => b ∈ next a

theorem Explores.leads {next : α → List α} {todo seen seen' post : List α}
    (h : Explores next todo seen seen' post) :
    ∀ x ∈ post, ∃ a ∈ todo, Leads next a x := by
  induction h with
  | nil => simp
  | skip _ _ ih =>
      intro x hx
      obtain ⟨a, ha, hleads⟩ := ih x hx
      exact ⟨a, List.mem_cons_of_mem _ ha, hleads⟩
  | visit _ _ _ ihinner ihrest =>
      intro x hx
      rcases List.mem_append.1 hx with hx | hx
      · obtain ⟨c, hc, hleads⟩ := ihinner x hx
        exact ⟨_, List.mem_cons_self, .head hc hleads⟩
      · rcases List.mem_cons.1 hx with rfl | hx
        · exact ⟨x, List.mem_cons_self, .refl⟩
        · obtain ⟨a, ha, hleads⟩ := ihrest x hx
          exact ⟨a, List.mem_cons_of_mem _ ha, hleads⟩

/-- An edge out of a finished node goes to a node that was seen at the outset or
is finished before it, or its end leads back to it. -/
theorem Explores.edge {next : α → List α} {todo seen seen' post : List α}
    (h : Explores next todo seen seen' post) :
    ∀ u ∈ post, ∀ v ∈ next u,
      v ∈ seen ∨ [v, u].Sublist post ∨ Leads next v u := by
  induction h with
  | nil => simp
  | skip _ _ ih => exact ih
  | @visit a rest seen seen₁ seen₂ post₁ post₂ _ hinner _ ihinner ihrest =>
      intro u hu v hv
      -- what is finished inside `a` is finished before `a` and what follows
      have hbefore : v ∈ post₁ → u ∈ a :: post₂ →
          [v, u].Sublist (post₁ ++ a :: post₂) := fun hv hu =>
        (List.singleton_sublist.2 hv).append (List.singleton_sublist.2 hu)
      rcases List.mem_append.1 hu with hin | hout
      · rcases ihinner u hin v hv with hseen | hsub | hleads
        · rcases List.mem_cons.1 hseen with rfl | hseen
          · obtain ⟨c, hc, hleads⟩ := hinner.leads u hin
            exact Or.inr (Or.inr (.head hc hleads))
          · exact Or.inl hseen
        · exact Or.inr (Or.inl (hsub.trans (List.sublist_append_left _ _)))
        · exact Or.inr (Or.inr hleads)
      · rcases List.mem_cons.1 hout with rfl | hlater
        · have hmet := (hinner.mem_seen_iff v).1 (hinner.mem_seen v hv)
          rcases hmet with hseen | hpost
          · rcases List.mem_cons.1 hseen with rfl | hseen
            · exact Or.inr (Or.inr .refl)
            · exact Or.inl hseen
          · exact Or.inr (Or.inl (hbefore hpost hout))
        · rcases ihrest u hlater v hv with hseen | hsub | hleads
          · rcases (hinner.mem_seen_iff v).1 hseen with hseen | hpost
            · rcases List.mem_cons.1 hseen with rfl | hseen
              · refine Or.inr (Or.inl ?_)
                have hpair : [v, u].Sublist (v :: post₂) :=
                  (List.singleton_sublist.2 hlater).cons_cons v
                exact hpair.trans (List.sublist_append_right _ _)
              · exact Or.inl hseen
            · exact Or.inr (Or.inl (hbefore hpost hout))
          · refine Or.inr (Or.inl (hsub.trans ?_))
            exact (List.sublist_cons_self a post₂).trans
              (List.sublist_append_right _ _)
          · exact Or.inr (Or.inr hleads)

/-! ## The loop and the recursion -/

/-- A stack of jobs read from the top as explorations and nodes to put down. -/
def Unfolds (next : α → List α) :
    List (Job α) → List α → List α → List α → Prop
  | [], _, finished, result => result = finished
  | .finish a :: jobs, seen, finished, result =>
    Unfolds next jobs seen (a :: finished) result
  | .visit a :: jobs, seen, finished, result =>
    ∃ seen' post, Explores next [a] seen seen' post ∧
      Unfolds next jobs seen' (post.reverse ++ finished) result

theorem Unfolds.explores {next : α → List α} {jobs : List (Job α)}
    {result : List α} : ∀ {todo seen finished : List α},
      Unfolds next (todo.map .visit ++ jobs) seen finished result →
      ∃ seen' post, Explores next todo seen seen' post ∧
        Unfolds next jobs seen' (post.reverse ++ finished) result := by
  intro todo
  induction todo with
  | nil =>
      intro seen finished h
      exact ⟨seen, [], .nil, h⟩
  | cons a rest ih =>
      intro seen finished h
      obtain ⟨seen₁, post₁, hfirst, h⟩ := h
      obtain ⟨seen₂, post₂, hrest, h⟩ := ih h
      refine ⟨seen₂, post₁ ++ post₂, hfirst.cons hrest, ?_⟩
      rwa [List.reverse_append, List.append_assoc]

variable [DecidableEq α]

/-- The loop over the stack of jobs, run until the stack is empty. -/
inductive Finishes (next : α → List α) :
    List (Job α) → List α → List α → List α → Prop where
  | done {seen finished : List α} : Finishes next [] seen finished finished
  | finish {a : α} {jobs : List (Job α)} {seen finished result : List α}
      (h : Finishes next jobs seen (a :: finished) result) :
      Finishes next (.finish a :: jobs) seen finished result
  | skip {a : α} {jobs : List (Job α)} {seen finished result : List α}
      (hseen : a ∈ seen) (h : Finishes next jobs seen finished result) :
      Finishes next (.visit a :: jobs) seen finished result
  | enter {a : α} {jobs : List (Job α)} {seen finished result : List α}
      (hnew : a ∉ seen)
      (h : Finishes next
        ((fresh next (a :: seen) a).map .visit ++ .finish a :: jobs)
        (a :: seen) finished result) :
      Finishes next (.visit a :: jobs) seen finished result

/-- To leave out nodes that are seen is to pass over them: a search that is not
shown them does the same. -/
theorem Explores.of_filter {next : α → List α} {old todo : List α} :
    ∀ {seen seen' post : List α}, (∀ a ∈ old, a ∈ seen) →
      Explores next (todo.filter (· ∉ old)) seen seen' post →
      Explores next todo seen seen' post := by
  induction todo with
  | nil => exact fun _ h => h
  | cons a rest ih =>
      intro seen seen' post hold h
      by_cases ha : a ∈ old
      · rw [List.filter_cons_of_neg (by simpa using ha)] at h
        exact .skip (hold a ha) (ih hold h)
      · rw [List.filter_cons_of_pos (by simpa using ha)] at h
        cases h with
        | skip hseen h => exact .skip hseen (ih hold h)
        | visit hnew hinner hrest =>
            -- what is seen only grows, so the nodes left out stay seen
            refine .visit hnew hinner (ih (fun x hx => ?_) hrest)
            refine (hinner.mem_seen_iff x).2 (Or.inl ?_)
            exact List.mem_cons_of_mem a (hold x hx)

theorem Finishes.unfolds {next : α → List α} {jobs : List (Job α)}
    {seen finished result : List α}
    (h : Finishes next jobs seen finished result) :
    Unfolds next jobs seen finished result := by
  induction h with
  | done => exact rfl
  | finish _ ih => exact ih
  | skip hseen _ ih => exact ⟨_, [], .skip hseen .nil, ih⟩
  | enter hnew _ ih =>
      obtain ⟨seen', post, hinner, ih⟩ := ih.explores
      have hinner := hinner.of_filter fun _ hold => hold
      refine ⟨seen', post ++ [_], .visit hnew hinner .nil, ?_⟩
      rwa [List.reverse_append]

/-- A loop that starts with one node to visit ends with what the search from
there finishes, the last finished first. -/
theorem Finishes.explores {next : α → List α} {start : α} {result : List α}
    (h : Finishes next [.visit start] [] [] result) :
    ∃ seen post, Explores next [start] [] seen post ∧
      result = post.reverse := by
  obtain ⟨seen, post, hexplores, hresult⟩ := h.unfolds
  refine ⟨seen, post, hexplores, ?_⟩
  rw [hresult, List.append_nil]

/-! ## The bound covers the loop -/

theorem finishes_finishing {next : α → List α} {nodes : List α}
    (hnodes : ∀ a, next a ≠ [] → a ∈ nodes) :
    ∀ (n : Nat) (jobs : List (Job α)) (seen finished : List α),
      weight jobs + 2 * untouched next nodes seen < n →
      Finishes next jobs seen finished
        (finishing next n jobs seen finished) := by
  intro n
  induction n with
  | zero =>
      intro jobs seen finished hn
      omega
  | succ n ih =>
      intro jobs seen finished hn
      cases jobs with
      | nil => exact .done
      | cons job jobs =>
          cases job with
          | finish a =>
              rw [weight] at hn
              rw [finishing]
              exact .finish (ih jobs seen (a :: finished) (by omega))
          | visit a =>
              rw [weight] at hn
              rw [finishing]
              split
              · next hseen =>
                    exact .skip hseen (ih jobs seen finished (by omega))
              · next hnew =>
                  have hpaid := untouched_cons next nodes hnew (hnodes a)
                  have hfresh := length_fresh_le next (a :: seen) a
                  refine .enter hnew (ih _ (a :: seen) finished ?_)
                  rw [weight_visits, weight]
                  omega

theorem finishes_reversePostorder {next : α → List α} {edges : Nat}
    (h : Counted next edges) (start : α) :
    Finishes next [.visit start] [] [] (reversePostorder next edges start) := by
  obtain ⟨nodes, hnodes, hedges⟩ := h
  refine finishes_finishing hnodes _ _ _ _ ?_
  rw [untouched_nil, weight, weight]
  omega

theorem idxOf_lt_idxOf_of_sublist {u v : α} {l : List α} (hnodup : l.Nodup)
    (h : [u, v].Sublist l) : l.idxOf u < l.idxOf v := by
  induction l with
  | nil => cases h
  | cons x l ih =>
      obtain ⟨hx, hnodup⟩ := List.nodup_cons.1 hnodup
      have hne : ∀ y ∈ l, x ≠ y := fun y hy heq => hx (heq ▸ hy)
      cases h with
      | cons _ h =>
          have hu := h.subset (List.mem_cons_self (a := u))
          have hv :=
            h.subset (List.mem_cons_of_mem u (List.mem_cons_self (a := v)))
          rw [List.idxOf_cons_ne l (hne u hu), List.idxOf_cons_ne l (hne v hv)]
          exact Nat.succ_lt_succ (ih hnodup h)
      | cons_cons _ h =>
          have hv := h.subset (List.mem_cons_self (a := v))
          rw [List.idxOf_cons_self, List.idxOf_cons_ne l (hne v hv)]
          exact Nat.succ_pos _

end Search

namespace Graph

/-- An edge that does not go forward in program order closes a cycle. -/
theorem leads_of_not_lt {g : Graph} {u v : BlockId} (hu : u ∈ g.programOrder)
    (hv : v ∈ g.succs u)
    (hlt : ¬ g.programOrder.idxOf u < g.programOrder.idxOf v) :
    Search.Leads g.succs v u := by
  have hends := Search.finishes_reversePostorder g.succs_counted .entry
  obtain ⟨seen, post, hexplores, horder⟩ := hends.explores
  have hmem : u ∈ post := by
    rw [programOrder, horder] at hu
    exact List.mem_reverse.1 hu
  rcases hexplores.edge u hmem v hv with hseen | hsub | hleads
  · cases hseen
  · refine absurd ?_ hlt
    refine Search.idxOf_lt_idxOf_of_sublist
      (Search.nodup_reversePostorder ..) ?_
    rw [programOrder, horder]
    exact hsub.reverse
  · exact hleads

/-- The search for the program order ends on every graph, and its result is the
reversed postorder of the depth-first search from the entry. So it lists the
reachable blocks, each once and the entry first. An edge that does not go
forward in it is one whose end leads back to its start, and with no cycle among
the reachable blocks every edge goes forward. -/
theorem programOrder_depthFirst (g : Graph) :
    Search.Finishes g.succs [.visit .entry] [] [] g.programOrder ∧
    (∀ post, (∃ seen, Search.Explores g.succs [.entry] [] seen post) ↔
      g.programOrder = post.reverse) ∧
    (∀ b, b ∈ g.programOrder ↔ g.Reachable b) ∧
    g.programOrder.Nodup ∧
    g.programOrder.head? = some .entry ∧
    (∀ u ∈ g.programOrder, ∀ v ∈ g.programOrder, v ∈ g.succs u →
      ¬ g.programOrder.idxOf u < g.programOrder.idxOf v →
      Search.Leads g.succs v u) ∧
    ((∀ b, g.Reachable b → ¬ Relation.TransGen (fun a c => c ∈ g.succs a) b b) →
      ∀ u ∈ g.programOrder, ∀ v ∈ g.succs u,
        v ∈ g.programOrder ∧
          g.programOrder.idxOf u < g.programOrder.idxOf v) := by
  have hends : Search.Finishes g.succs [.visit .entry] [] [] g.programOrder :=
    Search.finishes_reversePostorder g.succs_counted .entry
  obtain ⟨seen, post, hexplores, horder⟩ := hends.explores
  refine ⟨hends, fun post' => ⟨?_, fun h => ?_⟩, fun b => mem_programOrder_iff,
    Search.nodup_reversePostorder .., ?_,
    fun u hu v _ hv => leads_of_not_lt hu hv,
    fun hacyclic u hu v hv => ⟨g.programOrder_closed.2 u hu v hv, ?_⟩⟩
  · rintro ⟨seen', hexplores'⟩
    rw [horder, (hexplores.unique hexplores').2]
  · rw [horder] at h
    exact ⟨seen, List.reverse_injective h ▸ hexplores⟩
  · rw [horder]
    cases hexplores with
    | skip hseen _ => cases hseen
    | visit _ _ hrest =>
        cases hrest
        rw [List.reverse_append]
        rfl
  · by_contra hlt
    exact hacyclic u (mem_programOrder_iff.1 hu)
      (.head' hv (leads_of_not_lt hu hv hlt))

end Graph

end Dataflow
