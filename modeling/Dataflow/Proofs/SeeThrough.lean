import Dataflow.Proofs.Unreachable

/-!
# The walks see through empty blocks and no others

At the end of a block the neighbours of a quad are found by a walk over a stack.
This file says what the walk finds without speaking of a walk: a quad is found
exactly when a chain of blocks leads to it, and all blocks of the chain but the
last are there, hold nothing and are not the end of the method. Nothing is asked
of the edges. They need not be recorded at both ends, they may lead to blocks
that are not there, and empty blocks may lead to themselves and to each other.

The walk ahead and the walk back differ in the lists they follow, the end of a
block they look at and the block they stop at. `Graph.glance` is the walk with
these three as parameters, so what is shown of it is shown once for both. A
chain is a `Search.Passage`. The walk back turns away from blocks that the entry
does not reach, and so must its chains; the walk ahead does so as well, but from
a reachable block it never meets another.

`Search.Looks` is the walk without a bound on its steps. That it has a result
for every stack is what it means for the walk to end.
-/

namespace Dataflow

namespace Search

variable {α β : Type}

/-! ## Walks that end -/

/-- The walk over the stack of nodes, run until the stack is empty. -/
inductive Looks [DecidableEq β] (look : α → Sight α β) :
    List α → List α → List β → List β → Prop where
  | done {seen : List α} {found : List β} : Looks look [] seen found found
  | skip {a : α} {rest seen : List α} {found result : List β} (hseen : a ∈ seen)
      (h : Looks look rest seen found result) :
      Looks look (a :: rest) seen found result
  | enter {a : α} {rest seen : List α} {found result : List β} (hnew : a ∉ seen)
      (h : Looks look ((look a).onward ++ rest) (a :: seen)
        ((look a).report found) result) :
      Looks look (a :: rest) seen found result

section Ends

variable [DecidableEq α] [DecidableEq β]

theorem looks_looking {look : α → Sight α β} {nodes : List α}
    (hnodes : ∀ a, (look a).onward ≠ [] → a ∈ nodes) :
    ∀ (n : Nat) (stack seen : List α) (found : List β),
      stack.length + untouched (fun a => (look a).onward) nodes seen < n →
      Looks look stack seen found (looking look n stack seen found) := by
  intro n
  induction n with
  | zero =>
      intro stack seen found hn
      omega
  | succ n ih =>
      intro stack seen found hn
      cases stack with
      | nil => exact .done
      | cons a rest =>
          rw [List.length_cons] at hn
          rw [looking_cons]
          split
          · next hseen => exact .skip hseen (ih rest seen found (by omega))
          · next hnew =>
              have hpaid := untouched_cons (fun a => (look a).onward) nodes
                hnew (hnodes a)
              refine .enter hnew (ih _ (a :: seen) _ ?_)
              rw [List.length_append]
              omega

theorem looks_lookThrough {look : α → Sight α β} {edges : Nat}
    (h : Counted (fun a => (look a).onward) edges) (start : List α) :
    Looks look start [] [] (lookThrough look edges start) := by
  obtain ⟨nodes, hnodes, hedges⟩ := h
  refine looks_looking hnodes _ _ _ _ ?_
  rw [untouched_nil]
  omega

end Ends

/-! ## Chains -/

namespace Passage

variable {next : α → List α} {pass keep : α → Prop} {a c : α}

theorem mono (h : Passage next pass a c) (hpass : ∀ b, pass b → keep b) :
    Passage next keep a c := by
  induction h with
  | edge hc => exact .edge hc
  | past _ hb hc ih => exact .past ih (hpass _ hb) hc

/-- A chain that starts where `keep` holds has it all along, if nodes hand it on
to their neighbours. -/
theorem keeping (ha : keep a) (hnext : ∀ x, keep x → ∀ y ∈ next x, keep y)
    (h : Passage next pass a c) :
    Passage next (fun b => keep b ∧ pass b) a c := by
  induction h with
  | edge hc => exact .edge hc
  | past hb hpass hc ih => exact .past ih ⟨hb.induction_on ha hnext, hpass⟩ hc

end Passage

end Search

namespace Graph

variable {g : Graph}

/-- A block that is there and holds no quads, and at which a walk does not
stop. -/
def Hollow (g : Graph) (stop b : BlockId) : Prop :=
  b ≠ stop ∧ (g.block? b).isSome ∧ g.idsAt b = []

instance (g : Graph) (stop b : BlockId) : Decidable (g.Hollow stop b) :=
  inferInstanceAs (Decidable (_ ∧ _ ∧ _))

/-! ## One walk for two directions -/

section Glance

variable (next : BlockId → List BlockId) (pick : List QuadId → Option QuadId)
  (stop : BlockId) (reachable : List BlockId)

/-- What lies at a block, looking along the lists of `next` for the quad that
`pick` takes from a block. -/
def glance (g : Graph) (b : BlockId) : Search.Sight BlockId Neighbour :=
  if b ∉ reachable then .closed
  else if b = stop then .shows none
  else if (g.block? b).isNone then .closed
  else
    match pick (g.idsAt b) with
    | some i => .shows (some i)
    | none => .leadsTo (next b)

theorem lookAhead_eq_glance (g : Graph) :
    g.lookAhead reachable = g.glance g.succs List.head? .exit reachable := by
  funext b
  unfold lookAhead glance
  cases hblk : g.block? b with
  | none => rfl
  | some blk =>
      rw [idsAt_of_block hblk, succs_of_block hblk, List.head?_map]
      simp only [Block.first?]
      cases blk.quads.head? <;> rfl

theorem lookBack_eq_glance (g : Graph) :
    g.lookBack reachable =
      g.glance g.predsAt List.getLast? .entry reachable := by
  funext b
  unfold lookBack glance
  cases hblk : g.block? b with
  | none => rfl
  | some blk =>
      rw [idsAt_of_block hblk, predsAt_of_block hblk, List.getLast?_map]
      simp only [Block.last?]
      cases blk.quads.getLast? <;> rfl

/-- What a walk meets at a block: it turns away, stops, or finds a quad or an
empty block. -/
theorem glance_cases (g : Graph) (b : BlockId) :
    (b ∉ reachable ∧ g.glance next pick stop reachable b = .closed) ∨
    (b ∈ reachable ∧ b = stop ∧
      g.glance next pick stop reachable b = .shows none) ∨
    (b ∈ reachable ∧ b ≠ stop ∧ g.block? b = none ∧
      g.glance next pick stop reachable b = .closed) ∨
    (b ∈ reachable ∧ b ≠ stop ∧ (g.block? b).isSome ∧
      ∃ i, pick (g.idsAt b) = some i ∧
        g.glance next pick stop reachable b = .shows (some i)) ∨
    (b ∈ reachable ∧ b ≠ stop ∧ (g.block? b).isSome ∧ pick (g.idsAt b) = none ∧
      g.glance next pick stop reachable b = .leadsTo (next b)) := by
  unfold glance
  by_cases hb : b ∈ reachable
  · by_cases hstop : b = stop
    · exact Or.inr
        (Or.inl ⟨hb, hstop, by rw [if_neg (not_not.2 hb), if_pos hstop]⟩)
    · rw [if_neg (not_not.2 hb), if_neg hstop]
      cases hblk : g.block? b with
      | none => simp [hb, hstop]
      | some blk => cases pick (g.idsAt b) <;> simp [hb, hstop]
  · exact Or.inl ⟨hb, if_pos hb⟩

variable {next pick stop reachable} {b : BlockId} {i : QuadId}

theorem glance_shows_iff :
    g.glance next pick stop reachable b = .shows (some i) ↔
      b ∈ reachable ∧ b ≠ stop ∧ (g.block? b).isSome ∧
        pick (g.idsAt b) = some i := by
  rcases g.glance_cases next pick stop reachable b with
    ⟨hb, h⟩ | ⟨hb, hstop, h⟩ | ⟨hb, hstop, hblk, h⟩ |
    ⟨hb, hstop, hblk, j, hj, h⟩ | ⟨hb, hstop, hblk, hnone, h⟩
  · simp [h, hb]
  · exact iff_of_false (by simp [h]) fun hold => hold.2.1 hstop
  · simp [h, hblk]
  · simp [h, hb, hstop, hblk, hj]
  · simp [h, hnone]

theorem glance_shows_end_iff :
    g.glance next pick stop reachable b = .shows none ↔
      b ∈ reachable ∧ b = stop := by
  rcases g.glance_cases next pick stop reachable b with
    ⟨hb, h⟩ | ⟨hb, hstop, h⟩ | ⟨hb, hstop, hblk, h⟩ |
    ⟨hb, hstop, hblk, j, hj, h⟩ | ⟨hb, hstop, hblk, hnone, h⟩
  · simp [h, hb]
  · exact iff_of_true h ⟨hb, hstop⟩
  · simp [h, hstop]
  · simp [h, hstop]
  · simp [h, hstop]

theorem onward_glance (hpick : ∀ l, pick l = none ↔ l = []) :
    (g.glance next pick stop reachable b).onward =
      if b ∈ reachable ∧ g.Hollow stop b then next b else [] := by
  unfold Hollow
  rcases g.glance_cases next pick stop reachable b with
    ⟨hb, h⟩ | ⟨hb, hstop, h⟩ | ⟨hb, hstop, hblk, h⟩ |
    ⟨hb, hstop, hblk, j, hj, h⟩ | ⟨hb, hstop, hblk, hnone, h⟩
  · rw [h, if_neg fun hold => hb hold.1, Search.Sight.onward]
    simp
  · rw [h, if_neg fun hold => hold.2.1 hstop, Search.Sight.onward]
    simp
  · rw [h, if_neg fun hold => by simp [hblk] at hold, Search.Sight.onward]
    simp
  · have hids : g.idsAt b ≠ [] := fun hempty => by
      simp [(hpick _).2 hempty] at hj
    rw [h, if_neg fun hold => hids hold.2.2.2, Search.Sight.onward]
    simp
  · rw [h, if_pos ⟨hb, hstop, hblk, (hpick _).1 hnone⟩, Search.Sight.onward]

/-- A walk finds what stands at the end of a chain of hollow blocks. -/
theorem sees_glance_iff (hpick : ∀ l, pick l = none ↔ l = []) {n : Neighbour} :
    Search.Sees (g.glance next pick stop reachable) (next b) n ↔
      ∃ c, Search.Passage next (fun x => x ∈ reachable ∧ g.Hollow stop x) b c ∧
        g.glance next pick stop reachable c = .shows n :=
  Search.Passage.sees_iff
    (fun x hx => by rw [onward_glance hpick, if_pos hx])
    (fun x hx => by rw [onward_glance hpick, if_neg hx])

end Glance

/-! ## The two walks of a graph -/

theorem mem_idsAt_isSome {b : BlockId} {i : QuadId} (h : i ∈ g.idsAt b) :
    (g.block? b).isSome := by
  cases hblk : g.block? b with
  | none =>
      rw [idsAt_of_none hblk] at h
      cases h
  | some blk => rfl

variable {b : BlockId} {n : Neighbour} {i : QuadId}

theorem mem_outgoing_iff_passage (hb : g.Reachable b) :
    n ∈ g.outgoing g.programOrder (g.succs b) ↔
      ∃ c, Search.Passage g.succs (g.Hollow .exit) b c ∧
        g.lookAhead g.programOrder c = .shows n := by
  have hwalk : n ∈ g.outgoing g.programOrder (g.succs b) ↔
      Search.Sees (g.lookAhead g.programOrder) (g.succs b) n :=
    ⟨Search.sees_of_mem_lookThrough, mem_outgoing_of_sees⟩
  rw [hwalk, lookAhead_eq_glance,
    sees_glance_iff fun _ => List.head?_eq_none_iff]
  constructor
  · rintro ⟨c, hchain, hshows⟩
    exact ⟨c, hchain.mono fun _ h => h.2, hshows⟩
  · rintro ⟨c, hchain, hshows⟩
    have hb : b ∈ g.programOrder := mem_programOrder_iff.2 hb
    exact ⟨c, hchain.keeping hb g.programOrder_closed.2, hshows⟩

theorem some_mem_outgoing_iff (hb : g.Reachable b) :
    some i ∈ g.outgoing g.programOrder (g.succs b) ↔
      ∃ c, Search.Passage g.succs (g.Hollow .exit) b c ∧ c ≠ .exit ∧
        (g.idsAt c).head? = some i := by
  rw [mem_outgoing_iff_passage hb]
  refine exists_congr fun c => and_congr_right fun hchain => ?_
  rw [lookAhead_eq_glance, glance_shows_iff]
  constructor
  · rintro ⟨-, hexit, -, hfirst⟩
    exact ⟨hexit, hfirst⟩
  · rintro ⟨hexit, hfirst⟩
    have hc : g.Reachable c :=
      hchain.induction_on hb fun _ hx _ hy => hx.tail hy
    exact ⟨mem_programOrder_iff.2 hc, hexit,
      mem_idsAt_isSome (List.mem_of_head? hfirst), hfirst⟩

theorem none_mem_outgoing_iff (hb : g.Reachable b) :
    none ∈ g.outgoing g.programOrder (g.succs b) ↔
      Search.Passage g.succs (g.Hollow .exit) b .exit := by
  rw [mem_outgoing_iff_passage hb]
  constructor
  · rintro ⟨c, hchain, hshows⟩
    rw [lookAhead_eq_glance, glance_shows_end_iff] at hshows
    exact hshows.2 ▸ hchain
  · intro hchain
    have hexit : g.Reachable .exit :=
      hchain.induction_on hb fun _ hx _ hy => hx.tail hy
    refine ⟨.exit, hchain, ?_⟩
    rw [lookAhead_eq_glance, glance_shows_end_iff]
    exact ⟨mem_programOrder_iff.2 hexit, rfl⟩

theorem mem_incoming_iff_passage :
    n ∈ g.incoming g.programOrder (g.predsAt b) ↔
      ∃ c, Search.Passage g.predsAt
          (fun x => g.Reachable x ∧ g.Hollow .entry x) b c ∧
        g.lookBack g.programOrder c = .shows n := by
  have hwalk : n ∈ g.incoming g.programOrder (g.predsAt b) ↔
      Search.Sees (g.lookBack g.programOrder) (g.predsAt b) n :=
    ⟨Search.sees_of_mem_lookThrough, mem_incoming_of_sees⟩
  rw [hwalk, lookBack_eq_glance,
    sees_glance_iff fun _ => List.getLast?_eq_none_iff]
  simp only [mem_programOrder_iff]

theorem some_mem_incoming_iff :
    some i ∈ g.incoming g.programOrder (g.predsAt b) ↔
      ∃ c, Search.Passage g.predsAt
          (fun x => g.Reachable x ∧ g.Hollow .entry x) b c ∧
        g.Reachable c ∧ c ≠ .entry ∧ (g.idsAt c).getLast? = some i := by
  rw [mem_incoming_iff_passage]
  refine exists_congr fun c => and_congr_right fun _ => ?_
  rw [lookBack_eq_glance, glance_shows_iff, mem_programOrder_iff]
  refine and_congr_right fun _ => and_congr_right fun _ =>
    ⟨fun h => h.2, fun h => ?_⟩
  exact ⟨mem_idsAt_isSome (List.mem_of_getLast? h), h⟩

theorem none_mem_incoming_iff :
    none ∈ g.incoming g.programOrder (g.predsAt b) ↔
      Search.Passage g.predsAt
        (fun x => g.Reachable x ∧ g.Hollow .entry x) b .entry := by
  rw [mem_incoming_iff_passage]
  constructor
  · rintro ⟨c, hchain, hshows⟩
    rw [lookBack_eq_glance, glance_shows_end_iff] at hshows
    exact hshows.2 ▸ hchain
  · intro hchain
    refine ⟨.entry, hchain, ?_⟩
    rw [lookBack_eq_glance, glance_shows_end_iff]
    exact ⟨g.programOrder_closed.1, rfl⟩

theorem looks_outgoing (g : Graph) (reachable blocks : List BlockId) :
    Search.Looks (g.lookAhead reachable) blocks [] []
      (g.outgoing reachable blocks) :=
  Search.looks_lookThrough
    (g.counted_edges Block.succs (g.onward_lookAhead reachable)) blocks

theorem looks_incoming (g : Graph) (reachable blocks : List BlockId) :
    Search.Looks (g.lookBack reachable) blocks [] []
      (g.incoming reachable blocks) :=
  Search.looks_lookThrough
    (g.counted_edges Block.preds (g.onward_lookBack reachable)) blocks

/-! ## The neighbours of a quad -/

/-- Both walks end on every graph. Behind the last quad of a reachable block
come the first quads of the blocks that a chain of hollow blocks leads to along
successors, and the end of the method if one leads to the exit; before the first
quad come the last quads of the blocks that a chain of hollow reachable blocks
leads to along predecessors, and the start of the method if one leads to the
entry. Inside a block neighbours stand side by side. -/
theorem neighbours_through_hollow :
    (∀ (g : Graph) (reachable blocks : List BlockId),
      Search.Looks (g.lookAhead reachable) blocks [] []
        (g.outgoing reachable blocks) ∧
      Search.Looks (g.lookBack reachable) blocks [] []
        (g.incoming reachable blocks)) ∧
    ∀ g : Graph, g.HasEnds → g.DistinctQuads → ∃ e, g.quadGraph = .ok e ∧
      ∀ b, g.Reachable b →
        (∀ p, (g.idsAt b).getLast? = some p →
          (∀ q, some q ∈ e.succs p ↔
            ∃ c, Search.Passage g.succs (g.Hollow .exit) b c ∧ c ≠ .exit ∧
              (g.idsAt c).head? = some q) ∧
          (none ∈ e.succs p ↔
            Search.Passage g.succs (g.Hollow .exit) b .exit)) ∧
        (∀ p, (g.idsAt b).head? = some p →
          (∀ q, some q ∈ e.preds p ↔
            ∃ c, Search.Passage g.predsAt
                (fun x => g.Reachable x ∧ g.Hollow .entry x) b c ∧
              g.Reachable c ∧ c ≠ .entry ∧ (g.idsAt c).getLast? = some q) ∧
          (none ∈ e.preds p ↔
            Search.Passage g.predsAt
              (fun x => g.Reachable x ∧ g.Hollow .entry x) b .entry)) ∧
        ∀ before p q behind, g.idsAt b = before ++ p :: q :: behind →
          e.succs p = [some q] ∧ e.preds q = [some p] := by
  refine ⟨fun g reachable blocks =>
    ⟨g.looks_outgoing reachable blocks, g.looks_incoming reachable blocks⟩,
    fun g hends hdist => ?_⟩
  obtain ⟨e, he⟩ := hends.quadGraph_ok
  refine ⟨e, he, fun b hb => ⟨fun p hp => ?_, fun p hp => ?_,
    fun before p q behind hids => ?_⟩⟩
  · obtain ⟨left, hids⟩ := List.getLast?_eq_some_iff.1 hp
    have hsuccs := (neighbours_at hdist he (mem_programOrder_iff.2 hb) hids).2
    rw [List.head?_nil, Option.map_none, Option.getD_none] at hsuccs
    rw [hsuccs]
    exact ⟨fun q => some_mem_outgoing_iff hb, none_mem_outgoing_iff hb⟩
  · obtain ⟨right, hids⟩ := List.head?_eq_some_iff.1 hp
    have hids : g.idsAt b = [] ++ p :: right := hids
    have hpreds := (neighbours_at hdist he (mem_programOrder_iff.2 hb) hids).1
    rw [List.getLast?_nil, Option.map_none, Option.getD_none] at hpreds
    rw [hpreds]
    exact ⟨fun q => some_mem_incoming_iff, none_mem_incoming_iff⟩
  · have hb := mem_programOrder_iff.2 hb
    have hids' : g.idsAt b = (before ++ [p]) ++ q :: behind := by simp [hids]
    have hpreds := (neighbours_at hdist he hb hids').1
    rw [List.getLast?_concat] at hpreds
    exact ⟨(neighbours_at hdist he hb hids).2, hpreds⟩

/-- A block whose chains lead through empty blocks back to it and to the exit.
Its successors include a block that is not there, its predecessors one that the
entry does not reach, and neither the chain back nor the exit is recorded in
predecessor lists. -/
def oneSided : Graph where
  method := ⟨"one-sided", []⟩
  blocks := .ofList [
    (.entry, ⟨.entry, [], [], [⟨2⟩]⟩),
    (.exit, ⟨.exit, [], [], []⟩),
    (⟨2⟩, ⟨⟨2⟩, [⟨⟨1⟩, .nop⟩], [⟨5⟩, ⟨6⟩], [⟨9⟩, ⟨3⟩]⟩),
    (⟨3⟩, ⟨⟨3⟩, [], [], [⟨3⟩, ⟨4⟩, .exit]⟩),
    (⟨4⟩, ⟨⟨4⟩, [], [], [⟨3⟩, ⟨2⟩, ⟨6⟩]⟩),
    (⟨5⟩, ⟨⟨5⟩, [⟨⟨7⟩, .nop⟩], [], [⟨2⟩]⟩),
    (⟨6⟩, ⟨⟨6⟩, [], [⟨6⟩, .entry], []⟩)]
  nextQuad := 8
  nextBlock := 7

theorem neighbours_through_hollow_oneSided :
    oneSided.HasEnds ∧ oneSided.DistinctQuads ∧
      ∃ e, oneSided.quadGraph = .ok e ∧
        some ⟨1⟩ ∈ e.succs ⟨1⟩ ∧ none ∈ e.succs ⟨1⟩ ∧ none ∈ e.preds ⟨1⟩ ∧
        some ⟨7⟩ ∉ e.preds ⟨1⟩ := by
  have hends : oneSided.HasEnds := by decide
  have hdist : oneSided.DistinctQuads := by decide
  obtain ⟨e, he, hall⟩ := neighbours_through_hollow.2 oneSided hends hdist
  obtain ⟨hlast, hfirst, -⟩ := hall ⟨2⟩ (by decide)
  obtain ⟨hsuccs, hexit⟩ := hlast ⟨1⟩ (by decide)
  obtain ⟨hpreds, hentry⟩ := hfirst ⟨1⟩ (by decide)
  have hthree : Search.Passage oneSided.succs (oneSided.Hollow .exit) ⟨2⟩ ⟨3⟩ :=
    .edge (by decide)
  refine ⟨hends, hdist, e, he, (hsuccs ⟨1⟩).2 ⟨⟨2⟩, ?_, by decide, by decide⟩,
    hexit.2 (.past hthree (by decide) (by decide)),
    hentry.2 (.past (.edge (b := ⟨6⟩) (by decide)) (by decide) (by decide)),
    fun h => ?_⟩
  · exact .past (.past hthree (by decide) (b := ⟨3⟩) (c := ⟨4⟩) (by decide))
      (by decide) (by decide)
  · obtain ⟨c, -, hc, -, hquad⟩ := (hpreds ⟨7⟩).1 h
    have hnone : ∀ c ∈ oneSided.programOrder,
        (oneSided.idsAt c).getLast? ≠ some ⟨7⟩ := by decide
    exact hnone c (mem_programOrder_iff.2 hc) hquad

end Graph

end Dataflow
