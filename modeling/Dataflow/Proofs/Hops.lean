import Dataflow.Proofs.CheckInsertion

/-!
# Predecessors and successors name the same steps

The neighbours of a quad come from two walks that have nothing in common but
their shape. One goes back along predecessor lists and stops at the entry, the
other goes ahead along successor lists and stops at the exit; both skip empty
blocks and turn away from blocks that the entry does not reach. This file shows
that they are two readings of one relation, so that a quad is a successor of
another exactly when the other is its predecessor.

The relation is `Hop`. Control hops from a quad to the one behind it in its
block, or from the last quad of a block, or the entry, through empty blocks to
the first quad of another, or to the exit. A walk through empty blocks is a
`Passage`, and a passage can be turned round: the nodes that are passed are the
same, and with edges that are recorded at both ends so are the steps between
them. That is all the duality there is. Each of the four kinds of neighbour list
is then characterised by `Hop` on its own, and no two of them are ever compared.

What is asked of the graph is `Regular`. The sentinels need attention because
each walk stops at one of them and treats the other as an ordinary block: the
walk ahead would pass through an empty entry and the walk back through an empty
exit, but nothing leads into the one or out of the other.
-/

namespace Dataflow

namespace Search

/-! ## Passages -/

variable {α β : Type} {next back : α → List α} {pass : α → Prop}

/-- One step or more from node to node, all nodes between being passable. -/
inductive Passage (next : α → List α) (pass : α → Prop) (a : α) : α → Prop
  | edge {b : α} : b ∈ next a → Passage next pass a b
  | past {b c : α} : Passage next pass a b → pass b → c ∈ next b →
      Passage next pass a c

namespace Passage

variable {a b c : α}

theorem cons (hb : b ∈ next a) (hpass : pass b) (h : Passage next pass b c) :
    Passage next pass a c := by
  induction h with
  | edge hc => exact .past (.edge hb) hpass hc
  | past _ hd hc ih => exact .past ih hd hc

theorem reverse (hback : ∀ a b, b ∈ next a → a ∈ back b)
    (h : Passage next pass a c) : Passage back pass c a := by
  induction h with
  | edge hb => exact .edge (hback _ _ hb)
  | past _ hb hc ih => exact ih.cons (hback _ _ hc) hb

/-- What a node hands on to its neighbours it hands on along a passage. -/
theorem induction_on {P : α → Prop} (h : Passage next pass a c) (ha : P a)
    (hnext : ∀ x, P x → ∀ y ∈ next x, P y) : P c := by
  induction h with
  | edge hb => exact hnext _ ha _ hb
  | past _ _ hc ih => exact hnext _ ih _ hc

variable {look : α → Sight α β} {s : β}

theorem sees (honward : ∀ b, pass b → (look b).onward = next b)
    (h : Passage next pass a c) (hpass : pass c) (hs : Sees look (next c) s) :
    Sees look (next a) s := by
  induction h with
  | edge hb => exact .through hb (honward _ hpass ▸ hs)
  | past _ hb hc ih => exact ih hb (.through hc (honward _ hpass ▸ hs))

/-- A walk sees what is shown at the end of a passage, if it goes on from the
nodes that can be passed and from no others. -/
theorem sees_iff (honward : ∀ b, pass b → (look b).onward = next b)
    (hstop : ∀ b, ¬ pass b → (look b).onward = []) :
    Sees look (next a) s ↔ ∃ c, Passage next pass a c ∧ look c = .shows s := by
  constructor
  · intro h
    generalize hstart : next a = start at h
    induction h generalizing a with
    | here hb hlook => exact ⟨_, .edge (hstart ▸ hb), hlook⟩
    | @through _ b _ hb h ih =>
        subst hstart
        by_cases hpass : pass b
        · obtain ⟨c, hc, hlook⟩ := ih (honward b hpass).symm
          exact ⟨c, hc.cons hb hpass, hlook⟩
        · rw [hstop b hpass] at h
          cases h <;> contradiction
  · intro h
    obtain ⟨c, hc, hlook⟩ := h
    cases hc with
    | edge hb => exact .here hb hlook
    | past hb hpass hc => exact hb.sees honward hpass (.here hc hlook)

end Passage

end Search

namespace Graph

/-! ## Steps of control -/

/-- The sentinels are there and empty, edges are recorded at both ends, none
leads into the entry or out of the exit, and no two quads that are visited have
the same number. -/
structure Regular (g : Graph) : Prop where
  ends : g.HasEnds
  sentinels : ∀ b : BlockId, b.isSentinel → g.quadsAt b = []
  mirrored : ∀ a b, b ∈ g.succs a ↔ a ∈ g.predsAt b
  entry_preds : g.predsAt .entry = []
  exit_succs : g.succs .exit = []
  distinct : g.DistinctQuads

theorem WellFormed.regular {g : Graph} (h : g.WellFormed) : g.Regular :=
  ⟨h.proper.ends, h.sentinels, h.linked.mirrored, h.shaped.entry_preds,
    h.shaped.exit_succs, h.proper.distinctQuads⟩

/-- What control meets first when it enters a block: its first quad, or the end
of the method. -/
def FirstAt (g : Graph) (b : BlockId) : Neighbour → Prop
  | some i => (g.idsAt b).head? = some i
  | none => b = .exit

/-- What control has met last when it leaves a block: its last quad, or the
start of the method. -/
def LastAt (g : Graph) (b : BlockId) : Neighbour → Prop
  | some i => (g.idsAt b).getLast? = some i
  | none => b = .entry

/-- A block that control can go through without meeting a quad. -/
def Vacant (g : Graph) (b : BlockId) : Prop :=
  b ∈ g.programOrder ∧ g.idsAt b = []

/-- Control can go from the end of one block to the start of another without
meeting a quad. -/
def Corridor (g : Graph) : BlockId → BlockId → Prop :=
  Search.Passage g.succs g.Vacant

/-- Control can pass from a quad, or the start of the method, directly to
another, or to the end of the method. -/
inductive Hop (g : Graph) : Neighbour → Neighbour → Prop
  | within {b : BlockId} {before behind : List QuadId} {i j : QuadId} :
      b ∈ g.programOrder → g.idsAt b = before ++ i :: j :: behind →
      Hop g (some i) (some j)
  | across {a b : BlockId} {m n : Neighbour} :
      a ∈ g.programOrder → g.LastAt a m → g.Corridor a b → g.FirstAt b n →
      Hop g m n

variable {g : Graph} {e : QuadGraph} {a b : BlockId} {i : QuadId}
  {n : Neighbour}

theorem Corridor.mem_programOrder (h : g.Corridor a b)
    (ha : a ∈ g.programOrder) : b ∈ g.programOrder :=
  h.induction_on ha g.programOrder_closed.2

theorem idsAt_of_block {blk : Block} (h : g.block? b = some blk) :
    g.idsAt b = blk.quads.map Quad.id := by
  rw [idsAt, quadsAt_of_block h]

theorem listAt_of_none {γ : Type} (f : Block → List γ) (h : g.block? b = none) :
    g.blocks.listAt f b = [] :=
  congrArg (fun o => (Option.map f o).getD []) h

theorem idsAt_of_none (h : g.block? b = none) : g.idsAt b = [] := by
  rw [idsAt, quadsAt, listAt_of_none _ h, List.map_nil]

theorem Regular.idsAt_sentinel (hg : g.Regular) (hb : b.isSentinel) :
    g.idsAt b = [] := by
  rw [idsAt, hg.sentinels b hb, List.map_nil]

/-! ## What the walks see -/

theorem Regular.onward_ahead_of_vacant (hg : g.Regular) (hb : g.Vacant b) :
    (g.lookAhead g.programOrder b).onward = g.succs b := by
  obtain ⟨hreach, hempty⟩ := hb
  by_cases hexit : b = .exit
  · rw [hexit, hg.exit_succs]
    simp [lookAhead, hexit ▸ hreach, Search.Sight.onward]
  · cases hblk : g.block? b with
    | none => simp [lookAhead, hreach, hexit, hblk, succs, Search.Sight.onward]
    | some blk =>
        have hquads : blk.quads = [] := by
          simpa [idsAt_of_block hblk] using hempty
        simp [lookAhead, hreach, hexit, hblk, Block.first?, hquads, succs,
          Search.Sight.onward]

theorem Regular.onward_back_of_vacant (hg : g.Regular) (hb : g.Vacant b) :
    (g.lookBack g.programOrder b).onward = g.predsAt b := by
  obtain ⟨hreach, hempty⟩ := hb
  by_cases hentry : b = .entry
  · rw [hentry, hg.entry_preds]
    simp [lookBack, hentry ▸ hreach, Search.Sight.onward]
  · cases hblk : g.block? b with
    | none =>
        simp [lookBack, hreach, hentry, hblk, predsAt, listAt_of_none _ hblk,
          Search.Sight.onward]
    | some blk =>
        have hquads : blk.quads = [] := by
          simpa [idsAt_of_block hblk] using hempty
        simp [lookBack, hreach, hentry, hblk, Block.last?, hquads,
          predsAt_of_block hblk, Search.Sight.onward]

theorem onward_ahead_of_not_vacant (hb : ¬ g.Vacant b) :
    (g.lookAhead g.programOrder b).onward = [] := by
  by_cases hreach : b ∈ g.programOrder
  · have hids : g.idsAt b ≠ [] := fun hempty => hb ⟨hreach, hempty⟩
    cases hblk : g.block? b with
    | none => exact absurd (idsAt_of_none hblk) hids
    | some blk =>
        rw [idsAt_of_block hblk, Ne, List.map_eq_nil_iff] at hids
        obtain ⟨q, hq⟩ := Option.isSome_iff_exists.1 (List.isSome_head?.2 hids)
        by_cases hexit : b = .exit
        · simp [lookAhead, hexit ▸ hreach, hexit, Search.Sight.onward]
        · simp [lookAhead, hreach, hexit, hblk, Block.first?, hq,
            Search.Sight.onward]
  · simp [lookAhead, hreach, Search.Sight.onward]

theorem onward_back_of_not_vacant (hb : ¬ g.Vacant b) :
    (g.lookBack g.programOrder b).onward = [] := by
  by_cases hreach : b ∈ g.programOrder
  · have hids : g.idsAt b ≠ [] := fun hempty => hb ⟨hreach, hempty⟩
    cases hblk : g.block? b with
    | none => exact absurd (idsAt_of_none hblk) hids
    | some blk =>
        rw [idsAt_of_block hblk, Ne, List.map_eq_nil_iff] at hids
        have hq := List.getLast?_eq_some_getLast hids
        by_cases hentry : b = .entry
        · simp [lookBack, hentry ▸ hreach, hentry, Search.Sight.onward]
        · simp [lookBack, hreach, hentry, hblk, Block.last?, hq,
            Search.Sight.onward]
  · simp [lookBack, hreach, Search.Sight.onward]

theorem Regular.lookAhead_shows_iff (hg : g.Regular) (hb : b ∈ g.programOrder) :
    g.lookAhead g.programOrder b = .shows n ↔ g.FirstAt b n := by
  by_cases hexit : b = .exit
  · have hids := hg.idsAt_sentinel (b := .exit) rfl
    subst hexit
    cases n with
    | none => simp [lookAhead, hb, FirstAt]
    | some i => simp [lookAhead, hb, FirstAt, hids]
  · cases hblk : g.block? b with
    | none =>
        cases n with
        | none => simp [lookAhead, hb, hexit, hblk, FirstAt]
        | some i =>
            simp [lookAhead, hb, hexit, hblk, FirstAt, idsAt_of_none hblk]
    | some blk =>
        have hids := idsAt_of_block hblk
        cases hfirst : blk.quads with
        | nil =>
            cases n <;> simp [lookAhead, hb, hexit, hblk, Block.first?, hfirst,
              FirstAt, hids]
        | cons q rest =>
            cases n <;> simp [lookAhead, hb, hexit, hblk, Block.first?,
              hfirst, FirstAt, hids]

theorem Regular.lookBack_shows_iff (hg : g.Regular) :
    g.lookBack g.programOrder b = .shows n ↔
      b ∈ g.programOrder ∧ g.LastAt b n := by
  by_cases hb : b ∈ g.programOrder
  · by_cases hentry : b = .entry
    · have hids := hg.idsAt_sentinel (b := .entry) rfl
      subst hentry
      cases n with
      | none => simp [lookBack, hb, LastAt]
      | some i => simp [lookBack, hb, LastAt, hids]
    · cases hblk : g.block? b with
      | none =>
          cases n with
          | none => simp [lookBack, hb, hentry, hblk, LastAt]
          | some i =>
              simp [lookBack, hb, hentry, hblk, LastAt, idsAt_of_none hblk]
      | some blk =>
          have hids := idsAt_of_block hblk
          cases hlast : blk.quads.getLast? with
          | none =>
              cases n <;> simp [lookBack, hb, hentry, hblk, Block.last?, hlast,
                LastAt, hids]
          | some q => cases n <;> simp [lookBack, hb, hentry, hblk, Block.last?,
              hlast, LastAt, hids]
  · simp [lookBack, hb]

theorem Regular.mem_outgoing_iff (hg : g.Regular) (ha : a ∈ g.programOrder) :
    n ∈ g.outgoing g.programOrder (g.succs a) ↔
      ∃ b, g.Corridor a b ∧ g.FirstAt b n := by
  have hsees : Search.Sees (g.lookAhead g.programOrder) (g.succs a) n ↔
      ∃ b, g.Corridor a b ∧ g.lookAhead g.programOrder b = .shows n :=
    Search.Passage.sees_iff (fun _ => hg.onward_ahead_of_vacant)
      (fun _ => onward_ahead_of_not_vacant)
  constructor
  · intro hn
    obtain ⟨b, hcorridor, hshows⟩ := hsees.1 (Search.sees_of_mem_lookThrough hn)
    have hb := hcorridor.mem_programOrder ha
    exact ⟨b, hcorridor, (hg.lookAhead_shows_iff hb).1 hshows⟩
  · intro hn
    obtain ⟨b, hcorridor, hfirst⟩ := hn
    have hb := hcorridor.mem_programOrder ha
    exact mem_outgoing_of_sees
      (hsees.2 ⟨b, hcorridor, (hg.lookAhead_shows_iff hb).2 hfirst⟩)

theorem Regular.mem_incoming_iff (hg : g.Regular) :
    n ∈ g.incoming g.programOrder (g.predsAt b) ↔
      ∃ a ∈ g.programOrder, g.LastAt a n ∧ g.Corridor a b := by
  have hsees : Search.Sees (g.lookBack g.programOrder) (g.predsAt b) n ↔
      ∃ a, Search.Passage g.predsAt g.Vacant b a ∧
        g.lookBack g.programOrder a = .shows n :=
    Search.Passage.sees_iff (fun _ => hg.onward_back_of_vacant)
      (fun _ => onward_back_of_not_vacant)
  constructor
  · intro hn
    obtain ⟨a, hpassage, hshows⟩ := hsees.1 (Search.sees_of_mem_lookThrough hn)
    obtain ⟨ha, hlast⟩ := hg.lookBack_shows_iff.1 hshows
    exact ⟨a, ha, hlast, hpassage.reverse fun a b => (hg.mirrored b a).2⟩
  · intro hn
    obtain ⟨a, ha, hlast, hcorridor⟩ := hn
    have hpassage := hcorridor.reverse fun a b => (hg.mirrored a b).1
    exact mem_incoming_of_sees
      (hsees.2 ⟨a, hpassage, hg.lookBack_shows_iff.2 ⟨ha, hlast⟩⟩)

/-! ## The neighbour lists -/

/-- A quad is linked to the ones beside it, and at an end of its block to what
lies beyond. -/
theorem mem_chain_of_ids (behind : List Neighbour) {i : QuadId}
    {right : List QuadId} :
    ∀ {quads : List Quad} {left : List QuadId} {before : List Neighbour},
      quads.map Quad.id = left ++ i :: right →
      ⟨i, (left.getLast?.map fun j => [some j]).getD before,
        (right.head?.map fun j => [some j]).getD behind⟩ ∈
          chain before behind quads := by
  intro quads
  induction quads with
  | nil =>
      intro left before h
      simp at h
  | cons q rest ih =>
      intro left before h
      cases left with
      | nil =>
          obtain ⟨rfl, rfl⟩ := List.cons.inj h
          cases rest with
          | nil => simp [chain]
          | cons q' rest => simp [chain]
      | cons j left =>
          obtain ⟨rfl, hrest⟩ := List.cons.inj h
          have hlink := @ih left [some q.id] hrest
          cases rest with
          | nil => simp at hrest
          | cons q' rest =>
              refine List.mem_cons_of_mem _ ?_
              cases left with
              | nil => exact hlink
              | cons k left => rwa [List.getLast?_cons_cons]

/-- The place of a quad in its block, and the neighbours that it gives. -/
theorem neighbours_at (hdist : g.DistinctQuads) (he : g.quadGraph = .ok e)
    (hb : b ∈ g.programOrder) {left right : List QuadId}
    (hids : g.idsAt b = left ++ i :: right) :
    e.preds i = (left.getLast?.map fun j => [some j]).getD
        (g.incoming g.programOrder (g.predsAt b)) ∧
      e.succs i = (right.head?.map fun j => [some j]).getD
        (g.outgoing g.programOrder (g.succs b)) := by
  cases hblk : g.block? b with
  | none =>
      rw [idsAt_of_none hblk] at hids
      simp at hids
  | some blk =>
      rw [idsAt_of_block hblk] at hids
      rw [predsAt_of_block hblk, succs_of_block hblk]
      have hlink := mem_links_of_mem_chain he hb hblk (mem_chain_of_ids _ hids)
      exact ⟨preds_of_mem_links hdist he hlink,
        succs_of_mem_links hdist he hlink⟩

theorem exists_ids_of_visits (h : g.Visits i) :
    ∃ b ∈ g.programOrder, ∃ left right, g.idsAt b = left ++ i :: right := by
  obtain ⟨q, hq, rfl⟩ := h
  rw [quads_eq] at hq
  obtain ⟨b, hb, hq⟩ := List.mem_flatMap.1 hq
  obtain ⟨left, right, hids⟩ :=
    List.append_of_mem (List.mem_map_of_mem (f := Quad.id) hq)
  exact ⟨b, hb, left, right, hids⟩

theorem visits_of_link? (he : g.quadGraph = .ok e) {l : Link}
    (h : e.link? i = some l) : g.Visits i := by
  obtain ⟨hl, hquad⟩ := List.mem_filter.1 (List.mem_of_getLast? h)
  have hmem : i ∈ g.quads.map Quad.id := by
    rw [← links_quads he]
    exact List.mem_map.2 ⟨l, hl, by simpa using hquad⟩
  obtain ⟨q, hq, hid⟩ := List.mem_map.1 hmem
  exact ⟨q, hq, hid⟩

theorem visits_of_mem_preds (he : g.quadGraph = .ok e) (h : n ∈ e.preds i) :
    g.Visits i := by
  unfold QuadGraph.preds at h
  split at h
  · next l hl => exact visits_of_link? he hl
  · cases h

theorem visits_of_mem_succs (he : g.quadGraph = .ok e) (h : n ∈ e.succs i) :
    g.Visits i := by
  unfold QuadGraph.succs at h
  split at h
  · next l hl => exact visits_of_link? he hl
  · cases h

theorem Regular.mem_succs_iff (hg : g.Regular) (he : g.quadGraph = .ok e) :
    n ∈ e.succs i ↔ g.Hop (some i) n := by
  constructor
  · intro hn
    obtain ⟨b, hb, left, right, hids⟩ :=
      exists_ids_of_visits (visits_of_mem_succs he hn)
    rw [(neighbours_at hg.distinct he hb hids).2] at hn
    cases right with
    | nil =>
        obtain ⟨c, hcorridor, hfirst⟩ := (hg.mem_outgoing_iff hb).1 hn
        have hlast : g.LastAt b (some i) := by simp [LastAt, hids]
        exact .across hb hlast hcorridor hfirst
    | cons j right =>
        obtain rfl : n = some j := by simpa using hn
        exact .within hb hids
  · intro h
    generalize hm : some i = m at h
    cases h with
    | within hb hids =>
        cases hm
        rw [(neighbours_at hg.distinct he hb hids).2]
        exact List.mem_singleton_self _
    | across ha hlast hcorridor hfirst =>
        subst hm
        obtain ⟨left, hids⟩ := List.getLast?_eq_some_iff.1 hlast
        rw [(neighbours_at hg.distinct he ha hids).2]
        exact (hg.mem_outgoing_iff ha).2 ⟨_, hcorridor, hfirst⟩

theorem Regular.mem_preds_iff (hg : g.Regular) (he : g.quadGraph = .ok e) :
    n ∈ e.preds i ↔ g.Hop n (some i) := by
  constructor
  · intro hn
    obtain ⟨b, hb, left, right, hids⟩ :=
      exists_ids_of_visits (visits_of_mem_preds he hn)
    rw [(neighbours_at hg.distinct he hb hids).1] at hn
    cases hleft : left.getLast? with
    | none =>
        rw [hleft] at hn
        obtain ⟨a, ha, hlast, hcorridor⟩ := hg.mem_incoming_iff.1 hn
        rw [List.getLast?_eq_none_iff.1 hleft] at hids
        have hfirst : g.FirstAt b (some i) := by simp [FirstAt, hids]
        exact .across ha hlast hcorridor hfirst
    | some j =>
        rw [hleft] at hn
        obtain rfl : n = some j := by simpa using hn
        obtain ⟨left, rfl⟩ := List.getLast?_eq_some_iff.1 hleft
        rw [List.append_assoc] at hids
        exact .within hb hids
  · intro h
    generalize hm : some i = m at h
    cases h with
    | @within b left right j _ hb hids =>
        cases hm
        rw [List.append_cons] at hids
        rw [(neighbours_at hg.distinct he hb hids).1, List.getLast?_concat]
        exact List.mem_singleton_self _
    | @across a b _ _ ha hlast hcorridor hfirst =>
        subst hm
        obtain ⟨right, hids⟩ := List.head?_eq_some_iff.1 hfirst
        have hb := hcorridor.mem_programOrder ha
        have hids : g.idsAt b = [] ++ i :: right := hids
        rw [(neighbours_at hg.distinct he hb hids).1]
        exact hg.mem_incoming_iff.2 ⟨a, ha, hlast, hcorridor⟩

theorem sentinels_of_quadGraph (he : g.quadGraph = .ok e) :
    e.exitPreds = g.incoming g.programOrder (g.predsAt .exit) ∧
      e.entrySuccs = g.outgoing g.programOrder (g.succs .entry) := by
  unfold quadGraph sentinel at he
  cases hexit : g.block? .exit with
  | none => rw [hexit] at he; cases he
  | some exit =>
      rw [hexit] at he
      cases hentry : g.block? .entry with
      | none => rw [hentry] at he; cases he
      | some entry =>
          rw [hentry] at he
          cases he
          rw [predsAt_of_block hexit, succs_of_block hentry]
          exact ⟨rfl, rfl⟩

theorem Regular.mem_exitPreds_iff (hg : g.Regular) (he : g.quadGraph = .ok e) :
    n ∈ e.exitPreds ↔ g.Hop n none := by
  rw [(sentinels_of_quadGraph he).1, hg.mem_incoming_iff]
  constructor
  · intro hn
    obtain ⟨a, ha, hlast, hcorridor⟩ := hn
    exact .across ha hlast hcorridor (n := none) rfl
  · intro h
    generalize hm : none = m at h
    cases h with
    | within => cases hm
    | @across a b _ _ ha hlast hcorridor hfirst =>
        subst hm
        obtain rfl : b = .exit := hfirst
        exact ⟨a, ha, hlast, hcorridor⟩

theorem Regular.mem_entrySuccs_iff (hg : g.Regular) (he : g.quadGraph = .ok e) :
    n ∈ e.entrySuccs ↔ g.Hop none n := by
  have hentry := g.programOrder_closed.1
  rw [(sentinels_of_quadGraph he).2, hg.mem_outgoing_iff hentry]
  constructor
  · intro hn
    obtain ⟨b, hcorridor, hfirst⟩ := hn
    exact .across hentry (m := none) rfl hcorridor hfirst
  · intro h
    generalize hm : none = m at h
    cases h with
    | within => cases hm
    | @across a b _ _ _ hlast hcorridor hfirst =>
        subst hm
        obtain rfl : a = .entry := hlast
        exact ⟨b, hcorridor, hfirst⟩

/-! ## No neighbour is listed twice -/

theorem nodup_chain {behind : List Neighbour} (hbehind : behind.Nodup)
    {l : Link} :
    ∀ {quads : List Quad} {before : List Neighbour}, before.Nodup →
      l ∈ chain before behind quads → l.preds.Nodup ∧ l.succs.Nodup := by
  intro quads
  induction quads with
  | nil =>
      intro before _ hl
      cases hl
  | cons q rest ih =>
      intro before hbefore hl
      cases rest with
      | nil =>
          obtain rfl := List.mem_singleton.1 hl
          exact ⟨hbefore, hbehind⟩
      | cons q' rest =>
          rw [chain] at hl
          rcases List.mem_cons.1 hl with rfl | hl
          · exact ⟨hbefore, List.nodup_singleton _⟩
          · exact ih (List.nodup_singleton _) hl

theorem nodup_of_link? (he : g.quadGraph = .ok e) {l : Link}
    (h : e.link? i = some l) : l.preds.Nodup ∧ l.succs.Nodup := by
  have hl := QuadGraph.mem_links_of_link? h
  rw [(quadGraph_eq he).1] at hl
  obtain ⟨b, -, hl⟩ := List.mem_flatMap.1 hl
  exact nodup_chain (Search.nodup_lookThrough _ _ _)
    (Search.nodup_lookThrough _ _ _) hl

theorem nodup_preds (he : g.quadGraph = .ok e) (i : QuadId) :
    (e.preds i).Nodup := by
  unfold QuadGraph.preds
  split
  · next l hl => exact (nodup_of_link? he hl).1
  · exact List.nodup_nil

theorem nodup_succs (he : g.quadGraph = .ok e) (i : QuadId) :
    (e.succs i).Nodup := by
  unfold QuadGraph.succs
  split
  · next l hl => exact (nodup_of_link? he hl).2
  · exact List.nodup_nil

/-! ## Duality -/

/-- A graph that a script makes, or one of these after checks were inserted,
once or again and again. -/
inductive Assembled : Graph → Prop
  | built {name : String} {script : List Command} {g : Graph} :
      Graph.build name script = .ok g → Assembled g
  | checked {g : Graph} {stats : CheckStats} : Assembled g →
      g.insertChecks.result = .ok stats → Assembled g.insertChecks.graph

theorem WellFormed.insertChecks {stats : CheckStats} (hg : g.WellFormed)
    (h : g.insertChecks.result = .ok stats) :
    g.insertChecks.graph.WellFormed := by
  obtain ⟨guard, plan, hplan, hsplits, -⟩ := insertChecks_splits hg h
  exact hsplits.wellFormed (hplan ▸ hg.ready)

theorem Assembled.wellFormed (h : Assembled g) : g.WellFormed := by
  induction h with
  | built hbuild => exact build_wellFormed hbuild
  | checked _ hresult ih => exact ih.insertChecks hresult

/-- A quad is a successor of another exactly when the other is its predecessor;
the method can end with a quad exactly when its end is a successor of the quad,
and begin with one exactly when its start is a predecessor; it can end without
any exactly when it can begin so; and no neighbour is listed twice. That holds
of every regular graph, and all graphs that are built are well formed and hence
regular, with or without checks inserted: every block stands under its own
number and no two quads of the graph have the same. -/
theorem neighbours_dual :
    (∀ g, Assembled g → g.WellFormed ∧ g.Regular) ∧
    ∀ g : Graph, g.Regular → ∃ e, g.quadGraph = .ok e ∧
      (∀ p ∈ g.quads, ∀ q ∈ g.quads,
        some q.id ∈ e.succs p.id ↔ some p.id ∈ e.preds q.id) ∧
      (∀ p ∈ g.quads, none ∈ e.succs p.id ↔ some p.id ∈ e.exitPreds) ∧
      (∀ q ∈ g.quads, none ∈ e.preds q.id ↔ some q.id ∈ e.entrySuccs) ∧
      (none ∈ e.exitPreds ↔ none ∈ e.entrySuccs) ∧
      (∀ i, (e.preds i).Nodup ∧ (e.succs i).Nodup) ∧
      e.exitPreds.Nodup ∧ e.entrySuccs.Nodup := by
  refine ⟨fun g h => ⟨h.wellFormed, h.wellFormed.regular⟩, fun g hg => ?_⟩
  obtain ⟨e, he⟩ := hg.ends.quadGraph_ok
  obtain ⟨hexit, hentry⟩ := sentinels_of_quadGraph he
  refine ⟨e, he, fun p _ q _ => ?_, fun p _ => ?_, fun q _ => ?_, ?_,
    fun i => ⟨nodup_preds he i, nodup_succs he i⟩, ?_, ?_⟩
  · rw [hg.mem_succs_iff he, hg.mem_preds_iff he]
  · rw [hg.mem_succs_iff he, hg.mem_exitPreds_iff he]
  · rw [hg.mem_preds_iff he, hg.mem_entrySuccs_iff he]
  · rw [hg.mem_exitPreds_iff he, hg.mem_entrySuccs_iff he]
  · rw [hexit]
    exact Search.nodup_lookThrough _ _ _
  · rw [hentry]
    exact Search.nodup_lookThrough _ _ _

/-- A method with a cycle of empty blocks, left for a block with two quads that
leads back into it, or for the exit. -/
def hollowLoop : Graph where
  method := ⟨"loop", []⟩
  blocks := .ofList [
    (.entry, ⟨.entry, [], [], [⟨2⟩]⟩),
    (.exit, ⟨.exit, [], [⟨3⟩], []⟩),
    (⟨2⟩, ⟨⟨2⟩, [], [.entry, ⟨3⟩, ⟨4⟩], [⟨3⟩]⟩),
    (⟨3⟩, ⟨⟨3⟩, [], [⟨2⟩], [⟨2⟩, ⟨4⟩, .exit]⟩),
    (⟨4⟩, ⟨⟨4⟩, [⟨⟨1⟩, .nop⟩, ⟨⟨2⟩, .nop⟩], [⟨3⟩], [⟨2⟩]⟩)]
  nextQuad := 3
  nextBlock := 5

/-- The commands that make it. -/
def hollowLoopScript : List Command :=
  [.block, .block, .block, .push ⟨4⟩ .nop, .push ⟨4⟩ .nop,
    .edge .entry ⟨2⟩, .edge ⟨2⟩ ⟨3⟩, .edge ⟨3⟩ ⟨2⟩, .edge ⟨3⟩ ⟨4⟩,
    .edge ⟨3⟩ .exit, .edge ⟨4⟩ ⟨2⟩]

/-- The walk ahead finds all steps through the cycle, so the walk back does. -/
theorem neighbours_dual_hollowLoop :
    Graph.build "loop" hollowLoopScript = .ok hollowLoop ∧
      hollowLoop.WellFormed ∧ hollowLoop.Regular ∧
      ∃ e, hollowLoop.quadGraph = .ok e ∧
        e.succs ⟨2⟩ = [some ⟨1⟩, none] ∧ e.entrySuccs = [some ⟨1⟩, none] ∧
        some ⟨2⟩ ∈ e.preds ⟨1⟩ ∧ none ∈ e.preds ⟨1⟩ ∧
        some ⟨2⟩ ∈ e.exitPreds ∧ none ∈ e.exitPreds := by
  have hbuild : Graph.build "loop" hollowLoopScript = .ok hollowLoop := rfl
  obtain ⟨hwell, hregular⟩ := neighbours_dual.1 hollowLoop (.built hbuild)
  obtain ⟨e, he, hsteps, hends, hstarts, hempty, -⟩ :=
    neighbours_dual.2 hollowLoop hregular
  have hwalks :
      (hollowLoop.quadGraph.map fun e => (e.succs ⟨2⟩, e.entrySuccs)) =
      .ok ([some ⟨1⟩, none], [some ⟨1⟩, none]) := rfl
  rw [he] at hwalks
  obtain ⟨hsuccs, hentry⟩ := Prod.mk.inj (Except.ok.inj hwalks)
  let first : Quad := ⟨⟨1⟩, .nop⟩
  let second : Quad := ⟨⟨2⟩, .nop⟩
  have hstep := hsteps second (by decide) first (by decide)
  have hend := hends second (by decide)
  have hstart := hstarts first (by decide)
  rw [hsuccs] at hstep hend
  rw [hentry] at hstart hempty
  exact ⟨hbuild, hwell, hregular, e, he, hsuccs, hentry, hstep.1 (by decide),
    hstart.2 (by decide), hend.1 (by decide), hempty.2 (by decide)⟩

end Graph

end Dataflow
