import Dataflow.Proofs.Path

/-!
# Every visited quad can be come to

A statement about all paths to a quad says nothing about a quad that no path
leads to. This file shows that in a graph whose edges are recorded at both ends
there is no such quad: the program order follows successors from the entry, the
neighbour lists follow predecessors back, and with mirrored edges the two agree.

The argument goes block by block along the search. A block that is entered from
the entry has the start of the method among its origins; one that is entered
from a block with quads has the last of them; and one that is entered from an
empty block has whatever that block has, since the walk looks through it. Both
directions use that the walks miss nothing, so this is where the bounds on
their steps are met by the edges that the graph really has.
-/

namespace Dataflow

theorem KeyedList.get?_of_mem_entries {κ β : Type} [DecidableEq κ]
    {m : KeyedList κ β} {k : κ} {v : β} (h : (k, v) ∈ m.entries) :
    m.get? k = some v := by
  cases hget : m.get? k with
  | none =>
      have habsent := get?_eq_none_iff.1 hget
      exact absurd (List.mem_map.2 ⟨(k, v), h, rfl⟩) habsent
  | some v' =>
      have hmem := mem_entries_of_get? hget
      cases List.inj_on_of_nodup_map m.nodup hmem h rfl
      rfl

namespace Graph

variable {g : Graph} {e : QuadGraph}

theorem succs_eq (g : Graph) (b : BlockId) :
    g.succs b = g.blocks.listAt Block.succs b := by
  unfold succs block? KeyedList.listAt
  cases g.blocks.get? b <;> rfl

theorem succs_of_block {b : BlockId} {blk : Block} (h : g.block? b = some blk) :
    g.succs b = blk.succs := by
  rw [succs_eq, KeyedList.listAt_of_get? h]

/-- Lists that are no longer than what their blocks hold are so all together. -/
theorem length_flatMap_keys (g : Graph) (next : BlockId → List BlockId)
    (view : Block → List BlockId)
    (h : ∀ b blk, g.block? b = some blk → (next b).length ≤ (view blk).length) :
    (g.blocks.keys.flatMap next).length ≤
      (g.blocks.values.flatMap view).length := by
  have hall : ∀ entries : List (BlockId × Block),
      (∀ entry ∈ entries, entry ∈ g.blocks.entries) →
      ((entries.map Prod.fst).flatMap next).length ≤
        ((entries.map Prod.snd).flatMap view).length := by
    intro entries
    induction entries with
    | nil => exact fun _ => Nat.le_refl 0
    | cons entry rest ih =>
        intro hsub
        have hentry := h entry.1 entry.2
          (KeyedList.get?_of_mem_entries (hsub entry List.mem_cons_self))
        have hrest := ih fun x hx => hsub x (List.mem_cons_of_mem entry hx)
        simp only [List.map_cons, List.flatMap_cons, List.length_append]
        omega
  exact hall g.blocks.entries fun _ h => h

theorem mem_keys_of_block {b : BlockId} {blk : Block}
    (h : g.block? b = some blk) : b ∈ g.blocks.keys :=
  List.mem_map.2 ⟨(b, blk), KeyedList.mem_entries_of_get? h, rfl⟩

/-! ## The walks miss nothing -/

/-- Lists that are the edges of blocks are counted with the edges of all
blocks. -/
theorem counted_edges (g : Graph) (view : Block → List BlockId)
    {next : BlockId → List BlockId}
    (h : ∀ b, next b = [] ∨ ∃ blk, g.block? b = some blk ∧ next b = view blk) :
    Search.Counted next (g.blocks.values.flatMap view).length := by
  refine ⟨g.blocks.keys, fun b hb => ?_, ?_⟩
  · obtain ⟨blk, hblk, -⟩ := (h b).resolve_left hb
    exact mem_keys_of_block hblk
  · refine g.length_flatMap_keys next view fun b blk hblk => ?_
    rcases h b with hnil | ⟨blk', hblk', hnext⟩
    · rw [hnil]
      exact Nat.zero_le _
    · cases Option.some.inj (hblk.symm.trans hblk')
      rw [hnext]

theorem succs_counted (g : Graph) : Search.Counted g.succs g.succCount := by
  refine g.counted_edges Block.succs fun b => ?_
  cases hblk : g.block? b with
  | none => exact Or.inl (by simp [succs, hblk])
  | some blk => exact Or.inr ⟨blk, rfl, succs_of_block hblk⟩

theorem programOrder_closed (g : Graph) :
    .entry ∈ g.programOrder ∧
      ∀ a ∈ g.programOrder, ∀ b ∈ g.succs a, b ∈ g.programOrder := by
  obtain ⟨nodes, hnodes, hedges⟩ := g.succs_counted
  -- not against the goal, where unifying the bounds would unfold the search
  have hclosed := Search.reversePostorder_closed .entry nodes hnodes hedges
  exact hclosed

theorem onward_lookBack (g : Graph) (reachable : List BlockId) (b : BlockId) :
    (g.lookBack reachable b).onward = [] ∨
      ∃ blk, g.block? b = some blk ∧
        (g.lookBack reachable b).onward = blk.preds := by
  unfold lookBack
  split
  · exact Or.inl rfl
  · split
    · exact Or.inl rfl
    · split
      · exact Or.inl rfl
      · next blk hblk =>
          split
          · exact Or.inl rfl
          · exact Or.inr ⟨blk, hblk, rfl⟩

theorem onward_lookAhead (g : Graph) (reachable : List BlockId) (b : BlockId) :
    (g.lookAhead reachable b).onward = [] ∨
      ∃ blk, g.block? b = some blk ∧
        (g.lookAhead reachable b).onward = blk.succs := by
  unfold lookAhead
  split
  · exact Or.inl rfl
  · split
    · exact Or.inl rfl
    · split
      · exact Or.inl rfl
      · next blk hblk =>
          split
          · exact Or.inl rfl
          · exact Or.inr ⟨blk, hblk, rfl⟩

/-- A walk along one kind of edges misses nothing, if its bound counts them. -/
theorem mem_lookThrough_of_sees_edges (view : Block → List BlockId)
    {look : BlockId → Search.Sight BlockId Neighbour} {blocks : List BlockId}
    {n : Neighbour}
    (honward : ∀ b, (look b).onward = [] ∨
      ∃ blk, g.block? b = some blk ∧ (look b).onward = view blk)
    (h : Search.Sees look blocks n) :
    n ∈ Search.lookThrough look (g.blocks.values.flatMap view).length
      blocks := by
  obtain ⟨nodes, hnodes, hedges⟩ := g.counted_edges view honward
  exact Search.mem_lookThrough_of_sees nodes hnodes hedges h

theorem mem_incoming_of_sees {reachable blocks : List BlockId} {n : Neighbour}
    (h : Search.Sees (g.lookBack reachable) blocks n) :
    n ∈ g.incoming reachable blocks :=
  mem_lookThrough_of_sees_edges Block.preds (g.onward_lookBack reachable) h

theorem mem_outgoing_of_sees {reachable blocks : List BlockId} {n : Neighbour}
    (h : Search.Sees (g.lookAhead reachable) blocks n) :
    n ∈ g.outgoing reachable blocks :=
  mem_lookThrough_of_sees_edges Block.succs (g.onward_lookAhead reachable) h

/-! ## The neighbours of a quad -/

theorem chain_quads (behind : List Neighbour) :
    ∀ (quads : List Quad) (before : List Neighbour),
      (chain before behind quads).map Link.quad = quads.map Quad.id := by
  intro quads
  induction quads with
  | nil => exact fun _ => rfl
  | cons q rest ih =>
      intro before
      cases rest with
      | nil => rfl
      | cons q' rest => exact congrArg (q.id :: ·) (ih [some q.id])

theorem links_quads (he : g.quadGraph = .ok e) :
    e.links.map Link.quad = g.quads.map Quad.id := by
  rw [(quadGraph_eq he).1, quads, List.map_flatMap, List.map_flatMap]
  exact List.flatMap_congr fun b _ => chain_quads _ _ _

theorem mem_links_of_mem_chain (he : g.quadGraph = .ok e) {b : BlockId}
    {blk : Block} (hb : b ∈ g.programOrder) (hblk : g.block? b = some blk)
    {l : Link} (hl : l ∈ chain (g.incoming g.programOrder blk.preds)
      (g.outgoing g.programOrder blk.succs) blk.quads) : l ∈ e.links := by
  rw [(quadGraph_eq he).1]
  exact List.mem_flatMap.2 ⟨blk, List.mem_filterMap.2 ⟨b, hb, hblk⟩, hl⟩

theorem link?_of_mem_links (hdist : g.DistinctQuads)
    (he : g.quadGraph = .ok e) {l : Link} (hl : l ∈ e.links) :
    e.link? l.quad = some l := by
  have hnodup : (e.links.map Link.quad).Nodup := links_quads he ▸ hdist
  have hmem : l ∈ e.links.filter fun l' => l'.quad = l.quad :=
    List.mem_filter.2 ⟨hl, by simp⟩
  cases hlast : e.link? l.quad with
  | none => exact absurd (List.getLast?_eq_none_iff.1 hlast ▸ hmem) (by simp)
  | some l' =>
      obtain ⟨hl', hquad⟩ := List.mem_filter.1 (List.mem_of_getLast? hlast)
      rw [List.inj_on_of_nodup_map hnodup hl' hl (by simpa using hquad)]

theorem preds_of_mem_links (hdist : g.DistinctQuads)
    (he : g.quadGraph = .ok e) {l : Link} (hl : l ∈ e.links) :
    e.preds l.quad = l.preds := by
  rw [QuadGraph.preds, link?_of_mem_links hdist he hl]

theorem succs_of_mem_links (hdist : g.DistinctQuads)
    (he : g.quadGraph = .ok e) {l : Link} (hl : l ∈ e.links) :
    e.succs l.quad = l.succs := by
  rw [QuadGraph.succs, link?_of_mem_links hdist he hl]

/-! ## Blocks that control comes to -/

/-- Control can come from the start of the method to a neighbour. -/
def FromEntry (g : Graph) (e : QuadGraph) : Neighbour → Prop
  | none => True
  | some i => ∃ p ∈ g.quads, p.id = i ∧ ∃ path, g.EntryPath e path p

theorem FromEntry.entryPath {n : Neighbour} {q : Quad}
    (h : g.FromEntry e n) (hn : n ∈ e.preds q.id) :
    ∃ path, g.EntryPath e path q := by
  cases n with
  | none => exact ⟨[], entryPath_nil.2 hn⟩
  | some i =>
      obtain ⟨p, hp, rfl, path, hpath⟩ := h
      exact ⟨path ++ [p], entryPath_snoc.2 ⟨hpath, hp, hn⟩⟩

theorem FromEntry.entryPath_chain (behind : List Neighbour) :
    ∀ {quads : List Quad} {before : List Neighbour},
      (∀ l ∈ chain before behind quads, e.preds l.quad = l.preds) →
      (∀ q ∈ quads, q ∈ g.quads) →
      (∃ n ∈ before, g.FromEntry e n) →
      ∀ q ∈ quads, ∃ path, g.EntryPath e path q := by
  intro quads
  induction quads with
  | nil =>
      intro before _ _ _ q hq
      cases hq
  | cons first rest ih =>
      intro before hlinks hquads hbefore
      obtain ⟨n, hn, hentry⟩ := hbefore
      have hpreds : e.preds first.id = before := by
        cases rest with
        | nil => exact hlinks _ (List.mem_singleton_self _)
        | cons next rest => exact hlinks _ List.mem_cons_self
      obtain ⟨path, hpath⟩ := hentry.entryPath (q := first) (hpreds ▸ hn)
      intro q hq
      rcases List.mem_cons.1 hq with rfl | hq
      · exact ⟨path, hpath⟩
      · cases rest with
        | nil => cases hq
        | cons next rest =>
            refine ih
              (fun l hl => hlinks l (List.mem_cons_of_mem _ hl))
              (fun q hq => hquads q (List.mem_cons_of_mem _ hq))
              ⟨some first.id, by simp, ?_⟩ q hq
            exact ⟨first, hquads first List.mem_cons_self, rfl, path, hpath⟩

/-- Looking back from a block there is a neighbour that control can come to. -/
def Opens (g : Graph) (e : QuadGraph) (b : BlockId) : Prop :=
  ∃ n, Search.Sees (g.lookBack g.programOrder) (g.predsAt b) n ∧
    g.FromEntry e n

theorem Opens.entryPath (hdist : g.DistinctQuads) (he : g.quadGraph = .ok e)
    {b : BlockId} (hb : b ∈ g.programOrder) (h : g.Opens e b) :
    ∀ q ∈ g.quadsAt b, ∃ path, g.EntryPath e path q := by
  intro q hq
  obtain ⟨n, hsees, hentry⟩ := h
  obtain ⟨blk, hblk, hq⟩ := KeyedList.exists_of_mem_listAt hq
  rw [predsAt_of_block hblk] at hsees
  refine FromEntry.entryPath_chain (g.outgoing g.programOrder blk.succs)
    (fun l hl => ?_) (fun q hq => mem_quads_of_block hb hblk hq)
    ⟨n, mem_incoming_of_sees hsees, hentry⟩ q hq
  exact preds_of_mem_links hdist he (mem_links_of_mem_chain he hb hblk hl)

/-- Every edge to a successor is recorded there too. -/
def Mirrored (g : Graph) : Prop :=
  ∀ a b, b ∈ g.succs a → a ∈ g.predsAt b

theorem Mirrored.opens (hmirrored : g.Mirrored) (hdist : g.DistinctQuads)
    (he : g.quadGraph = .ok e) {a b : BlockId} (ha : a ∈ g.programOrder)
    (hopens : a = .entry ∨ g.Opens e a) (hb : b ∈ g.succs a) :
    g.Opens e b := by
  have hpred := hmirrored a b hb
  by_cases hentry : a = .entry
  · refine ⟨none, Search.Sees.here hpred ?_, trivial⟩
    simp [lookBack, hentry ▸ ha, hentry]
  · have hopens := hopens.resolve_left hentry
    cases hblk : g.block? a with
    | none => simp [succs, hblk] at hb
    | some blk =>
        cases hlast : blk.last? with
        | some last =>
            have hmem : last ∈ g.quadsAt a := by
              rw [quadsAt_of_block hblk]
              exact List.mem_of_getLast? hlast
            obtain ⟨path, hpath⟩ := hopens.entryPath hdist he ha last hmem
            refine ⟨some last.id, Search.Sees.here hpred ?_, last, ?_, rfl,
              path, hpath⟩
            · simp [lookBack, ha, hentry, hblk, hlast]
            · exact mem_quads_of_block ha hblk (List.mem_of_getLast? hlast)
        | none =>
            obtain ⟨n, hsees, hfrom⟩ := hopens
            have honward : (g.lookBack g.programOrder a).onward =
                g.predsAt a := by
              rw [predsAt_of_block hblk]
              simp [lookBack, ha, hentry, hblk, hlast, Search.Sight.onward]
            exact ⟨n, Search.Sees.through hpred (honward ▸ hsees), hfrom⟩

/-- Control can come from the start of the method to every visited quad, when
edges are mirrored and the entry holds no quads. -/
theorem Mirrored.exists_entryPath (hmirrored : g.Mirrored)
    (hdist : g.DistinctQuads) (hentry : g.quadsAt .entry = [])
    (he : g.quadGraph = .ok e) {q : Quad} (hq : q ∈ g.quads) :
    ∃ path, g.EntryPath e path q := by
  obtain ⟨hstart, hclosed⟩ := g.programOrder_closed
  have hall : ∀ b ∈ g.programOrder,
      b ∈ g.programOrder ∧ (b = .entry ∨ g.Opens e b) :=
    Search.forall_mem_reversePostorder ⟨hstart, Or.inl rfl⟩
      fun a ha b hb => ⟨hclosed a ha.1 b hb,
        Or.inr (hmirrored.opens hdist he ha.1 ha.2 hb)⟩
  rw [quads_eq] at hq
  obtain ⟨b, hb, hq⟩ := List.mem_flatMap.1 hq
  rcases (hall b hb).2 with rfl | hopens
  · rw [hentry] at hq
    cases hq
  · exact hopens.entryPath hdist he hb q hq

end Graph

end Dataflow
