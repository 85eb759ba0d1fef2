import Dataflow.Proofs.EdgeSplit

/-!
# Taking a split back

A block that splits an edge names the two blocks it stands between, so the edge
can be put back from what the split has left, without the graph as it was. Its
successor goes back into the list it was taken from, and into the branch if that
went along the edge; its predecessor goes back into the other list; and the
block goes.

`join` says that this restores the blocks exactly: their order, their quads with
their numbers, and their edges in their places. The new block stands in no list
of the graph as it was, so replacing it finds the place where it was put. For
the branch that means its target tells whether the edge was the one taken: the
new block cannot have been the target before.
-/

namespace Dataflow

/-- A keyed list is its keys in order and what stands under each. -/
theorem KeyedList.ext_get? {κ β : Type} [DecidableEq κ] {m m' : KeyedList κ β}
    (hkeys : m.keys = m'.keys) (hget : ∀ k, m.get? k = m'.get? k) : m = m' := by
  have hentries : ∀ m : KeyedList κ β,
      m.entries = m.keys.filterMap fun k => (m.get? k).map (Prod.mk k) := by
    intro m
    rw [keys, List.filterMap_map]
    have hsome : ∀ e ∈ m.entries,
        ((fun k => (m.get? k).map (Prod.mk k)) ∘ Prod.fst) e = some e := by
      intro e he
      show (m.get? e.1).map (Prod.mk e.1) = some e
      rw [get?_of_mem_entries he]
      rfl
    rw [List.filterMap_congr hsome, List.filterMap_some]
  have heq : m.entries = m'.entries := by
    rw [hentries m, hentries m', hkeys]
    simp only [hget]
  exact eq_of_entries heq

/-- Puts a successor back in the place of a block, and back into the branch that
went to that block. -/
def Block.rejoin (b : Block) (old new : BlockId) : Block :=
  let joined := b.divertSucc old new
  if b.last?.bind Quad.target? = some old then joined.retargetLast new
  else joined

theorem Block.rejoin_eq {b : Block} {q : Quad} (h : b.last? = some q)
    (old new : BlockId) :
    b.rejoin old new = { b with
      quads := b.quads.dropLast ++
        [if q.target? = some old then q.retarget new else q]
      succs := b.succs.replace old new } := by
  rw [rejoin, h, Option.bind_some, divertSucc_eq]
  split
  · rw [retargetLast]
    show Block.mk _
      (b.quads.dropLast ++ (b.last?.map (·.retarget new)).toList) _ _ = _
    rw [h]
    rfl
  · rw [← quads_of_last h]

/-- Takes out a block that has one way in and one way out, and joins the two. -/
def Graph.joinEdge (n : BlockId) (g : Graph) : Graph :=
  match g.predsAt n, g.succs n with
  | [b], [x] => { g with
      blocks := ((g.blocks.modify b (·.rejoin n x)).modify x
        (·.divertPred n b)).erase n }
  | _, _ => g

namespace Graph.Split

variable {g g' : Graph} {guard : Option Register} {p : Splice} {k : BlockId}
  {blk : Block}

/-- The branch is given back the target it had, and no other target is touched:
before the split no branch of the block went to the new one. -/
theorem restore_branch (hg : g.WellFormed) (h : g.Split guard p g')
    {branch out : Quad} (hblk : g.block? p.site.block = some blk)
    (hmarks : p.site.Marks blk branch)
    (hout : out = if p.site.taken then branch.retarget p.block else branch) :
    (if out.target? = some p.block then out.retarget p.site.nonNull else out) =
      branch := by
  obtain ⟨t, ht⟩ := Quad.exists_target_of_nullTest hmarks.test
  cases htaken : p.site.taken with
  | true =>
      rw [if_pos htaken] at hout
      rw [hout, Quad.target?_retarget ht, if_pos rfl,
        ← (hmarks.taken_iff ht).1 htaken]
      exact Quad.retarget_retarget ht _
  | false =>
      have hmem := hg.shaped.target _ blk hblk branch
        (List.mem_of_getLast? hmarks.last) t ht
      have hne : t ≠ p.block := by
        rintro rfl
        exact h.not_mem_succs hg p.site.block (succs_of_block hblk ▸ hmem)
      rw [if_neg (by simp [htaken])] at hout
      rw [hout, ht, if_neg (by simpa using hne)]

theorem rejoin_reroute (hg : g.WellFormed) (h : g.Split guard p g')
    (hblk : g.block? p.site.block = some blk) :
    (p.reroute p.site.block blk).rejoin p.block p.site.nonNull =
      { blk with preds := (p.reroute p.site.block blk).preds } := by
  obtain ⟨blk', branch, hblk', hmarks⟩ := h.site
  rw [hblk] at hblk'
  cases hblk'
  have hquads : (p.reroute p.site.block blk).quads = blk.quads.dropLast ++
      [if p.site.taken then branch.retarget p.block else branch] := by
    simp only [Splice.reroute, if_true]
    exact p.follow_eq hmarks.last
  have hsuccs :
      (p.reroute p.site.block blk).succs.replace p.block p.site.nonNull =
      blk.succs := by
    have hnew := h.not_mem_succs hg p.site.block
    rw [succs_of_block hblk] at hnew
    simp only [Splice.reroute, if_true]
    exact replace_replace hnew
  have hlast : (p.reroute p.site.block blk).last? =
      some (if p.site.taken then branch.retarget p.block else branch) := by
    rw [Block.last?, hquads, List.getLast?_concat]
  rw [Block.rejoin_eq hlast, hsuccs, hquads, List.dropLast_concat,
    h.restore_branch hg hblk hmarks rfl, ← Block.quads_of_last hmarks.last]
  rfl

theorem join_block (hg : g.WellFormed) (h : g.Split guard p g')
    (hblk : g.block? k = some blk) :
    (let out := if k = p.site.block then
        (p.reroute k blk).rejoin p.block p.site.nonNull else p.reroute k blk
      if k = p.site.nonNull then out.divertPred p.block p.site.block else out) =
        blk := by
  have hout : (if k = p.site.block then
        (p.reroute k blk).rejoin p.block p.site.nonNull else p.reroute k blk) =
      { blk with preds := (p.reroute k blk).preds } := by
    split
    · next hk =>
        subst hk
        exact h.rejoin_reroute hg hblk
    · next hk => simp [Splice.reroute, hk]
  have hnew : p.block ∉ blk.preds := by
    have hmem := h.not_mem_preds hg k
    rwa [predsAt_of_block hblk] at hmem
  dsimp only
  rw [hout, Block.divertPred_eq]
  split
  · next hk =>
      simp only [Splice.reroute, if_pos hk]
      rw [replace_replace hnew]
  · next hk => simp only [Splice.reroute, if_neg hk]

/-- Joining the edge again leaves the blocks as they were. -/
theorem join (hg : g.WellFormed) (h : g.Split guard p g') {j : Graph}
    (hj : j.blocks = g'.blocks) : (j.joinEdge p.block).blocks = g.blocks := by
  have hpreds : j.predsAt p.block = [p.site.block] := by
    rw [predsAt, hj]
    exact KeyedList.listAt_of_get? h.added _
  have hsuccs : j.succs p.block = [p.site.nonNull] := by
    rw [succs_eq, hj]
    exact KeyedList.listAt_of_get? h.added _
  have hfree : p.block ∉ g.blocks.keys :=
    KeyedList.get?_eq_none_iff.1 (h.free hg)
  unfold joinEdge
  rw [hpreds, hsuccs, hj]
  apply KeyedList.ext_get?
  -- the new key was the last one, so no other moves when it goes
  · have hold : g.blocks.keys.filter (· ≠ p.block) = g.blocks.keys := by
      rw [List.filter_eq_self]
      intro k hk
      simpa using fun heq : k = p.block => hfree (heq ▸ hk)
    rw [KeyedList.keys_erase, KeyedList.keys_modify,
      KeyedList.keys_modify, h.keys, List.filter_append, hold]
    simp
  · intro k
    rw [KeyedList.get?_erase]
    split
    · next hk =>
        rw [hk]
        exact (h.free hg).symm
    · next hk =>
        have hkept : g'.blocks.get? k = (g.blocks.get? k).map (p.reroute k) :=
          h.kept k hk
        rw [KeyedList.get?_modify_eq_map, KeyedList.get?_modify_eq_map, hkept,
          Option.map_map, Option.map_map]
        cases hblk : g.blocks.get? k with
        | none => rfl
        | some blk => exact congrArg some (h.join_block hg hblk)

end Graph.Split

end Dataflow
