import Mathlib.Data.List.Find
import Dataflow.Proofs.Reports
import Dataflow.Proofs.SplitOrder

/-!
# Inserting checks a second time

A split leaves the branch in front of its edge where it was, still comparing the
same register, and the edge on which that is not null now leads to the inserted
block. So a second insertion finds the sites of the first, one by one and in the
same order, each with the inserted block at its other end
(`Splits.nonNullEdges`). It splits the same edges once more, and its blocks come
between the branches and the blocks of the first.

A check of the first insertion then has a check of the same register straight in
front of it, and control has no other way to it. Both define the guard. So the
register is known when control arrives, and the later check is redundant, unless
it defines the very register it checks.
-/

namespace Dataflow

/-! ## Successors with one of them replaced -/

section Replace

variable {α : Type} [DecidableEq α] {l : List α} {a b c : α}

theorem find?_replace_of_find? {P : α → Bool} (h : l.find? P = some a)
    (hb : P b) : (l.replace a b).find? P = some b := by
  induction l with
  | nil => cases h
  | cons y l ih =>
      by_cases hy : a = y
      · subst hy
        rw [List.replace_cons_self, List.find?_cons_of_pos hb]
      · have hskip : ¬ P y := fun hpos => by
          rw [List.find?_cons_of_pos hpos] at h
          exact hy (Option.some.inj h).symm
        rw [List.find?_cons_of_neg hskip] at h
        rw [List.replace_cons, beq_false_of_ne hy]
        show (y :: l.replace a b).find? P = some b
        rw [List.find?_cons_of_neg hskip, ih h]

/-- What comes first besides one entry comes first besides the one in its
place. -/
theorem find?_ne_replace (hl : l.Nodup) (hb : b ∉ l) :
    (l.replace a b).find? (· ≠ b) = l.find? (· ≠ a) := by
  cases l with
  | nil => rfl
  | cons y l =>
      obtain ⟨hyl, -⟩ := List.nodup_cons.1 hl
      obtain ⟨hby, hbl⟩ := List.ne_and_not_mem_of_not_mem_cons hb
      by_cases hy : a = y
      · subst hy
        rw [List.replace_cons_self, List.find?_cons_of_neg (by simp),
          List.find?_cons_of_neg (by simp)]
        refine List.find?_congr fun x hx => ?_
        have hxa : x ≠ a := fun h => hyl (h ▸ hx)
        have hxb : x ≠ b := fun h => hbl (h ▸ hx)
        simp [hxa, hxb]
      · rw [List.replace_cons, beq_false_of_ne hy]
        show (y :: l.replace a b).find? (· ≠ b) = _
        rw [List.find?_cons_of_pos (by simpa using hby.symm),
          List.find?_cons_of_pos (by simpa using Ne.symm hy)]

theorem replace_of_replace (hb : b ∉ l) :
    (l.replace a b).replace b c = l.replace a c := by
  induction l with
  | nil => rfl
  | cons y l ih =>
      obtain ⟨hby, hb⟩ := List.ne_and_not_mem_of_not_mem_cons hb
      by_cases hy : a = y
      · subst hy
        simp only [List.replace_cons_self]
      · rw [List.replace_cons, List.replace_cons, beq_false_of_ne hy]
        show (y :: l.replace a b).replace b c = y :: l.replace a c
        rw [List.replace_cons, beq_false_of_ne hby]
        show y :: (l.replace a b).replace b c = y :: l.replace a c
        rw [ih hb]

end Replace

theorem eq_of_mem_zip_of_map_eq {α β γ : Type} {f : α → γ} {h : β → γ}
    {l : List α} {l' : List β} (hmap : l'.map h = l.map f) {a : α} {b : β}
    (hab : (a, b) ∈ l.zip l') :
    h b = f a := by
  obtain ⟨i, hi, heq⟩ := List.mem_iff_getElem.1 hab
  rw [List.getElem_zip] at heq
  cases heq
  have hat := congrArg (fun m : List γ => m[i]?) hmap
  rw [List.length_zip] at hi
  simpa [List.getElem?_eq_getElem (show i < l.length by omega),
    List.getElem?_eq_getElem (show i < l'.length by omega)] using hat

/-! ## The non-null edges of a method -/

@[simp] theorem Quad.nullTest?_retarget (q : Quad) (t : BlockId) :
    (q.retarget t).nullTest? = q.nullTest? := by
  obtain ⟨i, instr⟩ := q
  cases instr <;> rfl

theorem Quad.nullTest?_of_not_transfersControl {q : Quad}
    (h : q.transfersControl = false) : q.nullTest? = none := by
  cases htest : q.nullTest? with
  | none => rfl
  | some found =>
      obtain ⟨r, cond⟩ := found
      obtain ⟨t, ht⟩ := Quad.exists_target_of_nullTest htest
      rw [Quad.transfersControl_of_target? ht] at h
      cases h

theorem Block.fallthrough?_of_target {b : Block} {last : Quad} {t : BlockId}
    (hlast : b.last? = some last) (ht : last.target? = some t) :
    b.fallthrough? = b.succs.find? (· ≠ t) := by
  rw [fallthrough?, hlast, Option.bind_some, ht]

theorem NullTest.site?_of_eq {b : Block} {q : Quad} {r : Register}
    {t next : BlockId} (ht : q.target? = some t)
    (hnext : b.fallthrough? = some next) :
    NullTest.site? ⟨b, q, r, .eq⟩ = some ⟨b.id, q.id, r, next, false⟩ := by
  simp [NullTest.site?, ht, hnext]

theorem NullTest.site?_of_ne {b : Block} {q : Quad} {r : Register} {t : BlockId}
    (ht : q.target? = some t) :
    NullTest.site? ⟨b, q, r, .ne⟩ =
      b.fallthrough?.map fun _ => ⟨b.id, q.id, r, t, true⟩ := by
  simp only [NullTest.site?, ht]
  cases b.fallthrough? <;> rfl

/-- For each comparison with null in a block the edge on which the register is
not null, if there is one. -/
def Block.nonNullEdges (b : Block) : List (Option Site) :=
  b.nullTests.map NullTest.site?

theorem Block.nonNullEdges_eq (b : Block) :
    b.nonNullEdges = b.quads.filterMap fun q =>
      q.nullTest?.map fun t => NullTest.site? ⟨b, q, t.1, t.2⟩ := by
  rw [nonNullEdges, nullTests, List.map_filterMap]
  congr 1
  funext q
  rw [Option.map_map]
  rfl

theorem Block.block_of_mem_nonNullEdges {b : Block} {s : Site}
    (h : some s ∈ b.nonNullEdges) : s.block = b.id := by
  obtain ⟨t, ht, hs⟩ := List.mem_map.1 h
  rw [Graph.site?_block hs, (Graph.mem_nullTests ht).1]

namespace Splice

/-- What becomes of a site when the edge of a splice is split. -/
def renew (p : Splice) (s : Site) : Site :=
  if s.block = p.site.block then { s with nonNull := p.block } else s

/-- The site as a later insertion finds it. -/
def again (p : Splice) : Site := { p.site with nonNull := p.block }

theorem renew_of_ne {p : Splice} {s : Site} (h : s.block ≠ p.site.block) :
    p.renew s = s :=
  if_neg h

theorem renew_site (p : Splice) : p.renew p.site = p.again := if_pos rfl

theorem last?_reroute (p : Splice) {blk : Block} {branch : Quad}
    (h : blk.last? = some branch) :
    (p.reroute p.site.block blk).last? =
      some (if p.site.taken then branch.retarget p.block else branch) := by
  have hquads : (p.reroute p.site.block blk).quads = p.follow blk.quads :=
    if_pos rfl
  rw [Block.last?, hquads, p.follow_eq h, List.getLast?_concat]

/-- What becomes of a site when the edges of a plan are split. -/
def renewAll (plan : List Splice) (s : Site) : Site :=
  plan.foldl (fun s p => p.renew s) s

theorem renewAll_of_ne {plan : List Splice} {s : Site}
    (h : ∀ p ∈ plan, s.block ≠ p.site.block) : renewAll plan s = s := by
  induction plan with
  | nil => rfl
  | cons p rest ih =>
      show renewAll rest (p.renew s) = s
      rw [renew_of_ne (h p List.mem_cons_self)]
      exact ih fun q hq => h q (List.mem_cons_of_mem _ hq)

theorem renewAll_site {plan : List Splice} {p : Splice} (hp : p ∈ plan)
    (hapart : (plan.map Splice.site).Pairwise fun s s' => s.block ≠ s'.block) :
    renewAll plan p.site = p.again := by
  induction plan with
  | nil => cases hp
  | cons q rest ih =>
      obtain ⟨hne, hrest⟩ := List.pairwise_cons.1 hapart
      show renewAll rest (q.renew p.site) = p.again
      rcases List.mem_cons.1 hp with rfl | hp
      · rw [renew_site]
        exact renewAll_of_ne fun q hq => hne q.site (List.mem_map_of_mem hq)
      · rw [renew_of_ne (hne p.site (List.mem_map_of_mem hp)).symm]
        exact ih hp hrest

end Splice

namespace Graph

variable {g g' : Graph} {guard : Option Register} {p : Splice} {k : BlockId}
  {blk : Block}

/-- The edges that are found, block by block in program order. -/
def nonNullEdges (g : Graph) : List (Option Site) :=
  g.nullTests.map NullTest.site?

theorem nonNullEdges_eq (g : Graph) :
    g.nonNullEdges = g.programOrder.flatMap
      (g.blocks.listAt Block.nonNullEdges) := by
  have hblocks :
      g.nonNullEdges = g.orderedBlocks.flatMap Block.nonNullEdges := by
    rw [nonNullEdges, nullTests, List.map_flatMap]
    rfl
  rw [hblocks]
  exact g.flatMap_orderedBlocks (fun b hb => listAt_of_none _ hb)
    fun b blk hb => KeyedList.listAt_of_get? hb _

theorem sites_eq (g : Graph) :
    g.nullTests.filterMap NullTest.site? = g.nonNullEdges.filterMap id := by
  rw [nonNullEdges, List.filterMap_map]
  rfl

/-- Only the last quad of a block can be a comparison with null. -/
theorem WellFormed.nonNullEdges_of_last (hg : g.WellFormed)
    (hblk : g.block? k = some blk) {last : Quad} (hlast : blk.last? = some last)
    {r : Register} {cond : Condition}
    (htest : last.nullTest? = some (r, cond)) :
    blk.nonNullEdges = [NullTest.site? ⟨blk, last, r, cond⟩] := by
  have hinner : blk.quads.dropLast.filterMap (fun q =>
      q.nullTest?.map fun t => NullTest.site? ⟨blk, q, t.1, t.2⟩) = [] := by
    refine List.filterMap_eq_nil_iff.2 fun q hq => ?_
    rw [Quad.nullTest?_of_not_transfersControl
      (hg.shaped.inner k blk hblk q hq)]
    rfl
  rw [Block.nonNullEdges_eq, Block.quads_of_last hlast,
    List.filterMap_append, hinner, List.nil_append, List.filterMap_cons, htest]
  rfl

namespace Split

theorem block_of_block (hg : g.WellFormed) (h : g.Split guard p g')
    (hblk : g.block? k = some blk) : g'.block? k = some (p.reroute k blk) := by
  have hsome := Option.isSome_iff_exists.2 ⟨blk, hblk⟩
  rw [h.kept k (h.ne_block hg hsome), hblk]
  rfl

/-- In the block in front of the edge the site is found again, at the new
block. -/
theorem nonNullEdges_site (hg : g.WellFormed) (h : g.Split guard p g')
    (hblk : g.block? p.site.block = some blk) :
    (p.reroute p.site.block blk).nonNullEdges =
      blk.nonNullEdges.map (Option.map p.renew) := by
  obtain ⟨blk', branch, hblk', hmarks⟩ := h.site
  cases hblk.symm.trans hblk'
  obtain ⟨t, ht⟩ := Quad.exists_target_of_nullTest hmarks.test
  have hfree : p.block ∉ blk.succs := succs_of_block hblk ▸ h.not_mem_succs hg _
  have hid : blk.id = p.site.block := hg.keyed _ blk hblk
  have hsuccs : (p.reroute p.site.block blk).succs =
      blk.succs.replace p.site.nonNull p.block := if_pos rfl
  have hlast := p.last?_reroute hmarks.last
  have htest :
      (if p.site.taken then branch.retarget p.block else branch).nullTest? =
      some (p.site.register, if p.site.taken then .ne else .eq) := by
    rw [← hmarks.test]
    split <;> simp
  rw [hg.nonNullEdges_of_last hblk hmarks.last hmarks.test,
    (h.wellFormed hg).nonNullEdges_of_last
      (h.block_of_block hg hblk) hlast htest]
  have hnext := Block.fallthrough?_of_target hmarks.last ht
  cases htaken : p.site.taken with
  | true =>
      -- the branch goes to the new block now, and falls through where it did
      have htarget := Quad.target?_retarget ht p.block
      have hnodup : blk.succs.Nodup :=
        succs_of_block hblk ▸ hg.linked.succs_nodup _
      simp only [htaken, if_true] at hlast ⊢
      have hnext' := Block.fallthrough?_of_target hlast htarget
      rw [hsuccs, ← (hmarks.taken_iff ht).1 htaken,
        find?_ne_replace hnodup hfree, ← hnext] at hnext'
      rw [NullTest.site?_of_ne ht, NullTest.site?_of_ne htarget, hnext',
        List.map_singleton, Option.map_map]
      simp [Splice.renew, Splice.reroute, hid, Function.comp_def]
  | false =>
      -- the branch goes where it did, and falls through to the new block
      have hedge := hmarks.edge
      simp only [htaken, Bool.false_eq_true, if_false] at hlast hedge ⊢
      have htarget : p.block ≠ t := fun heq => hfree (heq ▸
        hg.shaped.target _ blk hblk branch
          (List.mem_of_getLast? hmarks.last) t ht)
      have hnext' := Block.fallthrough?_of_target hlast ht
      rw [hsuccs, find?_replace_of_find? (hnext ▸ hedge)
        (by simpa using htarget)] at hnext'
      rw [NullTest.site?_of_eq ht hedge, NullTest.site?_of_eq ht hnext']
      simp [Splice.renew, Splice.reroute, hid]

/-- In any other block the same sites are found. -/
theorem nonNullEdges_of_ne (hg : g.WellFormed) (hblk : g.block? k = some blk)
    (hk : k ≠ p.site.block) :
    (p.reroute k blk).nonNullEdges =
      blk.nonNullEdges.map (Option.map p.renew) := by
  have hsame : (p.reroute k blk).nonNullEdges = blk.nonNullEdges := by
    simp only [Block.nonNullEdges_eq, Splice.reroute, if_neg hk]
    rfl
  have hkept : ∀ s ∈ blk.nonNullEdges, s.map p.renew = s := by
    intro s hs
    cases s with
    | none => rfl
    | some s =>
        have hblock :=
          (Block.block_of_mem_nonNullEdges hs).trans (hg.keyed k blk hblk)
        rw [Option.map_some, Splice.renew_of_ne (hblock ▸ hk)]
  rw [hsame]
  exact ((List.map_congr_left hkept).trans (List.map_id _)).symm

/-- A split leaves the sites to be found again, its own at the new block. -/
theorem nonNullEdges (hg : g.WellFormed) (h : g.Split guard p g') :
    g'.nonNullEdges = g.nonNullEdges.map (Option.map p.renew) := by
  rw [nonNullEdges_eq, nonNullEdges_eq, List.map_flatMap]
  refine h.flatMap_programOrder hg ?_ fun k hk => ?_
  · exact KeyedList.listAt_of_get? h.added _
  · rw [h.listAt, if_neg hk]
    cases hblk : g.block? k with
    | none => rw [listAt_of_none _ hblk, listAt_of_none _ hblk, List.map_nil]
    | some blk =>
        rw [KeyedList.listAt_of_get? hblk, KeyedList.listAt_of_get? hblk]
        by_cases hsite : k = p.site.block
        · subst hsite
          exact h.nonNullEdges_site hg hblk
        · exact nonNullEdges_of_ne hg hblk hsite

end Split

/-! ## Sites after a run of splits -/

namespace Splits

variable {plan : List Splice}

theorem nonNullEdges (h : Splits guard g plan g')
    (hready : g.Ready (plan.map Splice.site)) :
    g'.nonNullEdges = g.nonNullEdges.map
      (Option.map (Splice.renewAll plan)) := by
  induction h with
  | nil g =>
      have hid : Splice.renewAll [] = id := rfl
      rw [hid, Option.map_id, List.map_id]
  | @cons g g₁ g' p rest hsplit _ ih =>
      have hcomp : Splice.renewAll (p :: rest) =
          Splice.renewAll rest ∘ p.renew := rfl
      rw [ih (hready.step hsplit), hsplit.nonNullEdges hready.wellFormed,
        List.map_map, Option.map_comp_map, hcomp]

/-- A run that splits all sites leaves each of them at its inserted block. -/
theorem sites (h : Splits guard g plan g')
    (hplan : plan.map Splice.site = g.nullTests.filterMap NullTest.site?)
    (hready : g.Ready (plan.map Splice.site)) :
    g'.nullTests.filterMap NullTest.site? = plan.map Splice.again := by
  have hrenewed : g.nonNullEdges.filterMap (Option.map (Splice.renewAll plan)) =
      (g.nonNullEdges.filterMap id).map (Splice.renewAll plan) :=
    List.map_filterMap.symm
  rw [sites_eq, h.nonNullEdges hready, List.filterMap_map, Function.id_comp,
    hrenewed, ← sites_eq, ← hplan, List.map_map]
  exact List.map_congr_left fun p hp => Splice.renewAll_site hp hready.apart

/-- The block behind a split edge gets the new block for a predecessor, if no
other split edge ends there and it is not itself in front of one. -/
theorem block_behind (h : Splits guard g plan g')
    (hready : g.Ready (plan.map Splice.site)) (hp : p ∈ plan)
    (hblk : g.block? p.site.nonNull = some blk)
    (hfrom : ∀ q ∈ plan, p.site.nonNull ≠ q.site.block)
    (hapart : plan.Pairwise fun q q' => q.site.nonNull ≠ q'.site.nonNull) :
    g'.block? p.site.nonNull =
      some { blk with preds := blk.preds.replace p.site.block p.block } := by
  induction h with
  | nil => cases hp
  | @cons g g₁ g' q rest hsplit hrest ih =>
      obtain ⟨hne, hapart⟩ := List.pairwise_cons.1 hapart
      have hkept := hsplit.block_of_block hready.wellFormed hblk
      have hq := hfrom q List.mem_cons_self
      rcases List.mem_cons.1 hp with rfl | hp
      · refine hrest.block_of_ne (hready.step hsplit) ?_ fun q hq =>
          ⟨hfrom q (List.mem_cons_of_mem _ hq), hne q hq⟩
        rw [hkept]
        simp [Splice.reroute, hq]
      · refine ih (hready.step hsplit) hp ?_
          (fun q hq => hfrom q (List.mem_cons_of_mem _ hq)) hapart
        rw [hkept]
        simp [Splice.reroute, hq, (hne p hp).symm]

theorem nodup_keys (h : Splits guard g plan g') :
    (g.blocks.keys ++ plan.map Splice.block).Nodup :=
  h.keys ▸ g'.blocks.nodup

/-- The blocks that a run inserts were not there before. -/
theorem free (h : Splits guard g plan g') (hp : p ∈ plan) :
    g.block? p.block = none := by
  refine KeyedList.get?_eq_none_iff.2 fun hmem => ?_
  exact (List.nodup_append.1 h.nodup_keys).2.2 _ hmem _
    (List.mem_map_of_mem hp) rfl

end Splits

/-! ## The second insertion -/

theorem WellFormed.insertChecks_templateGuard? {stats : CheckStats}
    (hg : g.WellFormed) (h : g.insertChecks.result = .ok stats) :
    g.insertChecks.graph.templateGuard? = g.templateGuard? := by
  rcases insertChecks_eq h with ⟨-, hsame⟩ | ⟨guard, events, htemplate, hedges⟩
  · rw [hsame]
  · obtain ⟨plan, hplan, hsplits⟩ := hg.ready.splits hedges
    rw [htemplate, hsplits.templateGuard? (hplan ▸ hg.ready) htemplate]

/-- Splits one after the other take one number of each kind for each site. -/
theorem Ready.room_of_splitEdges {sites : List Site} {n : Nat} :
    ∀ {g : Graph} {events : List Event}, g.Ready sites →
      g.Room (sites.length + n) →
      splitEdges guard sites g = (g', events, .ok ()) → g'.Room n := by
  induction sites with
  | nil =>
      intro g events _ hroom h
      cases h
      rwa [List.length_nil, Nat.zero_add] at hroom
  | cons s rest ih =>
      intro g events hready hroom h
      have hs := hready.sites_in s List.mem_cons_self
      rw [List.length_cons, Nat.add_right_comm] at hroom
      obtain ⟨g₁, event, hsplit, hroom₁⟩ :=
        hready.wellFormed.splitEdge_ok hs guard hroom
      obtain ⟨p, rfl, hp⟩ := Split.of_splitEdge hready.wellFormed hs hsplit
      rcases hrest : splitEdges guard rest g₁ with ⟨g₂, events₂, result⟩
      simp only [splitEdges, hsplit, hrest] at h
      cases h
      exact ih (hready.step hp) hroom₁ hrest

theorem WellFormed.insertChecks_room {stats : CheckStats} {n : Nat}
    (hg : g.WellFormed) (h : g.insertChecks.result = .ok stats)
    (hroom : g.Room (stats.inserted + n)) :
    g.insertChecks.graph.Room n := by
  rw [insertChecks_stats h] at hroom
  rcases insertChecks_eq h with ⟨hnone, hsame⟩ | ⟨guard, events, -, hedges⟩
  · rw [hsame]
    rwa [hnone, List.length_nil, Nat.zero_add] at hroom
  · exact hg.ready.room_of_splitEdges hroom hedges

/-- A second insertion finds as many comparisons and as many sites as the
first. -/
theorem WellFormed.insertChecks_again {stats : CheckStats} (hg : g.WellFormed)
    (h : g.insertChecks.result = .ok stats)
    (hroom : g.Room (2 * stats.inserted)) :
    g.insertChecks.graph.insertChecks.result = .ok stats := by
  have hg' := hg.insertChecks h
  obtain ⟨plan, hplan, hsplits⟩ := hg.insertChecks_plan h
  have hready : g.Ready (plan.map Splice.site) := hplan ▸ hg.ready
  have hstats := insertChecks_stats h
  have htests : g.insertChecks.graph.nullTests.length = g.nullTests.length := by
    have hedges := congrArg List.length (hsplits.nonNullEdges hready)
    simpa [Graph.nonNullEdges] using hedges
  have hsites :
      (g.insertChecks.graph.nullTests.filterMap NullTest.site?).length =
      (g.nullTests.filterMap NullTest.site?).length := by
    rw [hsplits.sites hplan hready, ← hplan, List.length_map, List.length_map]
  have hcheck : g.insertChecks.graph.nullTests.filterMap NullTest.site? = [] ∨
      g.insertChecks.graph.HasCheck := by
    rcases insertChecks_eq h with ⟨hnone, -⟩ | ⟨guard, -, htemplate, -⟩
    · rw [hnone, List.length_nil] at hsites
      exact Or.inl (List.eq_nil_of_length_eq_zero hsites)
    · refine Or.inr (not_not.1 fun hcheck => ?_)
      have hnone := templateGuard?_eq_none_iff.2 hcheck
      rw [hg.insertChecks_templateGuard? h, htemplate] at hnone
      cases hnone
  have hroom' : g.insertChecks.graph.Room
      (g.insertChecks.graph.nullTests.filterMap NullTest.site?).length := by
    rw [hsites]
    refine hg.insertChecks_room h ?_
    rw [hstats] at hroom ⊢
    rwa [Nat.two_mul] at hroom
  rw [hg'.insertChecks_ok hcheck hroom', length_skipped, htests, hsites, hstats,
    length_skipped]

/-! ## An edge that is split twice -/

/-- The edge of a splice is split by two blocks with checks of its register: the
branch leads to the block of the second splice, that to the block of the first,
and that to where the edge has led. -/
structure Doubled (guard : Option Register) (g : Graph) (p q : Splice)
    (g' : Graph) : Prop where
  succs : g'.succs p.site.block =
    (g.succs p.site.block).replace p.site.nonNull q.block
  front : g'.block? q.block = some
    ⟨q.block, [⟨q.check, .nullCheck guard p.site.register⟩], [p.site.block],
      [p.block]⟩
  back : g'.block? p.block = some
    ⟨p.block, [⟨p.check, .nullCheck guard p.site.register⟩], [q.block],
      [p.site.nonNull]⟩

namespace Splits

variable {g₁ : Graph} {first second : List Splice} {q : Splice}

theorem doubled (hfirst : Splits guard g first g₁)
    (hready : g.Ready (first.map Splice.site))
    (hsecond : Splits guard g₁ second g')
    (hready₁ : g₁.Ready (second.map Splice.site))
    (hsites : second.map Splice.site = first.map Splice.again) (hp : p ∈ first)
    (hq : q ∈ second) (hpq : q.site = p.again) : Doubled guard g p q g' := by
  have hmade := hfirst.made hready hp
  have hmade₁ := hsecond.made hready₁ hq
  have hblock : q.site.block = p.site.block := by rw [hpq]; rfl
  have hregister : q.site.register = p.site.register := by rw [hpq]; rfl
  have hend : q.site.nonNull = p.block := by rw [hpq]; rfl
  have hnew : p.block ∉ g.succs p.site.block := fun hmem => by
    have hsome := (hready.wellFormed.linked.isSome hmem).2
    rw [hfirst.free hp] at hsome
    cases hsome
  -- the block of the first splice ends with a check, so it is in front of no
  -- site
  have hfrom : ∀ q' ∈ second, q.site.nonNull ≠ q'.site.block := by
    intro q' hq' heq
    obtain ⟨blk, branch, hblk, hmarks⟩ :=
      hready₁.sites_in q'.site (List.mem_map_of_mem hq')
    rw [← heq, hend] at hblk
    cases hmade.added.symm.trans hblk
    have htest := hmarks.test
    cases hmarks.last
    cases htest
  have hapart :
      second.Pairwise fun q q' => q.site.nonNull ≠ q'.site.nonNull := by
    have hends : second.map (fun q => q.site.nonNull) =
        first.map Splice.block := by
      have hmap := congrArg (List.map Site.nonNull) hsites
      rwa [List.map_map, List.map_map] at hmap
    have hnodup := (List.nodup_append.1 hfirst.nodup_keys).2.1
    exact List.pairwise_map.1 (hends ▸ hnodup)
  have hthere : g₁.block? q.site.nonNull = some (p.inserted guard) :=
    hend ▸ hmade.added
  have hback := hsecond.block_behind hready₁ hq hthere hfrom hapart
  refine ⟨?_, ?_, ?_⟩
  · rw [← hblock, hmade₁.succs, hblock, hend, hmade.succs,
      replace_of_replace hnew]
  · rw [hmade₁.added, Splice.inserted, hblock, hregister, hend]
  · rw [← hend, hback, hblock, hend]
    simp [Splice.inserted]

end Splits

/-- Control comes to the only quad of a block from the last quad of the block in
front, if that is the only one and is not empty. -/
theorem WellFormed.hop_from_front (hg : g.WellFormed) {m n : BlockId}
    {i j : QuadId} (hids : g.idsAt n = [j]) (hpreds : g.predsAt n = [m])
    (hlast : (g.idsAt m).getLast? = some i) {x : Neighbour}
    (hop : g.Hop x (some j)) :
    x = some i := by
  have hat : ∀ b, j ∈ g.idsAt b → b = n := fun b hb => by
    have hj : j ∈ g.idsAt n := hids ▸ List.mem_cons_self
    by_contra hne
    exact hg.proper.apart b n hne hb hj
  have hfrom : ∀ b, n ∈ g.succs b → b = m := fun b hb => by
    rw [hg.linked.mirrored, hpreds] at hb
    exact List.mem_singleton.1 hb
  cases hop with
  | @within b before behind i' _ hb hsplit =>
      obtain rfl := hat b (by simp [hsplit])
      have hlength := congrArg List.length (hids.symm.trans hsplit)
      simp at hlength
      omega
  | @across a b _ _ ha hleaves hcorridor hfirst =>
      obtain rfl := hat b (List.mem_of_head? hfirst)
      have ham : a = m := by
        cases hcorridor with
        | edge hb => exact hfrom a hb
        | past _ hvacant hb =>
            rw [← hfrom _ hb, hvacant.2] at hlast
            cases hlast
      subst ham
      cases x with
      | none =>
          obtain rfl : a = .entry := hleaves
          rw [hg.regular.idsAt_sentinel rfl] at hlast
          cases hlast
      | some i' => exact hleaves.symm.trans hlast

end Graph

namespace NonNull

variable {g : Graph} {e : QuadGraph} {v : Valuation Register}
  {passes : List (Pass Register)}

/-- A check straight behind one of the same register is redundant, unless it
defines that register. -/
theorem mem_redundant_behind (hg : g.WellFormed) (he : g.quadGraph = .ok e)
    (h : (problem g).Settles (g.layout e .forward) (problem g).start passes v)
    {m n : BlockId} (hm : m ∈ g.programOrder) (hn : n ∈ g.programOrder)
    {front check : Quad} (hfront : g.quadsAt m = [front])
    (hcheck : g.quadsAt n = [check]) (hpreds : g.predsAt n = [m])
    {guard : Option Register} {r : Register}
    (hchecked : front.checked? = some r)
    (hinstr : check.instr = .nullCheck guard r) :
    check.id ∈ redundant passes ↔ guard ≠ some r := by
  have hdist := hg.regular.distinct
  have hmem : ∀ {b : BlockId} {q : Quad}, b ∈ g.programOrder →
      g.quadsAt b = [q] → q ∈ g.quads := by
    intro b q hb hquads
    rw [Graph.quads_eq]
    exact List.mem_flatMap.2 ⟨b, hb, hquads ▸ List.mem_cons_self⟩
  have hq := hmem hn hcheck
  rw [mem_redundant hdist h]
  constructor
  · rintro ⟨q, hq', hid, own, r', hinstr', hown, -⟩
    rw [hdist.eq_of_id_eq hq' hq hid, hinstr] at hinstr'
    cases hinstr'
    exact hown
  · intro hguard
    have hv := Problem.Settles.isSolution (p := problem g) h
    refine ⟨check, hq, rfl, guard, r, hinstr, hguard,
      (mem_before_iff hv hq).2 ⟨?_, fun x hx => ?_⟩⟩
    · refine Graph.mem_registers_of_use hq (Quad.mem_uses_of_checked? ?_)
      rw [Quad.checked?, hinstr]
    · have hids : g.idsAt n = [check.id] := by
        rw [Graph.idsAt, hcheck, List.map_singleton]
      have hlast : (g.idsAt m).getLast? = some front.id := by
        rw [Graph.idsAt, hfront]; rfl
      have hop := (hg.regular.mem_preds_iff he).1 hx
      obtain rfl := hg.hop_from_front hids hpreds hlast hop
      show r ∈ v.fact .after front.id
      rw [after_eq hv (hmem hm hfront)]
      exact mem_transfer.2 (Or.inr hchecked)

end NonNull

/-- Inserting checks a second time, if the counters have room for it, succeeds
and reports the same counts. It splits the edges of the first insertion again,
one after the other: each new block comes between the block of a branch and the
block that the first insertion has put behind it. An analysis after that reports
a check of the first insertion as redundant exactly when its register is not the
guard of the template. -/
theorem second_insertion_shadows_first {name : String} {script : List Command}
    {g : Graph} {stats : CheckStats} (hbuild : Graph.build name script = .ok g)
    (hresult : g.insertChecks.result = .ok stats)
    (hroom : g.Room (2 * stats.inserted)) :
    let g₁ := g.insertChecks.graph
    let g₂ := g₁.insertChecks.graph
    g₁.insertChecks.result = .ok stats ∧
    ∃ (guard : Option Register) (first second : List Splice),
      first.map Splice.site = g.nullTests.filterMap NullTest.site? ∧
      first.length = stats.inserted ∧ second.length = stats.inserted ∧
      g₁.blocks.keys = g.blocks.keys ++ first.map Splice.block ∧
      g₂.blocks.keys = g₁.blocks.keys ++ second.map Splice.block ∧
      (∀ p ∈ first, p.site.nonNull ∈ g.succs p.site.block ∧
        g₁.block? p.block =
          some ⟨p.block, [⟨p.check, .nullCheck guard p.site.register⟩],
          [p.site.block], [p.site.nonNull]⟩ ∧
        ∃ template r, g.quads.find? (fun q => q.opcode = .nullCheck) =
          some template ∧ template.instr = .nullCheck guard r) ∧
      (∀ p q, (p, q) ∈ first.zip second → g.Doubled guard p q g₂) ∧
      ∀ s, s.inserting = false → ∃ after report,
        (NonNull.visit s g₂).result = .ok after ∧
        (NonNull.visit s g₂).state.report = some report ∧
        ∀ p ∈ first, p.check ∈ report.redundant ↔
          guard ≠ some p.site.register := by
  intro g₁ g₂
  have hg := Graph.build_wellFormed hbuild
  have hagain : g₁.insertChecks.result = .ok stats :=
    hg.insertChecks_again hresult hroom
  have hg₁ : g₁.WellFormed := hg.insertChecks hresult
  have hg₂ : g₂.WellFormed := hg₁.insertChecks hagain
  obtain ⟨first, hplan, hfirst⟩ := hg.insertChecks_plan hresult
  obtain ⟨second, hplan₁, hsecond⟩ := hg₁.insertChecks_plan hagain
  have hguard : g₁.templateGuard? = g.templateGuard? :=
    hg.insertChecks_templateGuard? hresult
  rw [hguard] at hsecond
  have hready : g.Ready (first.map Splice.site) := hplan ▸ hg.ready
  have hready₁ : g₁.Ready (second.map Splice.site) := hplan₁ ▸ hg₁.ready
  have hsites : second.map Splice.site = first.map Splice.again :=
    hplan₁.trans (hfirst.sites hplan hready)
  have hlength : first.length = stats.inserted := by
    rw [Graph.insertChecks_stats hresult, ← hplan, List.length_map]
  have hlength₁ : second.length = stats.inserted := by
    rw [Graph.insertChecks_stats hagain, ← hplan₁, List.length_map]
  refine ⟨hagain, g.templateGuard?.join, first, second, hplan, hlength,
    hlength₁, hfirst.keys, hsecond.keys, fun p hp => ?_, fun p q hpq => ?_,
    fun s hs => ?_⟩
  · have hsite := hready.sites_in p.site (List.mem_map_of_mem hp)
    refine ⟨(hg.edge_of_in hsite).1, (hfirst.made hready hp).added, ?_⟩
    rcases Graph.insertChecks_eq hresult with
      ⟨hnone, -⟩ | ⟨guard, -, htemplate, -⟩
    · rw [List.map_eq_nil_iff.1 (hplan.trans hnone)] at hp
      cases hp
    · obtain ⟨template, r, hfound, hinstr⟩ :=
        Graph.first_check_of_templateGuard? htemplate
      rw [htemplate]
      exact ⟨template, r, hfound, hinstr⟩
  · obtain ⟨hp, hq⟩ := List.of_mem_zip hpq
    exact hfirst.doubled hready hsecond hready₁ hsites hp hq
      (eq_of_mem_zip_of_map_eq hsites hpq)
  · obtain ⟨e, after, passes, v, he, hafter, -, hmarks, -, hsettles⟩ :=
      NonNull.visit_settles hg₂.regular.ends hg₂.regular.distinct hs
    obtain ⟨report, hreport, -, hlist, -⟩ := NonNull.visit_report hafter
    refine ⟨after, report, hafter, hreport, fun p hp => ?_⟩
    obtain ⟨q, hq, hpq⟩ := List.mem_map.1 (hsites ▸ List.mem_map_of_mem hp)
    obtain ⟨-, hfront, hback⟩ :=
      hfirst.doubled hready hsecond hready₁ hsites hp hq hpq
    have hpin := hfirst.block_mem_programOrder hready hp
      (hg.site_mem_programOrder (hplan ▸ List.mem_map_of_mem hp))
    have hqin := hsecond.block_mem_programOrder hready₁ hq
      (hg₁.site_mem_programOrder (hplan₁ ▸ List.mem_map_of_mem hq))
    rw [hlist, hmarks]
    exact NonNull.mem_redundant_behind hg₂ he hsettles hqin
      (hsecond.mem_programOrder hready₁ hpin) (Graph.quadsAt_of_block hfront)
      (Graph.quadsAt_of_block hback) (Graph.predsAt_of_block hback) rfl rfl

/-- Two branches compare with null, the first the register that the only check
checks and the second the one that it defines. -/
def guardTest : Graph where
  method := ⟨"guard", [⟨"R0"⟩]⟩
  blocks := .ofList [
    (.entry, ⟨.entry, [], [], [⟨2⟩]⟩),
    (.exit, ⟨.exit, [], [⟨2⟩, ⟨3⟩, ⟨4⟩], []⟩),
    (⟨2⟩, ⟨⟨2⟩, [⟨⟨1⟩, .nullCheck (some ⟨"G"⟩) ⟨"R0"⟩⟩,
      ⟨⟨2⟩, .branch (.reg ⟨"R0"⟩) (.const .null) .eq .exit⟩],
      [.entry], [⟨3⟩, .exit]⟩),
    (⟨3⟩, ⟨⟨3⟩, [⟨⟨3⟩, .branch (.reg ⟨"G"⟩) (.const .null) .ne ⟨4⟩⟩],
      [⟨2⟩], [⟨4⟩, .exit]⟩),
    (⟨4⟩, ⟨⟨4⟩, [], [⟨3⟩], [.exit]⟩)]
  nextQuad := 4
  nextBlock := 5

/-- The commands that make it. -/
def guardTestScript : List Command :=
  [.param ⟨"R0"⟩, .block, .block, .block,
    .push ⟨2⟩ (.nullCheck (some ⟨"G"⟩) ⟨"R0"⟩),
    .push ⟨2⟩ (.branch (.reg ⟨"R0"⟩) (.const .null) .eq .exit),
    .push ⟨3⟩ (.branch (.reg ⟨"G"⟩) (.const .null) .ne ⟨4⟩),
    .edge .entry ⟨2⟩, .edge ⟨2⟩ ⟨3⟩, .edge ⟨2⟩ .exit, .edge ⟨3⟩ ⟨4⟩,
    .edge ⟨3⟩ .exit, .edge ⟨4⟩ .exit]

/-- The check of the parameter is reported after the second insertion, and the
check of the guard is not. -/
theorem second_insertion_shadows_first_guardTest :
    Graph.build "guard" guardTestScript = .ok guardTest ∧
      guardTest.insertChecks.result = .ok ⟨2, 2, 0⟩ ∧ guardTest.Room (2 * 2) ∧
      guardTest.insertChecks.graph.insertChecks.result = .ok ⟨2, 2, 0⟩ ∧
      let g₂ := guardTest.insertChecks.graph.insertChecks.graph
      ∃ report, (NonNull.visit (.fresh false) g₂).state.report = some report ∧
        ⟨4⟩ ∈ report.redundant ∧ ⟨5⟩ ∉ report.redundant := by
  have hbuild : Graph.build "guard" guardTestScript = .ok guardTest := rfl
  have hresult : guardTest.insertChecks.result = .ok ⟨2, 2, 0⟩ := rfl
  have hroom : guardTest.Room (2 * 2) := by decide
  obtain ⟨hagain, guard, first, second, -, -, -, hkeys, -, hadded, -,
    hreports⟩ :=
    second_insertion_shadows_first hbuild hresult hroom
  obtain ⟨-, report, -, hreport, hredundant⟩ := hreports (.fresh false) rfl
  have htwo : guardTest.insertChecks.graph.blocks.keys =
      guardTest.blocks.keys ++ [⟨5⟩, ⟨6⟩] := rfl
  rw [htwo] at hkeys
  have hblocks := List.append_cancel_left hkeys
  -- what stands in a block of the first insertion tells the check of its splice
  have hchecked : ∀ b i r blk, b ∈ first.map Splice.block →
      guardTest.insertChecks.graph.block? b = some blk →
      blk.quads = [⟨i, .nullCheck (some ⟨"G"⟩) r⟩] →
      (i ∈ report.redundant ↔ (⟨"G"⟩ : Register) ≠ r) := by
    intro b i r blk hb hblk hquads
    obtain ⟨p, hp, rfl⟩ := List.mem_map.1 hb
    cases (hadded p hp).2.1.symm.trans hblk
    cases hquads
    simpa using hredundant p hp
  have hfour := hchecked ⟨5⟩ ⟨4⟩ ⟨"R0"⟩ _ (by simp [← hblocks]) rfl rfl
  have hfive := hchecked ⟨6⟩ ⟨5⟩ ⟨"G"⟩ _ (by simp [← hblocks]) rfl rfl
  exact ⟨hbuild, hresult, hroom, hagain, report, hreport, hfour.2 (by decide),
    fun hmem => hfive.1 hmem rfl⟩

end Dataflow
