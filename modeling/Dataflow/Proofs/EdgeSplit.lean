import Dataflow.Graph.CheckInsertion
import Dataflow.Proofs.WellFormed

/-!
# Splitting an edge

A split changes three blocks: the new one, the one in front of it and the one
behind it. The last two may be the same, when the edge is a loop around one
block. `Split` says once what each block is afterwards, and all that follows is
read off from that.

In a well-formed graph an edge stands once in each of two lists, so putting the
new block in its place in both is exactly to cut the edge and to run it through
the new block. That keeps the graph well formed. The branch at the end of the
block in front follows its edge: if it took the edge it goes to the new block
now, and if it did not, its target is another successor, which is still there.
-/

namespace Dataflow

/-! ## One entry of a list replaced by a new one -/

section Replace

variable {α : Type} [DecidableEq α] {l : List α} {a b x : α}

theorem mem_or_eq_of_mem_replace (h : x ∈ l.replace a b) : x ∈ l ∨ x = b := by
  induction l with
  | nil => cases h
  | cons y l ih =>
      by_cases hy : a = y
      · subst hy
        rw [List.replace_cons_self] at h
        rcases List.mem_cons.1 h with h | h
        · exact Or.inr h
        · exact Or.inl (List.mem_cons_of_mem _ h)
      · rw [List.replace_cons, beq_false_of_ne hy] at h
        rcases List.mem_cons.1 h with h | h
        · exact Or.inl (h ▸ List.mem_cons_self)
        · exact (ih h).imp_left (List.mem_cons_of_mem _)

theorem mem_replace_iff (hl : l.Nodup) (ha : a ∈ l) :
    x ∈ l.replace a b ↔ (x ∈ l ∧ x ≠ a) ∨ x = b := by
  induction l with
  | nil => cases ha
  | cons y l ih =>
      obtain ⟨hy, hl⟩ := List.nodup_cons.1 hl
      by_cases heq : a = y
      · subst heq
        rw [List.replace_cons_self]
        simp only [List.mem_cons]
        grind
      · rw [List.replace_cons, beq_false_of_ne heq]
        have ha := (List.mem_cons.1 ha).resolve_left heq
        simp only [List.mem_cons, ih hl ha]
        grind

theorem nodup_replace (hl : l.Nodup) (hb : b ∉ l) : (l.replace a b).Nodup := by
  induction l with
  | nil => exact List.nodup_nil
  | cons y l ih =>
      obtain ⟨hy, hrest⟩ := List.nodup_cons.1 hl
      obtain ⟨hne, hnew⟩ := List.ne_and_not_mem_of_not_mem_cons hb
      by_cases heq : a = y
      · subst heq
        rw [List.replace_cons_self]
        exact List.nodup_cons.2 ⟨hnew, hrest⟩
      · rw [List.replace_cons, beq_false_of_ne heq]
        refine List.nodup_cons.2 ⟨fun hmem => ?_, ih hrest hnew⟩
        rcases mem_or_eq_of_mem_replace hmem with hmem | hmem
        · exact hy hmem
        · exact hne hmem.symm

theorem replace_replace (hb : b ∉ l) : (l.replace a b).replace b a = l := by
  induction l with
  | nil => rfl
  | cons y l ih =>
      obtain ⟨hne, hb⟩ := List.ne_and_not_mem_of_not_mem_cons hb
      by_cases heq : a = y
      · subst heq
        rw [List.replace_cons_self, List.replace_cons_self]
      · rw [List.replace_cons, beq_false_of_ne heq]
        show (y :: l.replace a b).replace b a = y :: l
        rw [List.replace_cons, beq_false_of_ne hne]
        show y :: (l.replace a b).replace b a = y :: l
        rw [ih hb]

end Replace

/-! ## Neighbour lists with an edge that takes a detour -/

/-- Neighbour lists in which the edge from `a` to `b` leads through `n`. -/
def detour (next : BlockId → List BlockId) (a b n k : BlockId) : List BlockId :=
  if k = n then [b] else if k = a then (next k).replace b n else next k

section Detour

variable {next : BlockId → List BlockId} {a b n k l : BlockId}

theorem detour_of_ne (hn : k ≠ n) (ha : k ≠ a) :
    detour next a b n k = next k := by
  rw [detour, if_neg hn, if_neg ha]

theorem detour_from (hn : a ≠ n) :
    detour next a b n a = (next a).replace b n := by
  rw [detour, if_neg hn, if_pos rfl]

/-- The edge is gone and leads through the new node instead. -/
theorem mem_detour (hn : a ≠ n) (hfree : next n = []) (hnodup : (next a).Nodup)
    (hb : b ∈ next a) :
    l ∈ detour next a b n k ↔
      (l ∈ next k ∧ ¬(k = a ∧ l = b)) ∨ (k = a ∧ l = n) ∨ (k = n ∧ l = b) := by
  by_cases hkn : k = n
  · simp [detour, hkn, hfree, hn.symm]
  · by_cases hka : k = a
    · rw [hka, detour_from hn, mem_replace_iff hnodup hb]
      simp [hn]
    · rw [detour_of_ne hkn hka]
      simp [hkn, hka]

theorem nodup_detour (hnodup : (next k).Nodup) (hn : n ∉ next k) :
    (detour next a b n k).Nodup := by
  unfold detour
  split
  · exact List.nodup_singleton _
  · split
    · exact nodup_replace hnodup hn
    · exact hnodup

end Detour

/-! ## Branches and their targets -/

namespace Quad

variable {q : Quad} {t : BlockId}

@[simp] theorem id_retarget (q : Quad) (t : BlockId) :
    (q.retarget t).id = q.id := by
  unfold retarget
  split <;> rfl

theorem transfersControl_of_target? (h : q.target? = some t) :
    q.transfersControl = true := by
  unfold target? at h
  unfold transfersControl
  cases hinstr : q.instr <;> simp_all

theorem target?_retarget (h : q.target? = some t) (n : BlockId) :
    (q.retarget n).target? = some n := by
  obtain ⟨i, instr⟩ := q
  cases instr <;> first | rfl | cases h

theorem retarget_retarget (h : q.target? = some t) (n : BlockId) :
    (q.retarget n).retarget t = q := by
  obtain ⟨i, instr⟩ := q
  cases instr <;> first | (cases h; rfl) | cases h

/-- A comparison with null is a branch. -/
theorem exists_target_of_nullTest {r : Register} {cond : Condition}
    (h : q.nullTest? = some (r, cond)) : ∃ t, q.target? = some t := by
  obtain ⟨t, hinstr | hinstr⟩ := nullTest?_eq_some_iff.1 h
  · exact ⟨t, by rw [target?, hinstr]⟩
  · exact ⟨t, by rw [target?, hinstr]⟩

end Quad

namespace Block

variable {b : Block} {q : Quad}

theorem quads_of_last (h : b.last? = some q) :
    b.quads = b.quads.dropLast ++ [q] :=
  (List.dropLast_append_getLast? q h).symm

theorem divertSucc_eq (b : Block) (old new : BlockId) :
    b.divertSucc old new = { b with succs := b.succs.replace old new } := by
  unfold divertSucc replaceSucc?
  split
  · rfl
  · next hold => rw [List.replace_of_not_mem hold]; rfl

theorem divertPred_eq (b : Block) (old new : BlockId) :
    b.divertPred old new = { b with preds := b.preds.replace old new } := by
  unfold divertPred replacePred?
  split
  · rfl
  · next hold => rw [List.replace_of_not_mem hold]; rfl

end Block

/-! ## Sites -/

namespace Site

/-- A block ends with the branch of the site, which compares the register with
null and leaves along the edge of the site when it is not null. -/
structure Marks (s : Site) (blk : Block) (branch : Quad) : Prop where
  last : blk.last? = some branch
  number : branch.id = s.branch
  test : branch.nullTest? = some (s.register, if s.taken then .ne else .eq)
  edge : if s.taken then branch.target? = some s.nonNull
    else blk.fallthrough? = some s.nonNull

/-- The site is an edge of the graph as it is. -/
def In (s : Site) (g : Graph) : Prop :=
  ∃ blk branch, g.block? s.block = some blk ∧ s.Marks blk branch

variable {s : Site} {blk : Block} {branch : Quad}

theorem Marks.not_taken (h : s.Marks blk branch) (hs : s.taken = false)
    {t : BlockId} (ht : branch.target? = some t) :
    s.nonNull ∈ blk.succs ∧ s.nonNull ≠ t := by
  have hedge := h.edge
  rw [if_neg (by simp [hs]), Block.fallthrough?, h.last, Option.bind_some,
    ht] at hedge
  exact ⟨List.mem_of_find?_eq_some hedge, by simpa using List.find?_some hedge⟩

theorem Marks.taken_iff (h : s.Marks blk branch) {t : BlockId}
    (ht : branch.target? = some t) : s.taken = true ↔ t = s.nonNull := by
  cases hs : s.taken with
  | true =>
      have hedge := h.edge
      rw [if_pos hs, ht] at hedge
      simpa using hedge
  | false => simpa [eq_comm] using (h.not_taken hs ht).2

end Site

/-! ## One split -/

/-- A site with the block and the number of the check that are put on it. -/
structure Splice where
  site : Site
  block : BlockId
  check : QuadId

namespace Splice

/-- The block that splits the edge. -/
def inserted (p : Splice) (guard : Option Register) : Block :=
  ⟨p.block, [⟨p.check, .nullCheck guard p.site.register⟩], [p.site.block],
    [p.site.nonNull]⟩

/-- What a split makes of the quads in front of the edge: the branch follows the
edge, if that is the one it takes. -/
def follow (p : Splice) (quads : List Quad) : List Quad :=
  if p.site.taken then
    quads.dropLast ++ (quads.getLast?.map (·.retarget p.block)).toList
  else quads

/-- What a split makes of the block under a key. -/
def reroute (p : Splice) (k : BlockId) (blk : Block) : Block where
  id := blk.id
  quads := if k = p.site.block then p.follow blk.quads else blk.quads
  preds := if k = p.site.nonNull then blk.preds.replace p.site.block p.block
    else blk.preds
  succs := if k = p.site.block then blk.succs.replace p.site.nonNull p.block
    else blk.succs

theorem follow_of_taken {p : Splice} {quads : List Quad} {q : Quad}
    (hp : p.site.taken = true) (hq : quads.getLast? = some q) :
    p.follow quads = quads.dropLast ++ [q.retarget p.block] := by
  rw [follow, if_pos hp, hq]
  rfl

theorem follow_of_not_taken {p : Splice} (hp : p.site.taken = false)
    (quads : List Quad) : p.follow quads = quads := by
  rw [follow, if_neg (by simp [hp])]

theorem follow_eq (p : Splice) {quads : List Quad} {q : Quad}
    (hq : quads.getLast? = some q) :
    p.follow quads = quads.dropLast ++
      [if p.site.taken then q.retarget p.block else q] := by
  cases hp : p.site.taken with
  | true => exact follow_of_taken hp hq
  | false =>
      rw [follow_of_not_taken hp]
      exact (List.dropLast_append_getLast? q hq).symm

theorem dropLast_follow (p : Splice) (quads : List Quad) :
    (p.follow quads).dropLast = quads.dropLast := by
  cases hq : quads.getLast? with
  | none =>
      rw [List.getLast?_eq_none_iff.1 hq, follow]
      split <;> rfl
  | some q => rw [p.follow_eq hq, List.dropLast_concat]

/-- Retargeting a branch does not number it anew. -/
theorem ids_follow (p : Splice) (quads : List Quad) :
    (p.follow quads).map Quad.id = quads.map Quad.id := by
  cases hq : quads.getLast? with
  | none =>
      rw [List.getLast?_eq_none_iff.1 hq, follow]
      split <;> rfl
  | some q =>
      rw [p.follow_eq hq, ← List.dropLast_append_getLast? q hq,
        List.dropLast_concat]
      split <;> simp

/-- The block in front is left by another way, and then the block behind is
come to by another; a block may be both. -/
theorem reroute_eq (p : Splice) (k : BlockId) (blk : Block) :
    p.reroute k blk =
      let out := if k = p.site.block then
          let out := blk.divertSucc p.site.nonNull p.block
          if p.site.taken then out.retargetLast p.block else out
        else blk
      if k = p.site.nonNull then out.divertPred p.site.block p.block
      else out := by
  simp only [Block.divertSucc_eq, Block.divertPred_eq, reroute, follow]
  by_cases hfrom : k = p.site.block
  · by_cases hto : k = p.site.nonNull
    · simp only [if_pos hfrom, if_pos hto]
      cases p.site.taken <;> rfl
    · simp only [if_pos hfrom, if_neg hto]
      cases p.site.taken <;> rfl
  · simp only [if_neg hfrom]
    split <;> rfl

end Splice

/-- The second graph is the first with one edge split by a new block, whose
number and whose check's number were not in use. -/
structure Graph.Split (guard : Option Register) (g : Graph) (p : Splice)
    (g' : Graph) : Prop where
  site : p.site.In g
  method : g'.method = g.method
  keys : g'.blocks.keys = g.blocks.keys ++ [p.block]
  added : g'.block? p.block = some (p.inserted guard)
  kept : ∀ k, k ≠ p.block → g'.block? k = (g.block? k).map (p.reroute k)
  number : p.block = ⟨g.nextBlock⟩
  nextBlock : g.nextBlock < g'.nextBlock
  above : g.nextQuad ≤ p.check.val
  below : p.check.val < g'.nextQuad

namespace Graph

theorem WellFormed.free {g : Graph} (hg : g.WellFormed) :
    g.block? ⟨g.nextBlock⟩ = none := by
  cases hget : g.block? ⟨g.nextBlock⟩ with
  | none => rfl
  | some blk =>
      have hlt := hg.fresh _ (Option.isSome_iff_exists.2 ⟨blk, hget⟩)
      exact absurd hlt (UInt32.lt_irrefl _)

theorem WellFormed.mem_succs_of_marks {g : Graph} (hg : g.WellFormed) {s : Site}
    {blk : Block} {branch : Quad} (hblk : g.block? s.block = some blk)
    (hmarks : s.Marks blk branch) : s.nonNull ∈ blk.succs := by
  obtain ⟨t, ht⟩ := Quad.exists_target_of_nullTest hmarks.test
  cases hs : s.taken with
  | true =>
      have hbranch := List.mem_of_getLast? hmarks.last
      rw [← (hmarks.taken_iff ht).1 hs]
      exact hg.shaped.target _ blk hblk branch hbranch t ht
  | false => exact (hmarks.not_taken hs ht).1

/-- Only the last quad of a block has a target. -/
theorem WellFormed.last_of_target {g : Graph} (hg : g.WellFormed) {k : BlockId}
    {blk : Block} {last q : Quad} (hblk : g.block? k = some blk)
    (hlast : blk.last? = some last) (hq : q ∈ blk.quads) {t : BlockId}
    (ht : q.target? = some t) : q = last := by
  rw [Block.quads_of_last hlast] at hq
  rcases List.mem_append.1 hq with hq | hq
  · have hinner := hg.shaped.inner k blk hblk q hq
    rw [Quad.transfersControl_of_target? ht] at hinner
    cases hinner
  · exact List.mem_singleton.1 hq

/-! ## A successful split is a split -/

theorem foldl_max_le_iff {n : UInt32} (l : List QuadId) :
    ∀ a : QuadId, (l.foldl QuadId.max a).val ≤ n ↔
      a.val ≤ n ∧ ∀ q ∈ l, q.val ≤ n := by
  induction l with
  | nil => simp
  | cons b l ih =>
      intro a
      have hmax : (a.max b).val ≤ n ↔ a.val ≤ n ∧ b.val ≤ n := by
        unfold QuadId.max
        split
        · next hlt =>
            exact ⟨fun hb => ⟨UInt32.le_trans (UInt32.le_of_lt hlt) hb, hb⟩,
              And.right⟩
        · next hlt =>
            exact ⟨fun ha => ⟨ha, UInt32.le_trans (UInt32.not_lt.1 hlt) ha⟩,
              And.left⟩
      rw [List.foldl_cons, ih, hmax, and_assoc]
      simp

theorem freshQuad_eq {g g' : Graph} {q : QuadId}
    (h : g.freshQuad = .ok (q, g')) :
    g.nextQuad ≤ q.val ∧ ∃ next, q.val < next ∧
      g' = { g with nextQuad := next } := by
  unfold freshQuad at h
  dsimp only at h
  split at h
  · next hroom =>
      cases h
      have htop : (if g.nextQuad = 0 then 0 else g.nextQuad - 1) ≤
          g.topQuad.val :=
        ((foldl_max_le_iff _ _).1 (UInt32.le_refl g.topQuad.val)).1
      have hone : (g.topQuad.val + 1).toNat = g.topQuad.val.toNat + 1 := by
        rw [UInt32.toNat_add]
        exact Nat.mod_eq_of_lt
          (by simp only [UInt32.size] at hroom; simp; omega)
      have htwo : (g.topQuad.val + 2).toNat = g.topQuad.val.toNat + 2 := by
        rw [UInt32.toNat_add]
        exact Nat.mod_eq_of_lt hroom
      refine ⟨?_, _, ?_, rfl⟩
      · rw [UInt32.le_iff_toNat_le, hone]
        split at htop
        · next hzero => simp [hzero]
        · next hpos =>
            have hle : 1 ≤ g.nextQuad := by
              rw [UInt32.le_iff_toNat_le]
              exact Nat.pos_of_ne_zero fun h => hpos (UInt32.toNat_inj.1 h)
            rw [UInt32.le_iff_toNat_le, UInt32.toNat_sub_of_le _ _ hle] at htop
            simp at htop
            omega
      · rw [UInt32.lt_iff_toNat_lt, hone, htwo]
        omega
  · cases h

theorem editBlock_eq {g g' : Graph} {b : BlockId} {f : Block → Block}
    (h : g.editBlock b f = .ok g') :
    g' = { g with blocks := g.blocks.modify b f } := by
  unfold editBlock at h
  split at h
  · cases h
    rfl
  · cases h

theorem splitEdge_eq {g g' : Graph} {guard : Option Register} {s : Site}
    {event : Event} (h : splitEdge guard s g = (g', .ok event)) :
    ∃ b q nextQuad nextBlock, b = ⟨g.nextBlock⟩ ∧ g.nextBlock < nextBlock ∧
      g.nextQuad ≤ q.val ∧ q.val < nextQuad ∧
      g' = { g with
        blocks := (((g.blocks.insert b (.new b)).modify b fun blk =>
            let blk := blk.push ⟨q, .nullCheck guard s.register⟩
            (blk.withPred s.block).withSucc s.nonNull).modify
          s.block fun blk =>
            let blk := blk.divertSucc s.nonNull b
            if s.taken then blk.retargetLast b else blk).modify
          s.nonNull fun blk => blk.divertPred s.block b
        nextQuad := nextQuad
        nextBlock := nextBlock } := by
  unfold splitEdge at h
  split at h
  · cases h
  · next q g₁ hquad =>
      obtain ⟨habove, nextQuad, hbelow, rfl⟩ := freshQuad_eq hquad
      split at h
      · cases h
      · next b g₂ hblock =>
          obtain ⟨hb, nextBlock, hnext, rfl⟩ := Draft.freshBlock_eq hblock
          dsimp only at h
          split at h
          · cases h
          · next g₃ hfirst =>
              rw [editBlock_eq hfirst] at h
              split at h
              · cases h
              · next g₄ hsecond =>
                  rw [editBlock_eq hsecond] at h
                  cases h
                  exact ⟨b, q, nextQuad, nextBlock, hb, hnext, habove,
                    hbelow, rfl⟩

theorem WellFormed.ne_new {g : Graph} (hg : g.WellFormed) {k : BlockId}
    (hk : (g.block? k).isSome) : k ≠ ⟨g.nextBlock⟩ := by
  rintro rfl
  rw [hg.free] at hk
  cases hk

/-- Both ends of a site are blocks of the graph. -/
theorem WellFormed.isSome_of_site {g : Graph} (hg : g.WellFormed) {s : Site}
    (hs : s.In g) :
    (g.block? s.block).isSome ∧ (g.block? s.nonNull).isSome := by
  obtain ⟨blk, branch, hblk, hmarks⟩ := hs
  refine hg.linked.isSome ?_
  rw [succs_of_block hblk]
  exact hg.mem_succs_of_marks hblk hmarks

theorem Split.of_splitEdge {g g' : Graph} {guard : Option Register} {s : Site}
    {event : Event} (hg : g.WellFormed) (hs : s.In g)
    (h : splitEdge guard s g = (g', .ok event)) :
    ∃ p : Splice, p.site = s ∧ g.Split guard p g' := by
  obtain ⟨b, q, nextQuad, nextBlock, hb, hblock, habove, hbelow, rfl⟩ :=
    splitEdge_eq h
  obtain ⟨hfrom, hto⟩ := hg.isSome_of_site hs
  have hfrom : b ≠ s.block := hb ▸ (hg.ne_new hfrom).symm
  have hto : b ≠ s.nonNull := hb ▸ (hg.ne_new hto).symm
  have hfree : b ∉ g.blocks.keys := KeyedList.get?_eq_none_iff.1 (hb ▸ hg.free)
  -- the edits at the two ends pass over the new block, as it is neither of them
  refine ⟨⟨s, b, q⟩, rfl, hs, rfl, ?_, ?_, fun k hk => ?_, hb, hblock, habove,
    hbelow⟩
  · rw [KeyedList.keys_modify, KeyedList.keys_modify, KeyedList.keys_modify,
      KeyedList.keys_insert, if_neg hfree]
  · rw [block?, KeyedList.get?_modify, if_neg hto, KeyedList.get?_modify,
      if_neg hfrom, KeyedList.get?_modify, if_pos rfl, KeyedList.get?_insert,
      if_pos rfl]
    rfl
  · have hnew : ((g.blocks.insert b (.new b)).modify b fun blk =>
        ((blk.push ⟨q, .nullCheck guard s.register⟩).withPred s.block).withSucc
          s.nonNull).get? k = g.blocks.get? k := by
      rw [KeyedList.get?_modify, if_neg hk, KeyedList.get?_insert, if_neg hk]
    rw [block?, KeyedList.get?_modify_eq_map,
      KeyedList.get?_modify_eq_map, hnew, Option.map_map]
    congr 1
    funext blk
    exact (Splice.reroute_eq ⟨s, b, q⟩ k blk).symm

/-! ## What a split leaves -/

namespace Split

variable {g g' : Graph} {guard : Option Register} {p : Splice}

theorem free (hg : g.WellFormed) (h : g.Split guard p g') :
    g.block? p.block = none :=
  h.number ▸ hg.free

theorem ne_block (hg : g.WellFormed) (h : g.Split guard p g') {k : BlockId}
    (hk : (g.block? k).isSome) : k ≠ p.block :=
  h.number ▸ hg.ne_new hk

theorem isSome (hg : g.WellFormed) (h : g.Split guard p g') {k : BlockId}
    (hk : (g.block? k).isSome) : (g'.block? k).isSome := by
  rw [h.kept k (h.ne_block hg hk), Option.isSome_map]
  exact hk

theorem block_cases (h : g.Split guard p g') {k : BlockId} {blk' : Block}
    (hblk : g'.block? k = some blk') :
    (k = p.block ∧ blk' = p.inserted guard) ∨
      (k ≠ p.block ∧ ∃ blk, g.block? k = some blk ∧
        p.reroute k blk = blk') := by
  by_cases hk : k = p.block
  · rw [hk, h.added] at hblk
    cases hblk
    exact Or.inl ⟨hk, rfl⟩
  · rw [h.kept k hk] at hblk
    exact Or.inr ⟨hk, Option.map_eq_some_iff.1 hblk⟩

theorem listAt (h : g.Split guard p g') {γ : Type} (f : Block → List γ)
    (k : BlockId) :
    g'.blocks.listAt f k = if k = p.block then f (p.inserted guard)
      else g.blocks.listAt (fun blk => f (p.reroute k blk)) k := by
  split
  · next hk =>
      rw [hk]
      exact KeyedList.listAt_of_get? h.added f
  · next hk =>
      have hkept : g'.blocks.get? k = (g.blocks.get? k).map (p.reroute k) :=
        h.kept k hk
      rw [KeyedList.listAt, hkept, Option.map_map]
      rfl

theorem listAt_replace {m : KeyedList BlockId Block} {k : BlockId}
    {f : Block → List BlockId} {a b : BlockId} :
    m.listAt (fun blk => (f blk).replace a b) k =
      (m.listAt f k).replace a b := by
  unfold KeyedList.listAt
  cases m.get? k <;> rfl

theorem succs (h : g.Split guard p g') (k : BlockId) :
    g'.succs k = detour g.succs p.site.block p.site.nonNull p.block k := by
  rw [succs_eq, h.listAt, detour]
  split
  · rfl
  · split
    · next hk => simp only [Splice.reroute, if_pos hk, listAt_replace, succs_eq]
    · next hk => simp only [Splice.reroute, if_neg hk, succs_eq]

theorem preds (h : g.Split guard p g') (k : BlockId) :
    g'.predsAt k = detour g.predsAt p.site.nonNull p.site.block p.block k := by
  rw [predsAt, h.listAt, detour]
  split
  · rfl
  · split
    · next hk => simp only [Splice.reroute, if_pos hk, listAt_replace, predsAt]
    · next hk => simp only [Splice.reroute, if_neg hk, predsAt]

theorem quads (h : g.Split guard p g') (k : BlockId) :
    g'.quadsAt k =
      if k = p.block then [⟨p.check, .nullCheck guard p.site.register⟩]
      else if k = p.site.block then p.follow (g.quadsAt k)
      else g.quadsAt k := by
  rw [quadsAt, h.listAt]
  split
  · rfl
  · split
    · next hk =>
        simp only [Splice.reroute, if_pos hk, quadsAt]
        unfold KeyedList.listAt
        cases g.blocks.get? k with
        | none =>
            rw [Splice.follow]
            split <;> rfl
        | some blk => rfl
    · next hk => simp only [Splice.reroute, if_neg hk, quadsAt]

theorem ids (h : g.Split guard p g') (k : BlockId) :
    g'.idsAt k = if k = p.block then [p.check] else g.idsAt k := by
  rw [idsAt, h.quads]
  split
  · rfl
  · split
    · exact p.ids_follow _
    · rfl

/-! ## Edges -/

theorem not_mem_succs (hg : g.WellFormed) (h : g.Split guard p g')
    (k : BlockId) : p.block ∉ g.succs k := by
  intro hmem
  have hsome := (hg.linked.isSome hmem).2
  rw [h.free hg] at hsome
  cases hsome

theorem not_mem_preds (hg : g.WellFormed) (h : g.Split guard p g')
    (k : BlockId) : p.block ∉ g.predsAt k := by
  intro hmem
  have hsome := (hg.linked.isSome ((hg.linked.mirrored _ _).2 hmem)).1
  rw [h.free hg] at hsome
  cases hsome

theorem edge_mem (hg : g.WellFormed) (h : g.Split guard p g') :
    p.site.nonNull ∈ g.succs p.site.block := by
  obtain ⟨blk, branch, hblk, hmarks⟩ := h.site
  rw [succs_of_block hblk]
  exact hg.mem_succs_of_marks hblk hmarks

theorem mem_succs (hg : g.WellFormed) (h : g.Split guard p g') {k l : BlockId} :
    l ∈ g'.succs k ↔
      (l ∈ g.succs k ∧ ¬(k = p.site.block ∧ l = p.site.nonNull)) ∨
      (k = p.site.block ∧ l = p.block) ∨
        (k = p.block ∧ l = p.site.nonNull) := by
  have hfrom := (hg.isSome_of_site h.site).1
  have hnone : g.succs p.block = [] := by rw [Graph.succs, h.free hg]
  rw [h.succs]
  exact mem_detour (h.ne_block hg hfrom) hnone (hg.linked.succs_nodup _)
    (h.edge_mem hg)

theorem mem_preds (hg : g.WellFormed) (h : g.Split guard p g') {k l : BlockId} :
    l ∈ g'.predsAt k ↔
      (l ∈ g.predsAt k ∧ ¬(k = p.site.nonNull ∧ l = p.site.block)) ∨
      (k = p.site.nonNull ∧ l = p.block) ∨
        (k = p.block ∧ l = p.site.block) := by
  have hto := (hg.isSome_of_site h.site).2
  have hnone : g.predsAt p.block = [] := by
    refine List.eq_nil_iff_forall_not_mem.2 fun a ha => ?_
    exact h.not_mem_succs hg a ((hg.linked.mirrored a p.block).2 ha)
  rw [h.preds]
  exact mem_detour (h.ne_block hg hto) hnone (hg.linked.preds_nodup _)
    ((hg.linked.mirrored _ _).1 (h.edge_mem hg))

theorem linked (hg : g.WellFormed) (h : g.Split guard p g') : g'.Linked := by
  refine ⟨fun a b => ?_, fun b => ?_, fun b => ?_⟩
  · rw [h.mem_succs hg, h.mem_preds hg, hg.linked.mirrored a b]
    tauto
  · rw [h.succs]
    exact nodup_detour (hg.linked.succs_nodup b) (h.not_mem_succs hg b)
  · rw [h.preds]
    exact nodup_detour (hg.linked.preds_nodup b) (h.not_mem_preds hg b)

/-! ## The rest of the shape -/

theorem not_sentinel (hg : g.WellFormed) (h : g.Split guard p g') {k : BlockId}
    (hk : k.isSentinel) : k ≠ p.block ∧ k ≠ p.site.block := by
  have hthere : (g.block? k).isSome := by
    rcases Bool.or_eq_true_iff.1 hk with hk | hk
    · exact of_decide_eq_true hk ▸ hg.proper.ends.1
    · exact of_decide_eq_true hk ▸ hg.proper.ends.2
  refine ⟨h.ne_block hg hthere, ?_⟩
  rintro rfl
  obtain ⟨blk, branch, hblk, hmarks⟩ := h.site
  have hempty := hg.sentinels _ hk
  rw [quadsAt_of_block hblk] at hempty
  have hlast := hmarks.last
  rw [Block.last?, hempty] at hlast
  cases hlast

theorem proper (hg : g.WellFormed) (h : g.Split guard p g') : g'.Proper := by
  refine hg.proper.of_snoc (b := p.block) (i := p.check)
    (fun k hk => h.isSome hg hk) (fun k => ?_) h.above h.below
  rw [h.ids]
  split
  · exact List.sublist_append_right _ _
  · exact List.Sublist.refl _

/-- The branch of a split edge still goes along an edge, as does every other. -/
theorem target (hg : g.WellFormed) (h : g.Split guard p g') {k : BlockId}
    {blk : Block} (hblk : g.block? k = some blk) {q : Quad}
    (hq : q ∈ (p.reroute k blk).quads) {t : BlockId} (ht : q.target? = some t) :
    t ∈ (p.reroute k blk).succs := by
  by_cases hk : k = p.site.block
  · obtain ⟨blk', branch, hblk', hmarks⟩ := h.site
    rw [← hk, hblk] at hblk'
    cases hblk'
    have hnodup : blk.succs.Nodup :=
      succs_of_block hblk ▸ hg.linked.succs_nodup k
    have hedge : p.site.nonNull ∈ blk.succs :=
      hg.mem_succs_of_marks (hk ▸ hblk) hmarks
    simp only [Splice.reroute, if_pos hk] at hq ⊢
    rw [mem_replace_iff hnodup hedge]
    cases htaken : p.site.taken with
    | true =>
        -- only the branch has a target, and that is the new block now
        rw [Splice.follow_of_taken htaken hmarks.last] at hq
        rcases List.mem_append.1 hq with hq | hq
        · have hinner := hg.shaped.inner k blk hblk q hq
          rw [Quad.transfersControl_of_target? ht] at hinner
          cases hinner
        · obtain ⟨t', ht'⟩ := Quad.exists_target_of_nullTest hmarks.test
          rw [List.mem_singleton.1 hq, Quad.target?_retarget ht'] at ht
          exact Or.inr (Option.some.inj ht).symm
    | false =>
        -- the branch falls through along the edge, so it goes to another block
        rw [Splice.follow_of_not_taken htaken] at hq
        obtain rfl := hg.last_of_target hblk hmarks.last hq ht
        exact Or.inl ⟨hg.shaped.target k blk hblk q hq t ht,
          (hmarks.not_taken htaken ht).2.symm⟩
  · have hquads : q ∈ blk.quads := by
      simpa [Splice.reroute, hk] using hq
    simpa [Splice.reroute, hk] using hg.shaped.target k blk hblk q hquads t ht

theorem inner (hg : g.WellFormed) {k : BlockId} {blk : Block}
    (hblk : g.block? k = some blk) {q : Quad}
    (hq : q ∈ (p.reroute k blk).quads.dropLast) :
    q.transfersControl = false := by
  refine hg.shaped.inner k blk hblk q ?_
  simp only [Splice.reroute] at hq
  split at hq
  · rwa [p.dropLast_follow] at hq
  · exact hq

theorem shaped (hg : g.WellFormed) (h : g.Split guard p g') : g'.Shaped := by
  obtain ⟨hentry, hentry'⟩ := h.not_sentinel hg (k := .entry) rfl
  obtain ⟨hexit, hexit'⟩ := h.not_sentinel hg (k := .exit) rfl
  refine ⟨?_, ?_, ?_, fun k blk' hblk q hq => ?_,
    fun k blk' hblk q hq t ht => ?_⟩
  · rw [h.succs, detour_of_ne hentry hentry']
    exact hg.shaped.entry_succs
  · rw [h.preds, detour, if_neg hentry, hg.shaped.entry_preds]
    split <;> rfl
  · rw [h.succs, detour_of_ne hexit hexit']
    exact hg.shaped.exit_succs
  · rcases h.block_cases hblk with ⟨-, rfl⟩ | ⟨-, blk, hold, rfl⟩
    · cases hq
    · exact inner hg hold hq
  · rcases h.block_cases hblk with ⟨-, rfl⟩ | ⟨-, blk, hold, rfl⟩
    · rw [List.mem_singleton.1 hq] at ht
      cases ht
    · exact h.target hg hold hq ht

/-- A split keeps a graph well formed. -/
theorem wellFormed (hg : g.WellFormed) (h : g.Split guard p g') :
    g'.WellFormed := by
  refine ⟨h.proper hg, h.linked hg, h.shaped hg, fun k blk' hblk => ?_,
    fun k hk => ?_, fun k hk => ?_⟩
  · rcases h.block_cases hblk with ⟨hk, rfl⟩ | ⟨-, blk, hold, rfl⟩
    · exact hk.symm
    · exact hg.keyed k blk hold
  · obtain ⟨blk', hblk⟩ := Option.isSome_iff_exists.1 hk
    rcases h.block_cases hblk with ⟨hk, -⟩ | ⟨-, blk, hold, -⟩
    · rw [hk, h.number]
      exact h.nextBlock
    · exact UInt32.lt_trans
        (hg.fresh k (Option.isSome_iff_exists.2 ⟨blk, hold⟩))
        h.nextBlock
  · obtain ⟨hne, hfrom⟩ := h.not_sentinel hg hk
    rw [h.quads, if_neg hne, if_neg hfrom]
    exact hg.sentinels k hk

/-- A site of another block stays a site. -/
theorem site_in (hg : g.WellFormed) (h : g.Split guard p g') {s : Site}
    (hs : s.In g) (hne : s.block ≠ p.site.block) : s.In g' := by
  obtain ⟨blk, branch, hblk, hmarks⟩ := hs
  have hnew := h.ne_block hg (Option.isSome_iff_exists.2 ⟨blk, hblk⟩)
  refine ⟨p.reroute s.block blk, branch, ?_, ?_⟩
  · rw [h.kept _ hnew, hblk]
    rfl
  · have hquads : (p.reroute s.block blk).quads = blk.quads := by
      simp [Splice.reroute, hne]
    have hsuccs : (p.reroute s.block blk).succs = blk.succs := by
      simp [Splice.reroute, hne]
    refine ⟨?_, hmarks.number, hmarks.test, ?_⟩
    · rw [Block.last?, hquads]
      exact hmarks.last
    · have hedge := hmarks.edge
      unfold Block.fallthrough? Block.last? at hedge ⊢
      rwa [hquads, hsuccs]

end Split

end Graph

end Dataflow
