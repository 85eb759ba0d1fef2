import Dataflow.Proofs.Hops

/-!
# Control over a split edge

A split puts one quad on an edge between blocks. This file says what that does
to control from quad to quad: `hop_cases` takes every hop of the graph after the
split back to one of the graph before. The branch in front of the edge hops to
the check, and what the check hops to the branch has hopped to before. All other
hops are the old ones. The other way, `hop_split` finds every hop of the graph
before in the graph after, direct or over the check.

That does not go edge by edge, because the block behind the edge may be empty,
and a hop goes on through empty blocks. But the two blocks at the start of the
edge are never empty, the one has the branch and the other the check, so a walk
through empty blocks can begin with them but not come across them. Such a walk
is changed at its first step at most.
-/

namespace Dataflow

/-! ## Quads that differ in where they go -/

namespace Quad

@[simp] theorem defs_retarget (q : Quad) (t : BlockId) :
    (q.retarget t).defs = q.defs := by
  obtain ⟨i, instr⟩ := q
  cases instr <;> rfl

@[simp] theorem uses_retarget (q : Quad) (t : BlockId) :
    (q.retarget t).uses = q.uses := by
  obtain ⟨i, instr⟩ := q
  cases instr <;> rfl

@[simp] theorem checked?_retarget (q : Quad) (t : BlockId) :
    (q.retarget t).checked? = q.checked? := by
  obtain ⟨i, instr⟩ := q
  cases instr <;> rfl

@[simp] theorem retarget_again (q : Quad) (t t' : BlockId) :
    (q.retarget t).retarget t' = q.retarget t' := by
  obtain ⟨i, instr⟩ := q
  cases instr <;> rfl

@[simp] theorem opcode_retarget (q : Quad) (t : BlockId) :
    (q.retarget t).opcode = q.opcode := by
  obtain ⟨i, instr⟩ := q
  cases instr <;> rfl

theorem retarget_of_checked? {q : Quad} {r : Register} (h : q.checked? = some r)
    (t : BlockId) : q.retarget t = q := by
  obtain ⟨i, instr⟩ := q
  cases instr <;> first | rfl | cases h

theorem opcode_of_nullTest {q : Quad} {r : Register} {cond : Condition}
    (h : q.nullTest? = some (r, cond)) : q.opcode = .branch := by
  obtain ⟨t, hinstr | hinstr⟩ := nullTest?_eq_some_iff.1 h
  · rw [opcode, hinstr, Instr.opcode]
  · rw [opcode, hinstr, Instr.opcode]

theorem exists_retarget_self (q : Quad) : ∃ t, q.retarget t = q := by
  obtain ⟨i, instr⟩ := q
  cases instr with
  | branch _ _ _ t => exact ⟨t, rfl⟩
  | goto t => exact ⟨t, rfl⟩
  | _ => exact ⟨.exit, rfl⟩

end Quad

namespace Splice

variable {p : Splice} {quads : List Quad} {q : Quad}

theorem exists_of_mem_follow (h : q ∈ p.follow quads) :
    ∃ q₀ ∈ quads, ∃ t, q₀.retarget t = q := by
  cases hlast : quads.getLast? with
  | none =>
      rw [List.getLast?_eq_none_iff.1 hlast, follow] at h
      split at h <;> cases h
  | some last =>
      rw [p.follow_eq hlast] at h
      rcases List.mem_append.1 h with h | h
      · exact ⟨q, List.dropLast_subset _ h, q.exists_retarget_self⟩
      · refine ⟨last, List.mem_of_getLast? hlast, ?_⟩
        rw [List.mem_singleton.1 h]
        split
        · exact ⟨p.block, rfl⟩
        · exact last.exists_retarget_self

theorem exists_mem_follow (h : q ∈ quads) :
    ∃ t, q.retarget t ∈ p.follow quads := by
  have hne := List.ne_nil_of_mem h
  have hlast := List.getLast?_eq_some_getLast hne
  rw [p.follow_eq hlast]
  rw [← List.dropLast_append_getLast hne] at h
  rcases List.mem_append.1 h with h | h
  · obtain ⟨t, ht⟩ := q.exists_retarget_self
    exact ⟨t, ht.symm ▸ List.mem_append_left _ h⟩
  · rw [← List.mem_singleton.1 h]
    split
    · exact ⟨p.block, List.mem_append_right _ (List.mem_singleton_self _)⟩
    · obtain ⟨t, ht⟩ := q.exists_retarget_self
      exact ⟨t, ht.symm ▸ List.mem_append_right _ (List.mem_singleton_self _)⟩

/-- The block that control has left when it leaves a block: the new block counts
as the one in front of it. -/
def behind (p : Splice) (k : BlockId) : BlockId :=
  if k = p.block then p.site.block else k

/-- The quad that control has left when it leaves a quad: the new check counts
as the branch in front of it. -/
def origin (p : Splice) : Neighbour → Neighbour
  | some i => some (if i = p.check then p.site.branch else i)
  | none => none

theorem origin_branch (p : Splice) :
    p.origin (some p.site.branch) = some p.site.branch := by
  simp [origin]

end Splice

namespace Graph.Split

variable {g g' : Graph} {guard : Option Register} {p : Splice}
  {a b k l : BlockId} {m n : Neighbour} {q : Quad}

/-! ## Blocks -/

theorem ne_of_mem_succs (hg : g.WellFormed) (h : g.Split guard p g')
    (hl : l ∈ g.succs k) : k ≠ p.block :=
  h.ne_block hg (hg.linked.isSome hl).1

theorem ne_of_mem_programOrder (hg : g.WellFormed) (h : g.Split guard p g')
    (hk : k ∈ g.programOrder) : k ≠ p.block := by
  refine Search.forall_mem_reversePostorder (P := (· ≠ p.block)) ?_ ?_ k hk
  · exact (h.not_sentinel hg rfl).1
  · intro a _ b hb hnew
    exact h.not_mem_succs hg a (hnew ▸ hb)

theorem mem_programOrder_of_mem (hg : g.WellFormed) (h : g.Split guard p g')
    (hk : k ∈ g.programOrder) : k ∈ g'.programOrder := by
  obtain ⟨hentry, hclosed⟩ := g'.programOrder_closed
  refine Search.forall_mem_reversePostorder hentry (fun a ha b hb => ?_) k hk
  by_cases hedge : a = p.site.block ∧ b = p.site.nonNull
  · have hnew :=
      hclosed a ha p.block ((h.mem_succs hg).2 (Or.inr (Or.inl ⟨hedge.1, rfl⟩)))
    exact hclosed p.block hnew b
      ((h.mem_succs hg).2 (Or.inr (Or.inr ⟨rfl, hedge.2⟩)))
  · exact hclosed a ha b ((h.mem_succs hg).2 (Or.inl ⟨hb, hedge⟩))

/-- The blocks that are reached are the old ones, and the new one if the block
in front of it is. -/
theorem behind_mem_programOrder (hg : g.WellFormed) (h : g.Split guard p g')
    (hk : k ∈ g'.programOrder) : p.behind k ∈ g.programOrder := by
  obtain ⟨hentry, hclosed⟩ := g.programOrder_closed
  refine Search.forall_mem_reversePostorder
    (P := (p.behind · ∈ g.programOrder)) ?_ ?_ k hk
  · rw [Splice.behind, if_neg (h.not_sentinel hg rfl).1]
    exact hentry
  · intro a ha b hb
    rcases (h.mem_succs hg).1 hb with ⟨hb, -⟩ | ⟨rfl, rfl⟩ | ⟨rfl, rfl⟩
    · rw [Splice.behind, if_neg (h.ne_of_mem_succs hg hb)] at ha
      have hb' := hclosed a ha b hb
      rwa [Splice.behind, if_neg (h.ne_of_mem_programOrder hg hb')]
    · rw [Splice.behind, if_pos rfl]
      rwa [Splice.behind, if_neg (h.ne_of_mem_succs hg (h.edge_mem hg))] at ha
    · rw [Splice.behind, if_pos rfl] at ha
      have hb' := hclosed _ ha _ (h.edge_mem hg)
      rwa [Splice.behind, if_neg (h.ne_of_mem_programOrder hg hb')]

/-! ## Quads -/

theorem exists_retarget_mem (hg : g.WellFormed) (h : g.Split guard p g')
    (hq : q ∈ g.quads) : ∃ t, q.retarget t ∈ g'.quads := by
  rw [quads_eq] at hq ⊢
  obtain ⟨b, hb, hq⟩ := List.mem_flatMap.1 hq
  have hat : ∃ t, q.retarget t ∈ g'.quadsAt b := by
    rw [h.quads, if_neg (h.ne_of_mem_programOrder hg hb)]
    split
    · exact Splice.exists_mem_follow hq
    · obtain ⟨t, ht⟩ := q.exists_retarget_self
      exact ⟨t, ht.symm ▸ hq⟩
  obtain ⟨t, hat⟩ := hat
  exact ⟨t, List.mem_flatMap.2 ⟨b, h.mem_programOrder_of_mem hg hb, hat⟩⟩

theorem lastAt_branch (h : g.Split guard p g') :
    g.LastAt p.site.block (some p.site.branch) := by
  obtain ⟨blk, branch, hblk, hmarks⟩ := h.site
  show (g.idsAt p.site.block).getLast? = some p.site.branch
  rw [idsAt_of_block hblk, List.getLast?_map, ← hmarks.number]
  exact congrArg (Option.map Quad.id) hmarks.last

theorem visits_branch (h : g.Split guard p g')
    (hb : p.site.block ∈ g.programOrder) :
    g.Visits p.site.branch := by
  have hmem : p.site.branch ∈ (g.quadsAt p.site.block).map Quad.id :=
    List.mem_of_getLast? h.lastAt_branch
  obtain ⟨q, hq, hid⟩ := List.mem_map.1 hmem
  refine ⟨q, ?_, hid⟩
  rw [quads_eq]
  exact List.mem_flatMap.2 ⟨p.site.block, hb, hq⟩

/-- A quad with the number of the branch is in its block. -/
theorem site_mem_programOrder (hg : g.WellFormed) (h : g.Split guard p g')
    (hq : q ∈ g.quads) (hid : q.id = p.site.branch) :
    p.site.block ∈ g.programOrder := by
  rw [quads_eq] at hq
  obtain ⟨b, hb, hq⟩ := List.mem_flatMap.1 hq
  have hmem : p.site.branch ∈ g.idsAt p.site.block :=
    List.mem_of_getLast? h.lastAt_branch
  by_cases hne : b = p.site.block
  · exact hne ▸ hb
  · exact absurd (hid ▸ hmem) (hg.proper.apart b _ hne (List.mem_map_of_mem hq))

theorem nullTest_branch (hg : g.WellFormed) (h : g.Split guard p g')
    (hq : q ∈ g.quads) (hid : q.id = p.site.branch) :
    ∃ cond, q.nullTest? = some (p.site.register, cond) := by
  obtain ⟨blk, branch, hblk, hmarks⟩ := h.site
  have hbranch : branch ∈ g.quads := mem_quads_of_block
    (h.site_mem_programOrder hg hq hid) hblk (List.mem_of_getLast? hmarks.last)
  rw [hg.regular.distinct.eq_of_id_eq hq hbranch (hid.trans hmarks.number.symm)]
  exact ⟨_, hmarks.test⟩

theorem block_mem_programOrder (hg : g.WellFormed) (h : g.Split guard p g')
    (hb : p.site.block ∈ g.programOrder) : p.block ∈ g'.programOrder :=
  g'.programOrder_closed.2 _ (h.mem_programOrder_of_mem hg hb) _
    ((h.mem_succs hg).2 (Or.inr (Or.inl ⟨rfl, rfl⟩)))

theorem check_mem (hg : g.WellFormed) (h : g.Split guard p g')
    (hb : p.site.block ∈ g.programOrder) :
    ⟨p.check, .nullCheck guard p.site.register⟩ ∈ g'.quads :=
  mem_quads_of_block (h.block_mem_programOrder hg hb) h.added List.mem_cons_self

/-- The quads that are visited are the old ones, up to where they go, and the
check if the branch in front of it is. -/
theorem quad_cases (hg : g.WellFormed) (h : g.Split guard p g')
    (hq : q ∈ g'.quads) :
    (q = ⟨p.check, .nullCheck guard p.site.register⟩ ∧ g.Visits p.site.branch) ∨
      ∃ q₀ ∈ g.quads, ∃ t, q₀.retarget t = q := by
  rw [quads_eq] at hq
  obtain ⟨b, hb, hq⟩ := List.mem_flatMap.1 hq
  have hb := h.behind_mem_programOrder hg hb
  rw [h.quads] at hq
  split at hq
  · next hnew =>
      rw [Splice.behind, if_pos hnew] at hb
      exact Or.inl ⟨List.mem_singleton.1 hq, h.visits_branch hb⟩
  · next hnew =>
      rw [Splice.behind, if_neg hnew] at hb
      have hold : ∃ q₀ ∈ g.quadsAt b, ∃ t, q₀.retarget t = q := by
        split at hq
        · exact Splice.exists_of_mem_follow hq
        · exact ⟨q, hq, q.exists_retarget_self⟩
      obtain ⟨q₀, hq₀, ht⟩ := hold
      refine Or.inr ⟨q₀, ?_, ht⟩
      rw [quads_eq]
      exact List.mem_flatMap.2 ⟨b, hb, hq₀⟩

/-- What some visited quad has, wherever it goes, and the check has not. -/
theorem exists_quad_iff (hg : g.WellFormed) (h : g.Split guard p g')
    {P : Quad → Prop} (hretarget : ∀ q t, P (q.retarget t) ↔ P q)
    (hcheck : ¬ P ⟨p.check, .nullCheck guard p.site.register⟩) :
    (∃ q ∈ g'.quads, P q) ↔ ∃ q ∈ g.quads, P q := by
  constructor
  · intro hP
    obtain ⟨q, hq, hP⟩ := hP
    rcases h.quad_cases hg hq with ⟨rfl, -⟩ | ⟨q₀, hq₀, t, rfl⟩
    · exact absurd hP hcheck
    · exact ⟨q₀, hq₀, (hretarget q₀ t).1 hP⟩
  · intro hP
    obtain ⟨q, hq, hP⟩ := hP
    obtain ⟨t, ht⟩ := h.exists_retarget_mem hg hq
    exact ⟨_, ht, (hretarget q t).2 hP⟩

theorem check_fresh (hg : g.WellFormed) (h : g.Split guard p g') (k : BlockId) :
    p.check ∉ g.idsAt k := by
  intro hmem
  obtain ⟨q, hq, hid⟩ := List.mem_map.1 hmem
  have hlt := UInt32.lt_of_lt_of_le (hg.proper.below k q hq) h.above
  rw [hid] at hlt
  exact UInt32.lt_irrefl _ hlt

theorem branch_ne_check (hg : g.WellFormed) (h : g.Split guard p g') :
    p.site.branch ≠ p.check := fun heq =>
  h.check_fresh hg p.site.block (heq ▸ List.mem_of_getLast? h.lastAt_branch)

theorem ne_check_of_mem (hg : g.WellFormed) (h : g.Split guard p g')
    (hq : q ∈ g.quads) : q.id ≠ p.check := by
  rw [quads_eq] at hq
  obtain ⟨b, -, hq⟩ := List.mem_flatMap.1 hq
  intro hid
  exact h.check_fresh hg b (hid ▸ List.mem_map_of_mem hq)

/-! ## Walks through empty blocks -/

theorem vacant_of_vacant (hg : g.WellFormed) (h : g.Split guard p g')
    (hk : g'.Vacant k) : g.Vacant k := by
  obtain ⟨hreach, hempty⟩ := hk
  have hreach := h.behind_mem_programOrder hg hreach
  rw [h.ids] at hempty
  split at hempty
  · cases hempty
  · next hnew =>
      rw [Splice.behind, if_neg hnew] at hreach
      exact ⟨hreach, hempty⟩

theorem vacant_split (hg : g.WellFormed) (h : g.Split guard p g')
    (hk : g.Vacant k) : g'.Vacant k := by
  obtain ⟨hreach, hempty⟩ := hk
  refine ⟨h.mem_programOrder_of_mem hg hreach, ?_⟩
  rw [h.ids, if_neg (h.ne_of_mem_programOrder hg hreach)]
  exact hempty

theorem not_vacant_site (h : g.Split guard p g') : ¬ g.Vacant p.site.block := by
  intro hvacant
  have hlast : (g.idsAt p.site.block).getLast? = some p.site.branch :=
    h.lastAt_branch
  rw [hvacant.2] at hlast
  cases hlast

/-- A walk to the new block is its edge alone, and any other walk is an old one,
which begins in front of the edge if it begins at the new block. -/
theorem corridor_cases (hg : g.WellFormed) (h : g.Split guard p g')
    (hcorridor : g'.Corridor a b) :
    (a = p.site.block ∧ b = p.block) ∨
      (b ≠ p.block ∧ g.Corridor (p.behind a) b) := by
  have hnew : p.site.nonNull ≠ p.block :=
    h.ne_block hg (hg.isSome_of_site h.site).2
  induction hcorridor with
  | @edge b hb =>
      rcases (h.mem_succs hg).1 hb with ⟨hb, -⟩ | hstep | ⟨rfl, rfl⟩
      · refine Or.inr ⟨fun hb' => h.not_mem_succs hg a (hb' ▸ hb), .edge ?_⟩
        rwa [Splice.behind, if_neg (h.ne_of_mem_succs hg hb)]
      · exact Or.inl hstep
      · refine Or.inr ⟨hnew, .edge ?_⟩
        rw [Splice.behind, if_pos rfl]
        exact h.edge_mem hg
  | @past c b _ hvacant hb ih =>
      have hvacant := h.vacant_of_vacant hg hvacant
      have hc := h.ne_of_mem_programOrder hg hvacant.1
      obtain ⟨-, hcorridor⟩ := ih.resolve_left fun hstep => hc hstep.2
      rcases (h.mem_succs hg).1 hb with ⟨hb, -⟩ | ⟨rfl, -⟩ | ⟨hc', -⟩
      · exact Or.inr ⟨fun hb' => h.not_mem_succs hg c (hb' ▸ hb),
          .past hcorridor hvacant hb⟩
      · exact absurd hvacant h.not_vacant_site
      · exact absurd hc' hc

/-- A walk that begins in front of the edge may begin at the new block now, and
any other walk is still there. -/
theorem corridor_split (hg : g.WellFormed) (h : g.Split guard p g')
    (hcorridor : g.Corridor a b) :
    g'.Corridor a b ∨ (a = p.site.block ∧ g'.Corridor p.block b) := by
  induction hcorridor with
  | @edge b hb =>
      by_cases hedge : a = p.site.block ∧ b = p.site.nonNull
      · exact Or.inr
          ⟨hedge.1, .edge ((h.mem_succs hg).2 (Or.inr (Or.inr ⟨rfl, hedge.2⟩)))⟩
      · exact Or.inl (.edge ((h.mem_succs hg).2 (Or.inl ⟨hb, hedge⟩)))
  | @past c b _ hvacant hb ih =>
      have hc : c ≠ p.site.block := fun hc => h.not_vacant_site (hc ▸ hvacant)
      have hb : b ∈ g'.succs c :=
        (h.mem_succs hg).2 (Or.inl ⟨hb, fun hedge => hc hedge.1⟩)
      have hvacant := h.vacant_split hg hvacant
      exact ih.imp (fun hcorridor => .past hcorridor hvacant hb)
        fun ⟨ha, hcorridor⟩ => ⟨ha, .past hcorridor hvacant hb⟩

/-! ## Hops -/

theorem firstAt_of_ne (h : g.Split guard p g') (hk : k ≠ p.block) :
    g'.FirstAt k n ↔ g.FirstAt k n := by
  cases n with
  | none => exact Iff.rfl
  | some i => simp only [FirstAt, h.ids, if_neg hk]

theorem lastAt_of_ne (h : g.Split guard p g') (hk : k ≠ p.block) :
    g'.LastAt k n ↔ g.LastAt k n := by
  cases n with
  | none => exact Iff.rfl
  | some i => simp only [LastAt, h.ids, if_neg hk]

theorem eq_branch_of_lastAt (hg : g.WellFormed) (h : g.Split guard p g')
    (hm : g.LastAt p.site.block m) : m = some p.site.branch := by
  cases m with
  | none => exact absurd hm.symm (h.not_sentinel hg rfl).2
  | some i => exact Eq.trans (Eq.symm hm) h.lastAt_branch

theorem firstAt_block (hg : g.WellFormed) (h : g.Split guard p g') :
    g'.FirstAt p.block n ↔ n = some p.check := by
  cases n with
  | none =>
      exact iff_of_false (fun hexit => (h.not_sentinel hg rfl).1 hexit.symm)
        nofun
  | some i => simp [FirstAt, h.ids, eq_comm]

/-- What control has met last is taken back along with the block it leaves. -/
theorem lastAt_behind (hg : g.WellFormed) (h : g.Split guard p g')
    (hm : g'.LastAt k m) : g.LastAt (p.behind k) (p.origin m) := by
  by_cases hk : k = p.block
  · obtain rfl : m = some p.check := by
      cases m with
      | none => exact absurd (hk.symm.trans hm).symm (h.not_sentinel hg rfl).1
      | some i => simpa [LastAt, h.ids, hk, eq_comm] using hm
    rw [Splice.behind, if_pos hk, Splice.origin, if_pos rfl]
    exact h.lastAt_branch
  · rw [h.lastAt_of_ne hk] at hm
    rw [Splice.behind, if_neg hk]
    cases m with
    | none => exact hm
    | some i =>
        have hi : i ≠ p.check := fun hi =>
          h.check_fresh hg k (hi ▸ List.mem_of_getLast? hm)
        rwa [Splice.origin, if_neg hi]

/-- A hop goes from the branch to the check, or was there before, from the
branch if it goes from the check now. -/
theorem hop_cases (hg : g.WellFormed) (h : g.Split guard p g')
    (hop : g'.Hop m n) :
    (m = some p.site.branch ∧ n = some p.check) ∨
      (n ≠ some p.check ∧ g.Hop (p.origin m) n) := by
  cases hop with
  | @within b before rest i j hb hids =>
      have hb := h.behind_mem_programOrder hg hb
      rw [h.ids] at hids
      split at hids
      · have hlength := congrArg List.length hids
        simp at hlength
        omega
      · next hnew =>
          have hfresh : ∀ x, x ∈ g.idsAt b → x ≠ p.check := fun x hx hx' =>
            h.check_fresh hg b (hx' ▸ hx)
          rw [Splice.behind, if_neg hnew] at hb
          rw [Splice.origin, if_neg (hfresh i (by simp [hids]))]
          have hj := hfresh j (by simp [hids])
          exact Or.inr ⟨by simpa using hj, .within hb hids⟩
  | @across a b _ _ ha hlast hcorridor hfirst =>
      rcases h.corridor_cases hg hcorridor with ⟨rfl, rfl⟩ | ⟨hb, hcorridor⟩
      · have hfrom := (hg.isSome_of_site h.site).1
        rw [h.lastAt_of_ne (h.ne_block hg hfrom)] at hlast
        exact Or.inl ⟨h.eq_branch_of_lastAt hg hlast,
          (h.firstAt_block hg).1 hfirst⟩
      · have hfirst := (h.firstAt_of_ne hb).1 hfirst
        refine Or.inr ⟨?_, .across (h.behind_mem_programOrder hg ha)
          (h.lastAt_behind hg hlast) hcorridor hfirst⟩
        intro hn
        rw [hn] at hfirst
        exact h.check_fresh hg b (List.mem_of_head? hfirst)

theorem hop_branch_check (hg : g.WellFormed) (h : g.Split guard p g')
    (hb : p.site.block ∈ g.programOrder) :
    g'.Hop (some p.site.branch) (some p.check) := by
  have hfrom := h.ne_of_mem_programOrder hg hb
  exact .across (h.mem_programOrder_of_mem hg hb)
    ((h.lastAt_of_ne hfrom).2 h.lastAt_branch)
    (.edge ((h.mem_succs hg).2 (Or.inr (Or.inl ⟨rfl, rfl⟩))))
      ((h.firstAt_block hg).2 rfl)

/-- A hop is still there, or goes from the branch, and then the branch hops to
the check and the check to where the branch did. -/
theorem hop_split (hg : g.WellFormed) (h : g.Split guard p g')
    (hop : g.Hop m n) :
    g'.Hop m n ∨
      (p.site.block ∈ g.programOrder ∧ m = some p.site.branch ∧
        g'.Hop (some p.check) n) := by
  cases hop with
  | @within b before rest i j hb hids =>
      have hids' : g'.idsAt b = before ++ i :: j :: rest := by
        rw [h.ids, if_neg (h.ne_of_mem_programOrder hg hb), hids]
      exact Or.inl (.within (h.mem_programOrder_of_mem hg hb) hids')
  | @across a b _ _ ha hlast hcorridor hfirst =>
      have hb := hcorridor.mem_programOrder ha
      have hfirst := (h.firstAt_of_ne (h.ne_of_mem_programOrder hg hb)).2 hfirst
      rcases h.corridor_split hg hcorridor with hkept | ⟨rfl, hnew⟩
      · exact Or.inl (.across (h.mem_programOrder_of_mem hg ha)
          ((h.lastAt_of_ne (h.ne_of_mem_programOrder hg ha)).2 hlast)
            hkept hfirst)
      · have hcheck : g'.LastAt p.block (some p.check) := by
          simp [LastAt, h.ids]
        exact Or.inr ⟨ha, h.eq_branch_of_lastAt hg hlast,
          .across (h.block_mem_programOrder hg ha) hcheck hnew hfirst⟩

end Graph.Split

/-- A run of splits leaves every quad in place, but for where it goes. -/
theorem Graph.Splits.exists_retarget_mem {g g' : Graph}
    {guard : Option Register} {plan : List Splice} (h : Splits guard g plan g')
    (hready : g.Ready (plan.map Splice.site)) {q : Quad} (hq : q ∈ g.quads) :
    ∃ t, q.retarget t ∈ g'.quads := by
  induction h generalizing q with
  | nil =>
      obtain ⟨t, ht⟩ := q.exists_retarget_self
      exact ⟨t, ht.symm ▸ hq⟩
  | cons hsplit _ ih =>
      obtain ⟨t, ht⟩ := hsplit.exists_retarget_mem hready.wellFormed hq
      obtain ⟨t', ht'⟩ := ih (hready.step hsplit) ht
      exact ⟨t', by rwa [Quad.retarget_again] at ht'⟩

end Dataflow
