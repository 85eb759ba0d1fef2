import Dataflow.Proofs.EdgeJoin

/-!
# Inserting checks splits edges and nothing else

All sites are found in the graph as it is given, and by the time the last of
them is split the graph is another one. What makes this sound is that only the
last quad of a block can be a branch, so no two sites are in one block. A split
changes the way out of the block in front and nothing else that a site depends
on: in the block behind it changes a predecessor, and no site asks for those.
So the sites that are left are still there after each split, and `Ready` is what
a run of splits carries along.

Each split is exact on its own (`Split`), and each is exact for the run as a
whole, since no later one leaves the same block or touches a block that was
inserted. The run is taken back from its end: the last block that was inserted
is taken out first, and finds the graph as its split has left it.
-/

namespace Dataflow

namespace Graph

variable {g g' g₁ : Graph} {guard : Option Register}

/-! ## Sites of a well-formed graph -/

/-- A comparison with null is the last quad of its block. -/
theorem WellFormed.last_of_nullTest (hg : g.WellFormed) {b : BlockId}
    {blk : Block} (hblk : g.block? b = some blk) {q : Quad} (hq : q ∈ blk.quads)
    {r : Register} {cond : Condition} (htest : q.nullTest? = some (r, cond)) :
    blk.last? = some q := by
  obtain ⟨target, htarget⟩ := Quad.exists_target_of_nullTest htest
  cases hlast : blk.last? with
  | none =>
      rw [List.getLast?_eq_none_iff.1 hlast] at hq
      cases hq
  | some last => rw [hg.last_of_target hblk hlast hq htarget]

theorem mem_nullTests {blk : Block} {t : NullTest} (ht : t ∈ blk.nullTests) :
    t.block = blk ∧ t.quad ∈ blk.quads ∧
      t.quad.nullTest? = some (t.register, t.cond) := by
  obtain ⟨q, hq, hmap⟩ := List.mem_filterMap.1 ht
  obtain ⟨⟨r, cond⟩, htest, rfl⟩ := Option.map_eq_some_iff.1 hmap
  exact ⟨rfl, hq, htest⟩

theorem exists_block_of_mem_nullTests {t : NullTest} (ht : t ∈ g.nullTests) :
    ∃ b blk, g.block? b = some blk ∧ t ∈ blk.nullTests := by
  obtain ⟨blk, hblk, ht⟩ := List.mem_flatMap.1 ht
  obtain ⟨b, -, hblk⟩ := List.mem_filterMap.1 hblk
  exact ⟨b, blk, hblk, ht⟩

theorem site?_block {t : NullTest} {s : Site} (h : t.site? = some s) :
    s.block = t.block.id := by
  unfold NullTest.site? at h
  split at h <;> cases h <;> rfl

theorem marks_of_site? {t : NullTest} {s : Site} (h : t.site? = some s)
    (hlast : t.block.last? = some t.quad)
    (htest : t.quad.nullTest? = some (t.register, t.cond)) :
    s.Marks t.block t.quad := by
  unfold NullTest.site? at h
  split at h
  · next hnext _ hcond =>
      cases h
      exact ⟨hlast, rfl, by rw [htest, hcond]; rfl, hnext⟩
  · next _ htarget hcond =>
      cases h
      exact ⟨hlast, rfl, by rw [htest, hcond]; rfl, htarget⟩
  · cases h

theorem WellFormed.site_in (hg : g.WellFormed) {t : NullTest} {s : Site}
    (ht : t ∈ g.nullTests) (hs : t.site? = some s) : s.In g := by
  obtain ⟨b, blk, hblk, ht⟩ := exists_block_of_mem_nullTests ht
  obtain ⟨rfl, hq, htest⟩ := mem_nullTests ht
  refine ⟨t.block, t.quad, ?_,
    marks_of_site? hs (hg.last_of_nullTest hblk hq htest) htest⟩
  rw [site?_block hs, hg.keyed b t.block hblk]
  exact hblk

/-- The branch of a site is visited and compares the register of the site. -/
theorem WellFormed.branch_of_site (hg : g.WellFormed) {s : Site}
    (hs : s ∈ g.nullTests.filterMap NullTest.site?) :
    ∃ q ∈ g.quads, q.id = s.branch ∧
      ∃ cond, q.nullTest? = some (s.register, cond) := by
  obtain ⟨t, ht, hsite⟩ := List.mem_filterMap.1 hs
  obtain ⟨blk, hmem, ht⟩ := List.mem_flatMap.1 ht
  obtain ⟨b, hb, hblk⟩ := List.mem_filterMap.1 hmem
  obtain ⟨rfl, hq, htest⟩ := mem_nullTests ht
  have hmarks := marks_of_site? hsite (hg.last_of_nullTest hblk hq htest) htest
  exact ⟨t.quad, mem_quads_of_block hb hblk hq, hmarks.number, _, hmarks.test⟩

/-- No two comparisons with null are in one block. -/
theorem WellFormed.nullTests_apart (hg : g.WellFormed) :
    g.nullTests.Pairwise fun t t' => t.block.id ≠ t'.block.id := by
  have horder : g.programOrder.Nodup := Search.nodup_reversePostorder _ _ _
  unfold nullTests
  rw [List.pairwise_flatMap]
  constructor
  · intro blk hmem
    obtain ⟨b, -, hblk⟩ := List.mem_filterMap.1 hmem
    have hids : blk.quads.Pairwise fun q q' => q.id ≠ q'.id := by
      have hnodup := hg.proper.nodup b
      rw [quadsAt_of_block hblk] at hnodup
      exact List.pairwise_map.1 hnodup
    unfold Block.nullTests
    rw [List.pairwise_filterMap]
    -- two of them in a block would both be its last quad
    refine hids.imp_of_mem fun {q q'} hq hq' hne t ht t' ht' _ => ?_
    obtain ⟨_, htest, -⟩ := Option.map_eq_some_iff.1 ht
    obtain ⟨_, htest', -⟩ := Option.map_eq_some_iff.1 ht'
    have hlast := hg.last_of_nullTest hblk hq htest
    rw [hg.last_of_nullTest hblk hq' htest'] at hlast
    cases hlast
    exact hne rfl
  · unfold orderedBlocks
    rw [List.pairwise_filterMap]
    refine horder.imp fun {a a'} hne blk hblk blk' hblk' t ht t' ht' => ?_
    rw [(mem_nullTests ht).1, (mem_nullTests ht').1, hg.keyed a blk hblk,
      hg.keyed a' blk' hblk']
    exact hne

/-- A well-formed graph with sites to split, no two of them in one block. -/
structure Ready (g : Graph) (sites : List Site) : Prop where
  wellFormed : g.WellFormed
  sites_in : ∀ s ∈ sites, s.In g
  apart : sites.Pairwise fun s s' => s.block ≠ s'.block

theorem WellFormed.ready (hg : g.WellFormed) :
    g.Ready (g.nullTests.filterMap NullTest.site?) := by
  refine ⟨hg, fun s hs => ?_, ?_⟩
  · obtain ⟨t, ht, hs⟩ := List.mem_filterMap.1 hs
    exact hg.site_in ht hs
  · rw [List.pairwise_filterMap]
    refine hg.nullTests_apart.imp fun {t t'} hne s hs s' hs' => ?_
    rw [site?_block hs, site?_block hs']
    exact hne

theorem Ready.step {p : Splice} {rest : List Site}
    (h : g.Ready (p.site :: rest)) (hsplit : g.Split guard p g₁) :
    g₁.Ready rest := by
  obtain ⟨hne, hapart⟩ := List.pairwise_cons.1 h.apart
  refine ⟨hsplit.wellFormed h.wellFormed, fun s hs => ?_, hapart⟩
  exact hsplit.site_in h.wellFormed (h.sites_in s (List.mem_cons_of_mem _ hs))
    (hne s hs).symm

/-! ## Runs of splits -/

/-- Edges split one after the other. -/
inductive Splits (guard : Option Register) : Graph → List Splice → Graph → Prop
  | nil (g : Graph) : Splits guard g [] g
  | cons {g g₁ g' : Graph} {p : Splice} {rest : List Splice} :
      g.Split guard p g₁ → Splits guard g₁ rest g' →
        Splits guard g (p :: rest) g'

theorem Ready.splits {sites : List Site} :
    ∀ {g : Graph} {events : List Event}, g.Ready sites →
      splitEdges guard sites g = (g', events, .ok ()) →
      ∃ plan, plan.map Splice.site = sites ∧ Splits guard g plan g' := by
  induction sites with
  | nil =>
      intro g events _ h
      cases h
      exact ⟨[], rfl, .nil _⟩
  | cons s rest ih =>
      intro g events hready h
      rw [splitEdges] at h
      split at h
      · cases h
      · next g₁ event hok =>
          obtain ⟨p, rfl, hsplit⟩ := Split.of_splitEdge hready.wellFormed
            (hready.sites_in s List.mem_cons_self) hok
          rcases hrest : splitEdges guard rest g₁ with ⟨g₂, events₂, result⟩
          rw [hrest] at h
          cases h
          obtain ⟨plan, rfl, hsplits⟩ := ih (hready.step hsplit) hrest
          exact ⟨p :: plan, rfl, .cons hsplit hsplits⟩

namespace Splits

variable {plan : List Splice}

theorem wellFormed (h : Splits guard g plan g')
    (hready : g.Ready (plan.map Splice.site)) : g'.WellFormed := by
  induction h with
  | nil => exact hready.wellFormed
  | cons hsplit _ ih => exact ih (hready.step hsplit)

theorem method (h : Splits guard g plan g') : g'.method = g.method := by
  induction h with
  | nil => rfl
  | cons hsplit _ ih => rw [ih, hsplit.method]

theorem keys (h : Splits guard g plan g') :
    g'.blocks.keys = g.blocks.keys ++ plan.map Splice.block := by
  induction h with
  | nil => simp
  | cons hsplit _ ih => rw [ih, hsplit.keys]; simp

/-- Taking the inserted blocks out again, the last first, leaves the blocks as
they were. -/
theorem join (h : Splits guard g plan g')
    (hready : g.Ready (plan.map Splice.site)) :
    ((plan.map Splice.block).foldr joinEdge g').blocks = g.blocks := by
  induction h with
  | nil => rfl
  | cons hsplit _ ih =>
      exact hsplit.join hready.wellFormed (ih (hready.step hsplit))

/-- The way out of a block stays as it is, when no site is in the block. -/
theorem out_of_ne (h : Splits guard g plan g')
    (hready : g.Ready (plan.map Splice.site)) {k : BlockId}
    (hk : (g.block? k).isSome) (hne : ∀ p ∈ plan, k ≠ p.site.block) :
    g'.succs k = g.succs k ∧ g'.quadsAt k = g.quadsAt k := by
  induction h with
  | nil => exact ⟨rfl, rfl⟩
  | cons hsplit _ ih =>
      have hnew := hsplit.ne_block hready.wellFormed hk
      have hfrom := hne _ List.mem_cons_self
      obtain ⟨hsuccs, hquads⟩ := ih (hready.step hsplit)
        (hsplit.isSome hready.wellFormed hk) fun p hp =>
          hne p (List.mem_cons_of_mem _ hp)
      rw [hsuccs, hquads, hsplit.succs, detour_of_ne hnew hfrom, hsplit.quads,
        if_neg hnew, if_neg hfrom]
      exact ⟨rfl, rfl⟩

/-- A block stays as it is, when it is at neither end of a site. -/
theorem block_of_ne (h : Splits guard g plan g')
    (hready : g.Ready (plan.map Splice.site)) {k : BlockId} {blk : Block}
    (hk : g.block? k = some blk)
    (hne : ∀ p ∈ plan, k ≠ p.site.block ∧ k ≠ p.site.nonNull) :
    g'.block? k = some blk := by
  induction h with
  | nil => exact hk
  | cons hsplit _ ih =>
      have hnew := hsplit.ne_block hready.wellFormed
        (Option.isSome_iff_exists.2 ⟨blk, hk⟩)
      obtain ⟨hfrom, hto⟩ := hne _ List.mem_cons_self
      refine ih (hready.step hsplit) ?_ fun p hp =>
        hne p (List.mem_cons_of_mem _ hp)
      rw [hsplit.kept k hnew, hk]
      simp [Splice.reroute, hfrom, hto]

end Splits

/-! ## Each splice in the whole run -/

/-- The edge of a splice is split from one graph to the other, whatever else was
done between them. -/
structure Made (guard : Option Register) (g : Graph) (p : Splice) (g' : Graph) :
    Prop where
  added : g'.block? p.block = some (p.inserted guard)
  succs : g'.succs p.site.block =
    (g.succs p.site.block).replace p.site.nonNull p.block
  quads : g'.quadsAt p.site.block = p.follow (g.quadsAt p.site.block)
  above : g.nextQuad ≤ p.check.val

variable {p : Splice}

theorem Split.made (hg : g.WellFormed) (h : g.Split guard p g') :
    g.Made guard p g' := by
  have hnew := h.ne_block hg (hg.isSome_of_site h.site).1
  refine ⟨h.added, ?_, ?_, h.above⟩
  · rw [h.succs, detour_from hnew]
  · rw [h.quads, if_neg hnew, if_pos rfl]

theorem Made.before {first : Splice} (h : g₁.Made guard p g')
    (hg : g.WellFormed) (hfirst : g.Split guard first g₁) (hp : p.site.In g)
    (hne : p.site.block ≠ first.site.block) : g.Made guard p g' := by
  have hnew := hfirst.ne_block hg (hg.isSome_of_site hp).1
  refine ⟨h.added, ?_, ?_, ?_⟩
  · rw [h.succs, hfirst.succs, detour_of_ne hnew hne]
  · rw [h.quads, hfirst.quads, if_neg hnew, if_neg hne]
  · exact UInt32.le_of_lt (UInt32.lt_of_le_of_lt hfirst.above
      (UInt32.lt_of_lt_of_le hfirst.below h.above))

theorem Made.after {rest : List Splice} (h : g.Made guard p g₁)
    (hg : g.WellFormed) (hsplit : g.Split guard p g₁)
    (hready : g.Ready (p.site :: rest.map Splice.site))
    (hrest : Splits guard g₁ rest g') : g.Made guard p g' := by
  have hready₁ := hready.step hsplit
  obtain ⟨hapart, -⟩ := List.pairwise_cons.1 hready.apart
  have hin : ∀ q ∈ rest, q.site ∈ rest.map Splice.site :=
    fun q hq => List.mem_map_of_mem hq
  have hsite := hsplit.isSome hg (hg.isSome_of_site hsplit.site).1
  obtain ⟨hsuccs, hquads⟩ := hrest.out_of_ne hready₁ hsite
    fun q hq => hapart _ (hin q hq)
  refine ⟨hrest.block_of_ne hready₁ h.added fun q hq => ?_, ?_, ?_, h.above⟩
  · -- the later sites were there before the block was, so it is at no end of
    -- them
    obtain ⟨hfrom, hto⟩ := hg.isSome_of_site
      (hready.sites_in q.site (List.mem_cons_of_mem _ (hin q hq)))
    exact ⟨(hsplit.ne_block hg hfrom).symm, (hsplit.ne_block hg hto).symm⟩
  · rw [hsuccs, h.succs]
  · rw [hquads, h.quads]

/-- Every splice of a run is made, none undone by those that come later. -/
theorem Splits.made {plan : List Splice} (h : Splits guard g plan g')
    (hready : g.Ready (plan.map Splice.site)) (hp : p ∈ plan) :
    g.Made guard p g' := by
  induction h with
  | nil => cases hp
  | cons hsplit hrest ih =>
      have hg := hready.wellFormed
      obtain ⟨hapart, -⟩ := List.pairwise_cons.1 hready.apart
      rcases List.mem_cons.1 hp with rfl | hp
      · exact (hsplit.made hg).after hg hsplit hready hrest
      · have hin := List.mem_map_of_mem (f := Splice.site) hp
        exact (ih (hready.step hsplit) hp).before hg hsplit
          (hready.sites_in p.site (List.mem_cons_of_mem _ hin))
            (hapart _ hin).symm

/-! ## The insertion as a whole -/

/-- The template is the first null check in program order. -/
theorem first_check_of_templateGuard? (h : g.templateGuard? = some guard) :
    ∃ first v, g.quads.find? (fun q => q.opcode = .nullCheck) = some first ∧
      first.instr = .nullCheck guard v := by
  unfold templateGuard? at h
  generalize g.quads = quads at h ⊢
  induction quads with
  | nil => cases h
  | cons q rest ih =>
      rw [List.findSome?_cons] at h
      rw [List.find?_cons]
      cases hinstr : q.instr with
      | nullCheck guard' v =>
          rw [hinstr] at h
          cases h
          refine ⟨q, v, ?_, hinstr⟩
          simp [Quad.opcode, hinstr, Instr.opcode]
      | _ =>
          rw [hinstr] at h
          simpa [Quad.opcode, hinstr, Instr.opcode] using ih h

/-- A successful insertion has split the edges of all sites, after the template
if there was a site. -/
theorem insertChecks_eq {stats : CheckStats}
    (h : g.insertChecks.result = .ok stats) :
    (g.nullTests.filterMap NullTest.site? = [] ∧ g.insertChecks.graph = g) ∨
      ∃ guard events, g.templateGuard? = some guard ∧
        splitEdges guard (g.nullTests.filterMap NullTest.site?) g =
          (g.insertChecks.graph, events, .ok ()) := by
  unfold insertChecks at h ⊢
  dsimp only at h ⊢
  split at h
  · next hnone =>
      rw [if_pos hnone]
      exact Or.inl ⟨List.isEmpty_iff.1 hnone, rfl⟩
  · next hsome =>
      rw [if_neg hsome]
      cases htemplate : g.templateGuard? with
      | none => rw [htemplate] at h; cases h
      | some guard =>
          rw [htemplate] at h
          dsimp only at h ⊢
          rcases hedges :
            splitEdges guard (g.nullTests.filterMap NullTest.site?) g
            with ⟨g', events, result⟩
          rw [hedges] at h
          cases result with
          | error e => cases h
          | ok done => exact Or.inr ⟨guard, events, rfl, hedges⟩

theorem insertChecks_splits {stats : CheckStats} (hg : g.WellFormed)
    (h : g.insertChecks.result = .ok stats) :
    ∃ guard plan, plan.map Splice.site = g.nullTests.filterMap NullTest.site? ∧
      Splits guard g plan g.insertChecks.graph ∧
      ∀ p ∈ plan, g.templateGuard? = some guard := by
  rcases insertChecks_eq h with
    ⟨hnone, hsame⟩ | ⟨guard, events, htemplate, hedges⟩
  · rw [hnone, hsame]
    exact ⟨none, [], rfl, .nil g, fun _ hp => absurd hp (List.not_mem_nil)⟩
  · obtain ⟨plan, hplan, hsplits⟩ := hg.ready.splits hedges
    exact ⟨guard, plan, hplan, hsplits, fun _ _ => htemplate⟩

/-- The plan of a successful insertion, one splice for each site. -/
theorem WellFormed.insertChecks_plan {stats : CheckStats} (hg : g.WellFormed)
    (h : g.insertChecks.result = .ok stats) :
    ∃ plan, plan.map Splice.site = g.nullTests.filterMap NullTest.site? ∧
      Splits g.templateGuard?.join g plan g.insertChecks.graph := by
  obtain ⟨guard, plan, hplan, hsplits, htemplate⟩ := insertChecks_splits hg h
  cases plan with
  | nil =>
      -- without a site there need not be a check to take a guard from
      have hsame : ∀ {g' : Graph}, Splits guard g [] g' → g' = g := by
        intro g' h
        cases h
        rfl
      rw [hsame hsplits]
      exact ⟨[], hplan, .nil g⟩
  | cons p rest =>
      refine ⟨p :: rest, hplan, ?_⟩
      rw [htemplate p List.mem_cons_self]
      exact hsplits

/-- Checks are inserted by splitting one edge for each site, and nothing else is
changed. An inserted block stands between the block of its branch and the one
where the register is not null; it holds one check, a copy of the first for the
register of the branch, under a number that no quad had. The result is again a
graph that would be accepted, and taking the inserted blocks out gives back the
blocks as they were. -/
theorem insertChecks_splits_edges {name : String} {script : List Command}
    {stats : CheckStats} (hbuild : Graph.build name script = .ok g)
    (hresult : g.insertChecks.result = .ok stats) :
    let g' := g.insertChecks.graph
    ∃ plan : List Splice,
      plan.map Splice.site = g.nullTests.filterMap NullTest.site? ∧
      g'.method = g.method ∧
      g'.blocks.keys = g.blocks.keys ++ plan.map Splice.block ∧
      (∀ p ∈ plan, ∃ first guard v blk branch cond,
        g.quads.find? (fun q => q.opcode = .nullCheck) = some first ∧
        first.instr = .nullCheck guard v ∧
        g.block? p.site.block = some blk ∧ blk.last? = some branch ∧
        branch.id = p.site.branch ∧
        branch.nullTest? = some (p.site.register, cond) ∧
        g'.block? p.block = some ⟨p.block,
          [⟨p.check, .nullCheck guard p.site.register⟩],
          [p.site.block], [p.site.nonNull]⟩ ∧
        (∀ b, p.check ∉ g.idsAt b) ∧
        g'.succs p.site.block = blk.succs.replace p.site.nonNull p.block ∧
        ((cond = .eq ∧ blk.fallthrough? = some p.site.nonNull ∧
            g'.quadsAt p.site.block = blk.quads) ∨
          (cond = .ne ∧ branch.target? = some p.site.nonNull ∧
            g'.quadsAt p.site.block =
              blk.quads.dropLast ++ [branch.retarget p.block]))) ∧
      g'.WellFormed ∧ Draft.finish ⟨g', []⟩ = .ok g' ∧
      ((plan.map Splice.block).foldr joinEdge g').blocks = g.blocks := by
  intro g'
  have hg := build_wellFormed hbuild
  obtain ⟨guard, plan, hplan, hsplits, htemplate⟩ :=
    insertChecks_splits hg hresult
  have hready : g.Ready (plan.map Splice.site) := hplan ▸ hg.ready
  have hg' : g'.WellFormed := hsplits.wellFormed hready
  refine ⟨plan, hplan, hsplits.method, hsplits.keys, fun p hp => ?_, hg',
    Draft.finish_eq_ok_iff.2 ⟨rfl, hg'.shaped, rfl⟩, hsplits.join hready⟩
  obtain ⟨first, v, hfirst, hinstr⟩ :=
    first_check_of_templateGuard? (htemplate p hp)
  obtain ⟨blk, branch, hblk, hmarks⟩ :=
    hready.sites_in p.site (List.mem_map_of_mem hp)
  obtain ⟨hadded, hsuccs, hquads, habove⟩ := hsplits.made hready hp
  rw [succs_of_block hblk] at hsuccs
  rw [quadsAt_of_block hblk] at hquads
  refine ⟨first, guard, v, blk, branch, _, hfirst, hinstr, hblk, hmarks.last,
    hmarks.number, hmarks.test, hadded, fun b hmem => ?_, hsuccs, ?_⟩
  · obtain ⟨q, hq, hid⟩ := List.mem_map.1 hmem
    have hlt := UInt32.lt_of_lt_of_le (hg.proper.below b q hq) habove
    rw [hid] at hlt
    exact UInt32.lt_irrefl _ hlt
  · have hedge := hmarks.edge
    cases htaken : p.site.taken with
    | true =>
        rw [if_pos htaken] at hedge
        rw [Splice.follow_of_taken htaken hmarks.last] at hquads
        exact Or.inr ⟨rfl, hedge, hquads⟩
    | false =>
        rw [if_neg (by simp [htaken])] at hedge
        rw [Splice.follow_of_not_taken htaken] at hquads
        exact Or.inl ⟨rfl, hedge, hquads⟩

/-- Three branches that compare with null: one falls through into a block that
loops to itself by the second, and the third falls through to the exit. -/
def nullLoop : Graph where
  method := ⟨"loop", [⟨"R0"⟩]⟩
  blocks := .ofList [
    (.entry, ⟨.entry, [], [], [⟨2⟩]⟩),
    (.exit, ⟨.exit, [], [⟨2⟩, ⟨4⟩], []⟩),
    (⟨2⟩, ⟨⟨2⟩, [⟨⟨1⟩, .nullCheck (some ⟨"G"⟩) ⟨"R0"⟩⟩,
      ⟨⟨2⟩, .branch (.reg ⟨"R0"⟩) (.const .null) .eq .exit⟩],
      [.entry], [⟨3⟩, .exit]⟩),
    (⟨3⟩, ⟨⟨3⟩, [⟨⟨3⟩, .branch (.const .null) (.reg ⟨"R0"⟩) .ne ⟨3⟩⟩],
      [⟨2⟩, ⟨3⟩, ⟨4⟩], [⟨3⟩, ⟨4⟩]⟩),
    (⟨4⟩, ⟨⟨4⟩, [⟨⟨4⟩, .branch (.reg ⟨"R0"⟩) (.const .null) .eq ⟨3⟩⟩],
      [⟨3⟩], [⟨3⟩, .exit]⟩)]
  nextQuad := 5
  nextBlock := 5

/-- The commands that make it. -/
def nullLoopScript : List Command :=
  [.param ⟨"R0"⟩, .block, .block, .block,
    .push ⟨2⟩ (.nullCheck (some ⟨"G"⟩) ⟨"R0"⟩),
    .push ⟨2⟩ (.branch (.reg ⟨"R0"⟩) (.const .null) .eq .exit),
    .push ⟨3⟩ (.branch (.const .null) (.reg ⟨"R0"⟩) .ne ⟨3⟩),
    .push ⟨4⟩ (.branch (.reg ⟨"R0"⟩) (.const .null) .eq ⟨3⟩),
    .edge .entry ⟨2⟩, .edge ⟨2⟩ ⟨3⟩, .edge ⟨2⟩ .exit, .edge ⟨3⟩ ⟨3⟩,
    .edge ⟨3⟩ ⟨4⟩, .edge ⟨4⟩ ⟨3⟩, .edge ⟨4⟩ .exit]

/-- Three edges are split, two of them into one block, and all three splits are
taken back. -/
theorem insertChecks_splits_edges_nullLoop :
    Graph.build "loop" nullLoopScript = .ok nullLoop ∧
      nullLoop.insertChecks.result = .ok ⟨3, 3, 0⟩ ∧
      nullLoop.insertChecks.graph.predsAt ⟨3⟩ = [⟨5⟩, ⟨6⟩, ⟨4⟩] ∧
      nullLoop.insertChecks.graph.WellFormed ∧
      (joinEdge ⟨5⟩ (joinEdge ⟨6⟩
        (joinEdge ⟨7⟩ nullLoop.insertChecks.graph))).blocks =
          nullLoop.blocks := by
  have hbuild : Graph.build "loop" nullLoopScript = .ok nullLoop := rfl
  have hresult : nullLoop.insertChecks.result = .ok ⟨3, 3, 0⟩ := rfl
  obtain ⟨plan, -, -, hkeys, -, hg', -, hjoin⟩ :=
    insertChecks_splits_edges hbuild hresult
  -- the keys tell which blocks were inserted, and in which order
  have hthree : nullLoop.insertChecks.graph.blocks.keys =
      nullLoop.blocks.keys ++ [⟨5⟩, ⟨6⟩, ⟨7⟩] := rfl
  rw [hthree] at hkeys
  rw [← List.append_cancel_left hkeys] at hjoin
  exact ⟨hbuild, hresult, rfl, hg', hjoin⟩

end Graph

end Dataflow
