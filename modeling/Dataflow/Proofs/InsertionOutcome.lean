import Mathlib.Data.Set.Card
import Dataflow.Proofs.DirectConstruction
import Dataflow.Proofs.Reuse
import Dataflow.Proofs.Unreachable

/-!
# Inserting checks succeeds, or fails before it begins

Checks are inserted in two phases. The sites are found in the graph as it is
given, and then their edges are split one after the other. The only failure that
is meant to happen lies between the two: there are sites, and no check to make
copies of. This file shows that it is the only one that does happen, as long as
the counters have numbers left, and counts what a success reports.

The second phase asks for two numbers per site and then for the blocks at both
ends of its edge. That the blocks are there is part of being `Ready`, which
every split keeps for the sites that are left; that the numbers are there is
`Room`, of which every split takes one. So the run of splits carries both along,
and whatever part of the plan has been carried out, the next site still finds
its edge.

What is reported are lengths of lists of comparisons and of sites. They are
counts of blocks, because a comparison with null can only stand at the end of
its block, and then the block alone tells whether one of its edges is a site.
-/

namespace Dataflow

namespace Graph

/-! ## Blocks that test for null -/

/-- The last quad of a block is a branch that compares a register with null,
under a condition and with a target. -/
def EndsWithNullTest (g : Graph) (b : BlockId) (cond : Condition)
    (target : BlockId) : Prop :=
  ∃ blk last r, g.block? b = some blk ∧ blk.quads.getLast? = some last ∧
    (last.instr = .branch (.reg r) (.const .null) cond target ∨
      last.instr = .branch (.const .null) (.reg r) cond target)

/-- A reachable block that ends with a comparison with null. -/
def TestsNull (g : Graph) (b : BlockId) : Prop :=
  g.Reachable b ∧ ∃ cond target, g.EndsWithNullTest b cond target

/-- A reachable block that compares a register with null, for equality or
against it, and has two ways out, so that along one of them the register is not
null. -/
def HasNonNullEdge (g : Graph) (b : BlockId) : Prop :=
  g.Reachable b ∧ ∃ cond target, g.EndsWithNullTest b cond target ∧
    (cond = .eq ∨ cond = .ne) ∧ ∃ c ∈ g.succs b, c ≠ target

/-- Some reachable quad is a null check. -/
def HasCheck (g : Graph) : Prop := ∃ q ∈ g.quads, q.opcode = .nullCheck

/-- Neither counter runs out when so many more numbers are handed out. -/
def Room (g : Graph) (n : Nat) : Prop :=
  g.nextQuad.toNat + n < UInt32.size ∧ g.nextBlock.toNat + n < UInt32.size

instance (g : Graph) (n : Nat) : Decidable (g.Room n) :=
  inferInstanceAs (Decidable (_ ∧ _))

end Graph

/-- A comparison at the end of its block has a non-null edge when it can tell
null apart and the block has a way out besides its target. -/
theorem NullTest.isSome_site?_iff {t : NullTest} {target : BlockId}
    (hlast : t.block.last? = some t.quad)
    (htarget : t.quad.target? = some target) :
    t.site?.isSome ↔
      (t.cond = .eq ∨ t.cond = .ne) ∧ ∃ c ∈ t.block.succs, c ≠ target := by
  have hnext : t.block.fallthrough? = t.block.succs.find? (· ≠ target) := by
    rw [Block.fallthrough?, hlast, Option.bind_some, htarget]
  have hfound : (t.block.succs.find? (· ≠ target)).isSome ↔
      ∃ c ∈ t.block.succs, c ≠ target := by simp
  rw [← hfound, NullTest.site?, hnext, htarget]
  cases t.block.succs.find? (· ≠ target) <;> cases t.cond <;> simp

namespace Graph

variable {g g' : Graph} {guard : Option Register} {s : Site}
  {b target : BlockId} {cond : Condition}

theorem endsWithNullTest_iff : g.EndsWithNullTest b cond target ↔
    ∃ blk last r, g.block? b = some blk ∧ blk.last? = some last ∧
      last.nullTest? = some (r, cond) ∧ last.target? = some target := by
  refine exists_congr fun blk => exists_congr fun last => exists_congr fun r =>
    and_congr_right fun _ => and_congr_right fun _ => ?_
  rw [Quad.nullTest?_eq_some_iff]
  constructor
  · rintro (hinstr | hinstr)
    · exact ⟨⟨target, Or.inl hinstr⟩, by rw [Quad.target?, hinstr]⟩
    · exact ⟨⟨target, Or.inr hinstr⟩, by rw [Quad.target?, hinstr]⟩
  · rintro ⟨⟨target', hinstr⟩, htarget⟩
    have hsame : target' = target := by
      rcases hinstr with hinstr | hinstr <;>
        simpa [Quad.target?, hinstr] using htarget
    exact hsame ▸ hinstr

theorem WellFormed.mem_nullTests_iff (hg : g.WellFormed) {t : NullTest} :
    t ∈ g.nullTests ↔ t.block.id ∈ g.programOrder ∧
      g.block? t.block.id = some t.block ∧ t.block.last? = some t.quad ∧
      t.quad.nullTest? = some (t.register, t.cond) := by
  constructor
  · intro ht
    obtain ⟨blk, hmem, ht⟩ := List.mem_flatMap.1 ht
    obtain ⟨b, hb, hblk⟩ := List.mem_filterMap.1 hmem
    obtain ⟨rfl, hq, htest⟩ := mem_nullTests ht
    rw [hg.keyed b _ hblk]
    exact ⟨hb, hblk, hg.last_of_nullTest hblk hq htest, htest⟩
  · rintro ⟨hb, hblk, hlast, htest⟩
    refine List.mem_flatMap.2 ⟨t.block, List.mem_filterMap.2 ⟨_, hb, hblk⟩, ?_⟩
    refine List.mem_filterMap.2 ⟨t.quad, List.mem_of_getLast? hlast, ?_⟩
    rw [htest]
    rfl

theorem WellFormed.testsNull_iff (hg : g.WellFormed) :
    g.TestsNull b ↔ b ∈ g.nullTests.map fun t => t.block.id := by
  rw [TestsNull, ← mem_programOrder_iff, List.mem_map]
  constructor
  · rintro ⟨hb, cond, target, hends⟩
    obtain ⟨blk, last, r, hblk, hlast, htest, -⟩ := endsWithNullTest_iff.1 hends
    have hkey := hg.keyed b blk hblk
    refine ⟨⟨blk, last, r, cond⟩, hg.mem_nullTests_iff.2 ?_, hkey⟩
    exact ⟨hkey ▸ hb, hkey ▸ hblk, hlast, htest⟩
  · rintro ⟨t, ht, rfl⟩
    obtain ⟨hb, hblk, hlast, htest⟩ := hg.mem_nullTests_iff.1 ht
    obtain ⟨target, htarget⟩ := Quad.exists_target_of_nullTest htest
    exact ⟨hb, t.cond, target,
      endsWithNullTest_iff.2 ⟨_, _, _, hblk, hlast, htest, htarget⟩⟩

theorem WellFormed.hasNonNullEdge_iff (hg : g.WellFormed) :
    g.HasNonNullEdge b ↔
      b ∈ (g.nullTests.filterMap NullTest.site?).map Site.block := by
  rw [HasNonNullEdge, ← mem_programOrder_iff, List.mem_map]
  constructor
  · rintro ⟨hb, cond, target, hends, hedge⟩
    obtain ⟨blk, last, r, hblk, hlast, htest, htarget⟩ :=
      endsWithNullTest_iff.1 hends
    have hkey := hg.keyed b blk hblk
    have ht : (⟨blk, last, r, cond⟩ : NullTest) ∈ g.nullTests :=
      hg.mem_nullTests_iff.2 ⟨hkey ▸ hb, hkey ▸ hblk, hlast, htest⟩
    rw [succs_of_block hblk] at hedge
    obtain ⟨s, hs⟩ := Option.isSome_iff_exists.1
      ((NullTest.isSome_site?_iff (t := ⟨blk, last, r, cond⟩) hlast htarget).2
        hedge)
    exact ⟨s, List.mem_filterMap.2 ⟨_, ht, hs⟩, (site?_block hs).trans hkey⟩
  · rintro ⟨s, hs, rfl⟩
    obtain ⟨t, ht, hs⟩ := List.mem_filterMap.1 hs
    obtain ⟨hb, hblk, hlast, htest⟩ := hg.mem_nullTests_iff.1 ht
    obtain ⟨target, htarget⟩ := Quad.exists_target_of_nullTest htest
    have hedge := (NullTest.isSome_site?_iff hlast htarget).1
      (Option.isSome_iff_exists.2 ⟨s, hs⟩)
    rw [site?_block hs, succs_of_block hblk]
    exact ⟨hb, t.cond, target,
      endsWithNullTest_iff.2 ⟨_, _, _, hblk, hlast, htest, htarget⟩, hedge⟩

theorem ncard_eq_length {P : BlockId → Prop} {l : List BlockId}
    (hnodup : l.Nodup) (h : ∀ b, P b ↔ b ∈ l) : {b | P b}.ncard = l.length := by
  have hset : {b | P b} = (l.toFinset : Set BlockId) := by
    ext b
    simp [h]
  rw [hset, Set.ncard_coe_finset, List.toFinset_card_of_nodup hnodup]

theorem WellFormed.ncard_testsNull (hg : g.WellFormed) :
    {b | g.TestsNull b}.ncard = g.nullTests.length := by
  have hnodup : (g.nullTests.map fun t => t.block.id).Nodup :=
    List.pairwise_map.2 hg.nullTests_apart
  rw [ncard_eq_length hnodup fun b => hg.testsNull_iff, List.length_map]

theorem WellFormed.ncard_hasNonNullEdge (hg : g.WellFormed) :
    {b | g.HasNonNullEdge b}.ncard =
      (g.nullTests.filterMap NullTest.site?).length := by
  have hnodup : ((g.nullTests.filterMap NullTest.site?).map Site.block).Nodup :=
    List.pairwise_map.2 hg.ready.apart
  rw [ncard_eq_length hnodup fun b => hg.hasNonNullEdge_iff, List.length_map]

theorem WellFormed.sites_eq_nil_iff (hg : g.WellFormed) :
    g.nullTests.filterMap NullTest.site? = [] ↔ ∀ b, ¬ g.HasNonNullEdge b := by
  simp only [hg.hasNonNullEdge_iff]
  rw [← List.eq_nil_iff_forall_not_mem, List.map_eq_nil_iff]

theorem templateGuard?_eq_none_iff :
    g.templateGuard? = none ↔ ¬ g.HasCheck := by
  simp only [templateGuard?, List.findSome?_eq_none_iff, HasCheck, not_exists,
    not_and]
  refine forall₂_congr fun q _ => ?_
  cases hinstr : q.instr <;> simp [Quad.opcode, Instr.opcode, hinstr]

/-! ## Room for one more check -/

/-- The quads of a well-formed graph do not reach its counter. -/
theorem WellFormed.topQuad_lt (hg : g.WellFormed)
    (hpos : 0 < g.nextQuad.toNat) :
    g.topQuad.val.toNat + 1 ≤ g.nextQuad.toNat := by
  have hone : 1 ≤ g.nextQuad := UInt32.le_iff_toNat_le.2 hpos
  have hsub : (g.nextQuad - 1).toNat = g.nextQuad.toNat - 1 :=
    UInt32.toNat_sub_of_le _ _ hone
  have hzero : g.nextQuad ≠ 0 := fun h => by simp [h] at hpos
  have hle : g.topQuad.val ≤ g.nextQuad - 1 := by
    refine topQuad_le_iff.2
      ⟨by rw [lastCounted, if_neg hzero]; exact UInt32.le_refl _,
      fun q hq => ?_⟩
    obtain ⟨k, blk, hblk, hq⟩ := mem_allQuads.1 hq
    have hlt := hg.proper.below k q (quadsAt_of_block hblk ▸ hq)
    rw [UInt32.lt_iff_toNat_lt] at hlt
    rw [UInt32.le_iff_toNat_le, hsub]
    omega
  rw [UInt32.le_iff_toNat_le, hsub] at hle
  omega

theorem WellFormed.nextQuad_pos (hg : g.WellFormed) (hs : s.In g) :
    0 < g.nextQuad.toNat := by
  obtain ⟨blk, branch, hblk, hmarks⟩ := hs
  have hbranch := List.mem_of_getLast? hmarks.last
  have hlt := hg.proper.below s.block branch (quadsAt_of_block hblk ▸ hbranch)
  exact Nat.lt_of_le_of_lt (Nat.zero_le _) (UInt32.lt_iff_toNat_lt.1 hlt)

theorem editBlock_of_mem {f : Block → Block} (h : b ∈ g.blocks.keys) :
    g.editBlock b f = .ok { g with blocks := g.blocks.modify b f } := by
  simp [editBlock, KeyedList.contains, h]

/-- A site that is there is split, unless one of the two numbers is not to be
had: both of its ends are blocks of the graph, so the edits at them go
through. -/
theorem WellFormed.splitEdge_cases (hg : g.WellFormed) (hs : s.In g)
    (guard : Option Register) :
    (∃ g' event, splitEdge guard s g = (g', .ok event) ∧
      g'.nextQuad = g.topQuad.val + 2 ∧ g'.nextBlock = g.nextBlock + 1) ∨
    ((∃ g', splitEdge guard s g = (g', .error (.fault .overflow))) ∧
      ¬ (g.topQuad.val.toNat + 2 < UInt32.size ∧
        g.nextBlock.toNat + 1 < UInt32.size)) := by
  obtain ⟨hfrom, hto⟩ := hg.isSome_of_site hs
  obtain ⟨blk, hblk⟩ := Option.isSome_iff_exists.1 hfrom
  obtain ⟨blk', hblk'⟩ := Option.isSome_iff_exists.1 hto
  have hkeys : ∀ k ∈ g.blocks.keys,
      k ∈ (g.blocks.insert ⟨g.nextBlock⟩ (.new ⟨g.nextBlock⟩)).keys := by
    intro k hk
    rw [KeyedList.keys_insert]
    split
    · exact hk
    · exact List.mem_append_left _ hk
  by_cases hquad : g.topQuad.val.toNat + 2 < UInt32.size
  · by_cases hblock : g.nextBlock.toNat + 1 < UInt32.size
    · left
      simp only [splitEdge, freshQuad, if_pos hquad, freshBlock, if_pos hblock]
      rw [editBlock_of_mem (by simpa using hkeys _ (mem_keys_of_block hblk))]
      dsimp only
      rw [editBlock_of_mem (by simpa using hkeys _ (mem_keys_of_block hblk'))]
      exact ⟨_, _, rfl, rfl, rfl⟩
    · right
      simp only [splitEdge, freshQuad, if_pos hquad, freshBlock, if_neg hblock]
      exact ⟨⟨_, rfl⟩, fun h => hblock h.2⟩
  · right
    simp only [splitEdge, freshQuad, if_neg hquad]
    exact ⟨⟨_, rfl⟩, fun h => hquad h.1⟩

/-- One split takes one number of each kind. -/
theorem WellFormed.splitEdge_ok (hg : g.WellFormed) (hs : s.In g)
    (guard : Option Register) {n : Nat} (hroom : g.Room (n + 1)) :
    ∃ g' event, splitEdge guard s g = (g', .ok event) ∧ g'.Room n := by
  obtain ⟨hquad, hblock⟩ := hroom
  have htop := hg.topQuad_lt (hg.nextQuad_pos hs)
  rcases hg.splitEdge_cases hs guard with
    ⟨g', event, hsplit, hnextQuad, hnextBlock⟩ | ⟨-, hfull⟩
  · refine ⟨g', event, hsplit, ?_, ?_⟩
    · have htwo : (g.topQuad.val + 2).toNat = g.topQuad.val.toNat + 2 := by
        rw [UInt32.toNat_add]
        exact Nat.mod_eq_of_lt
          (show g.topQuad.val.toNat + 2 < UInt32.size by omega)
      rw [hnextQuad, htwo]
      omega
    · rw [hnextBlock, Draft.toNat_next (by omega)]
      omega
  · exact absurd ⟨by omega, by omega⟩ hfull

/-! ## The plan is carried out -/

/-- Splits one after the other leave the sites that are still to come as they
were found, and room for them. -/
theorem Ready.splitEdges_ok (guard : Option Register) {done later : List Site} :
    ∀ {g : Graph}, g.Ready (done ++ later) → g.Room (done ++ later).length →
      ∃ g' events, splitEdges guard done g = (g', events, .ok ()) ∧
        g'.Ready later ∧ g'.Room later.length := by
  induction done with
  | nil => exact fun hready hroom => ⟨_, [], rfl, hready, hroom⟩
  | cons s rest ih =>
      intro g hready hroom
      have hs := hready.sites_in s List.mem_cons_self
      obtain ⟨g₁, event, hsplit, hroom₁⟩ :=
        hready.wellFormed.splitEdge_ok hs guard hroom
      obtain ⟨p, rfl, hp⟩ := Split.of_splitEdge hready.wellFormed hs hsplit
      obtain ⟨g', events, hrest, hready', hroom'⟩ := ih (hready.step hp) hroom₁
      refine ⟨g', event :: events, ?_, hready', hroom'⟩
      simp only [splitEdges, hsplit, hrest]

/-- Splits of sites fail only for want of a number. -/
theorem Ready.splitEdges_error {sites : List Site} {e : Error} :
    ∀ {g : Graph} {events : List Event}, g.Ready sites →
      splitEdges guard sites g = (g', events, .error e) →
        e = .fault .overflow := by
  induction sites with
  | nil =>
      intro g events _ h
      cases h
  | cons s rest ih =>
      intro g events hready h
      have hs := hready.sites_in s List.mem_cons_self
      rcases hready.wellFormed.splitEdge_cases hs guard with
        ⟨g₁, event, hsplit, -⟩ | ⟨⟨g₁, hsplit⟩, -⟩
      · obtain ⟨p, rfl, hp⟩ := Split.of_splitEdge hready.wellFormed hs hsplit
        rcases hrest : splitEdges guard rest g₁ with ⟨g₂, events₂, result⟩
        simp only [splitEdges, hsplit, hrest] at h
        cases h
        exact ih (hready.step hp) hrest
      · rw [splitEdges, hsplit] at h
        cases h
        rfl

/-- The edge of a site that is there is recorded at both ends. -/
theorem WellFormed.edge_of_in (hg : g.WellFormed) (hs : s.In g) :
    s.nonNull ∈ g.succs s.block ∧ s.block ∈ g.predsAt s.nonNull := by
  obtain ⟨blk, branch, hblk, hmarks⟩ := hs
  have hsucc : s.nonNull ∈ g.succs s.block := by
    rw [succs_of_block hblk]
    exact hg.mem_succs_of_marks hblk hmarks
  exact ⟨hsucc, (hg.linked.mirrored _ _).1 hsucc⟩

/-! ## The two outcomes -/

theorem length_skipped (tests : List NullTest) :
    (tests.filter fun t => t.site?.isNone).length =
      tests.length - (tests.filterMap NullTest.site?).length := by
  have hsplit := List.length_eq_countP_add_countP (l := tests) fun t =>
    t.site?.isSome
  have hnone : tests.countP (fun t => t.site?.isNone) =
      tests.countP fun t => ¬ t.site?.isSome := by
    congr 1
    funext t
    cases t.site? <;> rfl
  rw [← List.countP_eq_length_filter, List.length_filterMap_eq_countP, hnone]
  omega

theorem insertChecks_noTemplate
    (hsites : g.nullTests.filterMap NullTest.site? ≠ [])
    (hcheck : ¬ g.HasCheck) :
    g.insertChecks.result = .error (.noTemplate g.name) ∧
      g.insertChecks.graph = g := by
  simp only [insertChecks, List.isEmpty_eq_false_iff.2 hsites,
    templateGuard?_eq_none_iff.2 hcheck]
  exact ⟨rfl, rfl⟩

theorem WellFormed.insertChecks_ok (hg : g.WellFormed)
    (hcheck : g.nullTests.filterMap NullTest.site? = [] ∨ g.HasCheck)
    (hroom : g.Room (g.nullTests.filterMap NullTest.site?).length) :
    g.insertChecks.result = .ok ⟨g.nullTests.length,
      (g.nullTests.filterMap NullTest.site?).length,
      (g.nullTests.filter fun t => t.site?.isNone).length⟩ := by
  by_cases hnone : g.nullTests.filterMap NullTest.site? = []
  · simp only [Graph.insertChecks, hnone, List.isEmpty_nil]
    rfl
  · obtain ⟨guard, htemplate⟩ := Option.ne_none_iff_exists'.1
      (mt templateGuard?_eq_none_iff.1
        (not_not_intro (hcheck.resolve_left hnone)))
    have hready : g.Ready (g.nullTests.filterMap NullTest.site? ++ []) := by
      rw [List.append_nil]
      exact hg.ready
    obtain ⟨g', events, hedges, -⟩ :=
      hready.splitEdges_ok guard (by rwa [List.append_nil])
    simp only [Graph.insertChecks, List.isEmpty_eq_false_iff.2 hnone,
      htemplate, hedges]
    rfl

theorem WellFormed.insertChecks_ne_unknownBlock (hg : g.WellFormed)
    (b : BlockId) : g.insertChecks.result ≠ .error (.unknownBlock b) := by
  unfold Graph.insertChecks
  dsimp only
  split
  · exact nofun
  · cases htemplate : g.templateGuard? with
    | none => exact nofun
    | some guard =>
        dsimp only
        rcases hedges :
          splitEdges guard (g.nullTests.filterMap NullTest.site?) g
          with ⟨g', events, e | done⟩
        · rw [hg.ready.splitEdges_error hedges]
          exact nofun
        · exact nofun

end Graph

/-- What the analysis holds is not touched when the insertion fails, as a
function of what it holds or at a desk. -/
theorem NonNull.visit_of_failed {g : Graph} {e : Error}
    (h : g.insertChecks.result = .error e) :
    (∀ s, s.inserting = true → (visit s g).state = s ∧
      (visit s g).result = .error e ∧
      (visit s g).graph = g.insertChecks.graph) ∧
    ∀ d, d.notes.inserting = true → (routine.visit d g).state = d ∧
      (routine.visit d g).result = .error e ∧
      (routine.visit d g).graph = g.insertChecks.graph := by
  have hintake : intake true g =
      .error (g.insertChecks.graph, g.insertChecks.events, e) := by
    simp only [intake, h, if_true]
  refine ⟨fun s hs => ?_, fun d hd => ?_⟩
  · rw [visit_eq_intake, hs, hintake]
    exact ⟨rfl, rfl, rfl⟩
  · rw [work_eq_intake, hd, hintake]
    exact ⟨rfl, rfl, rfl⟩

namespace Graph

/-- Inserting checks into a graph that a script makes ends in one of two ways.
If some block has a non-null edge and no reachable quad is a check, it fails for
want of a template and leaves the graph as it was, and an analysis that asked
for it keeps all that it held. Otherwise, if the counters have room for one
number of each kind per such block, it succeeds. It reports how many blocks test
for null, how many of them have a non-null edge and how many have none, and adds
as many blocks as it reports insertions; and when the splits up to any site have
been made, the edge of the site is there, recorded at both ends. That a block is
not known is never the answer, room or not. -/
theorem insertChecks_outcome {name : String} {script : List Command} {g : Graph}
    (hbuild : Graph.build name script = .ok g) :
    let sites := g.nullTests.filterMap NullTest.site?
    let tests := {b | g.TestsNull b}.ncard
    let active := {b | g.HasNonNullEdge b}.ncard
    ((∃ b, g.HasNonNullEdge b) → ¬ g.HasCheck →
      g.insertChecks.result = .error (.noTemplate g.name) ∧
        g.insertChecks.graph = g ∧
      (∀ s, s.inserting = true → (NonNull.visit s g).state = s ∧
        (NonNull.visit s g).result = .error (.noTemplate g.name) ∧
        (NonNull.visit s g).graph = g) ∧
      ∀ d, d.notes.inserting = true → (NonNull.routine.visit d g).state = d ∧
        (NonNull.routine.visit d g).result = .error (.noTemplate g.name) ∧
        (NonNull.routine.visit d g).graph = g) ∧
    (((∀ b, ¬ g.HasNonNullEdge b) ∨ g.HasCheck) → g.Room active →
      g.insertChecks.result = .ok ⟨tests, active, tests - active⟩ ∧
      g.insertChecks.graph.blocks.keys.length = g.blocks.keys.length + active ∧
      (∀ b, g.HasNonNullEdge b ↔ ∃ s ∈ sites, s.block = b) ∧
      ∀ guard done s later, sites = done ++ s :: later →
        ∃ g' events, splitEdges guard done g = (g', events, .ok ()) ∧
          s.In g' ∧ s.nonNull ∈ g'.succs s.block ∧
            s.block ∈ g'.predsAt s.nonNull) ∧
    ∀ b, g.insertChecks.result ≠ .error (.unknownBlock b) := by
  intro sites tests active
  have hg := build_wellFormed hbuild
  have htests : tests = g.nullTests.length := hg.ncard_testsNull
  have hactive : active = sites.length := hg.ncard_hasNonNullEdge
  refine ⟨fun hsome hcheck => ?_, fun hcase hroom => ?_,
    hg.insertChecks_ne_unknownBlock⟩
  · have hsites : sites ≠ [] := fun hnone =>
      hsome.elim fun b hb => hg.sites_eq_nil_iff.1 hnone b hb
    obtain ⟨hresult, hgraph⟩ := insertChecks_noTemplate hsites hcheck
    have hkept := NonNull.visit_of_failed hresult
    rw [hgraph] at hkept
    exact ⟨hresult, hgraph, hkept⟩
  · have hcase : sites = [] ∨ g.HasCheck := hcase.imp_left hg.sites_eq_nil_iff.2
    rw [hactive] at hroom
    have hresult := hg.insertChecks_ok hcase hroom
    obtain ⟨guard, plan, hplan, hsplits, -⟩ := insertChecks_splits hg hresult
    have hlength : plan.length = sites.length := by
      rw [← List.length_map, hplan]
    refine ⟨?_, ?_, fun b => ?_, fun guard done s later hsites => ?_⟩
    · rw [hresult, length_skipped, htests, hactive]
    · rw [hsplits.keys, List.length_append, List.length_map, hlength, hactive]
    · rw [hg.hasNonNullEdge_iff, List.mem_map]
    · have hready : g.Ready (done ++ s :: later) := hsites ▸ hg.ready
      obtain ⟨g', events, hdone, hready, -⟩ :=
        hready.splitEdges_ok guard (hsites ▸ hroom)
      have hs := hready.sites_in s List.mem_cons_self
      exact ⟨g', events, hdone, hs, hready.wellFormed.edge_of_in hs⟩

/-- A branch on null with two ways out, and no check in the method. -/
def uncheckedBranch : Graph where
  method := ⟨"branch", [⟨"R0"⟩]⟩
  blocks := .ofList [
    (.entry, ⟨.entry, [], [], [⟨2⟩]⟩),
    (.exit, ⟨.exit, [], [⟨2⟩, ⟨3⟩], []⟩),
    (⟨2⟩, ⟨⟨2⟩, [⟨⟨1⟩, .branch (.reg ⟨"R0"⟩) (.const .null) .eq .exit⟩],
      [.entry], [⟨3⟩, .exit]⟩),
    (⟨3⟩, ⟨⟨3⟩, [], [⟨2⟩], [.exit]⟩)]
  nextQuad := 2
  nextBlock := 4

/-- The commands that make it. -/
def uncheckedBranchScript : List Command :=
  [.param ⟨"R0"⟩, .block, .block,
    .push ⟨2⟩ (.branch (.reg ⟨"R0"⟩) (.const .null) .eq .exit),
    .edge .entry ⟨2⟩, .edge ⟨2⟩ ⟨3⟩, .edge ⟨2⟩ .exit, .edge ⟨3⟩ .exit]

/-- Both ways it can end: without a template, and with three edges to split,
where the second is a loop at a block that the first split leads to. -/
theorem insertChecks_outcome_nullLoop :
    (Graph.build "branch" uncheckedBranchScript = .ok uncheckedBranch ∧
      (∃ b, uncheckedBranch.HasNonNullEdge b) ∧ ¬ uncheckedBranch.HasCheck ∧
      uncheckedBranch.insertChecks.result = .error (.noTemplate "branch") ∧
      ∀ s, s.inserting = true → (NonNull.visit s uncheckedBranch).state = s) ∧
    Graph.build "loop" nullLoopScript = .ok nullLoop ∧ nullLoop.HasCheck ∧
      nullLoop.Room {b | nullLoop.HasNonNullEdge b}.ncard ∧
      {b | nullLoop.TestsNull b}.ncard = 3 ∧
      {b | nullLoop.HasNonNullEdge b}.ncard = 3 ∧
      nullLoop.insertChecks.graph.blocks.keys.length = 8 ∧
      ∃ g' events,
        splitEdges none [⟨⟨2⟩, ⟨2⟩, ⟨"R0"⟩, ⟨3⟩, false⟩] nullLoop =
          (g', events, .ok ()) ∧
        ⟨3⟩ ∈ g'.succs ⟨3⟩ ∧ ⟨3⟩ ∈ g'.predsAt ⟨3⟩ := by
  have hbuild : Graph.build "branch" uncheckedBranchScript =
      .ok uncheckedBranch := rfl
  have hbuild' : Graph.build "loop" nullLoopScript = .ok nullLoop := rfl
  have hedge : ∃ b, uncheckedBranch.HasNonNullEdge b :=
    ⟨⟨2⟩, (build_wellFormed hbuild).hasNonNullEdge_iff.2 (by decide)⟩
  have hbare : ¬ uncheckedBranch.HasCheck := templateGuard?_eq_none_iff.1 rfl
  have hcheck : nullLoop.HasCheck :=
    ⟨⟨⟨1⟩, .nullCheck (some ⟨"G"⟩) ⟨"R0"⟩⟩, by decide, rfl⟩
  have hroom : nullLoop.Room {b | nullLoop.HasNonNullEdge b}.ncard := by
    rw [(build_wellFormed hbuild').ncard_hasNonNullEdge]
    decide
  obtain ⟨hresult, -, hkept, -⟩ := (insertChecks_outcome hbuild).1 hedge hbare
  obtain ⟨hmade, hblocks, -, hplan⟩ :=
    (insertChecks_outcome hbuild').2.1 (Or.inr hcheck) hroom
  have hstats : nullLoop.insertChecks.result = .ok ⟨3, 3, 0⟩ := rfl
  rw [hstats] at hmade
  obtain ⟨htests, hactive, -⟩ := CheckStats.mk.inj (Except.ok.inj hmade)
  obtain ⟨g', events, hdone, -, hfound⟩ :=
    hplan none [⟨⟨2⟩, ⟨2⟩, ⟨"R0"⟩, ⟨3⟩, false⟩]
      ⟨⟨3⟩, ⟨3⟩, ⟨"R0"⟩, ⟨3⟩, true⟩ _ rfl
  exact ⟨⟨hbuild, hedge, hbare, hresult, fun s hs => (hkept s hs).1⟩,
    hbuild', hcheck, hroom, htests.symm, hactive.symm,
    by rw [hblocks, ← hactive]; rfl, g', events, hdone, hfound⟩

end Graph

end Dataflow
