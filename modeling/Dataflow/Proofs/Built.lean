import Mathlib.Data.List.Nodup
import Dataflow.Draft
import Dataflow.Proofs.Reach

/-!
# Built graphs are proper

A draft numbers its quads from a counter, so no number is given twice, and it
has its sentinels from the start. `Proper` says so of all blocks, also those
that the entry does not reach, since a later edge may reach them; what it says
of the reachable blocks is what the solver asks of a graph. A draft also records
each edge at both ends, and it notes a quad that is pushed into the entry as a
mistake, so in a graph that is handed out control can come to every quad.

`Sound` holds all of this together and every command keeps it. Only a push adds
a quad and only an edge command adds edges. A new block changes nothing, but for
that its key has to be new: that the keys lie below a counter of their own is
part of the invariant for this reason alone.
-/

namespace Dataflow

namespace Graph

/-- Both sentinels are there, and the quads of all blocks have different numbers
below the counter. -/
structure Proper (g : Graph) : Prop where
  ends : g.HasEnds
  nodup : ∀ b, ((g.quadsAt b).map Quad.id).Nodup
  apart : ∀ b b', b ≠ b' →
    ((g.quadsAt b).map Quad.id).Disjoint ((g.quadsAt b').map Quad.id)
  below : ∀ b, ∀ q ∈ g.quadsAt b, q.id.val < g.nextQuad

theorem Proper.distinctQuads {g : Graph} (h : g.Proper) : g.DistinctQuads := by
  have horder : g.programOrder.Nodup := Search.nodup_reversePostorder _ _ _
  unfold DistinctQuads
  rw [quads_eq, List.map_flatMap, List.nodup_flatMap]
  exact ⟨fun b _ => h.nodup b, horder.imp fun hne => h.apart _ _ hne⟩

/-- The numbers of the quads under a key. -/
def idsAt (g : Graph) (b : BlockId) : List QuadId := (g.quadsAt b).map Quad.id

theorem Proper.of_sublist {g g' : Graph} (h : g.Proper)
    (hends : ∀ b, (g.block? b).isSome → (g'.block? b).isSome)
    (hat : ∀ b, (g'.idsAt b).Sublist (g.idsAt b))
    (hnext : g.nextQuad = g'.nextQuad) : g'.Proper := by
  refine ⟨⟨hends _ h.ends.1, hends _ h.ends.2⟩, fun b => ?_, fun b b' hne => ?_,
    fun b q hq => ?_⟩
  · exact (h.nodup b).sublist (hat b)
  · exact fun i hi hi' =>
      h.apart b b' hne ((hat b).subset hi) ((hat b').subset hi')
  · obtain ⟨p, hp, hid⟩ :=
      List.mem_map.1 ((hat b).subset (List.mem_map.2 ⟨q, hq, rfl⟩))
    rw [← hnext, ← hid]
    exact h.below b p hp

/-- A quad whose number was not given before can be added to a block. -/
theorem Proper.of_snoc {g g' : Graph} (h : g.Proper) {b : BlockId} {i : QuadId}
    (hends : ∀ b, (g.block? b).isSome → (g'.block? b).isSome)
    (hat : ∀ b', (g'.idsAt b').Sublist
      (if b' = b then g.idsAt b' ++ [i] else g.idsAt b'))
    (hi : g.nextQuad ≤ i.val) (hnext : i.val < g'.nextQuad) :
    g'.Proper := by
  have hold : ∀ b' j, j ∈ g'.idsAt b' → j ∈ g.idsAt b' ∨ (b' = b ∧ j = i) := by
    intro b' j hj
    have hj := (hat b').subset hj
    split at hj
    · next hb =>
        rcases List.mem_append.1 hj with hj | hj
        · exact Or.inl hj
        · exact Or.inr ⟨hb, List.mem_singleton.1 hj⟩
    · exact Or.inl hj
  have hbelow : ∀ b', ∀ j ∈ g.idsAt b', j.val < i.val := by
    intro b' j hj
    obtain ⟨x, hx, rfl⟩ := List.mem_map.1 hj
    exact UInt32.lt_of_lt_of_le (h.below b' x hx) hi
  have hfresh : ∀ b', i ∉ g.idsAt b' :=
    fun b' hmem => UInt32.lt_irrefl _ (hbelow b' i hmem)
  refine ⟨⟨hends _ h.ends.1, hends _ h.ends.2⟩, fun b' => ?_,
    fun b₁ b₂ hne => ?_, fun b' x hx => ?_⟩
  · refine List.Nodup.sublist (hat b') ?_
    split
    · rw [List.nodup_append]
      refine ⟨h.nodup b', by simp, fun j hj j' hj' => ?_⟩
      rw [List.mem_singleton.1 hj']
      exact fun heq => hfresh b' (heq ▸ hj)
    · exact h.nodup b'
  · rw [List.disjoint_left]
    intro j hj hj'
    rcases hold b₁ j hj with hj | ⟨hb, rfl⟩
    · rcases hold b₂ j hj' with hj' | ⟨-, rfl⟩
      · exact h.apart b₁ b₂ hne hj hj'
      · exact hfresh b₁ hj
    · rcases hold b₂ j hj' with hj' | ⟨hb', -⟩
      · exact hfresh b₂ hj'
      · exact hne (hb.trans hb'.symm)
  · rcases hold b' x.id (List.mem_map.2 ⟨x, hx, rfl⟩) with hx | ⟨-, hx⟩
    · exact UInt32.lt_trans (hbelow b' x.id hx) hnext
    · rw [hx]
      exact hnext

end Graph

/-! ## Invariants of a draft -/

namespace Draft

/-- A property of drafts that every command keeps. -/
structure Kept (P : Draft → Prop) : Prop where
  param : ∀ d r, P d → P (d.param r)
  block : ∀ d b d', P d → d.block = .ok (b, d') → P d'
  push : ∀ d b i q d', P d → d.push b i = .ok (q, d') → P d'
  edge : ∀ d a b, P d → P (d.edge a b)

theorem Kept.apply {P : Draft → Prop} (hkept : Kept P) {c : Command}
    {d d' : Draft} (h : P d) (hd : d.apply c = .ok d') : P d' := by
  cases c with
  | param r =>
      cases hd
      exact hkept.param d r h
  | block =>
      rw [Draft.apply] at hd
      cases hb : d.block with
      | error f => rw [hb] at hd; cases hd
      | ok made =>
          rw [hb] at hd
          cases hd
          exact hkept.block d _ _ h hb
  | push b i =>
      rw [Draft.apply] at hd
      cases hp : d.push b i with
      | error f => rw [hp] at hd; cases hd
      | ok made =>
          rw [hp] at hd
          cases hd
          exact hkept.push d b i _ _ h hp
  | edge a b =>
      cases hd
      exact hkept.edge d a b h

theorem Kept.run {P : Draft → Prop} (hkept : Kept P) {script : List Command} :
    ∀ {d d' : Draft}, P d → d.run script = .ok d' → P d' := by
  induction script with
  | nil =>
      intro d d' h hd
      cases hd
      exact h
  | cons c rest ih =>
      intro d d' h hd
      rw [Draft.run, List.foldlM_cons] at hd
      cases hc : d.apply c with
      | error f => rw [hc] at hd; cases hd
      | ok next =>
          rw [hc] at hd
          exact ih (hkept.apply h hc) hd

/-! ## What the commands do -/

theorem toNat_next {n : UInt32} (h : n.toNat + 1 < UInt32.size) :
    (n + 1).toNat = n.toNat + 1 := by
  have hsum : (n + 1).toNat = (n.toNat + 1) % UInt32.size :=
    UInt32.toNat_add n 1
  rw [hsum, Nat.mod_eq_of_lt h]

theorem lt_next {n : UInt32} (h : n.toNat + 1 < UInt32.size) : n < n + 1 := by
  rw [UInt32.lt_iff_toNat_lt, toNat_next h]
  exact Nat.lt_succ_self _

theorem freshBlock_eq {g g' : Graph} {b : BlockId}
    (h : g.freshBlock = .ok (b, g')) :
    b = ⟨g.nextBlock⟩ ∧ ∃ next, g.nextBlock < next ∧
      g' = { g with
        blocks := g.blocks.insert b (.new b)
        nextBlock := next } := by
  unfold Graph.freshBlock at h
  split at h
  · next hroom =>
      cases h
      exact ⟨rfl, _, lt_next hroom, rfl⟩
  · cases h

theorem block_eq {d d' : Draft} {b : BlockId} (h : d.block = .ok (b, d')) :
    b = ⟨d.graph.nextBlock⟩ ∧ d.graph.nextBlock < d'.graph.nextBlock ∧
      d'.graph.blocks = d.graph.blocks.insert b (.new b) ∧
      d.graph.nextQuad = d'.graph.nextQuad ∧ d'.defects = d.defects := by
  unfold block at h
  cases hfresh : d.graph.freshBlock with
  | error f => rw [hfresh] at h; cases h
  | ok made =>
      rw [hfresh] at h
      cases h
      obtain ⟨hb, next, hnext, hgraph⟩ := freshBlock_eq hfresh
      rw [hgraph]
      exact ⟨hb, hnext, rfl, rfl, rfl⟩

theorem push_eq {d d' : Draft} {b : BlockId} {i : Instr} {q : QuadId}
    (h : d.push b i = .ok (q, d')) :
    q = ⟨d.graph.nextQuad⟩ ∧ d.graph.nextQuad < d'.graph.nextQuad ∧
      d'.graph.blocks = d.graph.blocks.modify b (·.push ⟨q, i⟩) ∧
      d'.graph.nextBlock = d.graph.nextBlock ∧
      d'.defects = d.defects ++ d.pushDefects q b := by
  unfold push at h
  split at h
  · next hroom =>
      cases h
      refine ⟨rfl, ?_, rfl, rfl, rfl⟩
      exact lt_next hroom
  · cases h

theorem edge_eq (d : Draft) (a b : BlockId) :
    ((d.graph.block? a).isSome ∧ (d.graph.block? b).isSome ∧
      (d.edge a b).graph.blocks =
        (d.graph.blocks.modify a (·.withSucc b)).modify b (·.withPred a) ∧
      d.graph.nextQuad = (d.edge a b).graph.nextQuad ∧
      (d.edge a b).graph.nextBlock = d.graph.nextBlock ∧
      (d.edge a b).defects = d.defects) ∨
    ((d.edge a b).graph = d.graph ∧
      (d.edge a b).defects = d.defects ++ [.edgeToUnknown a b]) := by
  by_cases hthere : d.graph.blocks.contains a && d.graph.blocks.contains b
  · left
    obtain ⟨ha, hb⟩ := Bool.and_eq_true_iff.1 hthere
    have hsome : ∀ {k}, d.graph.blocks.contains k = true →
        (d.graph.block? k).isSome := by
      intro k hk
      rw [Option.isSome_iff_ne_none]
      exact fun hnone => KeyedList.get?_eq_none_iff.1 hnone
        (of_decide_eq_true hk)
    unfold edge
    rw [if_pos hthere]
    exact ⟨hsome ha, hsome hb, rfl, rfl, rfl, rfl⟩
  · right
    unfold edge
    rw [if_neg hthere]
    exact ⟨rfl, rfl⟩

theorem mem_link {l : List BlockId} {a b : BlockId} :
    a ∈ Block.link l b ↔ a ∈ l ∨ a = b := by
  unfold Block.link
  split
  · next hb =>
      refine ⟨Or.inl, fun h => ?_⟩
      rcases h with h | rfl
      · exact h
      · exact hb
  · rw [List.mem_append, List.mem_singleton]

/-- What a push does not look at stays. -/
theorem listAt_push {d d' : Draft} {b : BlockId} {i : Instr} {q : QuadId}
    (hd : d.push b i = .ok (q, d')) {γ : Type} (f : Block → List γ)
    (hf : ∀ blk : Block, f (blk.push ⟨q, i⟩) = f blk) (k : BlockId) :
    d'.graph.blocks.listAt f k = d.graph.blocks.listAt f k := by
  rw [(push_eq hd).2.2.1, KeyedList.listAt_modify]
  simp only [hf, ite_self]

theorem isSome_push {d d' : Draft} {b : BlockId} {i : Instr} {q : QuadId}
    (hd : d.push b i = .ok (q, d')) (k : BlockId) :
    (d'.graph.block? k).isSome = (d.graph.block? k).isSome := by
  rw [Graph.block?, (push_eq hd).2.2.1]
  exact KeyedList.isSome_get?_modify _ _ _ _

section Edge

variable {g : Graph} {a b : BlockId}

theorem isSome_edge (k : BlockId) :
    (((g.blocks.modify a (·.withSucc b)).modify b (·.withPred a)).get?
      k).isSome =
      (g.block? k).isSome := by
  rw [KeyedList.isSome_get?_modify, KeyedList.isSome_get?_modify]
  rfl

theorem quads_edge (k : BlockId) :
    ((g.blocks.modify a (·.withSucc b)).modify b (·.withPred a)).listAt
      Block.quads k = g.quadsAt k := by
  rw [KeyedList.listAt_modify, KeyedList.listAt_modify, KeyedList.listAt_modify]
  simp only [Block.withPred, Block.withSucc, ite_self]
  rfl

theorem succs_edge (ha : (g.block? a).isSome) (k : BlockId) :
    ((g.blocks.modify a (·.withSucc b)).modify b (·.withPred a)).listAt
      Block.succs k =
        if k = a then Block.link (g.succs k) b else g.succs k := by
  obtain ⟨blk, hblk⟩ := Option.isSome_iff_exists.1 ha
  rw [KeyedList.listAt_modify]
  simp only [Block.withPred, ite_self]
  rw [KeyedList.listAt_modify, Graph.succs_eq]
  split
  · next hk =>
      rw [hk, KeyedList.listAt_of_get? hblk, KeyedList.listAt_of_get? hblk]
      rfl
  · rfl

theorem preds_edge (hb : (g.block? b).isSome) (k : BlockId) :
    ((g.blocks.modify a (·.withSucc b)).modify b (·.withPred a)).listAt
      Block.preds k =
        if k = b then Block.link (g.predsAt k) a else g.predsAt k := by
  obtain ⟨blk, hblk⟩ := Option.isSome_iff_exists.1 hb
  rw [KeyedList.listAt_modify, KeyedList.listAt_modify, KeyedList.listAt_modify]
  simp only [Block.withPred, Block.withSucc, ite_self]
  split
  · next hk =>
      rw [hk, KeyedList.listAt_of_get? hblk, Graph.predsAt_of_block hblk]
  · rfl

end Edge

/-- The graph is proper with mirrored edges, its keys lie below the counter, and
the entry has no quads unless that was noted as a mistake. -/
structure Sound (d : Draft) : Prop where
  proper : d.graph.Proper
  mirrored : d.graph.Mirrored
  fresh : ∀ b, (d.graph.block? b).isSome → b.val < d.graph.nextBlock
  entry : d.defects = [] → d.graph.quadsAt .entry = []

theorem block_new {name : String} {b : BlockId} {blk : Block}
    (h : (Draft.new name).graph.block? b = some blk) :
    b.val < 2 ∧ blk = .new b := by
  have hmem := KeyedList.mem_entries_of_get? h
  rcases List.mem_cons.1 hmem with heq | hmem
  · cases heq
    exact ⟨by decide, rfl⟩
  · cases List.mem_singleton.1 hmem
    exact ⟨by decide, rfl⟩

theorem listAt_new (name : String) {γ : Type} (f : Block → List γ) (b : BlockId)
    (hf : f (.new b) = []) : (Draft.new name).graph.blocks.listAt f b = [] := by
  cases hblk : (Draft.new name).graph.block? b with
  | none => exact congrArg (fun o => (Option.map f o).getD []) hblk
  | some blk =>
      rw [KeyedList.listAt_of_get? hblk, (block_new hblk).2]
      exact hf

theorem new_sound (name : String) : (Draft.new name).Sound := by
  have hquads : ∀ b, (Draft.new name).graph.quadsAt b = [] :=
    fun b => listAt_new name Block.quads b rfl
  refine ⟨⟨⟨rfl, rfl⟩, fun b => ?_, fun b b' _ => ?_, fun b q hq => ?_⟩,
    fun a b hb => ?_, fun b hb => ?_, fun _ => hquads .entry⟩
  · rw [hquads]
    exact List.nodup_nil
  · rw [hquads]
    exact List.disjoint_nil_left _
  · rw [hquads] at hq
    cases hq
  · rw [Graph.succs_eq, listAt_new name Block.succs a rfl] at hb
    cases hb
  · obtain ⟨blk, hblk⟩ := Option.isSome_iff_exists.1 hb
    exact (block_new hblk).1

theorem Sound.param {d : Draft} (h : d.Sound) (r : Register) :
    (d.param r).Sound :=
  ⟨h.proper.of_sublist (fun _ hb => hb) (fun _ => List.Sublist.refl _) rfl,
    fun a b hb => h.mirrored a b hb, h.fresh, h.entry⟩

/-- Nothing stands under the key of a new block. -/
theorem Sound.block_free {d d' : Draft} {b : BlockId} (h : d.Sound)
    (hd : d.block = .ok (b, d')) : d.graph.block? b = none := by
  cases hget : d.graph.block? b with
  | none => rfl
  | some blk =>
      have hlt := h.fresh b (Option.isSome_iff_exists.2 ⟨blk, hget⟩)
      rw [(block_eq hd).1] at hlt
      exact absurd hlt (UInt32.lt_irrefl _)

theorem Sound.listAt_block {d d' : Draft} {b : BlockId} (h : d.Sound)
    (hd : d.block = .ok (b, d')) {γ : Type} (f : Block → List γ)
    (hf : f (.new b) = []) (k : BlockId) :
    d'.graph.blocks.listAt f k = d.graph.blocks.listAt f k := by
  rw [(block_eq hd).2.2.1, KeyedList.listAt_insert]
  split
  · next hk =>
      have hnone : d.graph.blocks.get? b = none := h.block_free hd
      rw [hf, hk, KeyedList.listAt, hnone]
      rfl
  · rfl

theorem Sound.block {d d' : Draft} {b : BlockId} (h : d.Sound)
    (hd : d.block = .ok (b, d')) : d'.Sound := by
  obtain ⟨hb, hnext, hblocks, hquad, hdefects⟩ := block_eq hd
  have hquads : ∀ k, d'.graph.quadsAt k = d.graph.quadsAt k :=
    fun k => h.listAt_block hd Block.quads rfl k
  refine ⟨h.proper.of_sublist (fun k hk => ?_) (fun k => ?_) hquad,
    fun k l hl => ?_, fun k hk => ?_, fun hdef => ?_⟩
  · rw [Graph.block?, hblocks]
    exact KeyedList.isSome_get?_insert hk
  · rw [Graph.idsAt, hquads]
    exact List.Sublist.refl _
  · rw [Graph.succs_eq, h.listAt_block hd Block.succs rfl,
      ← Graph.succs_eq] at hl
    rw [Graph.predsAt, h.listAt_block hd Block.preds rfl]
    exact h.mirrored k l hl
  · rw [Graph.block?, hblocks, KeyedList.get?_insert] at hk
    split at hk
    · next hk' =>
        rw [hk', hb]
        exact hnext
    · exact UInt32.lt_trans (h.fresh k hk) hnext
  · rw [hquads]
    exact h.entry (hdefects ▸ hdef)

/-- A push that is not noted as a mistake goes to no sentinel. -/
theorem quads_push_sentinel {d d' : Draft} {b : BlockId} {i : Instr}
    {q : QuadId} (hd : d.push b i = .ok (q, d')) (hdef : d'.defects = [])
    {k : BlockId} (hk : k.isSentinel) :
    d'.graph.quadsAt k = d.graph.quadsAt k := by
  obtain ⟨-, -, hblocks, -, hdefects⟩ := push_eq hd
  rw [hdefects] at hdef
  have hne : k ≠ b := by
    rintro rfl
    have hnew := (List.append_eq_nil_iff.1 hdef).2
    rw [pushDefects, if_pos hk] at hnew
    cases (List.append_eq_nil_iff.1 hnew).1
  rw [Graph.quadsAt, hblocks, KeyedList.listAt_modify, if_neg hne]
  rfl

theorem Sound.push {d d' : Draft} {b : BlockId} {i : Instr} {q : QuadId}
    (h : d.Sound) (hd : d.push b i = .ok (q, d')) : d'.Sound := by
  obtain ⟨hq, hnext, hblocks, hblock, hdefects⟩ := push_eq hd
  refine ⟨h.proper.of_snoc (b := b) (i := q) (fun k hk => ?_) (fun k => ?_)
    (by rw [hq]; exact UInt32.le_refl _) (by rw [hq]; exact hnext),
    fun k l hl => ?_, fun k hk => ?_, fun hdef => ?_⟩
  · rw [isSome_push hd]
    exact hk
  · rw [Graph.idsAt, Graph.idsAt, Graph.quadsAt, hblocks,
      KeyedList.listAt_modify]
    split
    · unfold Graph.quadsAt KeyedList.listAt
      cases d.graph.blocks.get? k with
      | none => exact List.nil_sublist _
      | some blk =>
          simp [Block.push]
    · exact List.Sublist.refl _
  · rw [Graph.succs_eq, listAt_push hd Block.succs (fun _ => rfl),
      ← Graph.succs_eq] at hl
    rw [Graph.predsAt, listAt_push hd Block.preds (fun _ => rfl)]
    exact h.mirrored k l hl
  · rw [isSome_push hd] at hk
    rw [hblock]
    exact h.fresh k hk
  · rw [quads_push_sentinel hd hdef rfl]
    rw [hdefects] at hdef
    exact h.entry (List.append_eq_nil_iff.1 hdef).1

theorem Sound.edge {d : Draft} (h : d.Sound) (a b : BlockId) :
    (d.edge a b).Sound := by
  rcases edge_eq d a b with ⟨ha, hb, hblocks, hquad, hblock, hdefects⟩ |
    ⟨hgraph, hdefects⟩
  · have hquads : ∀ k, (d.edge a b).graph.quadsAt k = d.graph.quadsAt k := by
      intro k
      rw [Graph.quadsAt, hblocks]
      exact quads_edge k
    have hsome : ∀ k, ((d.edge a b).graph.block? k).isSome =
        (d.graph.block? k).isSome := by
      intro k
      rw [Graph.block?, hblocks]
      exact isSome_edge k
    refine ⟨h.proper.of_sublist (fun k hk => ?_) (fun k => ?_) hquad,
      fun k l hl => ?_, fun k hk => ?_, fun hdef => ?_⟩
    · rw [hsome]
      exact hk
    · rw [Graph.idsAt, hquads]
      exact List.Sublist.refl _
    · rw [Graph.succs_eq, hblocks, succs_edge ha] at hl
      rw [Graph.predsAt, hblocks, preds_edge hb]
      have hpred : k ∈ d.graph.predsAt l ∨ (l = b ∧ k = a) := by
        split at hl
        · next hk =>
              exact (mem_link.1 hl).imp (h.mirrored k l) fun hl => ⟨hl, hk⟩
        · exact Or.inl (h.mirrored k l hl)
      split
      · exact mem_link.2 (hpred.imp_right And.right)
      · next hlb => exact hpred.resolve_right fun h => hlb h.1
    · rw [hsome] at hk
      rw [hblock]
      exact h.fresh k hk
    · rw [hquads]
      exact h.entry (hdefects ▸ hdef)
  · refine ⟨hgraph ▸ h.proper, hgraph ▸ h.mirrored, hgraph ▸ h.fresh,
      fun hdef => ?_⟩
    rw [hdefects] at hdef
    rw [hgraph]
    exact h.entry (List.append_eq_nil_iff.1 hdef).1

theorem sound_kept : Kept Sound where
  param _ r h := h.param r
  block _ _ _ h hd := h.block hd
  push _ _ _ _ _ h hd := h.push hd
  edge _ a b h := h.edge a b

end Draft

theorem Graph.build_eq_finish {name : String} {script : List Command}
    {d : Draft} (hrun : (Draft.new name).run script = .ok d) :
    Graph.build name script = d.finish := by
  rw [Graph.build, hrun]
  rfl

/-- A built graph comes out of a draft that the script has made. -/
theorem Graph.exists_draft {name : String} {script : List Command} {g : Graph}
    (h : Graph.build name script = .ok g) :
    ∃ d, (Draft.new name).run script = .ok d ∧ d.finish = .ok g := by
  unfold Graph.build at h
  cases hrun : (Draft.new name).run script with
  | error f => rw [hrun] at h; cases h
  | ok d =>
      rw [hrun] at h
      exact ⟨d, rfl, h⟩

/-- A built graph is proper, with mirrored edges and nothing in the entry. -/
theorem Graph.build_sound {name : String} {script : List Command} {g : Graph}
    (h : Graph.build name script = .ok g) :
    g.Proper ∧ g.Mirrored ∧ g.quadsAt .entry = [] := by
  obtain ⟨d, hrun, hfinish⟩ := exists_draft h
  have hsound := Draft.sound_kept.run (Draft.new_sound name) hrun
  unfold Draft.finish at hfinish
  split at hfinish
  · next hclean =>
      cases hfinish
      exact ⟨hsound.proper, hsound.mirrored,
        hsound.entry (List.append_eq_nil_iff.1 hclean).1⟩
  · cases hfinish

end Dataflow
