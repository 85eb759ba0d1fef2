import Dataflow.Proofs.Built

/-!
# What a script leaves in order

The solver asks little of a graph, and `Proper` says that a built graph has it.
A transformation that edits blocks asks for more. It has to know that a block
stands under its own number, that an edge stands in two lists and in each of
them once, and that the shape is one that `finish` accepts. `WellFormed` is all
of it, and every built graph is well formed.

Edges come from one command only, which adds to both lists and to neither twice,
so both directions of the mirror and the absence of repetition are invariants of
a draft. `Tidy` adds them to `Sound`. The shape is not an invariant, since a
draft may pass through any shape; it is read off the checks at the end, which
find nothing exactly when the graph is `Shaped`.
-/

namespace Dataflow

namespace Graph

/-- Every edge is recorded at both ends, once at each. -/
structure Linked (g : Graph) : Prop where
  mirrored : ∀ a b, b ∈ g.succs a ↔ a ∈ g.predsAt b
  succs_nodup : ∀ b, (g.succs b).Nodup
  preds_nodup : ∀ b, (g.predsAt b).Nodup

/-- Control goes from the entry to the exit and not beyond, leaves a block only
at its end, and branches only along edges. -/
structure Shaped (g : Graph) : Prop where
  entry_succs : g.succs .entry ≠ []
  entry_preds : g.predsAt .entry = []
  exit_succs : g.succs .exit = []
  inner : ∀ b blk, g.block? b = some blk →
    ∀ q ∈ blk.quads.dropLast, q.transfersControl = false
  target : ∀ b blk, g.block? b = some blk →
    ∀ q ∈ blk.quads, ∀ t, q.target? = some t → t ∈ blk.succs

/-- Everything that a script which is accepted leaves in order. -/
structure WellFormed (g : Graph) : Prop where
  proper : g.Proper
  linked : g.Linked
  shaped : g.Shaped
  keyed : ∀ b blk, g.block? b = some blk → blk.id = b
  fresh : ∀ b, (g.block? b).isSome → b.val < g.nextBlock
  sentinels : ∀ b : BlockId, b.isSentinel → g.quadsAt b = []

theorem Linked.congr {g g' : Graph} (h : g.Linked)
    (hsuccs : ∀ b, g'.succs b = g.succs b)
    (hpreds : ∀ b, g'.predsAt b = g.predsAt b) : g'.Linked := by
  refine ⟨fun a b => ?_, fun b => ?_, fun b => ?_⟩
  · rw [hsuccs, hpreds]
    exact h.mirrored a b
  · rw [hsuccs]
    exact h.succs_nodup b
  · rw [hpreds]
    exact h.preds_nodup b

/-- Both ends of an edge are blocks of the graph. -/
theorem Linked.isSome {g : Graph} (h : g.Linked) {a b : BlockId}
    (hb : b ∈ g.succs a) : (g.block? a).isSome ∧ (g.block? b).isSome := by
  have ha := (h.mirrored a b).1 hb
  rw [succs_eq] at hb
  obtain ⟨blk, hblk, -⟩ := KeyedList.exists_of_mem_listAt hb
  obtain ⟨blk', hblk', -⟩ := KeyedList.exists_of_mem_listAt ha
  exact ⟨Option.isSome_iff_exists.2 ⟨blk, hblk⟩,
    Option.isSome_iff_exists.2 ⟨blk', hblk'⟩⟩

end Graph

/-! ## The checks at the end -/

namespace Draft

theorem quadDefects_eq_nil_iff {b : Block} {last : Bool} {q : Quad} :
    quadDefects b last q = [] ↔
      (last = false → q.transfersControl = false) ∧
        ∀ t, q.target? = some t → t ∈ b.succs := by
  unfold quadDefects
  rw [List.append_eq_nil_iff]
  refine and_congr ?_ ?_
  · cases q.transfersControl <;> cases last <;> simp
  · cases q.target? with
    | none => simp
    | some t => simp

theorem quadsDefects_eq_nil_iff {b : Block} {quads : List Quad} :
    quadsDefects b quads = [] ↔
      (∀ q ∈ quads.dropLast, q.transfersControl = false) ∧
        ∀ q ∈ quads, ∀ t, q.target? = some t → t ∈ b.succs := by
  induction quads with
  | nil => simp [quadsDefects]
  | cons q rest ih =>
      rw [quadsDefects, List.append_eq_nil_iff, ih, quadDefects_eq_nil_iff]
      cases rest with
      | nil => simp
      | cons next rest =>
          simp only [List.isEmpty_cons, true_implies, List.dropLast_cons_cons,
            List.forall_mem_cons]
          tauto

theorem sentinelDefects_eq_nil_iff {g : Graph} :
    sentinelDefects g = [] ↔ g.succs .entry ≠ [] ∧ g.predsAt .entry = [] ∧
      g.succs .exit = [] := by
  have hat : ∀ {γ : Type} (f : Block → List γ) (b : BlockId),
      f (.new b) = [] →
        f ((g.block? b).getD (.new b)) = g.blocks.listAt f b := by
    intro γ f b hf
    rw [KeyedList.listAt, Graph.block?]
    cases g.blocks.get? b with
    | none => exact hf
    | some blk => rfl
  unfold sentinelDefects
  dsimp only
  rw [hat Block.succs .entry rfl, hat Block.preds .entry rfl,
    hat Block.succs .exit rfl, ← Graph.succs_eq, ← Graph.succs_eq]
  rw [List.append_eq_nil_iff, List.append_eq_nil_iff]
  simp [Graph.predsAt, and_assoc]

/-- The checks of the shape find nothing exactly when it is right. -/
theorem shapeDefects_eq_nil_iff {g : Graph} :
    shapeDefects g = [] ↔ g.Shaped := by
  have hblocks :
      (g.blocks.values.flatMap fun b => quadsDefects b b.quads) = [] ↔
      ∀ b blk, g.block? b = some blk → quadsDefects blk blk.quads = [] := by
    rw [List.flatMap_eq_nil_iff]
    constructor
    · intro h b blk hblk
      exact h blk (List.mem_map.2 ⟨_, KeyedList.mem_entries_of_get? hblk, rfl⟩)
    · intro h blk hblk
      obtain ⟨⟨b, blk⟩, hmem, rfl⟩ := List.mem_map.1 hblk
      exact h b blk (KeyedList.get?_of_mem_entries hmem)
  rw [shapeDefects, List.append_eq_nil_iff, hblocks, sentinelDefects_eq_nil_iff]
  constructor
  · rintro ⟨⟨hentry, hpreds, hexit⟩, hquads⟩
    exact ⟨hentry, hpreds, hexit,
      fun b blk hblk => (quadsDefects_eq_nil_iff.1 (hquads b blk hblk)).1,
      fun b blk hblk => (quadsDefects_eq_nil_iff.1 (hquads b blk hblk)).2⟩
  · intro h
    exact ⟨⟨h.entry_succs, h.entry_preds, h.exit_succs⟩, fun b blk hblk =>
      quadsDefects_eq_nil_iff.2 ⟨h.inner b blk hblk, h.target b blk hblk⟩⟩

theorem finish_eq_ok_iff {d : Draft} {g : Graph} :
    d.finish = .ok g ↔ d.defects = [] ∧ d.graph.Shaped ∧ g = d.graph := by
  rw [← shapeDefects_eq_nil_iff, ← and_assoc, ← List.append_eq_nil_iff]
  unfold finish
  split
  · next hclean => simp [hclean, eq_comm]
  · next hdefects =>
      constructor
      · intro h
        cases h
      · exact fun h => absurd h.1 hdefects

theorem finish_eq_error {d : Draft} (h : ¬ (d.defects = [] ∧ d.graph.Shaped)) :
    ∃ defects, defects ≠ [] ∧ d.finish = .error (.malformed defects) := by
  rw [← shapeDefects_eq_nil_iff, ← List.append_eq_nil_iff] at h
  refine ⟨_, h, ?_⟩
  unfold finish
  split
  · next hclean => exact absurd hclean h
  · rfl

/-! ## Edges of a draft -/

theorem nodup_link {l : List BlockId} (b : BlockId) (h : l.Nodup) :
    (Block.link l b).Nodup := by
  unfold Block.link
  split
  · exact h
  · next hb => exact List.concat_eq_append ▸ List.Nodup.concat hb h

/-- A sound draft whose blocks stand under their numbers and whose edges are
linked, with no quads in a sentinel unless that was noted as a mistake. -/
structure Tidy (d : Draft) : Prop extends d.Sound where
  linked : d.graph.Linked
  keyed : ∀ b blk, d.graph.block? b = some blk → blk.id = b
  sentinels : d.defects = [] →
    ∀ b : BlockId, b.isSentinel → d.graph.quadsAt b = []

theorem new_tidy (name : String) : (Draft.new name).Tidy := by
  have hsuccs : ∀ b, (Draft.new name).graph.succs b = [] := by
    intro b
    rw [Graph.succs_eq]
    exact listAt_new name Block.succs b rfl
  have hpreds : ∀ b, (Draft.new name).graph.predsAt b = [] :=
    fun b => listAt_new name Block.preds b rfl
  refine ⟨new_sound name, ⟨fun a b => ?_, fun b => ?_, fun b => ?_⟩,
    fun b blk hblk => ?_, fun _ b _ => listAt_new name Block.quads b rfl⟩
  · simp [hsuccs, hpreds]
  · simp [hsuccs]
  · simp [hpreds]
  · rw [(block_new hblk).2]
    rfl

theorem Tidy.block {d d' : Draft} {b : BlockId} (h : d.Tidy)
    (hd : d.block = .ok (b, d')) : d'.Tidy := by
  obtain ⟨-, -, hblocks, -, hdefects⟩ := block_eq hd
  have hsuccs : ∀ k, d'.graph.succs k = d.graph.succs k := by
    intro k
    rw [Graph.succs_eq, Graph.succs_eq]
    exact h.listAt_block hd Block.succs rfl k
  have hpreds : ∀ k, d'.graph.predsAt k = d.graph.predsAt k :=
    fun k => h.listAt_block hd Block.preds rfl k
  refine ⟨h.toSound.block hd, h.linked.congr hsuccs hpreds,
    fun k blk hblk => ?_, fun hdef k hk => ?_⟩
  · rw [Graph.block?, hblocks, KeyedList.get?_insert] at hblk
    split at hblk
    · next hk =>
        cases hblk
        exact hk.symm
    · exact h.keyed k blk hblk
  · rw [Graph.quadsAt, h.listAt_block hd Block.quads rfl]
    exact h.sentinels (hdefects ▸ hdef) k hk

theorem Tidy.push {d d' : Draft} {b : BlockId} {i : Instr} {q : QuadId}
    (h : d.Tidy) (hd : d.push b i = .ok (q, d')) : d'.Tidy := by
  obtain ⟨-, -, hblocks, -, hdefects⟩ := push_eq hd
  have hsuccs : ∀ k, d'.graph.succs k = d.graph.succs k := by
    intro k
    rw [Graph.succs_eq, Graph.succs_eq]
    exact listAt_push hd Block.succs (fun _ => rfl) k
  have hpreds : ∀ k, d'.graph.predsAt k = d.graph.predsAt k :=
    fun k => listAt_push hd Block.preds (fun _ => rfl) k
  refine ⟨h.toSound.push hd, h.linked.congr hsuccs hpreds,
    fun k blk hblk => ?_, fun hdef k hk => ?_⟩
  · rw [Graph.block?, hblocks, KeyedList.get?_modify] at hblk
    split at hblk
    · obtain ⟨old, hold, rfl⟩ := Option.map_eq_some_iff.1 hblk
      exact h.keyed k old hold
    · exact h.keyed k blk hblk
  · rw [quads_push_sentinel hd hdef hk]
    rw [hdefects] at hdef
    exact h.sentinels (List.append_eq_nil_iff.1 hdef).1 k hk

section Edge

variable {g : Graph} {a b : BlockId}

theorem id_edge {k : BlockId} {blk : Block}
    (h : ((g.blocks.modify a (·.withSucc b)).modify b (·.withPred a)).get? k =
      some blk) : ∃ old, g.block? k = some old ∧ blk.id = old.id := by
  rw [KeyedList.get?_modify_eq_map, KeyedList.get?_modify_eq_map,
    Option.map_map] at h
  obtain ⟨old, hold, rfl⟩ := Option.map_eq_some_iff.1 h
  refine ⟨old, hold, ?_⟩
  simp only [Function.comp]
  split <;> split <;> rfl

theorem linked_edge {g' : Graph} (h : g.Linked)
    (hsuccs : ∀ k, g'.succs k =
      if k = a then Block.link (g.succs k) b else g.succs k)
    (hpreds : ∀ k, g'.predsAt k =
      if k = b then Block.link (g.predsAt k) a else g.predsAt k) :
    g'.Linked := by
  refine ⟨fun k l => ?_, fun k => ?_, fun k => ?_⟩
  · have hsucc : l ∈ g'.succs k ↔ l ∈ g.succs k ∨ (k = a ∧ l = b) := by
      rw [hsuccs]
      split
      · next hk => simp [mem_link, hk]
      · next hk => simp [hk]
    have hpred : k ∈ g'.predsAt l ↔ k ∈ g.predsAt l ∨ (k = a ∧ l = b) := by
      rw [hpreds]
      split
      · next hl => simp [mem_link, hl]
      · next hl => simp [hl]
    rw [hsucc, hpred, h.mirrored k l]
  · rw [hsuccs]
    split
    · exact nodup_link b (h.succs_nodup k)
    · exact h.succs_nodup k
  · rw [hpreds]
    split
    · exact nodup_link a (h.preds_nodup k)
    · exact h.preds_nodup k

end Edge

theorem Tidy.edge {d : Draft} (h : d.Tidy) (a b : BlockId) :
    (d.edge a b).Tidy := by
  rcases edge_eq d a b with ⟨ha, hb, hblocks, -, -, hdefects⟩ |
    ⟨hgraph, hdefects⟩
  · refine ⟨h.toSound.edge a b, linked_edge (a := a) (b := b) h.linked
      (fun k => ?_) (fun k => ?_),
      fun k blk hblk => ?_, fun hdef k hk => ?_⟩
    · rw [Graph.succs_eq, hblocks]
      exact succs_edge ha k
    · rw [Graph.predsAt, hblocks]
      exact preds_edge hb k
    · rw [Graph.block?, hblocks] at hblk
      obtain ⟨old, hold, hid⟩ := id_edge hblk
      rw [hid]
      exact h.keyed k old hold
    · rw [Graph.quadsAt, hblocks, quads_edge]
      exact h.sentinels (hdefects ▸ hdef) k hk
  · refine ⟨h.toSound.edge a b, hgraph ▸ h.linked, hgraph ▸ h.keyed,
      fun hdef => ?_⟩
    rw [hdefects] at hdef
    rw [hgraph]
    exact h.sentinels (List.append_eq_nil_iff.1 hdef).1

theorem tidy_kept : Kept Tidy where
  param _ r h := ⟨h.toSound.param r, h.linked.congr (fun _ => rfl) fun _ => rfl,
    h.keyed, h.sentinels⟩
  block _ _ _ h hd := h.block hd
  push _ _ _ _ _ h hd := h.push hd
  edge _ a b h := h.edge a b

end Draft

theorem Graph.build_wellFormed {name : String} {script : List Command}
    {g : Graph} (h : Graph.build name script = .ok g) : g.WellFormed := by
  obtain ⟨d, hrun, hfinish⟩ := exists_draft h
  obtain ⟨hclean, hshaped, rfl⟩ := Draft.finish_eq_ok_iff.1 hfinish
  have htidy := Draft.tidy_kept.run (Draft.new_tidy name) hrun
  exact ⟨htidy.proper, htidy.linked, hshaped, htidy.keyed, htidy.fresh,
    htidy.sentinels hclean⟩

end Dataflow
