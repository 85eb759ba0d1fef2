import Dataflow.Proofs.DepthFirst
import Dataflow.Proofs.InsertionOutcome
import Dataflow.Proofs.SplitHops

/-!
# Splitting an edge keeps the program order

Where an edge takes a detour over a new node, a depth-first search comes to the
node in place of the end of the edge and goes on from there to that end. Nothing
else leads to the node, so what the search finds already visited at any moment
is, the new node apart, what it finds without the detour.
`Search.Explores.without` is this simulation: leave the new node out of a search
with the detour, put the end of the edge in its place wherever it was still to
be visited, and the search without the detour is left. Both searches start at
the entry and are determined by that, so the program order after a split is the
order before it with one block put in.

Everything that is listed block by block in program order follows. The numbers
of the quads are the old ones and that of the check, and the first check is the
one that was the first or a new one, which has the same guard.
-/

namespace Dataflow

namespace Search

/-- A node that can only be come to from one other is finished before that
one. -/
theorem Explores.sublist_of_only {α : Type} {next : α → List α}
    {todo seen seen' post : List α} {a n : α}
    (h : Explores next todo seen seen' post) (honly : ∀ x, n ∈ next x → x = a)
    (htodo : n ∉ todo) (hn : n ∈ post) : [n, a].Sublist post := by
  induction h with
  | nil => cases hn
  | skip _ _ ih => exact ih (List.not_mem_of_not_mem_cons htodo) hn
  | @visit x rest _ _ _ post₁ post₂ _ _ _ ihinner ihrest =>
      obtain ⟨hx, hrest⟩ := List.ne_and_not_mem_of_not_mem_cons htodo
      rcases List.mem_append.1 hn with hn | hn
      · by_cases hnext : n ∈ next x
        · obtain rfl := honly x hnext
          exact (List.singleton_sublist.2 hn).append
            (List.singleton_sublist.2 List.mem_cons_self)
        · exact (ihinner hnext hn).trans (List.sublist_append_left _ _)
      · have hn := (List.mem_cons.1 hn).resolve_left hx
        refine (ihrest hrest hn).trans ?_
        exact (List.sublist_cons_self x post₂).trans
          (List.sublist_append_right _ _)

section Detour

variable {next : BlockId → List BlockId} {a b n k : BlockId} {l : List BlockId}

/-- What comes next without the detour: the end of the edge in place of the new
node. -/
def passOver (n b k : BlockId) : BlockId := if k = n then b else k

theorem map_passOver (hl : n ∉ l) : l.map (passOver n b) = l := by
  have hid : ∀ k ∈ l, passOver n b k = k := fun k hk =>
    if_neg fun hkn : k = n => hl (hkn ▸ hk)
  exact (List.map_congr_left hid).trans (List.map_id' l)

theorem map_passOver_replace (hl : n ∉ l) :
    (l.replace b n).map (passOver n b) = l := by
  induction l with
  | nil => rfl
  | cons y l ih =>
      obtain ⟨hy, hrest⟩ := List.ne_and_not_mem_of_not_mem_cons hl
      by_cases hby : b = y
      · subst hby
        rw [List.replace_cons_self, List.map_cons, map_passOver hrest, passOver,
          if_pos rfl]
      · rw [List.replace_cons, beq_false_of_ne hby]
        show passOver n b y :: (l.replace b n).map (passOver n b) = y :: l
        rw [ih hrest, passOver, if_neg hy.symm]

theorem map_passOver_detour (hk : k ≠ n) (hfree : n ∉ next k) :
    (detour next a b n k).map (passOver n b) = next k := by
  rw [detour, if_neg hk]
  split
  · exact map_passOver_replace hfree
  · exact map_passOver hfree

/-- A search with a detour is the search without it, when the new node is left
out. -/
theorem Explores.without {todo seen seen' post : List BlockId}
    (hfree : ∀ k, n ∉ next k) (hb : b ≠ n)
    (h : Explores (detour next a b n) todo seen seen' post)
    (hseen : n ∈ seen → b ∈ seen ∨ todo.head? = some b) :
    Explores next (todo.map (passOver n b)) (seen.filter (· ≠ n))
        (seen'.filter (· ≠ n)) (post.filter (· ≠ n)) ∧
      (n ∈ seen' → b ∈ seen') := by
  induction h with
  | nil => exact ⟨.nil, fun hn => (hseen hn).resolve_right nofun⟩
  | @skip x rest seen seen' post hx _ ih =>
      have hmet : n ∈ seen → b ∈ seen := fun hn =>
        (hseen hn).elim id fun hhead => Option.some.inj hhead ▸ hx
      obtain ⟨hrest, hlater⟩ := ih fun hn => Or.inl (hmet hn)
      refine ⟨.skip ?_ hrest, hlater⟩
      by_cases hxn : x = n
      · subst hxn
        simpa [passOver, hb] using hmet hx
      · simpa [passOver, hxn] using hx
  | @visit x rest seen seen₁ seen₂ post₁ post₂ hx _ _ ihinner ihrest =>
      by_cases hxn : x = n
      · -- the new node is come to, and from there the end of the edge
        subst hxn
        have hdetour : detour next a b x x = [b] := if_pos rfl
        rw [hdetour] at ihinner
        obtain ⟨hinner, hmet⟩ := ihinner fun _ => Or.inr rfl
        obtain ⟨hrest, hlater⟩ := ihrest fun hn => Or.inl (hmet hn)
        refine ⟨?_, hlater⟩
        have hcons := hinner.cons hrest
        simpa [passOver, hb] using hcons
      · have hinside : n ∈ x :: seen → b ∈ x :: seen := fun hn => by
          have hn := (List.mem_cons.1 hn).resolve_left (Ne.symm hxn)
          rcases hseen hn with hmem | hhead
          · exact List.mem_cons_of_mem _ hmem
          · exact Option.some.inj hhead ▸ List.mem_cons_self
        obtain ⟨hinner, hmet⟩ := ihinner fun hn => Or.inl (hinside hn)
        obtain ⟨hrest, hlater⟩ := ihrest fun hn => Or.inl (hmet hn)
        refine ⟨?_, hlater⟩
        rw [map_passOver_detour hxn (hfree x)] at hinner
        have hnew : x ∉ seen.filter (· ≠ n) :=
          fun hmem => hx (List.mem_of_mem_filter hmem)
        have hpost : (post₁ ++ x :: post₂).filter (· ≠ n) =
            post₁.filter (· ≠ n) ++ x :: post₂.filter (· ≠ n) := by
          simp [hxn]
        rw [hpost, List.map_cons, passOver, if_neg hxn]
        refine .visit hnew ?_ hrest
        rwa [List.filter_cons_of_pos (by simpa using hxn)] at hinner

end Detour

end Search

/-- The guard of a quad that is a null check. -/
def Quad.checkGuard? (q : Quad) : Option (Option Register) :=
  match q.instr with
  | .nullCheck guard _ => some guard
  | _ => none

@[simp] theorem Quad.checkGuard?_retarget (q : Quad) (t : BlockId) :
    (q.retarget t).checkGuard? = q.checkGuard? := by
  obtain ⟨i, instr⟩ := q
  cases instr <;> rfl

theorem Splice.checkGuards_follow (p : Splice) (quads : List Quad) :
    (p.follow quads).filterMap Quad.checkGuard? =
      quads.filterMap Quad.checkGuard? := by
  cases hq : quads.getLast? with
  | none =>
      rw [List.getLast?_eq_none_iff.1 hq, follow]
      split <;> rfl
  | some q =>
      rw [p.follow_eq hq, ← List.dropLast_append_getLast? q hq,
        List.dropLast_concat]
      split <;> simp [List.filterMap_cons]

namespace Graph

theorem exists_explores (g : Graph) :
    ∃ seen post, Search.Explores g.succs [.entry] [] seen post ∧
      g.programOrder = post.reverse :=
  (Search.finishes_reversePostorder g.succs_counted .entry).explores

/-- The guards of the null checks in a block. -/
def checkGuardsAt (g : Graph) (k : BlockId) : List (Option Register) :=
  (g.quadsAt k).filterMap Quad.checkGuard?

theorem templateGuard?_eq (g : Graph) :
    g.templateGuard? =
      g.programOrder.findSome? fun k => (g.checkGuardsAt k).head? := by
  have hquads : g.templateGuard? = (g.quads.filterMap Quad.checkGuard?).head? :=
    List.head?_filterMap.symm
  rw [hquads, quads_eq, List.filterMap_flatMap, List.head?_flatMap]
  rfl

/-! ## One split -/

namespace Split

variable {g g' : Graph} {guard : Option Register} {p : Splice}

/-- The new block is put into the program order, and the rest of it stays. -/
theorem programOrder (hg : g.WellFormed) (h : g.Split guard p g') :
    g'.programOrder.filter (· ≠ p.block) = g.programOrder := by
  obtain ⟨seen, post, hold, horder⟩ := g.exists_explores
  obtain ⟨seen', post', hnew, horder'⟩ := g'.exists_explores
  have hsuccs : g'.succs = detour g.succs p.site.block p.site.nonNull p.block :=
    funext h.succs
  rw [hsuccs] at hnew
  have hto := h.ne_block hg (hg.isSome_of_site h.site).2
  have hentry : p.block ∉ [BlockId.entry] := fun hmem =>
    (h.not_sentinel hg rfl).1 (List.mem_singleton.1 hmem).symm
  obtain ⟨hwithout, -⟩ := hnew.without (h.not_mem_succs hg) hto nofun
  rw [Search.map_passOver hentry] at hwithout
  rw [horder', horder, List.filter_reverse, (hwithout.unique hold).2]

/-- What is listed block by block stays as it is, if the new block adds
nothing. -/
theorem flatMap_programOrder (hg : g.WellFormed) (h : g.Split guard p g')
    {γ : Type} {f f' : BlockId → List γ} (hnew : f' p.block = [])
    (hold : ∀ k, k ≠ p.block → f' k = f k) :
    g'.programOrder.flatMap f' = g.programOrder.flatMap f := by
  rw [← h.programOrder hg]
  induction g'.programOrder with
  | nil => rfl
  | cons k rest ih =>
      rw [List.flatMap_cons, ih]
      by_cases hk : k = p.block
      · rw [hk, hnew, List.filter_cons_of_neg (by simp), List.nil_append]
      · rw [hold k hk, List.filter_cons_of_pos (by simpa using hk),
          List.flatMap_cons]

theorem quad_ids (hg : g.WellFormed) (h : g.Split guard p g') :
    (g'.quads.map Quad.id).filter (· ≠ p.check) = g.quads.map Quad.id := by
  rw [quads_eq, quads_eq, List.map_flatMap, List.map_flatMap,
    List.filter_flatMap]
  refine h.flatMap_programOrder hg ?_ fun k hk => ?_
  · show (g'.idsAt p.block).filter _ = []
    rw [h.ids, if_pos rfl]
    simp
  · show (g'.idsAt k).filter _ = g.idsAt k
    rw [h.ids, if_neg hk]
    refine List.filter_eq_self.2 fun i hi => ?_
    exact decide_eq_true fun hcheck => h.check_fresh hg k (hcheck ▸ hi)

theorem checkGuardsAt (h : g.Split guard p g') (k : BlockId) :
    g'.checkGuardsAt k =
      if k = p.block then [guard] else g.checkGuardsAt k := by
  rw [Graph.checkGuardsAt, h.quads]
  split
  · rfl
  · split
    · exact p.checkGuards_follow _
    · rfl

/-- The first check is the old one or a copy of it. -/
theorem templateGuard? (hg : g.WellFormed) (h : g.Split guard p g')
    (htemplate : g.templateGuard? = some guard) :
    g'.templateGuard? = some guard := by
  rw [templateGuard?_eq, ← h.programOrder hg] at htemplate
  rw [templateGuard?_eq]
  generalize g'.programOrder = order at htemplate ⊢
  induction order with
  | nil => cases htemplate
  | cons k rest ih =>
      rw [List.findSome?_cons, h.checkGuardsAt]
      by_cases hk : k = p.block
      · rw [if_pos hk]
        rfl
      · rw [List.filter_cons_of_pos (by simpa using hk),
          List.findSome?_cons] at htemplate
        rw [if_neg hk]
        cases hfirst : (g.checkGuardsAt k).head? with
        | some first => rwa [hfirst] at htemplate
        | none =>
            rw [hfirst] at htemplate
            exact ih htemplate

end Split

/-! ## Runs of splits -/

namespace Splits

variable {g g' : Graph} {guard : Option Register} {plan : List Splice}
  {p : Splice}

theorem programOrder (h : Splits guard g plan g')
    (hready : g.Ready (plan.map Splice.site)) :
    g'.programOrder.filter (· ∉ plan.map Splice.block) = g.programOrder := by
  induction h with
  | nil => simp
  | cons hsplit _ ih =>
      rw [← hsplit.programOrder hready.wellFormed, ← ih (hready.step hsplit),
        List.filter_filter]
      simp [not_or]

theorem quad_ids (h : Splits guard g plan g')
    (hready : g.Ready (plan.map Splice.site)) :
    (g'.quads.map Quad.id).filter (· ∉ plan.map Splice.check) =
      g.quads.map Quad.id := by
  induction h with
  | nil => simp
  | cons hsplit _ ih =>
      rw [← hsplit.quad_ids hready.wellFormed, ← ih (hready.step hsplit),
        List.filter_filter]
      simp [not_or]

theorem templateGuard? (h : Splits guard g plan g')
    (hready : g.Ready (plan.map Splice.site))
    (htemplate : g.templateGuard? = some guard) :
    g'.templateGuard? = some guard := by
  induction h with
  | nil => exact htemplate
  | cons hsplit _ ih =>
      exact ih (hready.step hsplit)
        (hsplit.templateGuard? hready.wellFormed htemplate)

theorem mem_programOrder (h : Splits guard g plan g')
    (hready : g.Ready (plan.map Splice.site)) {k : BlockId}
    (hk : k ∈ g.programOrder) :
    k ∈ g'.programOrder := by
  rw [← h.programOrder hready] at hk
  exact List.mem_of_mem_filter hk

/-- An inserted block comes after the block of its branch. -/
theorem sublist_programOrder (h : Splits guard g plan g')
    (hready : g.Ready (plan.map Splice.site)) (hp : p ∈ plan)
    (hb : p.site.block ∈ g.programOrder) :
    [p.site.block, p.block].Sublist g'.programOrder := by
  have hg' := h.wellFormed hready
  have hmade := h.made hready hp
  have hpreds : g'.predsAt p.block = [p.site.block] :=
    predsAt_of_block hmade.added
  have hedge : p.block ∈ g'.succs p.site.block := by
    rw [hg'.linked.mirrored, hpreds]
    exact List.mem_cons_self
  have honly : ∀ k, p.block ∈ g'.succs k → k = p.site.block := fun k hk => by
    rw [hg'.linked.mirrored, hpreds] at hk
    exact List.mem_singleton.1 hk
  have hentry : p.block ∉ [BlockId.entry] := fun hmem => by
    rw [List.mem_singleton.1 hmem, hg'.shaped.entry_preds] at hpreds
    cases hpreds
  have hmem := g'.programOrder_closed.2 _ (h.mem_programOrder hready hb) _ hedge
  obtain ⟨seen, post, hexplores, horder⟩ := g'.exists_explores
  rw [horder] at hmem ⊢
  exact (hexplores.sublist_of_only honly hentry
    (List.mem_reverse.1 hmem)).reverse

theorem block_mem_programOrder (h : Splits guard g plan g')
    (hready : g.Ready (plan.map Splice.site)) (hp : p ∈ plan)
    (hb : p.site.block ∈ g.programOrder) : p.block ∈ g'.programOrder :=
  (h.sublist_programOrder hready hp hb).subset
    (List.mem_cons_of_mem _ List.mem_cons_self)

end Splits

/-! ## The insertion as a whole -/

variable {g : Graph} {stats : CheckStats}

theorem insertChecks_stats (h : g.insertChecks.result = .ok stats) :
    stats = ⟨g.nullTests.length, (g.nullTests.filterMap NullTest.site?).length,
      (g.nullTests.filter fun t => t.site?.isNone).length⟩ := by
  unfold insertChecks at h
  dsimp only at h
  split at h
  · cases h
    rfl
  · cases htemplate : g.templateGuard? with
    | none => rw [htemplate] at h; cases h
    | some guard =>
        rw [htemplate] at h
        dsimp only at h
        rcases hedges :
          splitEdges guard (g.nullTests.filterMap NullTest.site?) g
          with ⟨g', events, e | done⟩
        · rw [hedges] at h
          cases h
        · rw [hedges] at h
          cases h
          rfl

theorem WellFormed.site_mem_programOrder (hg : g.WellFormed) {s : Site}
    (hs : s ∈ g.nullTests.filterMap NullTest.site?) :
    s.block ∈ g.programOrder := by
  have hedge :=
    hg.hasNonNullEdge_iff.2 (List.mem_map_of_mem (f := Site.block) hs)
  exact mem_programOrder_iff.2 hedge.1

/-- Inserting checks keeps the program order. Without the inserted blocks it is
the order of the graph as it was, and so the visited quads are the old ones in
the old order, with the inserted checks between them. Every inserted block is
reachable and comes after the block of its branch. If anything was inserted, the
first check of the new order has the guard that the first check had before. -/
theorem insertChecks_keeps_order {name : String} {script : List Command}
    (hbuild : Graph.build name script = .ok g)
    (hresult : g.insertChecks.result = .ok stats) :
    let g' := g.insertChecks.graph
    ∃ plan : List Splice,
      plan.map Splice.site = g.nullTests.filterMap NullTest.site? ∧
      plan.length = stats.inserted ∧
      g'.blocks.keys = g.blocks.keys ++ plan.map Splice.block ∧
      g'.programOrder.filter (· ∉ plan.map Splice.block) = g.programOrder ∧
      (g'.quads.map Quad.id).filter (· ∉ plan.map Splice.check) =
        g.quads.map Quad.id ∧
      (∀ p ∈ plan, g'.idsAt p.block = [p.check] ∧ g'.Reachable p.block ∧
        p.block ∈ g'.programOrder ∧ p.site.block ∈ g'.programOrder ∧
        g'.programOrder.idxOf p.site.block < g'.programOrder.idxOf p.block) ∧
      (0 < stats.inserted → ∃ first first' guard v v',
        g.quads.find? (fun q => q.opcode = .nullCheck) = some first ∧
        first.instr = .nullCheck guard v ∧
        g'.quads.find? (fun q => q.opcode = .nullCheck) = some first' ∧
        first'.instr = .nullCheck guard v') := by
  intro g'
  have hg := build_wellFormed hbuild
  obtain ⟨guard, plan, hplan, hsplits, htemplate⟩ :=
    insertChecks_splits hg hresult
  have hready : g.Ready (plan.map Splice.site) := hplan ▸ hg.ready
  have hlength : plan.length = stats.inserted := by
    rw [insertChecks_stats hresult, ← hplan, List.length_map]
  refine ⟨plan, hplan, hlength, hsplits.keys, hsplits.programOrder hready,
    hsplits.quad_ids hready, fun p hp => ?_, fun hpos => ?_⟩
  · have hmade := hsplits.made hready hp
    have hids : g'.idsAt p.block = [p.check] := idsAt_of_block hmade.added
    have hb : p.site.block ∈ g.programOrder :=
      hg.site_mem_programOrder (hplan ▸ List.mem_map_of_mem hp)
    have hmem : p.block ∈ g'.programOrder :=
      hsplits.block_mem_programOrder hready hp hb
    exact ⟨hids, mem_programOrder_iff.1 hmem, hmem,
      hsplits.mem_programOrder hready hb,
        Search.idxOf_lt_idxOf_of_sublist (Search.nodup_reversePostorder ..)
          (hsplits.sublist_programOrder hready hp hb)⟩
  · obtain ⟨p, hp⟩ := List.exists_mem_of_length_pos (hlength.symm ▸ hpos)
    have hold := htemplate p hp
    obtain ⟨first, v, hfirst, hinstr⟩ := first_check_of_templateGuard? hold
    obtain ⟨first', v', hfirst', hinstr'⟩ :=
      first_check_of_templateGuard? (hsplits.templateGuard? hready hold)
    exact ⟨first, first', guard, v, v', hfirst, hinstr, hfirst', hinstr'⟩

/-- The order of the loop with its three checks put in, one of them after the
exit. -/
theorem insertChecks_keeps_order_nullLoop :
    Graph.build "loop" nullLoopScript = .ok nullLoop ∧
      nullLoop.insertChecks.result = .ok ⟨3, 3, 0⟩ ∧
      nullLoop.insertChecks.graph.programOrder =
        [.entry, ⟨2⟩, ⟨5⟩, ⟨3⟩, ⟨4⟩, ⟨7⟩, .exit, ⟨6⟩] ∧
      nullLoop.insertChecks.graph.Reachable ⟨6⟩ ∧
      nullLoop.programOrder = [.entry, ⟨2⟩, ⟨3⟩, ⟨4⟩, .exit] := by
  have hbuild : Graph.build "loop" nullLoopScript = .ok nullLoop := rfl
  have hresult : nullLoop.insertChecks.result = .ok ⟨3, 3, 0⟩ := rfl
  have horder : nullLoop.insertChecks.graph.programOrder =
      [.entry, ⟨2⟩, ⟨5⟩, ⟨3⟩, ⟨4⟩, ⟨7⟩, .exit, ⟨6⟩] := by decide
  obtain ⟨plan, -, -, hkeys, hfilter, -, hplaced, -⟩ :=
    insertChecks_keeps_order hbuild hresult
  have hthree : nullLoop.insertChecks.graph.blocks.keys =
      nullLoop.blocks.keys ++ [⟨5⟩, ⟨6⟩, ⟨7⟩] := rfl
  rw [hthree] at hkeys
  have hblocks := List.append_cancel_left hkeys
  rw [← hblocks, horder] at hfilter
  have hsix : (⟨6⟩ : BlockId) ∈ plan.map Splice.block := by simp [← hblocks]
  obtain ⟨p, hp, hblock⟩ := List.mem_map.1 hsix
  exact ⟨hbuild, hresult, horder, hblock ▸ (hplaced p hp).2.1, hfilter.symm⟩

end Graph

end Dataflow
