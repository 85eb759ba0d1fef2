import Mathlib.Logic.Relation
import Dataflow.Proofs.Hops
import Dataflow.Proofs.Solution

/-!
# Code that cannot be reached does not count

Two graphs can differ in blocks that the entry does not reach, and such a block
may hold quads with high numbers, lead into reachable blocks and stand in their
predecessor lists. `Graph.SameReach` says that two graphs differ in nothing
else, and the theorem of this file that no analysis tells them apart.

The search from the entry never meets an unreachable block, so there it is
enough that the two graphs agree on reachable ones. The walk along predecessor
lists does meet such blocks: it pops them, finds them closed and remembers that
it has seen them. Dropping a closed node from every list, the stack and the
memory included, leaves a walk with the same answer (`Search.looking_prune`),
and pruned in that way the walks of the two graphs are one.

In both cases the two walks run under different bounds, because the bounds count
the edges of unreachable blocks too. The answers do not depend on the bound as
long as it covers the edges, so each comparison is made for any two that do.
-/

namespace Dataflow

/-! ## What the answer of a walk depends on -/

namespace Search

variable {α β : Type}

theorem Counted.mono {next next' : α → List α} {edges : Nat}
    (h : Counted next edges) (hle : ∀ a, (next' a).length ≤ (next a).length) :
    Counted next' edges := by
  obtain ⟨nodes, hnodes, hedges⟩ := h
  refine ⟨nodes, fun a ha => hnodes a fun hnil => ha ?_, Nat.le_trans ?_ hedges⟩
  · exact List.eq_nil_of_length_eq_zero (by simpa [hnil] using hle a)
  · clear hnodes hedges
    induction nodes with
    | nil => exact Nat.le_refl 0
    | cons a rest ih =>
        simp only [List.flatMap_cons, List.length_append]
        exact Nat.add_le_add (hle a) ih

/-- A sight without the ways on to nodes that are not kept. -/
def Sight.prune (keep : α → Prop) [DecidablePred keep] : Sight α β → Sight α β
  | .leadsTo next => .leadsTo (next.filter (keep ·))
  | sight => sight

variable {keep : α → Prop} [DecidablePred keep]

theorem Sight.onward_prune (sight : Sight α β) :
    (sight.prune keep).onward = sight.onward.filter (keep ·) := by
  cases sight <;> rfl

variable [DecidableEq β]

theorem Sight.report_prune (sight : Sight α β) (found : List β) :
    (sight.prune keep).report found = sight.report found := by
  cases sight <;> rfl

variable [DecidableEq α]

/-- Two searches agree that agree on the nodes they can come to, under any two
bounds that cover the steps. -/
theorem finishing_congr {next next' : α → List α} {nodes nodes' : List α}
    {P : α → Prop} (hnodes : ∀ a, next a ≠ [] → a ∈ nodes)
    (hnodes' : ∀ a, next' a ≠ [] → a ∈ nodes')
    (hnext : ∀ a, P a → ∀ c ∈ next a, P c)
    (hsame : ∀ a, P a → next' a = next a) :
    ∀ (n n' : Nat) (jobs : List (Job α)) (seen finished : List α),
      (∀ a, .visit a ∈ jobs → P a) →
      weight jobs + 2 * untouched next nodes seen < n →
      weight jobs + 2 * untouched next' nodes' seen < n' →
      finishing next' n' jobs seen finished =
        finishing next n jobs seen finished := by
  intro n
  induction n with
  | zero =>
      intro n' jobs seen finished _ hn
      omega
  | succ n ih =>
      intro n' jobs seen finished hjobs hn hn'
      obtain ⟨m, rfl⟩ : ∃ m, n' = m + 1 := ⟨n' - 1, by omega⟩
      cases jobs with
      | nil => rfl
      | cons job jobs =>
          have hrest : ∀ a, .visit a ∈ jobs → P a :=
            fun a ha => hjobs a (List.mem_cons_of_mem _ ha)
          cases job with
          | finish a =>
              rw [weight] at hn hn'
              rw [finishing, finishing]
              exact ih m jobs seen (a :: finished) hrest (by omega) (by omega)
          | visit a =>
              have ha : P a := hjobs a List.mem_cons_self
              rw [weight] at hn hn'
              rw [finishing, finishing]
              split
              · exact ih m jobs seen finished hrest (by omega) (by omega)
              · next hnew =>
                  have hpaid := untouched_cons next nodes hnew (hnodes a)
                  have hpaid' := untouched_cons next' nodes' hnew (hnodes' a)
                  have hfresh := length_fresh_le next (a :: seen) a
                  have heq : fresh next' (a :: seen) a =
                      fresh next (a :: seen) a := by
                    rw [fresh, fresh, hsame a ha]
                  rw [hsame a ha] at hpaid'
                  rw [heq]
                  refine ih m _ (a :: seen) finished (fun x hx => ?_) ?_ ?_
                  · rcases visit_mem_expand.1 hx with hx | hx
                    · exact hnext a ha x (mem_fresh.1 hx).1
                    · exact hrest x hx
                  · rw [weight_visits, weight]
                    omega
                  · rw [weight_visits, weight]
                    omega

theorem reversePostorder_congr {next next' : α → List α} {edges edges' : Nat}
    {start : α} (hcount : Counted next edges) (hcount' : Counted next' edges')
    (P : α → Prop) (hstart : P start) (hnext : ∀ a, P a → ∀ c ∈ next a, P c)
    (hsame : ∀ a, P a → next' a = next a) :
    reversePostorder next' edges' start =
      reversePostorder next edges start := by
  obtain ⟨nodes, hnodes, hedges⟩ := hcount
  obtain ⟨nodes', hnodes', hedges'⟩ := hcount'
  refine finishing_congr hnodes hnodes' hnext hsame _ _ _ _ _
    (fun a ha => ?_) ?_ ?_
  · obtain rfl : a = start := by simpa using ha
    exact hstart
  · rw [untouched_nil, weight, weight]
    omega
  · rw [untouched_nil, weight, weight]
    omega

/-- A walk does not miss the nodes that it finds closed. The two walks do not go
in step: at such a node the full one takes a step and the pruned one none. -/
theorem looking_prune {look : α → Sight α β} {nodes nodes' : List α}
    (hclosed : ∀ a, ¬ keep a → look a = .closed)
    (hnodes : ∀ a, (look a).onward ≠ [] → a ∈ nodes)
    (hnodes' : ∀ a, ((look a).prune keep).onward ≠ [] → a ∈ nodes') :
    ∀ (n n' : Nat) (stack seen : List α) (found : List β),
      stack.length + untouched (fun a => (look a).onward) nodes seen < n →
      (stack.filter (keep ·)).length +
        untouched (fun a => ((look a).prune keep).onward) nodes'
          (seen.filter (keep ·)) < n' →
      looking look n stack seen found =
        looking (fun a => (look a).prune keep) n' (stack.filter (keep ·))
          (seen.filter (keep ·)) found := by
  intro n
  induction n with
  | zero =>
      intro n' stack seen found hn
      omega
  | succ n ih =>
      intro n' stack seen found hn hn'
      obtain ⟨m, rfl⟩ : ∃ m, n' = m + 1 := ⟨n' - 1, by omega⟩
      cases stack with
      | nil => rfl
      | cons a rest =>
          rw [List.length_cons] at hn
          by_cases ha : keep a
          · have hmem : a ∈ seen.filter (keep ·) ↔ a ∈ seen := by simp [ha]
            rw [List.filter_cons_of_pos (by simpa using ha)] at hn' ⊢
            rw [List.length_cons] at hn'
            rw [looking_cons, looking_cons]
            simp only [hmem]
            split
            · exact ih m rest seen found (by omega) (by omega)
            · next hnew =>
                have hpaid := untouched_cons (fun a => (look a).onward) nodes
                  hnew (hnodes a)
                have hpaid' := untouched_cons
                  (fun a => ((look a).prune keep).onward) nodes'
                  (mt hmem.1 hnew) (hnodes' a)
                have hstack :
                    ((look a).prune keep).onward ++ rest.filter (keep ·) =
                    ((look a).onward ++ rest).filter (keep ·) := by
                  rw [Sight.onward_prune, List.filter_append]
                have hseen : a :: seen.filter (keep ·) =
                    (a :: seen).filter (keep ·) :=
                  (List.filter_cons_of_pos (by simpa using ha)).symm
                rw [hseen] at hpaid'
                rw [Sight.report_prune, hstack, hseen]
                refine ih m _ (a :: seen) _ ?_ ?_
                · rw [List.length_append]
                  omega
                · rw [← hstack, List.length_append]
                  omega
          · rw [List.filter_cons_of_neg (by simpa using ha)] at hn' ⊢
            rw [looking_cons]
            split
            · exact ih (m + 1) rest seen found (by omega) hn'
            · next hnew =>
                have hpaid := untouched_cons (fun a => (look a).onward) nodes
                  hnew (hnodes a)
                have hseen : (a :: seen).filter (keep ·) =
                    seen.filter (keep ·) :=
                  List.filter_cons_of_neg (by simpa using ha)
                rw [hclosed a ha, ← hseen]
                exact ih (m + 1) rest (a :: seen) found (by omega)
                  (by rwa [hseen])

/-- Two walks agree that are the same once nodes are dropped that both find
closed. -/
theorem lookThrough_congr {look look' : α → Sight α β} {edges edges' : Nat}
    {start start' : List α} (keep : α → Prop) [DecidablePred keep]
    (hcount : Counted (fun a => (look a).onward) edges)
    (hcount' : Counted (fun a => (look' a).onward) edges')
    (hclosed : ∀ a, ¬ keep a → look a = .closed)
    (hclosed' : ∀ a, ¬ keep a → look' a = .closed)
    (hsame : ∀ a, (look' a).prune keep = (look a).prune keep)
    (hstart : start'.filter (keep ·) = start.filter (keep ·)) :
    lookThrough look' edges' start' = lookThrough look edges start := by
  have hpruned : Counted (fun a => ((look a).prune keep).onward) edges :=
    hcount.mono fun a => by
      rw [Sight.onward_prune]
      exact List.length_filter_le _ _
  obtain ⟨nodes, hnodes, hedges⟩ := hcount
  obtain ⟨nodes', hnodes', hedges'⟩ := hcount'
  obtain ⟨kept, hkept, hroom⟩ := hpruned
  have hlength := List.length_filter_le (keep ·) start
  -- Both are compared with the pruned walk, under the bound of the first.
  have hfirst := looking_prune hclosed hnodes hkept (start.length + edges + 1)
    (start.length + edges + 1) start [] [] (by rw [untouched_nil]; omega)
    (by rw [List.filter_nil, untouched_nil]; omega)
  have hkept' : ∀ a, ((look' a).prune keep).onward ≠ [] → a ∈ kept := by
    simpa only [hsame] using hkept
  have hsecond := looking_prune hclosed' hnodes' hkept'
    (start'.length + edges' + 1) (start.length + edges + 1) start' [] [] (by rw [untouched_nil]; omega)
    (by
      simp only [hsame, hstart]
      rw [List.filter_nil, untouched_nil]
      omega)
  simp only [hsame, hstart] at hsecond
  exact hsecond.trans hfirst.symm

end Search

/-! ## What is the same in two graphs -/

namespace Graph

variable {g g' : Graph}

/-- The entry leads to a block along successor lists. -/
def Reachable (g : Graph) : BlockId → Prop :=
  Relation.ReflTransGen (fun a b => b ∈ g.succs a) .entry

/-- The program order lists what the entry leads to. -/
theorem mem_programOrder_iff {b : BlockId} :
    b ∈ g.programOrder ↔ g.Reachable b := by
  obtain ⟨hentry, hclosed⟩ := g.programOrder_closed
  constructor
  · exact Search.forall_mem_reversePostorder (P := g.Reachable) .refl
      (fun a ha c hc => ha.tail hc) b
  · intro h
    induction h with
    | refl => exact hentry
    | tail _ hb ih => exact hclosed _ ih _ hb

instance (g : Graph) : DecidablePred g.Reachable :=
  fun _ => decidable_of_iff _ mem_programOrder_iff

/-- Two graphs of one method that differ only in what the entry does not reach.
Under the keys that it reaches they have blocks with the same quads and the same
successors, or no blocks; the predecessors of these blocks and of the exit are
the same when those are dropped that are not reachable. -/
structure SameReach (g g' : Graph) : Prop where
  method : g'.method = g.method
  block : ∀ b, g.Reachable b →
    (g'.block? b).map (fun blk => (blk.quads, blk.succs)) =
      (g.block? b).map fun blk => (blk.quads, blk.succs)
  preds : ∀ b, g.Reachable b ∨ b = .exit →
    (g'.predsAt b).filter (g'.Reachable ·) =
      (g.predsAt b).filter (g.Reachable ·)

instance (g g' : Graph) : Decidable (g.SameReach g') :=
  decidable_of_iff
    (g'.method = g.method ∧
      (∀ b ∈ g.programOrder,
        (g'.block? b).map (fun blk => (blk.quads, blk.succs)) =
          (g.block? b).map fun blk => (blk.quads, blk.succs)) ∧
      ∀ b ∈ BlockId.exit :: g.programOrder,
        (g'.predsAt b).filter (g'.Reachable ·) =
          (g.predsAt b).filter (g.Reachable ·)) (by
    simp only [List.mem_cons, mem_programOrder_iff,
      or_comm (a := _ = BlockId.exit)]
    exact ⟨fun h => ⟨h.1, h.2.1, h.2.2⟩, fun h => ⟨h.method, h.block, h.preds⟩⟩)

theorem links_eq {e : QuadGraph} (he : g.quadGraph = .ok e) :
    e.links = g.programOrder.flatMap fun b =>
      chain (g.incoming g.programOrder (g.predsAt b))
        (g.outgoing g.programOrder (g.succs b)) (g.quadsAt b) := by
  rw [(quadGraph_eq he).1]
  refine g.flatMap_orderedBlocks (fun b hb => ?_) fun b blk hb => ?_
  · rw [quadsAt, listAt_of_none _ hb, chain]
  · rw [predsAt_of_block hb, succs_of_block hb, quadsAt_of_block hb]

namespace SameReach

variable (h : SameReach g g')

include h

theorem block_cases {b : BlockId} (hb : g.Reachable b) :
    (g.block? b = none ∧ g'.block? b = none) ∨
      ∃ blk blk', g.block? b = some blk ∧ g'.block? b = some blk' ∧
        blk'.quads = blk.quads ∧ blk'.succs = blk.succs := by
  have hsame := h.block b hb
  cases hblk : g.block? b with
  | none => exact Or.inl ⟨rfl, by simpa [hblk] using hsame⟩
  | some blk =>
      cases hblk' : g'.block? b with
      | none => simp [hblk, hblk'] at hsame
      | some blk' =>
          simp only [hblk, hblk', Option.map_some, Option.some.injEq,
            Prod.mk.injEq] at hsame
          exact Or.inr ⟨blk, blk', rfl, rfl, hsame⟩

theorem succs {b : BlockId} (hb : g.Reachable b) : g'.succs b = g.succs b := by
  rcases h.block_cases hb with
    ⟨hblk, hblk'⟩ | ⟨blk, blk', hblk, hblk', -, hsuccs⟩
  · simp [Graph.succs, hblk, hblk']
  · rw [succs_of_block hblk, succs_of_block hblk', hsuccs]

theorem quadsAt {b : BlockId} (hb : g.Reachable b) :
    g'.quadsAt b = g.quadsAt b := by
  rcases h.block_cases hb with
    ⟨hblk, hblk'⟩ | ⟨blk, blk', hblk, hblk', hquads, -⟩
  · rw [Graph.quadsAt, Graph.quadsAt, listAt_of_none _ hblk,
      listAt_of_none _ hblk']
  · rw [quadsAt_of_block hblk, quadsAt_of_block hblk', hquads]

theorem programOrder : g'.programOrder = g.programOrder :=
  Search.reversePostorder_congr g.succs_counted g'.succs_counted
    g.Reachable .refl (fun _ ha _ hc => ha.tail hc) fun _ ha => h.succs ha

theorem reachable_iff {b : BlockId} : g'.Reachable b ↔ g.Reachable b := by
  rw [← mem_programOrder_iff, ← mem_programOrder_iff, h.programOrder]

theorem filter_predsAt {b : BlockId} (hb : g.Reachable b ∨ b = .exit) :
    (g'.predsAt b).filter (g.Reachable ·) =
      (g.predsAt b).filter (g.Reachable ·) := by
  rw [← h.preds b hb]
  exact List.filter_congr fun a _ => by simp only [h.reachable_iff]

/-- A block that is looked at lies open in both graphs or in neither, and shows
the same or leads on to the same reachable blocks. -/
theorem lookBack (b : BlockId) :
    (g'.lookBack g'.programOrder b).prune g.Reachable =
      (g.lookBack g.programOrder b).prune g.Reachable := by
  simp only [Graph.lookBack, mem_programOrder_iff, h.reachable_iff]
  split
  · rfl
  · next hb =>
      have hb := Decidable.not_not.1 hb
      have hpreds := h.filter_predsAt (Or.inl hb)
      split
      · rfl
      · rcases h.block_cases hb with
          ⟨hblk, hblk'⟩ | ⟨blk, blk', hblk, hblk', hquads, -⟩
        · rw [hblk, hblk']
        · rw [predsAt_of_block hblk, predsAt_of_block hblk'] at hpreds
          rw [hblk, hblk']
          simp only [Block.last?, hquads]
          split
          · rfl
          · exact congrArg Search.Sight.leadsTo hpreds

theorem lookAhead (b : BlockId) :
    (g'.lookAhead g'.programOrder b).prune g.Reachable =
      (g.lookAhead g.programOrder b).prune g.Reachable := by
  simp only [Graph.lookAhead, mem_programOrder_iff, h.reachable_iff]
  split
  · rfl
  · next hb =>
      split
      · rfl
      · rcases h.block_cases (Decidable.not_not.1 hb) with
          ⟨hblk, hblk'⟩ | ⟨blk, blk', hblk, hblk', hquads, hsuccs⟩
        · rw [hblk, hblk']
        · simp only [hblk, hblk', Block.first?, hquads, hsuccs]

theorem incoming {blocks blocks' : List BlockId}
    (hblocks : blocks'.filter (g.Reachable ·) = blocks.filter (g.Reachable ·)) :
    g'.incoming g'.programOrder blocks' = g.incoming g.programOrder blocks := by
  refine Search.lookThrough_congr g.Reachable
    (g.counted_edges Block.preds (g.onward_lookBack _))
    (g'.counted_edges Block.preds (g'.onward_lookBack _))
    (fun a ha => ?_) (fun a ha => ?_) h.lookBack hblocks
  · simp [Graph.lookBack, mem_programOrder_iff, ha]
  · simp [Graph.lookBack, mem_programOrder_iff, h.reachable_iff, ha]

theorem outgoing (blocks : List BlockId) :
    g'.outgoing g'.programOrder blocks = g.outgoing g.programOrder blocks := by
  refine Search.lookThrough_congr g.Reachable
    (g.counted_edges Block.succs (g.onward_lookAhead _))
    (g'.counted_edges Block.succs (g'.onward_lookAhead _))
    (fun a ha => ?_) (fun a ha => ?_) h.lookAhead rfl
  · simp [Graph.lookAhead, mem_programOrder_iff, ha]
  · simp [Graph.lookAhead, mem_programOrder_iff, h.reachable_iff, ha]

theorem quads : g'.quads = g.quads := by
  rw [quads_eq, quads_eq, h.programOrder]
  exact List.flatMap_congr fun b hb => h.quadsAt (mem_programOrder_iff.1 hb)

theorem quadGraph (hends : g.HasEnds) (hends' : g'.HasEnds) :
    g'.quadGraph = g.quadGraph := by
  obtain ⟨e, he⟩ := hends.quadGraph_ok
  obtain ⟨e', he'⟩ := hends'.quadGraph_ok
  obtain ⟨hexit, hentry⟩ := sentinels_of_quadGraph he
  obtain ⟨hexit', hentry'⟩ := sentinels_of_quadGraph he'
  have hlinks : e'.links = e.links := by
    rw [links_eq he, links_eq he', h.programOrder]
    refine List.flatMap_congr fun b hb => ?_
    have hb := mem_programOrder_iff.1 hb
    rw [← h.incoming (h.filter_predsAt (Or.inl hb)), ← h.outgoing, h.succs hb,
      h.quadsAt hb, h.programOrder]
  have hexits : e'.exitPreds = e.exitPreds := by
    rw [hexit, hexit', h.incoming (h.filter_predsAt (Or.inr rfl))]
  have hentries : e'.entrySuccs = e.entrySuccs := by
    rw [hentry, hentry', h.succs .refl, h.outgoing]
  obtain ⟨links, exitPreds, entrySuccs⟩ := e
  obtain ⟨links', exitPreds', entrySuccs'⟩ := e'
  cases hlinks
  cases hexits
  cases hentries
  rw [he, he']

theorem route (hends : g.HasEnds) (hends' : g'.HasEnds) (d : Direction) :
    g'.route d = g.route d := by
  simp only [Graph.route, h.quadGraph hends hends', h.quads]

theorem name : g'.name = g.name := congrArg Method.name h.method

theorem params : g'.params = g.params := congrArg Method.params h.method

theorem registers : g'.registers = g.registers := by
  simp only [Graph.registers, h.quads, h.params]

theorem run {α : Type} [DecidableEq α] [Element α] (hends : g.HasEnds)
    (hends' : g'.HasEnds) (p : Problem α) : p.run g' = p.run g := by
  have hinitial : p.initial g' = p.initial g := by
    simp only [Problem.initial, FactMap.uniform, h.quads]
  simp only [Problem.run, Problem.solveAlong, h.route hends hends', h.name,
    hinitial]

end SameReach

end Graph

/-! ## What the analyses answer -/

/-- Two visits that end well with the same statistics and leave the analysis
with the same in hand; the facts it holds are those of one valuation, at the
quads of either graph and at both ends. -/
structure Visit.Agree {σ α : Type} [Element α] (facts : σ → FactMap (OrdSet α))
    (x y : Visit σ) : Prop where
  result : ∃ stats, x.result = .ok stats ∧ y.result = .ok stats
  state : x.state = y.state
  facts : ∃ v, (facts x.state).Shows x.graph v ∧ (facts y.state).Shows y.graph v

theorem Visit.graph_solve {σ α : Type} [DecidableEq α] [Element α] (old : σ)
    (g : Graph) (prepared : List Event) (p : Problem α)
    (conclude : Solution α → σ × List Event) :
    (Visit.solve old g prepared p conclude).graph = g := by
  simp only [Visit.solve]
  split <;> rfl

namespace Graph.SameReach

variable {g g' : Graph} (h : SameReach g g')

include h

/-- It is enough that what an analysis concludes shows the facts of the solution
in some way. -/
theorem agree {σ α : Type} [DecidableEq α] [Element α] (hends : g.HasEnds)
    (hends' : g'.HasEnds) (hdist : g.DistinctQuads) {p : Problem α}
    (hlaw : p.Lawful g) {facts : σ → FactMap (OrdSet α)} {old : σ}
    {prepared : List Event} {conclude : Solution α → σ × List Event}
    (hfacts : ∀ sol v, sol.facts.Shows g v →
      ∃ w, (facts (conclude sol).1).Shows g w) :
    Visit.Agree facts (Visit.solve old g prepared p conclude)
      (Visit.solve old g' prepared p conclude) := by
  obtain ⟨-, sol, v, -, hresult, hstate, hshown, -⟩ :=
    hlaw.visit_ok hends hdist old prepared conclude
  obtain ⟨w, hw⟩ := hfacts sol v hshown
  have hsame : Visit.solve old g' prepared p conclude =
      { Visit.solve old g prepared p conclude with graph := g' } := by
    simp only [Visit.solve, h.run hends hends' p]
    split <;> rfl
  rw [hsame]
  refine ⟨⟨_, hresult, hresult⟩, rfl, w, ?_, ?_⟩
  · rw [Visit.graph_solve, hstate]
    exact hw
  · refine ⟨fun q hq side => ?_, by rw [hstate]; exact hw.terminal⟩
    have hq : g.Visits q := by simpa only [Visits, h.quads] using hq
    rw [hstate]
    exact hw.fact q hq side

theorem definitions :
    ReachingDefinitions.definitions g' = ReachingDefinitions.definitions g := by
  simp only [ReachingDefinitions.definitions, h.quads]

theorem domain :
    ReachingDefinitions.domain g' = ReachingDefinitions.domain g := by
  simp only [ReachingDefinitions.domain, h.quads]

end Graph.SameReach

/-- Code that the entry does not reach has no influence on any analysis. Two
graphs that differ only in such code are told apart by none of the four: each
ends well on both after the same number of sweeps over the same number of quads,
and afterwards holds the same facts, report and, for null checks, the same
redundant ones. -/
theorem unreachable_code_ignored {g g' : Graph} (hends : g.HasEnds)
    (hends' : g'.HasEnds) (hdist : g.DistinctQuads) (hsame : g.SameReach g') :
    (∀ s, Visit.Agree ReachingDefinitions.State.facts
      (ReachingDefinitions.visit s g) (ReachingDefinitions.visit s g')) ∧
    (∀ s, Visit.Agree Liveness.State.facts
      (Liveness.visit s g) (Liveness.visit s g')) ∧
    (∀ s, Visit.Agree Faintness.State.facts
      (Faintness.visit s g) (Faintness.visit s g')) ∧
    ∀ s, s.inserting = false → Visit.Agree NonNull.State.facts
      (NonNull.visit s g) (NonNull.visit s g') := by
  refine ⟨fun s => ?_, fun s => ?_, fun s => ?_, fun s hs => ?_⟩
  · simp only [ReachingDefinitions.visit, ReachingDefinitions.problem,
      hsame.name, hsame.definitions, hsame.domain]
    exact hsame.agree hends hends' hdist (ReachingDefinitions.lawful g)
      fun sol v hv => ⟨v, hv⟩
  · simp only [Liveness.visit, Liveness.problem, hsame.name, hsame.registers]
    exact hsame.agree hends hends' hdist (Liveness.lawful g)
      fun sol v hv => ⟨v, hv⟩
  · simp only [Faintness.visit, Faintness.problem, hsame.name, hsame.registers]
    exact hsame.agree hends hends' hdist (Faintness.lawful g)
      fun sol v hv => ⟨_, hv.map _⟩
  · rw [NonNull.visit_eq_analyse hs, NonNull.visit_eq_analyse hs]
    simp only [NonNull.analyse, NonNull.problem, hsame.name, hsame.params,
      hsame.registers]
    exact hsame.agree hends hends' hdist (NonNull.lawful g)
      fun sol v hv => ⟨v, hv⟩

/-- The small loop with a block beside it that nothing leads to. The block leads
into the loop and to the exit, stands first among their predecessors, and holds
a quad with a high number that makes the checked register doubtful. -/
def Graph.smallLoopAndIsland : Graph where
  method := ⟨"loop", [⟨"R0"⟩]⟩
  blocks := .ofList [
    (⟨5⟩,
      ⟨⟨5⟩, [⟨⟨90⟩, .move ⟨"R0"⟩ (.const .null)⟩], [⟨6⟩], [⟨3⟩, ⟨4⟩, .exit]⟩),
    (.entry, ⟨.entry, [], [], [⟨2⟩]⟩),
    (.exit, ⟨.exit, [], [⟨5⟩, ⟨3⟩], []⟩),
    (⟨2⟩, ⟨⟨2⟩, [⟨⟨1⟩, .nullCheck none ⟨"R0"⟩⟩], [.entry], [⟨3⟩]⟩),
    (⟨3⟩, ⟨⟨3⟩, [⟨⟨2⟩, .nullCheck none ⟨"R0"⟩⟩,
      ⟨⟨3⟩, .move ⟨"R1"⟩ (.reg ⟨"R0"⟩)⟩,
      ⟨⟨4⟩, .branch (.reg ⟨"R1"⟩) (.const .null) .eq .exit⟩],
      [⟨5⟩, ⟨2⟩, ⟨4⟩], [⟨4⟩, .exit]⟩),
    (⟨4⟩, ⟨⟨4⟩, [], [⟨5⟩, ⟨3⟩], [⟨3⟩]⟩)]
  nextQuad := 91
  nextBlock := 6

theorem unreachable_code_ignored_smallLoop :
    Graph.smallLoop.HasEnds ∧ Graph.smallLoopAndIsland.HasEnds ∧
      Graph.smallLoop.DistinctQuads ∧
        Graph.smallLoop.SameReach .smallLoopAndIsland ∧
      Visit.Agree Liveness.State.facts (Liveness.visit .fresh .smallLoop)
        (Liveness.visit .fresh .smallLoopAndIsland) ∧
      Visit.Agree NonNull.State.facts (NonNull.visit (.fresh false) .smallLoop)
        (NonNull.visit (.fresh false) .smallLoopAndIsland) := by
  have hsame : Graph.smallLoop.SameReach .smallLoopAndIsland := by decide
  obtain ⟨-, hliveness, -, hnonnull⟩ :=
    unreachable_code_ignored (by decide) (by decide) (by decide) hsame
  exact ⟨by decide, by decide, by decide, hsame, hliveness _, hnonnull _ rfl⟩

end Dataflow
