import Dataflow.Analysis.Faintness
import Dataflow.Analysis.Liveness
import Dataflow.Analysis.NonNull
import Dataflow.Analysis.ReachingDefinitions
import Dataflow.Proofs.Numbering
import Dataflow.Proofs.Script

/-!
# Two ways to make a graph

What a script does to a draft can be done to a graph, call by call: the
parameters are there from the start, blocks are asked for, quads are put in
under numbers that the caller counts, and edges are added. This file shows that
nothing tells apart the two graphs that come of it.

They are not equal. A draft counts the quads that are pushed, and a graph does
not count what a caller puts in, so its counter is still where it was in the
beginning. But the counter is read for one purpose only, to find the highest
number that is taken, and there the quads of the graph are looked at as well.
The last quad of a script stands just below the counter of its draft. So both
graphs find the same number, hand out the same one next, and from then on even
the counters agree.

Such graphs are called twins. Every call keeps twins twins: the quads that made
up for the counter are not taken away.
-/

namespace Dataflow

/-! ## The calls of a script -/

namespace Script

/-- The calls that do to a graph what a script does to a draft, with numbers for
the quads from `n` on. -/
def callsFrom (n : Nat) : Script → List Call
  | [] => []
  | .param _ :: rest => callsFrom n rest
  | .block :: rest => .freshBlock :: callsFrom n rest
  | .push b i :: rest =>
      .change b (.push ⟨⟨.ofNat n⟩, i⟩) :: callsFrom (n + 1) rest
  | .edge a b :: rest => .connect a b :: callsFrom n rest

/-- The calls that make what a script makes. -/
def calls (s : Script) : List Call := s.callsFrom 1

end Script

namespace Graph

variable {g : Graph}

/-- The same blocks under another method and another counter of quads. -/
def relabel (m : Method) (k : UInt32) (g : Graph) : Graph :=
  { g with method := m, nextQuad := k }

/-- Only a call for a fresh quad number reads the counter of quads, and no call
reads the method. -/
theorem outcome_relabel (m : Method) (k : UInt32) {c : Call}
    (hc : c ≠ .freshQuad) :
    (Act.mk (g.relabel m k) c).outcome =
      ((Act.mk g c).outcome.1.relabel m k, (Act.mk g c).outcome.2) := by
  cases c with
  | freshQuad => exact absurd rfl hc
  | freshBlock =>
      by_cases hroom : g.nextBlock.toNat + 1 < UInt32.size <;>
        simp [Act.outcome, freshBlock, relabel, hroom]
  | change b c =>
      by_cases hb : b ∈ g.blocks.keys <;>
        simp [Act.outcome, editBlock, KeyedList.contains, relabel, hb]
  | connect a b =>
      by_cases ha : a ∈ g.blocks.keys <;> by_cases hb : b ∈ g.blocks.keys <;>
        simp [Act.outcome, connect, editBlock, KeyedList.contains, relabel, ha,
          hb, bind, Except.bind, throw, throwThe, MonadExceptOf.throw]

/-- So no other call changes them either. -/
theorem label_outcome {c : Call} (hc : c ≠ .freshQuad) :
    (Act.mk g c).after.method = g.method ∧
      (Act.mk g c).after.nextQuad = g.nextQuad := by
  have hsame := outcome_relabel g.method g.nextQuad (g := g) hc
  have hafter : (Act.mk g c).after =
      (Act.mk g c).after.relabel g.method g.nextQuad :=
    congrArg Prod.fst hsame
  rw [hafter]
  exact ⟨rfl, rfl⟩

theorem perform_relabel_cons {g' : Graph} {c : Call} {a : Answer} (m : Method)
    (k : UInt32) (hc : c ≠ .freshQuad) (h : (Act.mk g c).outcome = (g', .ok a))
    (rest : List Call) :
    (g.relabel m k).perform (c :: rest) = (g'.relabel m k).perform rest := by
  rw [perform, outcome_relabel m k hc, h]

theorem outcome_connect_of_mem {a b : BlockId} (ha : a ∈ g.blocks.keys)
    (hb : b ∈ g.blocks.keys) : (Act.mk g (.connect a b)).outcome =
      ({ g with
        blocks := (g.blocks.modify a (·.withSucc b)).modify b (·.withPred a) },
        .ok .done) := by
  simp [Act.outcome, connect, editBlock, KeyedList.contains, ha, hb, bind,
    Except.bind]

end Graph

namespace Draft

variable {d d' : Draft} {s : Script} {c : Command} {name : String}

theorem exists_of_run_cons (h : d.run (c :: s) = .ok d') :
    ∃ d₁, d.apply c = .ok d₁ ∧ d₁.run s = .ok d' := by
  rw [run, List.foldlM_cons] at h
  cases hc : d.apply c with
  | error f => rw [hc] at h; cases h
  | ok d₁ => exact ⟨d₁, rfl, by rwa [hc] at h⟩

/-- A mistake is never forgotten. -/
theorem defects_kept : Kept fun d => d.defects ≠ [] where
  param _ _ h := h
  block d b d' h hd := by
    obtain ⟨-, -, -, -, hdefects⟩ := block_eq hd
    rwa [hdefects]
  push d b i q d' h hd := by
    obtain ⟨-, -, -, -, hdefects⟩ := push_eq hd
    rw [hdefects]
    exact List.append_ne_nil_of_left_ne_nil h _
  edge d a b h := by
    rcases edge_eq d a b with ⟨-, -, -, -, -, hdefects⟩ | ⟨-, hdefects⟩
    · rwa [hdefects]
    · rw [hdefects]
      exact List.append_ne_nil_of_left_ne_nil h _

/-- What a command does to a draft without a mistake, its call does to a graph
with the same blocks, whatever the method and the counter of quads of that
graph. -/
theorem perform_command (m : Method) (k : UInt32) {n : Nat}
    (happly : d.apply c = .ok d') (hclean : d'.defects = [])
    (hn : d.graph.nextQuad = .ofNat n) (rest : Script) :
    ∃ n', d'.graph.nextQuad = .ofNat n' ∧
      (d.graph.relabel m k).perform (Script.callsFrom n (c :: rest)) =
        (d'.graph.relabel m k).perform (rest.callsFrom n') := by
  cases c with
  | param r =>
      cases happly
      exact ⟨n, hn, rfl⟩
  | block =>
      rw [apply, block] at happly
      cases hmade : d.graph.freshBlock with
      | error f => rw [hmade] at happly; cases happly
      | ok made =>
          rw [hmade] at happly
          cases happly
          obtain ⟨-, next, -, hgraph⟩ := freshBlock_eq hmade
          refine ⟨n, by rw [hgraph]; exact hn, ?_⟩
          exact Graph.perform_relabel_cons m k (by simp)
            (by simp only [Act.outcome, hmade]; rfl) _
  | push b i =>
      rw [apply, push] at happly
      split at happly
      · cases happly
        obtain ⟨-, hb⟩ :=
          pushDefects_eq_nil_iff.1 (List.append_eq_nil_iff.1 hclean).2
        refine ⟨n + 1, by rw [UInt32.ofNat_add, ← hn]; rfl, ?_⟩
        rw [Script.callsFrom, ← hn]
        exact Graph.perform_relabel_cons m k (by simp)
          (Graph.outcome_change_of_mem hb _) _
      · cases happly
  | edge a b =>
      cases happly
      rw [edge] at hclean ⊢
      split at hclean
      · next hthere =>
          obtain ⟨ha, hb⟩ := Bool.and_eq_true_iff.1 hthere
          rw [if_pos hthere]
          exact ⟨n, hn, Graph.perform_relabel_cons m k (by simp)
            (Graph.outcome_connect_of_mem (of_decide_eq_true ha)
              (of_decide_eq_true hb)) _⟩
      · cases (List.append_eq_nil_iff.1 hclean).2

theorem perform_callsFrom (m : Method) (k : UInt32) (hclean : d'.defects = [])
    (s : Script) : ∀ {d : Draft} {n : Nat}, d.run s = .ok d' →
      d.graph.nextQuad = .ofNat n →
      (d.graph.relabel m k).perform (s.callsFrom n) =
        (d'.graph.relabel m k, .ok ()) := by
  induction s with
  | nil =>
      intro d n hrun _
      cases hrun
      rfl
  | cons c rest ih =>
      intro d n hrun hn
      obtain ⟨d₁, happly, hrest⟩ := exists_of_run_cons hrun
      have hclean₁ : d₁.defects = [] := by
        by_contra hsome
        exact defects_kept.run hsome hrest hclean
      obtain ⟨n₁, hn₁, hstep⟩ := perform_command m k happly hclean₁ hn rest
      rw [hstep]
      exact ih hrest hn₁

/-- A command that was carried out keeps a draft in step with its script,
however long the script is. -/
theorem Traces.of_apply (h : d.Traces name s) (happly : d.apply c = .ok d') :
    d'.Traces name (s ++ [c]) := by
  cases c with
  | param r =>
      cases happly
      exact h.param r
  | block =>
      have hroom : s.blockCount + 1 < UInt32.size := by
        rw [← h.nextBlock]
        by_contra hfull
        rw [Draft.apply, Draft.block, Graph.freshBlock, if_neg hfull] at happly
        cases happly
      obtain ⟨b, d₁, hd, h'⟩ := h.block hroom
      rw [Draft.apply, hd] at happly
      cases happly
      exact h'
  | push b i =>
      have hroom : s.pushes.length + 2 < UInt32.size := by
        have hcount := h.nextQuad
        by_contra hfull
        rw [Draft.apply, Draft.push, if_neg (by omega)] at happly
        cases happly
      obtain ⟨q, d₁, hd, h'⟩ := h.push b i hroom
      rw [Draft.apply, hd] at happly
      cases happly
      exact h'
  | edge a b =>
      cases happly
      exact h.edge a b

theorem Traces.of_run (s : Script) : ∀ {d d' : Draft} {before : Script},
    d.Traces name before → d.run s = .ok d' → d'.Traces name (before ++ s) := by
  induction s with
  | nil =>
      intro d d' before h hrun
      cases hrun
      rwa [List.append_nil]
  | cons c rest ih =>
      intro d d' before h hrun
      obtain ⟨d₁, happly, hrest⟩ := exists_of_run_cons hrun
      rw [List.append_cons]
      exact ih (h.of_apply happly) hrest

end Draft

/-! ## Twins -/

namespace Graph

variable {g g' : Graph}

/-- Two graphs that differ in nothing but the counter of quads, and find the
same number the highest. -/
structure Twin (g g' : Graph) : Prop where
  method : g'.method = g.method
  blocks : g'.blocks = g.blocks
  nextBlock : g'.nextBlock = g.nextBlock
  topQuad : g'.topQuad = g.topQuad

theorem Twin.refl (g : Graph) : g.Twin g := ⟨rfl, rfl, rfl, rfl⟩

theorem Twin.eq_relabel (h : g.Twin g') :
    g' = g.relabel g.method g'.nextQuad := by
  obtain ⟨method, blocks, nextQuad, nextBlock⟩ := g'
  obtain ⟨hmethod, hblocks, hnext, -⟩ := h
  cases hmethod
  cases hblocks
  cases hnext
  rfl

/-- The highest number that the counter of quads tells of. -/
def lastCounted (g : Graph) : UInt32 :=
  if g.nextQuad = 0 then 0 else g.nextQuad - 1

theorem topQuad_le_iff {n : UInt32} :
    g.topQuad.val ≤ n ↔ g.lastCounted ≤ n ∧ ∀ q ∈ g.allQuads, q.id.val ≤ n := by
  rw [topQuad, foldl_max_le_iff]
  simp [lastCounted]

/-- It is enough that no number which is at least as high as all quads tells the
two counters apart. -/
theorem twin_relabel {k : UInt32}
    (h : ∀ n, (∀ q ∈ g.allQuads, q.id.val ≤ n) →
      ((g.relabel g.method k).lastCounted ≤ n ↔ g.lastCounted ≤ n)) :
    g.Twin (g.relabel g.method k) := by
  have htop : ∀ n, (g.relabel g.method k).topQuad.val ≤ n ↔
      g.topQuad.val ≤ n := by
    intro n
    rw [topQuad_le_iff, topQuad_le_iff]
    exact and_congr_left (h n)
  refine ⟨rfl, rfl, rfl, congrArg QuadId.mk (UInt32.le_antisymm ?_ ?_)⟩
  · exact (htop _).2 (UInt32.le_refl _)
  · exact (htop _).1 (UInt32.le_refl _)

theorem Keeps.id_le (h : g.Keeps g') {n : UInt32}
    (hall : ∀ q ∈ g'.allQuads, q.id.val ≤ n) :
    ∀ q ∈ g.allQuads, q.id.val ≤ n := by
  intro q hq
  obtain ⟨k, blk, hblk, hq⟩ := mem_allQuads.1 hq
  obtain ⟨blk', hblk', -, hids⟩ := h.block k blk hblk
  obtain ⟨q', hq', hid⟩ := List.mem_map.1 (hids.subset (List.mem_map_of_mem hq))
  exact hid ▸ hall q' (mem_allQuads.2 ⟨k, blk', hblk', hq'⟩)

/-- Twins stay twins when the same is done to both and no quad is lost. -/
theorem Twin.of_keeps (h : g.Twin g') {g₁ : Graph} (hkeeps : g.Keeps g₁)
    (hcounter : g₁.nextQuad = g.nextQuad) :
    g₁.Twin (g₁.relabel g₁.method g'.nextQuad) := by
  refine twin_relabel fun n hall => ?_
  have hold := hkeeps.id_le hall
  have hlast : (g₁.relabel g₁.method g'.nextQuad).lastCounted =
      g'.lastCounted := rfl
  have hlast₁ : g₁.lastCounted = g.lastCounted := by
    rw [lastCounted, hcounter, lastCounted]
  have hsame : g'.topQuad.val ≤ n ↔ g.topQuad.val ≤ n := by rw [h.topQuad]
  have hquads : g'.allQuads = g.allQuads := by rw [allQuads, h.blocks, allQuads]
  rw [topQuad_le_iff, topQuad_le_iff, hquads] at hsame
  rw [hlast, hlast₁]
  exact ⟨fun hle => (hsame.1 ⟨hle, hold⟩).1, fun hle => (hsame.2 ⟨hle, hold⟩).1⟩

/-- When a fresh number was handed out, twins are even equal. -/
theorem Twin.freshQuad (h : g.Twin g') : g'.freshQuad = g.freshQuad := by
  have hgraph : ∀ k, { g' with nextQuad := k } = { g with nextQuad := k } := by
    intro k
    rw [h.eq_relabel]
    rfl
  simp only [Graph.freshQuad, h.topQuad, hgraph]

end Graph

/-- The last quad of a script stands just below the counter of its draft. -/
theorem Draft.Traces.exists_lastCounted {name : String} {s : Script} {d : Draft}
    (h : d.Traces name s) (hs : s.Orderly) (hsome : s.pushes ≠ []) :
    ∃ q ∈ d.graph.allQuads, q.id.val = d.graph.lastCounted := by
  have hlast :
      (s.pushes.getLast hsome, s.pushes.length) ∈ s.pushes.zipIdx 1 := by
    rw [List.mk_mem_zipIdx_iff_le_and_getElem?_sub, ← List.getLast?_eq_getElem?,
      List.getLast?_eq_some_getLast hsome]
    exact ⟨List.length_pos_iff.2 hsome, rfl⟩
  generalize s.pushes.getLast hsome = p at hlast
  have hp : p.1 ∈ s.blockIds := hs.push_mem (List.fst_mem_of_mem_zipIdx hlast)
  refine ⟨⟨⟨.ofNat s.pushes.length⟩, p.2⟩,
    Graph.mem_allQuads.2 ⟨p.1, _, h.blocks hs _ hp, ?_⟩, ?_⟩
  · exact List.mem_map.2 ⟨(p.1, _), List.mem_filter.2
      ⟨List.mem_map.2 ⟨_, hlast, rfl⟩, decide_eq_true rfl⟩, rfl⟩
  · have hcounter : d.graph.nextQuad = .ofNat (s.pushes.length + 1) := by
      rw [← h.nextQuad, UInt32.ofNat_toNat]
    have hpos : d.graph.nextQuad ≠ 0 := by
      intro hzero
      have hcount := h.nextQuad
      rw [hzero] at hcount
      cases hcount
    rw [Graph.lastCounted, if_neg hpos, hcounter, UInt32.ofNat_add]
    exact (UInt32.add_sub_cancel _ _).symm

theorem Draft.Traces.twin {name : String} {s : Script} {d : Draft}
    (h : d.Traces name s) (hs : s.Orderly) :
    d.graph.Twin (d.graph.relabel d.graph.method 1) := by
  refine Graph.twin_relabel fun n hall => iff_of_true ?_ ?_
  · have hzero : (d.graph.relabel d.graph.method 1).lastCounted = 0 := by
      simp [Graph.lastCounted, Graph.relabel]
    rw [hzero]
    exact UInt32.zero_le
  by_cases hnone : s.pushes = []
  · have hcount := h.nextQuad
    rw [hnone] at hcount
    have hone : d.graph.nextQuad = 1 := UInt32.toNat_inj.1 hcount
    rw [Graph.lastCounted, hone]
    exact UInt32.zero_le
  · obtain ⟨q, hq, hid⟩ := h.exists_lastCounted hs hnone
    exact hid ▸ hall q hq

/-! ## Whatever is asked of twins -/

namespace Graph.Twin

variable {g g' : Graph} {handed : List QuadId}

theorem act (h : g.Twin g') (hg : g.Issued handed) (c : Call) :
    (Act.mk g' c).answer = (Act.mk g c).answer ∧
      (Act.mk g c).after.Twin (Act.mk g' c).after := by
  by_cases hc : c = .freshQuad
  · subst hc
    simp only [Act.answer, Act.after, Act.outcome, h.freshQuad]
    split
    · exact ⟨rfl, .refl _⟩
    · exact ⟨rfl, h⟩
  · have hkeeps : g.Keeps (Act.mk g c).after := Act.keeps_after (x := ⟨g, c⟩) hg
    obtain ⟨hmethod, hcounter⟩ := label_outcome (g := g) hc
    have hout : (Act.mk g' c).outcome =
        ((Act.mk g c).after.relabel g.method g'.nextQuad,
          (Act.mk g c).answer) := by
      conv_lhs => rw [h.eq_relabel]
      exact outcome_relabel g.method g'.nextQuad hc
    have htwin := h.of_keeps hkeeps hcounter
    rw [hmethod] at htwin
    refine ⟨by rw [Act.answer, hout], ?_⟩
    show (Act.mk g c).after.Twin (Act.mk g' c).outcome.1
    rw [hout]
    exact htwin

/-- A split starts by asking for a number, so it does the same to twins or fails
before it has done anything. -/
theorem splitEdges (h : g.Twin g') (guard : Option Register)
    (sites : List Site) :
    (Graph.splitEdges guard sites g).1.Twin
      (Graph.splitEdges guard sites g').1 ∧
      (Graph.splitEdges guard sites g').2 =
        (Graph.splitEdges guard sites g).2 := by
  cases sites with
  | nil => exact ⟨h, rfl⟩
  | cons s rest =>
      simp only [Graph.splitEdges, splitEdge, h.freshQuad]
      rcases g.freshQuad with f | ⟨q, g₁⟩
      · exact ⟨h, rfl⟩
      · exact ⟨.refl _, rfl⟩

theorem nullTests (h : g.Twin g') : g'.nullTests = g.nullTests := by
  rw [h.eq_relabel]
  rfl

theorem templateGuard? (h : g.Twin g') :
    g'.templateGuard? = g.templateGuard? := by
  rw [h.eq_relabel]
  rfl

theorem insertChecks (h : g.Twin g') :
    g.insertChecks.graph.Twin g'.insertChecks.graph ∧
    g'.insertChecks.events = g.insertChecks.events ∧
    g'.insertChecks.result = g.insertChecks.result := by
  have hname : g'.name = g.name := congrArg Method.name h.method
  simp only [Graph.insertChecks, h.nullTests, h.templateGuard?, hname]
  split
  · exact ⟨h, rfl, rfl⟩
  · split
    · exact ⟨h, rfl, rfl⟩
    · next guard _ =>
        obtain ⟨hgraph, hrest⟩ :=
          h.splitEdges guard (g.nullTests.filterMap NullTest.site?)
        rcases hsplit :
          Graph.splitEdges guard (g.nullTests.filterMap NullTest.site?) g
          with ⟨g₁, events, result⟩
        rcases hsplit' :
          Graph.splitEdges guard (g.nullTests.filterMap NullTest.site?) g'
          with ⟨g₁', events', result'⟩
        rw [hsplit, hsplit'] at hgraph hrest
        cases hrest
        cases result with
        | error e => exact ⟨hgraph, rfl, rfl⟩
        | ok done => exact ⟨hgraph, rfl, rfl⟩

theorem answers_performed (calls : List Call) :
    ∀ {g g' : Graph} {handed : List QuadId}, g.Twin g' → g.Issued handed →
      (g'.performed calls).map Act.answer =
        (g.performed calls).map Act.answer := by
  induction calls with
  | nil => exact fun _ _ => rfl
  | cons c rest ih =>
      intro g g' handed h hg
      obtain ⟨hanswer, hafter⟩ := h.act hg c
      have hg₁ := Act.issued_after (x := ⟨g, c⟩) hg
      simp only [performed, List.map_cons, hanswer]
      rcases hout : (Act.mk g c).outcome with ⟨g₁, e | a⟩
      all_goals
        rcases hout' : (Act.mk g' c).outcome with ⟨g₁', result⟩
        simp only [Act.answer, Act.after, hout, hout'] at hanswer hafter hg₁
        subst hanswer
      · rfl
      · exact congrArg _ (ih hafter hg₁)

theorem answers_splitActs (h : g.Twin g') (hg : g.Issued handed)
    (guard : Option Register) (sites : List Site) :
    (splitActs guard sites g').map Act.answer =
      (splitActs guard sites g).map Act.answer := by
  cases sites with
  | nil => rfl
  | cons s rest =>
      have hcalls : splitCalls guard s g' = splitCalls guard s g := by
        simp only [splitCalls, h.topQuad, h.nextBlock]
      simp only [splitActs, List.map_append, hcalls, answers_performed _ h hg]
      congr 1
      simp only [splitEdge, h.freshQuad]
      rcases g.freshQuad with f | ⟨q, g₁⟩
      · rfl
      · rfl

theorem request (h : g.Twin g') (hg : g.Issued handed) (r : Request) :
    (r.acts g').map Act.answer = (r.acts g).map Act.answer ∧
      (r.apply g).Twin (r.apply g') := by
  cases r with
  | call c =>
      obtain ⟨hanswer, hafter⟩ := h.act hg c
      exact ⟨congrArg (fun a => [a]) hanswer, hafter⟩
  | insertChecks =>
      refine ⟨?_, h.insertChecks.1⟩
      simp only [Request.acts, insertionActs, h.nullTests, h.templateGuard?]
      split
      · exact h.answers_splitActs hg _ _
      · rfl

/-- Any sequence of requests gets the same answers from twins and leaves
twins. -/
theorem requests (requests : List Request) :
    ∀ {g g' : Graph} {handed : List QuadId}, g.Twin g' → g.Issued handed →
      (g'.history requests).map Act.answer =
        (g.history requests).map Act.answer ∧
        (g.serve requests).Twin (g'.serve requests) := by
  induction requests with
  | nil => exact fun h _ => ⟨rfl, h⟩
  | cons r rest ih =>
      intro g g' handed h hg
      obtain ⟨hanswers, hafter⟩ := h.request hg r
      have hchain : Chain g (r.acts g) (r.apply g) := by
        simpa [history, serve] using chain_history [r] g
      obtain ⟨hrest, hend⟩ := ih hafter (hchain.issued hg)
      exact ⟨by simp only [history, List.map_append, hanswers, hrest], hend⟩

end Graph.Twin

/-! ## The analyses of twins -/

/-- Two visits that answer alike, say the same on the way, leave the analysis
with the same in hand, and leave twins. -/
structure Visit.Twin {σ : Type} (v w : Visit σ) : Prop where
  result : w.result = v.result
  events : w.events = v.events
  state : w.state = v.state
  graph : v.graph.Twin w.graph

namespace Graph.Twin

variable {g g' : Graph}

theorem solve {σ α : Type} [DecidableEq α] [Element α] (h : g.Twin g') (old : σ)
    (prepared : List Event) (p : Problem α)
    (conclude : Solution α → σ × List Event) :
    (Visit.solve old g prepared p conclude).Twin
      (Visit.solve old g' prepared p conclude) := by
  have hrun : p.run g' = p.run g := by rw [h.eq_relabel]; rfl
  simp only [Visit.solve, hrun]
  split
  · exact ⟨rfl, rfl, rfl, h⟩
  · exact ⟨rfl, rfl, rfl, h⟩

/-! What an analysis sets up before it solves does not depend on the counter of
quads. -/

theorem visit_reachingDefinitions (h : g.Twin g')
    (s : ReachingDefinitions.State) :
    (ReachingDefinitions.visit s g).Twin (ReachingDefinitions.visit s g') := by
  obtain ⟨k, rfl⟩ : ∃ k, g' = g.relabel g.method k := ⟨_, h.eq_relabel⟩
  simp only [ReachingDefinitions.visit]
  exact h.solve s _ (ReachingDefinitions.problem g) _

theorem visit_liveness (h : g.Twin g') (s : Liveness.State) :
    (Liveness.visit s g).Twin (Liveness.visit s g') := by
  obtain ⟨k, rfl⟩ : ∃ k, g' = g.relabel g.method k := ⟨_, h.eq_relabel⟩
  exact h.solve s _ (Liveness.problem g) _

theorem visit_faintness (h : g.Twin g') (s : Faintness.State) :
    (Faintness.visit s g).Twin (Faintness.visit s g') := by
  obtain ⟨k, rfl⟩ : ∃ k, g' = g.relabel g.method k := ⟨_, h.eq_relabel⟩
  simp only [Faintness.visit]
  exact h.solve s _ (Faintness.problem g) _

theorem analyse_nonNull (h : g.Twin g') (s : NonNull.State)
    (inserted : Option CheckStats) (earlier : List Event) :
    (NonNull.analyse s g inserted earlier).Twin
      (NonNull.analyse s g' inserted earlier) := by
  obtain ⟨k, rfl⟩ : ∃ k, g' = g.relabel g.method k := ⟨_, h.eq_relabel⟩
  simp only [NonNull.analyse]
  exact h.solve s _ (NonNull.problem g) _

theorem visit_nonNull (h : g.Twin g') (s : NonNull.State) :
    (NonNull.visit s g).Twin (NonNull.visit s g') := by
  obtain ⟨hgraph, hevents, hresult⟩ := h.insertChecks
  simp only [NonNull.visit, hevents, hresult]
  split
  · split
    · exact ⟨rfl, rfl, rfl, hgraph⟩
    · exact hgraph.analyse_nonNull s _ _
  · exact h.analyse_nonNull s none []

end Graph.Twin

/-- A script and its calls make the same graph, as far as anyone can tell. When
a script makes a graph, its calls can all be made on a new graph with its
parameters. What comes of them has the same method, the same blocks in the same
order and the same number for the next block; the counter of quads stands where
it stood in the beginning. For all that, any later sequence of requests is
answered alike by both. Afterwards they still find the same number the highest,
null checks are inserted into them alike, and each of the four analyses answers,
reports and holds the same, whatever it held before. -/
theorem script_calls_make_twin {name : String} {s : Script} {g : Graph}
    (hbuild : Graph.build name s = .ok g) :
    ∃ g', (Graph.new ⟨name, s.params⟩).perform s.calls = (g', .ok ()) ∧
      g' = { g with nextQuad := 1 } ∧
      ∀ requests : List Request,
        (g'.history requests).map Act.answer =
          (g.history requests).map Act.answer ∧
        let g₁ := g.serve requests
        let g₁' := g'.serve requests
        g₁.Twin g₁' ∧
        (g₁.insertChecks.graph.Twin g₁'.insertChecks.graph ∧
          g₁'.insertChecks.events = g₁.insertChecks.events ∧
          g₁'.insertChecks.result = g₁.insertChecks.result) ∧
        (∀ held, (ReachingDefinitions.visit held g₁).Twin
          (ReachingDefinitions.visit held g₁')) ∧
        (∀ held, (Liveness.visit held g₁).Twin (Liveness.visit held g₁')) ∧
        (∀ held, (Faintness.visit held g₁).Twin (Faintness.visit held g₁')) ∧
        ∀ held, (NonNull.visit held g₁).Twin (NonNull.visit held g₁') := by
  obtain ⟨d, hrun, hfinish⟩ := Graph.exists_draft hbuild
  obtain ⟨hclean, -, rfl⟩ := Draft.finish_eq_ok_iff.1 hfinish
  have htraces : d.Traces name s := .of_run s (Draft.new_traces name) hrun
  have hperform :=
    Draft.perform_callsFrom d.graph.method 1 hclean s hrun (n := 1) rfl
  have htwin := htraces.twin (htraces.clean.1 hclean)
  refine ⟨d.graph.relabel d.graph.method 1, ?_, rfl, fun requests => ?_⟩
  · rw [← hperform, htraces.method]
    rfl
  · obtain ⟨hanswers, hend⟩ :=
      Graph.Twin.requests requests htwin
        (Graph.AtStart.issued (Or.inr ⟨name, s, hbuild⟩))
    exact ⟨hanswers, hend, hend.insertChecks, hend.visit_reachingDefinitions,
      hend.visit_liveness, hend.visit_faintness, hend.visit_nonNull⟩

/-- The counters of the two graphs lie four apart. Between two fresh numbers a
caller puts in a quad with a number that neither counter has reached, and then
three checks are inserted. -/
theorem script_calls_make_twin_nullLoop :
    Graph.build "loop" Graph.nullLoopScript = .ok .nullLoop ∧
      let requests : List Request := [.call .freshQuad,
        .call (.change ⟨3⟩ (.push ⟨⟨40⟩, .nop⟩)), .call .freshQuad,
        .insertChecks]
      ∃ g', (Graph.new ⟨"loop", [⟨"R0"⟩]⟩).perform
          (Script.calls Graph.nullLoopScript) = (g', .ok ()) ∧
        Graph.nullLoop.nextQuad = 5 ∧ g'.nextQuad = 1 ∧ g'.topQuad = ⟨4⟩ ∧
        (g'.history requests).filterMap Act.handed? =
          [⟨5⟩, ⟨41⟩, ⟨42⟩, ⟨43⟩, ⟨44⟩] ∧
        (g'.history requests).map Act.answer =
          (Graph.nullLoop.history requests).map Act.answer ∧
        (NonNull.visit (.fresh true) .nullLoop).Twin
          (NonNull.visit (.fresh true) g') := by
  have hbuild : Graph.build "loop" Graph.nullLoopScript = .ok .nullLoop := rfl
  obtain ⟨g', hperform, rfl, hlater⟩ := script_calls_make_twin hbuild
  obtain ⟨-, -, -, -, -, -, hnonNull⟩ := hlater []
  exact ⟨hbuild, _, hperform, rfl, rfl, by decide, by decide +kernel,
    (hlater _).1, hnonNull (.fresh true)⟩

end Dataflow
