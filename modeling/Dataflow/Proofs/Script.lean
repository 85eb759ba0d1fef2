import Mathlib.Algebra.Group.Nat.Defs
import Mathlib.Data.List.Induction
import Dataflow.Proofs.WellFormed

/-!
# The scripts that make a graph

A script is judged in two places. Each command is held against the blocks that
are there when its turn comes, and the shape of the whole is looked at when the
last command is done. `Script.Valid` puts both into words of the script alone,
and `Script.blockOf` reads off the script what a block will hold.

A draft is compared with the commands carried out so far. Its keys and counters
can be told from them whatever they are, and so can whether a mistake was noted.
What stands in the blocks can be told only while there was none: a quad pushed
into a block that is yet to be made is lost, though the script has it. `Traces`
says this, every command keeps it, and it leaves no room for a counter to run
over in a script of reasonable length.
-/

namespace Dataflow

/-- Commands in the order in which they are given. -/
abbrev Script := List Command

namespace Command

def makesBlock : Command → Bool
  | .block => true
  | _ => false

def param? : Command → Option Register
  | .param r => some r
  | _ => none

def push? : Command → Option (BlockId × Instr)
  | .push b i => some (b, i)
  | _ => none

def edge? : Command → Option (BlockId × BlockId)
  | .edge a b => some (a, b)
  | _ => none

end Command

namespace Script

def params (s : Script) : List Register := s.filterMap Command.param?

def pushes (s : Script) : List (BlockId × Instr) := s.filterMap Command.push?

def edges (s : Script) : List (BlockId × BlockId) := s.filterMap Command.edge?

/-- How many blocks there are after a script, the two sentinels among them. -/
def blockCount (s : Script) : Nat := s.countP Command.makesBlock + 2

/-- The blocks that are there after a script, in the order of their making. -/
def blockIds (s : Script) : List BlockId :=
  (List.range s.blockCount).map fun n => ⟨.ofNat n⟩

/-- The quads of a script, each beside the block it is pushed into. The first
one has the number 1. -/
def numbered (s : Script) : List (BlockId × Quad) :=
  (s.pushes.zipIdx 1).map fun p => (p.1.1, ⟨⟨.ofNat p.2⟩, p.1.2⟩)

def quadsOf (s : Script) (b : BlockId) : List Quad :=
  (s.numbered.filter (·.1 = b)).map (·.2)

/-- Where the edges of a script lead to from a block, in the order in which they
are first given. -/
def succsOf (s : Script) (b : BlockId) : List BlockId :=
  ((s.edges.filter (·.1 = b)).map (·.2)).eraseDups

/-- Where the edges of a script that lead to a block come from, in the order in
which they are first given. -/
def predsOf (s : Script) (b : BlockId) : List BlockId :=
  ((s.edges.filter (·.2 = b)).map (·.1)).eraseDups

def blockOf (s : Script) (b : BlockId) : Block :=
  ⟨b, s.quadsOf b, s.predsOf b, s.succsOf b⟩

end Script

/-- A command names only blocks that are there after the commands before it, and
pushes into no sentinel. -/
def Command.FitsAfter (before : Script) : Command → Prop
  | .param _ => True
  | .block => True
  | .push b _ => b.isSentinel = false ∧ b ∈ before.blockIds
  | .edge a b => a ∈ before.blockIds ∧ b ∈ before.blockIds

instance (before : Script) : (c : Command) → Decidable (c.FitsAfter before)
  | .param _ => inferInstanceAs (Decidable True)
  | .block => inferInstanceAs (Decidable True)
  | .push b _ =>
      inferInstanceAs (Decidable (b.isSentinel = false ∧ b ∈ before.blockIds))
  | .edge a b =>
      inferInstanceAs (Decidable (a ∈ before.blockIds ∧ b ∈ before.blockIds))

namespace Script

/-- Every command fits after those before it. -/
def Orderly (s : Script) : Prop := ∀ n : Fin s.length, s[n].FitsAfter (s.take n)

instance (s : Script) : Decidable s.Orderly :=
  inferInstanceAs (Decidable (∀ n : Fin s.length, s[n].FitsAfter (s.take n)))

/-- Every command fits, control leaves the entry and never comes back to it,
never leaves the exit, leaves a block only at its end, and branches only along
edges. -/
structure Valid (s : Script) : Prop where
  orderly : s.Orderly
  entry_left : ∃ e ∈ s.edges, e.1 = .entry
  entry_first : ∀ e ∈ s.edges, e.2 ≠ .entry
  exit_last : ∀ e ∈ s.edges, e.1 ≠ .exit
  inner : ∀ b ∈ s.blockIds, ∀ q ∈ (s.quadsOf b).dropLast,
    q.transfersControl = false
  target : ∀ b ∈ s.blockIds, ∀ q ∈ s.quadsOf b, ∀ t ∈ q.target?,
    (b, t) ∈ s.edges

instance (s : Script) : Decidable s.Valid :=
  decidable_of_iff (s.Orderly ∧ (∃ e ∈ s.edges, e.1 = .entry) ∧
      (∀ e ∈ s.edges, e.2 ≠ .entry) ∧ (∀ e ∈ s.edges, e.1 ≠ .exit) ∧
      (∀ b ∈ s.blockIds, ∀ q ∈ (s.quadsOf b).dropLast,
        q.transfersControl = false) ∧
      ∀ b ∈ s.blockIds, ∀ q ∈ s.quadsOf b, ∀ t ∈ q.target?, (b, t) ∈ s.edges)
    ⟨fun ⟨h₁, h₂, h₃, h₄, h₅, h₆⟩ => ⟨h₁, h₂, h₃, h₄, h₅, h₆⟩,
      fun ⟨h₁, h₂, h₃, h₄, h₅, h₆⟩ => ⟨h₁, h₂, h₃, h₄, h₅, h₆⟩⟩

variable {s : Script} {a b k : BlockId} {i : Instr} {c : Command}

/-! ## One command more -/

theorem params_param {r : Register} :
    (s ++ [Command.param r]).params = s.params ++ [r] := by
  simp [params, Command.param?]

theorem pushes_push :
    (s ++ [Command.push b i]).pushes = s.pushes ++ [(b, i)] := by
  simp [pushes, Command.push?]

theorem edges_edge : (s ++ [Command.edge a b]).edges = s.edges ++ [(a, b)] := by
  simp [edges, Command.edge?]

theorem blockCount_block :
    (s ++ [Command.block]).blockCount = s.blockCount + 1 := by
  simp [blockCount, Command.makesBlock]

theorem params_concat (hc : c.param? = none) :
    (s ++ [c]).params = s.params := by
  simp [params, hc]

theorem pushes_concat (hc : c.push? = none) : (s ++ [c]).pushes = s.pushes := by
  simp [pushes, hc]

theorem edges_concat (hc : c.edge? = none) : (s ++ [c]).edges = s.edges := by
  simp [edges, hc]

theorem blockCount_concat (hc : c.makesBlock = false) :
    (s ++ [c]).blockCount = s.blockCount := by
  simp [blockCount, hc]

theorem blockIds_concat (hc : c.makesBlock = false) :
    (s ++ [c]).blockIds = s.blockIds := by
  rw [blockIds, blockCount_concat hc]
  rfl

theorem blockIds_block :
    (s ++ [Command.block]).blockIds =
      s.blockIds ++ [⟨.ofNat s.blockCount⟩] := by
  rw [blockIds, blockCount_block, List.range_succ, List.map_append]
  rfl

theorem quadsOf_push : (s ++ [Command.push b i]).quadsOf k =
    if k = b then s.quadsOf k ++ [⟨⟨.ofNat (s.pushes.length + 1)⟩, i⟩]
    else s.quadsOf k := by
  have hnumbered : (s ++ [Command.push b i]).numbered =
      s.numbered ++ [(b, ⟨⟨.ofNat (s.pushes.length + 1)⟩, i⟩)] := by
    simp [numbered, pushes_push, List.zipIdx_append, Nat.add_comm]
  rw [quadsOf, hnumbered, List.filter_append, List.map_append]
  split
  · next hk => simp [quadsOf, hk]
  · next hk => simp [quadsOf, Ne.symm hk]

theorem eraseDups_concat (l : List BlockId) (b : BlockId) :
    (l ++ [b]).eraseDups = Block.link l.eraseDups b := by
  rw [List.eraseDups_append, Block.link]
  split
  · next hb => simp [List.removeAll, List.mem_eraseDups.1 hb]
  · next hb =>
      rw [List.mem_eraseDups] at hb
      simp [List.removeAll, hb, List.eraseDups_cons]

theorem succsOf_edge : (s ++ [Command.edge a b]).succsOf k =
    if k = a then Block.link (s.succsOf k) b else s.succsOf k := by
  rw [succsOf, edges_edge, List.filter_append, List.map_append]
  split
  · next hk => simp [hk, eraseDups_concat, succsOf]
  · next hk => simp [Ne.symm hk, succsOf]

theorem predsOf_edge : (s ++ [Command.edge a b]).predsOf k =
    if k = b then Block.link (s.predsOf k) a else s.predsOf k := by
  rw [predsOf, edges_edge, List.filter_append, List.map_append]
  split
  · next hk => simp [hk, eraseDups_concat, predsOf]
  · next hk => simp [Ne.symm hk, predsOf]

theorem quadsOf_concat (hc : c.push? = none) :
    (s ++ [c]).quadsOf k = s.quadsOf k := by
  rw [quadsOf, numbered, pushes_concat hc]
  rfl

/-- A command that neither pushes nor adds an edge leaves every block as it
is. -/
theorem blockOf_concat (hpush : c.push? = none) (hedge : c.edge? = none) :
    (s ++ [c]).blockOf k = s.blockOf k := by
  simp only [blockOf, quadsOf_concat hpush, predsOf, succsOf,
    edges_concat hedge]

theorem blockOf_push : (s ++ [Command.push b i]).blockOf k =
    if k = b then (s.blockOf k).push ⟨⟨.ofNat (s.pushes.length + 1)⟩, i⟩
    else s.blockOf k := by
  simp only [blockOf, quadsOf_push, predsOf, succsOf,
    edges_concat (c := Command.push b i) rfl]
  split <;> rfl

theorem blockOf_edge : (s ++ [Command.edge a b]).blockOf k =
    let linked := if k = a then (s.blockOf k).withSucc b else s.blockOf k
    if k = b then linked.withPred a else linked := by
  simp only [blockOf, quadsOf_concat (c := Command.edge a b) rfl, predsOf_edge,
    succsOf_edge]
  split <;> split <;> rfl

theorem orderly_concat : (s ++ [c]).Orderly ↔ s.Orderly ∧ c.FitsAfter s := by
  have hlength : (s ++ [c]).length = s.length + 1 := List.length_append
  constructor
  · intro h
    refine ⟨fun n => ?_, ?_⟩
    · have hn := h ⟨n, hlength ▸ n.isLt.trans (Nat.lt_succ_self _)⟩
      simpa [List.getElem_append_left n.isLt,
        List.take_append_of_le_length n.isLt.le] using hn
    · simpa using h ⟨s.length, hlength ▸ Nat.lt_succ_self _⟩
  · intro h n
    obtain ⟨hs, hc⟩ := h
    obtain ⟨n, hn⟩ := n
    rcases Nat.lt_or_ge n s.length with hlt | hge
    · simpa [List.getElem_append_left hlt, List.take_append_of_le_length hlt.le]
        using hs ⟨n, hlt⟩
    · obtain rfl : n = s.length := by omega
      simpa using hc

/-! ## What an orderly script speaks of -/

theorem Orderly.exists_before (h : s.Orderly) (hc : c ∈ s) :
    ∃ before : Script, c.FitsAfter before ∧ before.blockIds ⊆ s.blockIds := by
  obtain ⟨n, hn, rfl⟩ := List.getElem_of_mem hc
  refine ⟨s.take n, h ⟨n, hn⟩, List.map_subset _ (List.range_subset.2 ?_)⟩
  exact Nat.add_le_add_right (List.take_sublist n s).countP_le 2

theorem Orderly.push_mem (h : s.Orderly) {p : BlockId × Instr}
    (hp : p ∈ s.pushes) : p.1 ∈ s.blockIds := by
  obtain ⟨c, hc, hpush⟩ := List.mem_filterMap.1 hp
  obtain ⟨before, hfits, hsub⟩ := h.exists_before hc
  cases c <;> cases hpush
  exact hsub hfits.2

theorem Orderly.edge_mem (h : s.Orderly) {e : BlockId × BlockId}
    (he : e ∈ s.edges) : e.1 ∈ s.blockIds ∧ e.2 ∈ s.blockIds := by
  obtain ⟨c, hc, hedge⟩ := List.mem_filterMap.1 he
  obtain ⟨before, hfits, hsub⟩ := h.exists_before hc
  cases c <;> cases hedge
  exact ⟨hsub hfits.1, hsub hfits.2⟩

/-- An orderly script puts nothing into a block before it makes it. -/
theorem Orderly.blockOf_eq_new (h : s.Orderly) (hb : b ∉ s.blockIds) :
    s.blockOf b = .new b := by
  have hquads : s.numbered.filter (·.1 = b) = [] := by
    rw [List.filter_eq_nil_iff]
    intro x hx heq
    obtain ⟨p, hp, rfl⟩ := List.mem_map.1 hx
    obtain rfl := of_decide_eq_true heq
    exact hb (h.push_mem (List.fst_mem_of_mem_zipIdx hp))
  have hpreds : s.edges.filter (·.2 = b) = [] := by
    rw [List.filter_eq_nil_iff]
    intro e he heq
    obtain rfl := of_decide_eq_true heq
    exact hb (h.edge_mem he).2
  have hsuccs : s.edges.filter (·.1 = b) = [] := by
    rw [List.filter_eq_nil_iff]
    intro e he heq
    obtain rfl := of_decide_eq_true heq
    exact hb (h.edge_mem he).1
  simp only [blockOf, quadsOf, predsOf, succsOf, hquads, hpreds, hsuccs]
  rfl

theorem mem_succsOf : b ∈ s.succsOf a ↔ (a, b) ∈ s.edges := by
  simp [succsOf, List.mem_eraseDups]

theorem mem_predsOf : a ∈ s.predsOf b ↔ (a, b) ∈ s.edges := by
  simp [predsOf, List.mem_eraseDups]

theorem mem_blockIds_of_isSentinel (hb : b.isSentinel) : b ∈ s.blockIds := by
  have hcount : 2 ≤ s.blockCount := Nat.le_add_left ..
  simp only [BlockId.isSentinel, Bool.or_eq_true, decide_eq_true_eq] at hb
  rcases hb with rfl | rfl
  · exact List.mem_map.2 ⟨0, List.mem_range.2 (by omega), rfl⟩
  · exact List.mem_map.2 ⟨1, List.mem_range.2 (by omega), rfl⟩

/-- The number of the next block is not taken. -/
theorem notMem_blockIds (h : s.blockCount < UInt32.size) :
    (⟨.ofNat s.blockCount⟩ : BlockId) ∉ s.blockIds := by
  intro hmem
  obtain ⟨n, hn, heq⟩ := List.mem_map.1 hmem
  rw [List.mem_range] at hn
  have hval := congrArg (fun b : BlockId => b.val.toNat) heq
  simp only [UInt32.toNat_ofNat_of_lt' h,
    UInt32.toNat_ofNat_of_lt' (hn.trans h)] at hval
  omega

theorem blockCount_le (s : Script) : s.blockCount ≤ s.length + 2 :=
  Nat.add_le_add_right List.countP_le_length 2

theorem length_pushes_le (s : Script) : s.pushes.length ≤ s.length :=
  List.length_filterMap_le ..

end Script

/-! ## A draft and its script -/

namespace Draft

/-- What the commands carried out so far tell of a draft. -/
structure Traces (name : String) (s : Script) (d : Draft) : Prop where
  method : d.graph.method = ⟨name, s.params⟩
  keys : d.graph.blocks.keys = s.blockIds
  nextQuad : d.graph.nextQuad.toNat = s.pushes.length + 1
  nextBlock : d.graph.nextBlock.toNat = s.blockCount
  clean : d.defects = [] ↔ s.Orderly
  blocks : s.Orderly → ∀ b ∈ s.blockIds, d.graph.block? b = some (s.blockOf b)

variable {name : String} {s : Script} {d : Draft} {a b : BlockId} {i : Instr}

theorem pushDefects_eq_nil_iff {q : QuadId} :
    d.pushDefects q b = [] ↔
      b.isSentinel = false ∧ b ∈ d.graph.blocks.keys := by
  simp [pushDefects, KeyedList.contains]

theorem new_traces (name : String) : (Draft.new name).Traces name [] where
  method := rfl
  keys := rfl
  nextQuad := rfl
  nextBlock := rfl
  clean := ⟨fun _ n => n.elim0, fun _ => rfl⟩
  blocks := by
    intro _ b hb
    cases hblk : (Draft.new name).graph.block? b with
    | none => exact absurd hb (KeyedList.get?_eq_none_iff.1 hblk)
    | some blk => exact congrArg some (block_new hblk).2

theorem Traces.param (h : d.Traces name s) (r : Register) :
    (d.param r).Traces name (s ++ [.param r]) := by
  have horderly : (s ++ [Command.param r]).Orderly ↔ s.Orderly := by
    rw [Script.orderly_concat]
    exact and_iff_left trivial
  refine ⟨?_, ?_, ?_, ?_, ?_, fun hs k hk => ?_⟩
  · simp only [Draft.param, h.method, Script.params_param]
  · rw [Script.blockIds_concat rfl]
    exact h.keys
  · rw [Script.pushes_concat rfl]
    exact h.nextQuad
  · rw [Script.blockCount_concat rfl]
    exact h.nextBlock
  · rw [horderly]
    exact h.clean
  · rw [Script.blockIds_concat rfl] at hk
    rw [Script.blockOf_concat rfl rfl]
    exact h.blocks (horderly.1 hs) k hk

theorem Traces.block (h : d.Traces name s)
    (hroom : s.blockCount + 1 < UInt32.size) :
    ∃ b d', d.block = .ok (b, d') ∧ d'.Traces name (s ++ [.block]) := by
  have hnext : d.graph.nextBlock.toNat + 1 < UInt32.size := h.nextBlock ▸ hroom
  have hfresh : (⟨d.graph.nextBlock⟩ : BlockId) = ⟨.ofNat s.blockCount⟩ := by
    rw [← h.nextBlock, UInt32.ofNat_toNat]
  have hfree : (⟨d.graph.nextBlock⟩ : BlockId) ∉ s.blockIds :=
    hfresh ▸ Script.notMem_blockIds (Nat.lt_of_succ_lt hroom)
  have horderly : (s ++ [Command.block]).Orderly ↔ s.Orderly := by
    rw [Script.orderly_concat]
    exact and_iff_left trivial
  have hblock : d.block = .ok (⟨d.graph.nextBlock⟩, { d with
      graph.blocks :=
        d.graph.blocks.insert ⟨d.graph.nextBlock⟩ (.new ⟨d.graph.nextBlock⟩)
      graph.nextBlock := d.graph.nextBlock + 1 }) := by
    rw [Draft.block, Graph.freshBlock, if_pos hnext]
    rfl
  refine ⟨_, _, hblock, ?_, ?_, ?_, ?_, ?_, fun hs k hk => ?_⟩
  · rw [Script.params_concat rfl]
    exact h.method
  · rw [Script.blockIds_block, KeyedList.keys_insert, h.keys,
      if_neg hfree, hfresh]
  · rw [Script.pushes_concat rfl]
    exact h.nextQuad
  · rw [Script.blockCount_block, toNat_next hnext, h.nextBlock]
  · rw [horderly]
    exact h.clean
  · rw [horderly] at hs
    rw [Script.blockOf_concat rfl rfl, Graph.block?, KeyedList.get?_insert]
    split
    · next hnew => rw [hnew, hs.blockOf_eq_new hfree]
    · next hold =>
        rw [Script.blockIds_block, List.mem_append, List.mem_singleton,
          ← hfresh] at hk
        exact h.blocks hs k (hk.resolve_right hold)

theorem Traces.push (h : d.Traces name s) (b : BlockId) (i : Instr)
    (hroom : s.pushes.length + 2 < UInt32.size) :
    ∃ q d', d.push b i = .ok (q, d') ∧ d'.Traces name (s ++ [.push b i]) := by
  have hnext : d.graph.nextQuad.toNat + 1 < UInt32.size := h.nextQuad ▸ hroom
  have hfresh : (⟨d.graph.nextQuad⟩ : QuadId) =
      ⟨.ofNat (s.pushes.length + 1)⟩ := by
    rw [← h.nextQuad, UInt32.ofNat_toNat]
  refine ⟨_, _, by rw [Draft.push, if_pos hnext], ?_, ?_, ?_, ?_, ?_,
    fun hs k hk => ?_⟩
  · rw [Script.params_concat rfl]
    exact h.method
  · rw [Script.blockIds_concat rfl, KeyedList.keys_modify]
    exact h.keys
  · rw [Script.pushes_push, toNat_next hnext, h.nextQuad, List.length_append]
    rfl
  · rw [Script.blockCount_concat rfl]
    exact h.nextBlock
  · rw [Script.orderly_concat, List.append_eq_nil_iff, h.clean,
      pushDefects_eq_nil_iff, h.keys]
    rfl
  · rw [Script.blockIds_concat rfl] at hk
    have hblk : d.graph.blocks.get? k = some (s.blockOf k) :=
      h.blocks (Script.orderly_concat.1 hs).1 k hk
    rw [Script.blockOf_push, Graph.block?, KeyedList.get?_modify_eq_map,
      hblk, hfresh, Option.map_some]

theorem Traces.edge (h : d.Traces name s) (a b : BlockId) :
    (d.edge a b).Traces name (s ++ [.edge a b]) := by
  have hthere :
      (d.graph.blocks.contains a && d.graph.blocks.contains b) = true ↔
      (Command.edge a b).FitsAfter s := by
    simp [KeyedList.contains, h.keys, Command.FitsAfter]
  have hmethod : d.graph.method = ⟨name, (s ++ [Command.edge a b]).params⟩ := by
    rw [Script.params_concat rfl]
    exact h.method
  have hquad : d.graph.nextQuad.toNat =
      (s ++ [Command.edge a b]).pushes.length + 1 := by
    rw [Script.pushes_concat rfl]
    exact h.nextQuad
  have hblock : d.graph.nextBlock.toNat =
      (s ++ [Command.edge a b]).blockCount := by
    rw [Script.blockCount_concat rfl]
    exact h.nextBlock
  by_cases hfits : (Command.edge a b).FitsAfter s
  · rw [Draft.edge, if_pos (hthere.2 hfits)]
    refine ⟨hmethod, ?_, hquad, hblock, ?_, fun hs k hk => ?_⟩
    · rw [Script.blockIds_concat rfl, KeyedList.keys_modify,
        KeyedList.keys_modify]
      exact h.keys
    · rw [Script.orderly_concat, and_iff_left hfits]
      exact h.clean
    · rw [Script.blockIds_concat rfl] at hk
      have hblk : d.graph.blocks.get? k = some (s.blockOf k) :=
        h.blocks (Script.orderly_concat.1 hs).1 k hk
      rw [Script.blockOf_edge, Graph.block?, KeyedList.get?_modify_eq_map,
        KeyedList.get?_modify_eq_map, hblk, Option.map_some, Option.map_some]
  · -- the mistake is noted, and from here on nothing is said of the blocks
    have hunfit : ¬ (s ++ [Command.edge a b]).Orderly :=
      fun hs => hfits (Script.orderly_concat.1 hs).2
    rw [Draft.edge, if_neg (mt hthere.1 hfits)]
    refine ⟨hmethod, ?_, hquad, hblock, ?_, fun hs => absurd hs hunfit⟩
    · rw [Script.blockIds_concat rfl]
      exact h.keys
    · exact iff_of_false (by simp) hunfit

/-- One command keeps a draft in step with its script. -/
theorem Traces.apply (h : d.Traces name s) (c : Command)
    (hlen : s.length < 2 ^ 31) :
    ∃ d', d.apply c = .ok d' ∧ d'.Traces name (s ++ [c]) := by
  have hcount := s.blockCount_le
  have hpushes := s.length_pushes_le
  have hsize : UInt32.size = 2 ^ 32 := rfl
  cases c with
  | param r => exact ⟨_, rfl, h.param r⟩
  | block =>
      obtain ⟨b, d', hd, h'⟩ := h.block (by omega)
      exact ⟨d', by rw [Draft.apply, hd]; rfl, h'⟩
  | push b i =>
      obtain ⟨q, d', hd, h'⟩ := h.push b i (by omega)
      exact ⟨d', by rw [Draft.apply, hd]; rfl, h'⟩
  | edge a b => exact ⟨_, rfl, h.edge a b⟩

theorem run_concat {d₀ : Draft} (hrun : d₀.run s = .ok d) (c : Command) :
    d₀.run (s ++ [c]) = d.apply c := by
  rw [Draft.run] at hrun ⊢
  rw [List.foldlM_append, hrun]
  exact bind_pure (d.apply c)

/-- A script of reasonable length is carried out to its end. -/
theorem exists_traces (name : String) (s : Script) (hlen : s.length < 2 ^ 31) :
    ∃ d, (Draft.new name).run s = .ok d ∧ d.Traces name s := by
  induction s using List.reverseRecOn with
  | nil => exact ⟨_, rfl, new_traces name⟩
  | append_singleton s c ih =>
      rw [List.length_append, List.length_singleton] at hlen
      obtain ⟨d, hrun, h⟩ := ih (Nat.lt_of_succ_lt hlen)
      obtain ⟨d', happly, h'⟩ := h.apply c (Nat.lt_of_succ_lt hlen)
      exact ⟨d', (run_concat hrun c).trans happly, h'⟩

/-! ## The shape of what a script makes -/

theorem Traces.succs (h : d.Traces name s) (hs : s.Orderly)
    (hb : b ∈ s.blockIds) : d.graph.succs b = s.succsOf b := by
  rw [Graph.succs_eq]
  exact KeyedList.listAt_of_get? (h.blocks hs b hb) Block.succs

theorem Traces.preds (h : d.Traces name s) (hs : s.Orderly)
    (hb : b ∈ s.blockIds) : d.graph.predsAt b = s.predsOf b :=
  Graph.predsAt_of_block (h.blocks hs b hb)

theorem Traces.block?_eq_some_iff (h : d.Traces name s) (hs : s.Orderly)
    {blk : Block} :
    d.graph.block? b = some blk ↔ b ∈ s.blockIds ∧ blk = s.blockOf b := by
  constructor
  · intro hblk
    have hb : b ∈ s.blockIds := by
      by_contra hb
      rw [← h.keys] at hb
      rw [Graph.block?, KeyedList.get?_eq_none_iff.2 hb] at hblk
      cases hblk
    exact ⟨hb, Option.some.inj (hblk.symm.trans (h.blocks hs b hb))⟩
  · intro hblk
    obtain ⟨hb, rfl⟩ := hblk
    exact h.blocks hs b hb

/-- The end finds nothing wrong exactly when the script is valid. -/
theorem Traces.valid_iff (h : d.Traces name s) :
    s.Valid ↔ d.defects = [] ∧ d.graph.Shaped := by
  have hentry : BlockId.entry ∈ s.blockIds :=
    Script.mem_blockIds_of_isSentinel rfl
  have hexit : BlockId.exit ∈ s.blockIds :=
    Script.mem_blockIds_of_isSentinel rfl
  rw [h.clean]
  constructor
  · intro hv
    have hs := hv.orderly
    refine ⟨hs, ?_, ?_, ?_, fun b blk hblk => ?_,
      fun b blk hblk q hq t ht => ?_⟩
    · obtain ⟨⟨-, b⟩, he, rfl⟩ := hv.entry_left
      rw [h.succs hs hentry]
      exact List.ne_nil_of_mem (Script.mem_succsOf.2 he)
    · rw [h.preds hs hentry, List.eq_nil_iff_forall_not_mem]
      exact fun a ha => hv.entry_first _ (Script.mem_predsOf.1 ha) rfl
    · rw [h.succs hs hexit, List.eq_nil_iff_forall_not_mem]
      exact fun b hb => hv.exit_last _ (Script.mem_succsOf.1 hb) rfl
    · obtain ⟨hb, rfl⟩ := (h.block?_eq_some_iff hs).1 hblk
      exact hv.inner b hb
    · obtain ⟨hb, rfl⟩ := (h.block?_eq_some_iff hs).1 hblk
      exact Script.mem_succsOf.2 (hv.target b hb q hq t ht)
  · intro hright
    obtain ⟨hs, hshaped⟩ := hright
    have hsuccs := hshaped.exit_succs
    have hpreds := hshaped.entry_preds
    rw [h.succs hs hexit] at hsuccs
    rw [h.preds hs hentry] at hpreds
    refine ⟨hs, ?_, ?_, ?_, fun b hb => ?_, fun b hb q hq t ht => ?_⟩
    · obtain ⟨b, hb⟩ := List.exists_mem_of_ne_nil _ hshaped.entry_succs
      rw [h.succs hs hentry, Script.mem_succsOf] at hb
      exact ⟨_, hb, rfl⟩
    · rintro ⟨a, -⟩ he rfl
      exact List.not_mem_nil (hpreds ▸ Script.mem_predsOf.2 he)
    · rintro ⟨-, b⟩ he rfl
      exact List.not_mem_nil (hsuccs ▸ Script.mem_succsOf.2 he)
    · exact hshaped.inner b _ (h.blocks hs b hb)
    · exact Script.mem_succsOf.1
        (hshaped.target b _ (h.blocks hs b hb) q hq t ht)

end Draft

/-- A script makes a graph exactly when it is valid, and otherwise mistakes are
reported. The blocks of the graph stand under their numbers, in the order of
their making. Each holds what was pushed into it, numbered by the place among
all pushes, and its edges in the order in which they were first given. -/
theorem script_builds_iff_valid (name : String) (s : Script)
    (hlen : s.length < 2 ^ 31) :
    ((∃ g, Graph.build name s = .ok g) ↔ s.Valid) ∧
      (¬ s.Valid → ∃ defects, defects ≠ [] ∧
        Graph.build name s = .error (.malformed defects)) ∧
      ∀ g, Graph.build name s = .ok g →
        g.method = ⟨name, s.params⟩ ∧
        g.blocks.keys = s.blockIds ∧
        (∀ b ∈ s.blockIds, g.block? b = some (s.blockOf b)) ∧
        g.Linked ∧
        g.nextQuad.toNat = s.pushes.length + 1 ∧
        g.nextBlock.toNat = s.blockCount := by
  obtain ⟨d, hrun, h⟩ := Draft.exists_traces name s hlen
  have hbuild := Graph.build_eq_finish hrun
  refine ⟨⟨?_, fun hv => ?_⟩, fun hv => ?_, fun g hg => ?_⟩
  · intro hsome
    obtain ⟨g, hg⟩ := hsome
    obtain ⟨hclean, hshaped, -⟩ := Draft.finish_eq_ok_iff.1 (hbuild ▸ hg)
    exact h.valid_iff.2 ⟨hclean, hshaped⟩
  · obtain ⟨hclean, hshaped⟩ := h.valid_iff.1 hv
    exact ⟨d.graph,
      hbuild.trans (Draft.finish_eq_ok_iff.2 ⟨hclean, hshaped, rfl⟩)⟩
  · rw [hbuild]
    exact Draft.finish_eq_error (mt h.valid_iff.2 hv)
  · have hlinked := (Graph.build_wellFormed hg).linked
    obtain ⟨hclean, -, rfl⟩ := Draft.finish_eq_ok_iff.1 (hbuild ▸ hg)
    exact ⟨h.method, h.keys, h.blocks (h.clean.1 hclean), hlinked, h.nextQuad,
      h.nextBlock⟩

/-- A script that adds edges and quads as soon as it can, one edge twice. -/
def Script.interleaved : Script :=
  [.block, .edge .entry ⟨2⟩, .push ⟨2⟩ (.nullCheck none ⟨"R0"⟩), .block,
    .edge ⟨2⟩ ⟨3⟩, .edge ⟨3⟩ ⟨2⟩, .param ⟨"R0"⟩, .edge ⟨3⟩ .exit, .edge ⟨3⟩ ⟨2⟩,
    .push ⟨3⟩ (.branch (.reg ⟨"R0"⟩) (.const .null) .eq ⟨2⟩)]

/-- The interleaved script is valid and makes a graph. The same commands the
other way round are refused. -/
theorem script_builds_iff_valid_interleaved :
    Script.interleaved.Valid ∧ ¬ Script.Valid Script.interleaved.reverse ∧
      (∃ g, Graph.build "loop" Script.interleaved = .ok g ∧
        g.block? ⟨3⟩ = some ⟨⟨3⟩,
          [⟨⟨2⟩, .branch (.reg ⟨"R0"⟩) (.const .null) .eq ⟨2⟩⟩], [⟨2⟩],
          [⟨2⟩, .exit]⟩ ∧ g.nextQuad.toNat = 3 ∧ g.nextBlock.toNat = 4) ∧
      ∃ defects, defects ≠ [] ∧
        Graph.build "loop" Script.interleaved.reverse =
          .error (.malformed defects) := by
  have hvalid : Script.interleaved.Valid := by decide
  have hrefused : ¬ Script.Valid Script.interleaved.reverse := by decide
  obtain ⟨hbuilds, -, hmade⟩ :=
    script_builds_iff_valid "loop" Script.interleaved (by decide)
  obtain ⟨-, hmalformed, -⟩ :=
    script_builds_iff_valid "loop" Script.interleaved.reverse (by decide)
  obtain ⟨g, hg⟩ := hbuilds.2 hvalid
  obtain ⟨-, -, hblocks, -, hquad, hblock⟩ := hmade g hg
  refine ⟨hvalid, hrefused, ⟨g, hg, ?_, hquad, hblock⟩, hmalformed hrefused⟩
  rw [hblocks ⟨3⟩ (by decide)]
  decide

end Dataflow
