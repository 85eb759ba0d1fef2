import Dataflow.Proofs.Allocation
import Dataflow.Proofs.EdgeJoin

/-!
# Facts in columns

The facts of a method are kept in two columns, one for each side of a quad, in
which a quad finds its cells by its number. The columns reach past the highest
number that the graph knows of, and the cells of numbers that the program order
does not visit are vacant. `FactMap` leaves all that out and lists the cells
that are taken. This file shows that nothing is lost by it. `FactColumns.toMap`
reads the list off the columns. For new columns it is the list that
`FactMap.uniform` makes (`FactColumns.allocate_ok`), and from then on the two
stay together, whatever is asked of them (`Access.run_columns`).

Two things carry this, and they are fields of `FactColumns`. A cell is taken in
both columns or in none, so that finding one side tells that the other is there;
and no column is longer than there are numbers, so that a position names one
quad. That new columns are long enough is `Graph.index_lt_columnLength`.

The solver does nothing to its table but read and write facts. `Access` makes
that a statement: a computation is one tree of reads and writes, the same for
all tables, and it can be run on either form. So the loop of sweeps finds on
columns what it finds on the list (`Problem.solveAlong_in_columns`).
-/

namespace Dataflow

/-! ## Lists of slots -/

namespace FactMap

variable {F G : Type}

@[simp] theorem ids_modify (t : FactMap F) (side : Side) (q : QuadId)
    (f : F → F) : (t.modify side q f).ids = t.ids := by
  simp only [ids, modify, List.map_map]
  apply List.map_congr_left
  intro s _
  simp only [Function.comp]
  split <;> rfl

theorem ids_update {t t' : FactMap F} {side : Side} {q : QuadId} {f : F → F}
    (h : t.update side q f = .ok t') : t'.ids = t.ids := by
  simp only [update] at h
  split at h
  · cases h
    exact ids_modify t side q f
  · cases h

@[simp] theorem ids_setTerminal (t : FactMap F) (e : Terminal) (f : F) :
    (t.setTerminal e f).ids = t.ids := by
  cases e <;> rfl

@[simp] theorem ids_map (f : F → G) (t : FactMap F) :
    (t.map f).ids = t.ids := by
  simp [ids, map, Function.comp_def]

@[simp] theorem ids_uniform (g : Graph) (f : F) :
    (uniform g f).ids = (OrdSet.ofList (g.quads.map Quad.id)).toList := by
  simp [ids, uniform, Function.comp_def]

/-- A table is its slots in order and the facts at both ends. -/
theorem eq_of_slot? {t t' : FactMap F} (hnodup : t.ids.Nodup)
    (hids : t'.ids = t.ids) (hslot : ∀ q, t'.slot? q = t.slot? q)
    (hterminal : ∀ e, t'.terminal? e = t.terminal? e) : t' = t := by
  have hnodup' : t'.ids.Nodup := by rwa [hids]
  have hslots : (⟨t'.slots, hnodup'⟩ : KeyedList QuadId (Slot F)) =
      ⟨t.slots, hnodup⟩ := KeyedList.ext_get? hids hslot
  obtain ⟨slots, entry, exit⟩ := t
  obtain ⟨slots', entry', exit'⟩ := t'
  cases hslots
  cases hterminal .entry
  cases hterminal .exit
  rfl

/-- When the slots ascend, their order does not have to be given. -/
theorem eq_of_ascending {t t' : FactMap F} (hasc : t.ids.Pairwise (· < ·))
    (hasc' : t'.ids.Pairwise (· < ·)) (hslot : ∀ q, t'.slot? q = t.slot? q)
    (hterminal : ∀ e, t'.terminal? e = t.terminal? e) : t' = t := by
  have hnodup : t.ids.Nodup := hasc.imp Element.ne_of_lt
  have hids : t'.ids = t.ids := by
    refine OrdSet.eq_of_mem_iff hasc' hasc fun q => ?_
    rw [← isSome_slot?_iff, hslot, isSome_slot?_iff]
  exact eq_of_slot? hnodup hids hslot hterminal

end FactMap

/-! ## Columns -/

/-- Where the facts of a quad stand in a column. -/
def QuadId.index (q : QuadId) : Nat := q.val.toNat

theorem QuadId.index_inj {q q' : QuadId} : q.index = q'.index ↔ q = q' := by
  constructor
  · intro h
    obtain ⟨n⟩ := q
    obtain ⟨n'⟩ := q'
    exact congrArg QuadId.mk (UInt32.toNat_inj.1 h)
  · rintro rfl
    rfl

theorem QuadId.index_ofNat {i : Nat} (h : i < UInt32.size) :
    QuadId.index ⟨.ofNat i⟩ = i :=
  UInt32.toNat_ofNat_of_lt' h

/-- A position in a list that is not too long is the index of the quad with
that number. -/
theorem QuadId.index_of_getElem? {α : Type} {l : List α} {i : Nat} {x : α}
    (hlength : l.length ≤ UInt32.size) (h : l[i]? = some x) :
    QuadId.index ⟨.ofNat i⟩ = i :=
  index_ofNat (Nat.lt_of_lt_of_le (List.getElem?_eq_some_iff.1 h).1 hlength)

theorem QuadId.ofNat_index (q : QuadId) : (⟨.ofNat q.index⟩ : QuadId) = q :=
  index_inj.1 (index_ofNat (UInt32.toNat_lt _))

/-- The facts of a method in two columns. -/
structure FactColumns (F : Type) where
  before : List (Option F)
  after : List (Option F)
  entry : Option F
  exit : Option F
  /-- A cell is taken in both columns or in none. -/
  aligned : before.map Option.isSome = after.map Option.isSome
  /-- Every cell has a quad number. -/
  numbered : before.length ≤ UInt32.size

/-- How long the columns of a graph are: past its highest quad number. -/
def Graph.columnLength (g : Graph) : Nat :=
  ((g.quads.map Quad.id).foldl QuadId.max g.topQuad).index + 1

theorem Graph.columnLength_le (g : Graph) : g.columnLength ≤ UInt32.size :=
  UInt32.toNat_lt _

namespace FactColumns

variable {F G : Type}

/-- Columns of a graph without a taken cell, and one fact at both ends. -/
def vacant (g : Graph) (f : F) : FactColumns F where
  before := .replicate g.columnLength none
  after := .replicate g.columnLength none
  entry := some f
  exit := some f
  aligned := rfl
  numbered := by simpa using g.columnLength_le

/-- Puts a fact into both cells of a quad, which must be there. -/
def fill (c : FactColumns F) (q : QuadId) (f : F) :
    Except Fault (FactColumns F) :=
  if q.index < c.before.length then
    .ok { c with
      before := c.before.set q.index (some f)
      after := c.after.set q.index (some f)
      aligned := by rw [List.map_set, List.map_set, c.aligned]
      numbered := by simpa using c.numbered }
  else .error (.noSlot q)

/-- One fact everywhere in a graph. -/
def allocate (g : Graph) (f : F) : Except Fault (FactColumns F) :=
  (g.quads.map Quad.id).foldlM (fun c q => c.fill q f) (vacant g f)

def column (c : FactColumns F) : Side → List (Option F)
  | .before => c.before
  | .after => c.after

def get? (c : FactColumns F) (side : Side) (q : QuadId) : Option F :=
  (c.column side)[q.index]?.join

/-- A fact of a quad, which must have a taken cell. -/
def get (c : FactColumns F) (side : Side) (q : QuadId) : Except Fault F :=
  match c.get? side q with
  | some f => .ok f
  | none => .error (.noSlot q)

/-- Changes a column without taking or vacating a cell. -/
def setColumn (c : FactColumns F) (side : Side) (l : List (Option F))
    (h : l.map Option.isSome = (c.column side).map Option.isSome) :
    FactColumns F :=
  have hlength : l.length = (c.column side).length := by
    simpa using congrArg List.length h
  match side with
  | .before =>
    { c with
      before := l
      aligned := h.trans c.aligned
      numbered := hlength ▸ c.numbered }
  | .after => { c with after := l, aligned := c.aligned.trans h.symm }

theorem map_isSome_modify (l : List (Option F)) (i : Nat) (f : F → F) :
    (l.modify i (Option.map f)).map Option.isSome = l.map Option.isSome := by
  refine List.ext_getElem? fun j => ?_
  rw [List.getElem?_map, List.getElem?_map, List.getElem?_modify]
  cases l[j]? with
  | none => rfl
  | some cell => by_cases h : i = j <;> simp [h]

/-- Changes what stands in a cell; a vacant one stays vacant. -/
def modify (c : FactColumns F) (side : Side) (q : QuadId) (f : F → F) :
    FactColumns F :=
  c.setColumn side ((c.column side).modify q.index (Option.map f))
    (map_isSome_modify _ _ _)

/-- Changes a fact of a quad, which must have a taken cell. -/
def update (c : FactColumns F) (side : Side) (q : QuadId) (f : F → F) :
    Except Fault (FactColumns F) :=
  match c.get? side q with
  | some _ => .ok (c.modify side q f)
  | none => .error (.noSlot q)

def terminal? (c : FactColumns F) : Terminal → Option F
  | .entry => c.entry
  | .exit => c.exit

/-- The fact at an end of the method, which must be there. -/
def terminal (c : FactColumns F) (e : Terminal) : Except Fault F :=
  match c.terminal? e with
  | some f => .ok f
  | none => .error .noFacts

def setTerminal (c : FactColumns F) (e : Terminal) (f : F) : FactColumns F :=
  match e with
  | .entry => { c with entry := some f }
  | .exit => { c with exit := some f }

/-- Passes every fact through a function. -/
def map (f : F → G) (c : FactColumns F) : FactColumns G where
  before := c.before.map (Option.map f)
  after := c.after.map (Option.map f)
  entry := c.entry.map f
  exit := c.exit.map f
  aligned := by simpa [Function.comp_def] using c.aligned
  numbered := by simpa using c.numbered

/-- The numbers of the taken cells, ascending. -/
def ids (c : FactColumns F) : List QuadId :=
  c.before.zipIdx.filterMap fun (cell, i) => cell.map fun _ => ⟨.ofNat i⟩

/-- The columns side by side, vacant cells left out. -/
def rows (c : FactColumns F) : List (QuadId × Slot F) :=
  (c.before.zip c.after).zipIdx.filterMap fun ((before, after), i) =>
    before.bind fun b => after.map fun a => (⟨.ofNat i⟩, ⟨b, a⟩)

/-- What the columns hold. -/
def toMap (c : FactColumns F) : FactMap F := ⟨c.rows, c.entry, c.exit⟩

/-! ## Reading cells -/

variable {c : FactColumns F} {side side' : Side} {q q' : QuadId} {f : F → F}

theorem length_column (c : FactColumns F) (side : Side) :
    (c.column side).length = c.before.length := by
  cases side with
  | before => rfl
  | after =>
      show c.after.length = c.before.length
      simpa using (congrArg List.length c.aligned).symm

theorem get?_eq_some_iff {x : F} :
    c.get? side q = some x ↔ (c.column side)[q.index]? = some (some x) :=
  Option.join_eq_some_iff

theorem isSome_get? (c : FactColumns F) (side : Side) (q : QuadId) :
    (c.get? side q).isSome = (c.get? .before q).isSome := by
  have hcell : ∀ l : List (Option F), l[q.index]?.join.isSome =
      ((l.map Option.isSome)[q.index]?).getD false := by
    intro l
    rw [List.getElem?_map]
    cases l[q.index]? <;> rfl
  cases side with
  | before => rfl
  | after => exact (hcell _).trans (c.aligned ▸ (hcell _).symm)

theorem column_setColumn {l : List (Option F)}
    (h : l.map Option.isSome = (c.column side).map Option.isSome) :
    (c.setColumn side l h).column side' =
      if side' = side then l else c.column side' := by
  cases side <;> cases side' <;> rfl

theorem terminal?_setColumn {l : List (Option F)}
    (h : l.map Option.isSome = (c.column side).map Option.isSome)
    (e : Terminal) : (c.setColumn side l h).terminal? e = c.terminal? e := by
  cases side <;> cases e <;> rfl

theorem get?_modify : (c.modify side q f).get? side' q' =
    if side' = side ∧ q' = q then (c.get? side q).map f
    else c.get? side' q' := by
  unfold get? modify
  rw [column_setColumn]
  by_cases hside : side' = side
  · subst hside
    rw [if_pos rfl, List.getElem?_modify]
    simp only [QuadId.index_inj]
    by_cases hq : q = q'
    · subst hq
      cases (c.column side')[q.index]? <;> simp
    · simp [hq, Ne.symm hq]
  · simp [hside]

theorem get?_map (f : F → G) (c : FactColumns F) :
    (c.map f).get? side q = (c.get? side q).map f := by
  have hcolumn : (c.map f).column side =
      (c.column side).map (Option.map f) := by
    cases side <;> rfl
  rw [get?, get?, hcolumn, List.getElem?_map]
  cases (c.column side)[q.index]? <;> rfl

/-- The facts of a quad, both of them or none. -/
def slot? (c : FactColumns F) (q : QuadId) : Option (Slot F) :=
  (c.get? .before q).bind fun b => (c.get? .after q).map fun a => ⟨b, a⟩

theorem slot?_eq_some_iff {s : Slot F} :
    c.slot? q = some s ↔ ∀ side, c.get? side q = some (s.get side) := by
  simp only [slot?, Option.bind_eq_some_iff, Option.map_eq_some_iff]
  constructor
  · rintro ⟨b, hb, a, ha, rfl⟩ side
    cases side
    · exact hb
    · exact ha
  · intro h
    exact ⟨s.before, h .before, s.after, h .after, rfl⟩

/-- One side of a quad is there when the other is. -/
theorem map_get_slot? (c : FactColumns F) (side : Side) (q : QuadId) :
    ((c.slot? q).map fun s => s.get side) = c.get? side q := by
  have hboth := c.isSome_get? .after q
  unfold slot?
  cases hb : c.get? .before q with
  | none =>
      rw [hb] at hboth
      have ha := Option.not_isSome_iff_eq_none.1 (Bool.eq_false_iff.1 hboth)
      cases side <;> simp [ha, hb]
  | some b =>
      rw [hb] at hboth
      obtain ⟨a, ha⟩ := Option.isSome_iff_exists.1 hboth
      cases side <;> simp [ha, hb, Slot.get]

/-! ## Rows -/

theorem mem_rows {s : Slot F} : (q, s) ∈ c.rows ↔ c.slot? q = some s := by
  rw [slot?_eq_some_iff]
  simp only [rows, List.mem_filterMap, Prod.exists,
    List.mk_mem_zipIdx_iff_getElem?, List.getElem?_zip_eq_some,
    Option.bind_eq_some_iff, Option.map_eq_some_iff, Prod.mk.injEq]
  constructor
  · rintro ⟨_, _, i, ⟨hb, ha⟩, b, rfl, a, rfl, hq, rfl⟩
    have hindex : q.index = i := hq ▸ QuadId.index_of_getElem? c.numbered hb
    intro side
    rw [get?_eq_some_iff, hindex]
    cases side
    · exact hb
    · exact ha
  · intro h
    refine ⟨_, _, q.index, ⟨get?_eq_some_iff.1 (h .before),
      get?_eq_some_iff.1 (h .after)⟩, s.before, rfl, s.after, rfl,
      QuadId.ofNat_index q, rfl⟩

theorem mem_ids : q ∈ c.ids ↔ (c.get? .before q).isSome := by
  simp only [ids, List.mem_filterMap, Prod.exists,
    List.mk_mem_zipIdx_iff_getElem?, Option.map_eq_some_iff,
    Option.isSome_iff_exists, get?_eq_some_iff]
  constructor
  · rintro ⟨_, i, hcell, x, rfl, hq⟩
    have hindex : q.index = i := hq ▸ QuadId.index_of_getElem? c.numbered hcell
    exact ⟨x, hindex ▸ hcell⟩
  · rintro ⟨x, hcell⟩
    exact ⟨_, q.index, hcell, x, rfl, QuadId.ofNat_index q⟩

/-- Positions ascend, and so do the numbers of what is found at them. -/
theorem pairwise_filterMap_zipIdx {α β : Type} {l : List α}
    {k : α × Nat → Option β} {number : β → QuadId}
    (hlength : l.length ≤ UInt32.size)
    (hk : ∀ a i b, k (a, i) = some b → number b = ⟨.ofNat i⟩) :
    ((l.zipIdx.filterMap k).map number).Pairwise (· < ·) := by
  rw [List.pairwise_map, List.pairwise_filterMap]
  have hpositions : (l.zipIdx.map Prod.snd).Pairwise (· < ·) := by
    rw [List.zipIdx_map_snd]
    exact List.pairwise_lt_range' 1
  rw [List.pairwise_map] at hpositions
  refine hpositions.imp_of_mem ?_
  rintro ⟨a, i⟩ ⟨a', j⟩ hi hj hlt b hb b' hb'
  rw [List.mk_mem_zipIdx_iff_getElem?] at hi hj
  rw [hk a i b hb, hk a' j b' hb']
  refine UInt32.lt_iff_toNat_lt.2 ?_
  show QuadId.index ⟨.ofNat i⟩ < QuadId.index ⟨.ofNat j⟩
  rw [QuadId.index_of_getElem? hlength hi, QuadId.index_of_getElem? hlength hj]
  exact hlt

theorem ascending_ids_toMap (c : FactColumns F) :
    c.toMap.ids.Pairwise (· < ·) := by
  refine pairwise_filterMap_zipIdx ?_ ?_
  · rw [List.length_zip]
    have := c.numbered
    omega
  · rintro ⟨before, after⟩ i row hrow
    simp only [Option.bind_eq_some_iff, Option.map_eq_some_iff] at hrow
    obtain ⟨b, -, a, -, rfl⟩ := hrow
    rfl

/-- A quad has the slot that stands in its row. -/
theorem slot?_toMap (c : FactColumns F) (q : QuadId) :
    c.toMap.slot? q = c.slot? q := by
  have hnodup : c.toMap.ids.Nodup := c.ascending_ids_toMap.imp Element.ne_of_lt
  cases hslot : c.slot? q with
  | none =>
      rw [← Option.not_isSome_iff_eq_none, FactMap.isSome_slot?_iff]
      intro hq
      obtain ⟨⟨q, s⟩, hrow, rfl⟩ := List.mem_map.1 hq
      rw [mem_rows.1 hrow] at hslot
      cases hslot
  | some s =>
      have hrow : (q, s) ∈ c.toMap.slots := mem_rows.2 hslot
      exact KeyedList.get?_of_mem_entries (m := ⟨c.toMap.slots, hnodup⟩) hrow

/-! ## The operations -/

theorem get?_toMap (c : FactColumns F) (side : Side) (q : QuadId) :
    c.toMap.get? side q = c.get? side q := by
  rw [FactMap.get?, slot?_toMap, map_get_slot?]

theorem terminal?_toMap (c : FactColumns F) (e : Terminal) :
    c.toMap.terminal? e = c.terminal? e := by
  cases e <;> rfl

theorem get_toMap (c : FactColumns F) (side : Side) (q : QuadId) :
    c.toMap.get side q = c.get side q := by
  cases hget : c.get? side q <;> simp [FactMap.get, get, get?_toMap, hget]

theorem terminal_toMap (c : FactColumns F) (e : Terminal) :
    c.toMap.terminal e = c.terminal e := by
  cases hterminal : c.terminal? e <;>
    simp [FactMap.terminal, terminal, terminal?_toMap, hterminal]

/-- What the columns hold is read off their cells. -/
theorem toMap_eq {t : FactMap F} (hasc : t.ids.Pairwise (· < ·))
    (hslot : ∀ q, c.slot? q = t.slot? q)
    (hterminal : ∀ e, c.terminal? e = t.terminal? e) : c.toMap = t := by
  refine FactMap.eq_of_ascending hasc c.ascending_ids_toMap
    (fun q => ?_) fun e => ?_
  · rw [slot?_toMap, hslot]
  · rw [terminal?_toMap, hterminal]

theorem ids_toMap (c : FactColumns F) : c.toMap.ids = c.ids := by
  have hasc : (c.ids.map id).Pairwise (· < ·) := by
    refine pairwise_filterMap_zipIdx c.numbered fun cell i q hq => ?_
    obtain ⟨-, -, rfl⟩ := Option.map_eq_some_iff.1 hq
    rfl
  rw [List.map_id] at hasc
  refine OrdSet.eq_of_mem_iff c.ascending_ids_toMap hasc fun q => ?_
  rw [← FactMap.isSome_slot?_iff, mem_ids, ← get?_toMap, FactMap.get?,
    Option.isSome_map]

theorem toMap_modify (c : FactColumns F) (side : Side) (q : QuadId)
    (f : F → F) : (c.modify side q f).toMap = c.toMap.modify side q f := by
  refine toMap_eq ?_ (fun q' => ?_) fun e => ?_
  · rw [FactMap.ids_modify]
    exact c.ascending_ids_toMap
  · by_cases hq : q' = q
    · subst hq
      rw [FactMap.slot?_modify_self, slot?_toMap]
      unfold slot?
      simp only [get?_modify, and_true]
      cases side <;> cases c.get? .before q' <;> cases c.get? .after q' <;> rfl
    · rw [FactMap.slot?_modify_of_ne hq, slot?_toMap]
      simp [slot?, get?_modify, hq]
  · rw [modify, terminal?_setColumn]
    cases e <;> rfl

theorem toMap_map (f : F → G) (c : FactColumns F) :
    (c.map f).toMap = c.toMap.map f := by
  refine toMap_eq ?_ (fun q => ?_) fun e => by cases e <;> rfl
  · rw [FactMap.ids_map]
    exact c.ascending_ids_toMap
  · rw [FactMap.slot?_map, slot?_toMap]
    simp only [slot?, get?_map]
    cases c.get? .before q <;> cases c.get? .after q <;> rfl

theorem toMap_update (c : FactColumns F) (side : Side) (q : QuadId)
    (f : F → F) : (c.update side q f).map toMap = c.toMap.update side q f := by
  have hslot := c.map_get_slot? side q
  rw [update, FactMap.update, slot?_toMap, ← hslot]
  cases c.slot? q with
  | none => rfl
  | some s => exact congrArg Except.ok (c.toMap_modify side q f)

theorem toMap_setTerminal (c : FactColumns F) (e : Terminal) (f : F) :
    (c.setTerminal e f).toMap = c.toMap.setTerminal e f := by
  cases e <;> rfl

/-! ## New columns -/

theorem fill_ok (hq : q.index < c.before.length) (x : F) :
    ∃ c', c.fill q x = .ok c' ∧ c'.before.length = c.before.length ∧
      (∀ side q', c'.get? side q' = if q' = q then some x else c.get? side q') ∧
      ∀ e, c'.terminal? e = c.terminal? e := by
  refine ⟨_, if_pos hq, List.length_set, fun side q' => ?_, fun e => ?_⟩
  · have hcell : ∀ l : List (Option F), q.index < l.length →
        (l.set q.index (some x))[q'.index]?.join =
          if q' = q then some x else l[q'.index]?.join := by
      intro l hl
      rw [List.getElem?_set]
      simp only [QuadId.index_inj, eq_comm (a := q)]
      split <;> rfl
    cases side with
    | before => exact hcell c.before hq
    | after => exact hcell c.after (c.length_column .after ▸ hq)
  · cases e <;> rfl

/-- Filling cells that are there goes through. -/
theorem foldlM_fill_ok (x : F) {qs : List QuadId} :
    ∀ {c : FactColumns F}, (∀ q ∈ qs, q.index < c.before.length) →
      ∃ c', qs.foldlM (fun c q => c.fill q x) c = .ok c' ∧
        (∀ side q, c'.get? side q = if q ∈ qs then some x else c.get? side q) ∧
        ∀ e, c'.terminal? e = c.terminal? e := by
  induction qs with
  | nil =>
      intro c _
      exact ⟨c, rfl, fun side q => by simp, fun e => rfl⟩
  | cons q qs ih =>
      intro c hqs
      obtain ⟨c₁, hfill, hlength, hget, hterminal⟩ :=
        fill_ok (hqs q List.mem_cons_self) x
      obtain ⟨c₂, hrest, hget₂, hterminal₂⟩ := ih (c := c₁) fun q' hq' =>
        hlength ▸ hqs q' (List.mem_cons_of_mem q hq')
      refine ⟨c₂, ?_, fun side q' => ?_,
        fun e => (hterminal₂ e).trans (hterminal e)⟩
      · rw [List.foldlM_cons, hfill]
        exact hrest
      · rw [hget₂, hget]
        by_cases hq' : q' = q <;> simp [hq']

end FactColumns

/-- The columns reach past every quad that is visited. -/
theorem Graph.index_lt_columnLength {g : Graph} {q : QuadId} (h : g.Visits q) :
    q.index < g.columnLength := by
  obtain ⟨quad, hquad, rfl⟩ := h
  have hle := ((Graph.foldl_max_le_iff _ g.topQuad).1 (UInt32.le_refl _)).2 _
    (List.mem_map_of_mem (f := Quad.id) hquad)
  exact Nat.lt_succ_of_le (UInt32.le_iff_toNat_le.1 hle)

namespace FactColumns

variable {F : Type}

theorem get?_vacant (g : Graph) (x : F) (side : Side) (q : QuadId) :
    (vacant g x).get? side q = none := by
  have hcell :
      (List.replicate g.columnLength (none : Option F))[q.index]?.join =
      none := by
    rw [List.getElem?_replicate]
    split <;> rfl
  cases side <;> exact hcell

/-- New columns can be made of every graph, and they hold the same fact
everywhere. -/
theorem allocate_ok (g : Graph) (x : F) :
    ∃ c, allocate g x = .ok c ∧ c.toMap = FactMap.uniform g x := by
  have hcells : ∀ q ∈ g.quads.map Quad.id,
      q.index < (vacant g x).before.length := by
    intro q hq
    have hlength : (vacant g x).before.length = g.columnLength :=
      List.length_replicate
    rw [hlength]
    exact Graph.index_lt_columnLength (List.mem_map.1 hq)
  obtain ⟨c, hc, hget, hterminal⟩ := foldlM_fill_ok x hcells
  refine ⟨c, hc, toMap_eq ?_ (fun q => ?_) fun e => ?_⟩
  · rw [FactMap.ids_uniform]
    exact OrdSet.ascending _
  · by_cases hq : q ∈ g.quads.map Quad.id
    · rw [FactMap.slot?_uniform (List.mem_map.1 hq)]
      simp [slot?, hget, hq]
    · have hnone : ¬ ((FactMap.uniform g x).slot? q).isSome := by
        rw [FactMap.isSome_slot?_iff, FactMap.ids_uniform]
        exact fun hmem => hq (OrdSet.mem_ofList.1 hmem)
      rw [Option.not_isSome_iff_eq_none.1 hnone]
      simp [slot?, hget, hq, get?_vacant]
  · rw [hterminal]
    cases e <;> rfl

end FactColumns

/-! ## Any use of a table

What can be asked of a table is the same in both forms. A computation that asks
for nothing else gets the same answers from both, so it does the same to
both. -/

/-- The ways to use a table of facts. -/
structure TableOps (T F : Type) where
  get : T → Side → QuadId → Except Fault F
  terminal : T → Terminal → Except Fault F
  update : T → Side → QuadId → (F → F) → Except Fault T
  setTerminal : T → Terminal → F → T
  map : (F → F) → T → T

namespace TableOps

variable {F : Type}

def slots : TableOps (FactMap F) F where
  get := FactMap.get
  terminal := FactMap.terminal
  update := FactMap.update
  setTerminal := FactMap.setTerminal
  map := FactMap.map

def columns : TableOps (FactColumns F) F where
  get := FactColumns.get
  terminal := FactColumns.terminal
  update := FactColumns.update
  setTerminal := FactColumns.setTerminal
  map := FactColumns.map

end TableOps

/-- A computation that uses a table in these ways only. -/
inductive Access (F R : Type) where
  | answer (r : R)
  | fail (fault : Fault)
  | get (side : Side) (q : QuadId) (next : F → Access F R)
  | terminal (e : Terminal) (next : F → Access F R)
  | update (side : Side) (q : QuadId) (f : F → F) (next : Access F R)
  | setTerminal (e : Terminal) (x : F) (next : Access F R)
  | map (f : F → F) (next : Access F R)

namespace Access

variable {T F R S : Type}

def run (ops : TableOps T F) : Access F R → T → Except Fault (T × R)
  | .answer r, t => .ok (t, r)
  | .fail fault, _ => .error fault
  | .get side q next, t => ops.get t side q >>= fun x => (next x).run ops t
  | .terminal e next, t => ops.terminal t e >>= fun x => (next x).run ops t
  | .update side q f next, t =>
      ops.update t side q f >>= fun t => next.run ops t
  | .setTerminal e x next, t => next.run ops (ops.setTerminal t e x)
  | .map f next, t => next.run ops (ops.map f t)

/-- Goes on with what a computation answers. -/
def bind (k : R → Access F S) : Access F R → Access F S
  | .answer r => k r
  | .fail fault => .fail fault
  | .get side q next => .get side q fun x => (next x).bind k
  | .terminal e next => .terminal e fun x => (next x).bind k
  | .update side q f next => .update side q f (next.bind k)
  | .setTerminal e x next => .setTerminal e x (next.bind k)
  | .map f next => .map f (next.bind k)

theorem run_bind (ops : TableOps T F) (k : R → Access F S) (a : Access F R) :
    ∀ t, (a.bind k).run ops t =
      a.run ops t >>= fun out => (k out.2).run ops out.1 := by
  induction a with
  | answer r => exact fun t => rfl
  | fail fault => exact fun t => rfl
  | get side q next ih =>
      intro t
      simp only [bind, run, bind_assoc, ih]
  | terminal e next ih =>
      intro t
      simp only [bind, run, bind_assoc, ih]
  | update side q f next ih =>
      intro t
      simp only [bind, run, bind_assoc, ih]
  | setTerminal e x next ih => exact fun t => ih _
  | map f next ih => exact fun t => ih _

/-- Columns answer every use as the list does that is read off them, and are
left with what the list is left with. -/
theorem run_columns (a : Access F R) :
    ∀ c : FactColumns F, (a.run .columns c).map
      (Prod.map FactColumns.toMap id) = a.run .slots c.toMap := by
  induction a with
  | answer r => exact fun c => rfl
  | fail fault => exact fun c => rfl
  | get side q next ih =>
      intro c
      show Except.map _ (c.get side q >>= fun x => (next x).run .columns c) =
        c.toMap.get side q >>= fun x => (next x).run .slots c.toMap
      rw [c.get_toMap]
      cases c.get side q with
      | error fault => rfl
      | ok x => exact ih x c
  | terminal e next ih =>
      intro c
      show Except.map _ (c.terminal e >>= fun x => (next x).run .columns c) =
        c.toMap.terminal e >>= fun x => (next x).run .slots c.toMap
      rw [c.terminal_toMap]
      cases c.terminal e with
      | error fault => rfl
      | ok x => exact ih x c
  | update side q f next ih =>
      intro c
      show Except.map _ (c.update side q f >>= next.run .columns) =
        c.toMap.update side q f >>= next.run .slots
      rw [← c.toMap_update]
      cases c.update side q f with
      | error fault => rfl
      | ok c' => exact ih c'
  | setTerminal e x next ih =>
      intro c
      exact (ih _).trans (congrArg (next.run .slots) (c.toMap_setTerminal e x))
  | map f next ih =>
      intro c
      exact (ih _).trans (congrArg (next.run .slots) (c.toMap_map f))

/-- No use makes a slot or takes one away. -/
theorem ids_run (a : Access F R) :
    ∀ {t t' : FactMap F} {r : R}, a.run .slots t = .ok (t', r) →
      t'.ids = t.ids := by
  induction a with
  | answer r =>
      intro t t' r' h
      cases h
      rfl
  | fail fault =>
      intro t t' r h
      cases h
  | get side q next ih =>
      intro t t' r h
      obtain ⟨x, -, h⟩ := exists_of_bind_eq_ok h
      exact ih x h
  | terminal e next ih =>
      intro t t' r h
      obtain ⟨x, -, h⟩ := exists_of_bind_eq_ok h
      exact ih x h
  | update side q f next ih =>
      intro t t' r h
      obtain ⟨t₁, hupdate, h⟩ := exists_of_bind_eq_ok h
      rw [ih h, FactMap.ids_update hupdate]
  | setTerminal e x next ih =>
      intro t t' r h
      rw [ih h]
      exact FactMap.ids_setTerminal t e x
  | map f next ih =>
      intro t t' r h
      rw [ih h]
      exact FactMap.ids_map f t

end Access

/-! ## The solver as a user -/

/-- A computation on tables that, whatever the table holds, goes through one and
the same access. -/
def FactMap.Uses {F R : Type} (run : FactMap F → Except Fault (FactMap F × R)) :
    Prop :=
  ∃ a : Access F R, ∀ t, a.run .slots t = run t

namespace FactMap.Uses

variable {F R S : Type} {first : FactMap F → Except Fault (FactMap F × R)}
  {next : R → FactMap F → Except Fault (FactMap F × S)}

theorem answer (r : R) : Uses fun t : FactMap F => .ok (t, r) :=
  ⟨.answer r, fun _ => rfl⟩

theorem fail (fault : Fault) :
    Uses fun _ : FactMap F => (.error fault : Except Fault (FactMap F × R)) :=
  ⟨.fail fault, fun _ => rfl⟩

theorem bind (hfirst : Uses first) (hnext : ∀ r, Uses (next r)) :
    Uses fun t => first t >>= fun out => next out.2 out.1 := by
  obtain ⟨a, ha⟩ := hfirst
  choose k hk using hnext
  refine ⟨a.bind k, fun t => ?_⟩
  simp only [Access.run_bind, ha, hk]

theorem get (side : Side) (q : QuadId)
    {next : F → FactMap F → Except Fault (FactMap F × S)}
    (hnext : ∀ x, Uses (next x)) :
    Uses fun t => t.get side q >>= fun x => next x t := by
  choose k hk using hnext
  refine ⟨.get side q k, fun t => ?_⟩
  simp only [← hk]
  rfl

theorem terminal (e : Terminal)
    {next : F → FactMap F → Except Fault (FactMap F × S)}
    (hnext : ∀ x, Uses (next x)) :
    Uses fun t => t.terminal e >>= fun x => next x t := by
  choose k hk using hnext
  refine ⟨.terminal e k, fun t => ?_⟩
  simp only [← hk]
  rfl

theorem update (side : Side) (q : QuadId) (f : F → F) (hfirst : Uses first) :
    Uses fun t => t.update side q f >>= first := by
  obtain ⟨a, ha⟩ := hfirst
  obtain rfl := funext ha
  exact ⟨.update side q f a, fun t => rfl⟩

theorem setTerminal (e : Terminal) (x : F) (hfirst : Uses first) :
    Uses fun t => first (t.setTerminal e x) := by
  obtain ⟨a, ha⟩ := hfirst
  exact ⟨.setTerminal e x a, fun t => ha _⟩

theorem ids_eq (hfirst : Uses first) {t t' : FactMap F} {r : R}
    (h : first t = .ok (t', r)) : t'.ids = t.ids := by
  obtain ⟨a, ha⟩ := hfirst
  exact a.ids_run ((ha t).trans h)

end FactMap.Uses

namespace Problem

variable {α R : Type} [Element α] {p : Problem α}
  {next : OrdSet α → FactMap (OrdSet α) → Except Fault (FactMap (OrdSet α) × R)}

theorem uses_leaving (n : Neighbour) (hnext : ∀ x, FactMap.Uses (next x)) :
    FactMap.Uses fun t => p.leaving t n >>= fun x => next x t := by
  cases n with
  | some q => exact .get _ q hnext
  | none => exact .terminal _ hnext

theorem uses_arriving (origins : List Neighbour)
    (hnext : ∀ x, FactMap.Uses (next x)) :
    FactMap.Uses fun t => p.arriving t origins >>= fun x => next x t := by
  unfold arriving
  generalize p.top = acc
  induction origins generalizing acc with
  | nil => exact hnext acc
  | cons n origins ih =>
      simp only [List.foldlM_cons, bind_assoc, pure_bind]
      exact uses_leaving n fun x => ih (p.meet.meet acc x)

variable [DecidableEq α]

theorem uses_refresh (s : Station) : FactMap.Uses fun t => p.refresh t s := by
  unfold refresh
  refine uses_arriving s.origins fun arrived => ?_
  refine .get _ _ fun oldArrived => .update _ _ _ ?_
  exact .get _ _ fun oldLeft => .update _ _ _ (.answer _)

theorem uses_refreshAll (l : List Station) :
    FactMap.Uses fun t => p.refreshAll t l := by
  induction l with
  | nil => exact .answer []
  | cons s rest ih =>
      exact (uses_refresh (p := p) s).bind fun arrival =>
        ih.bind fun others => .answer (arrival :: others)

theorem uses_sweep (r : Route) : FactMap.Uses (p.sweep r) := by
  have hrest (arrivals : List (Arrival α)) :=
    uses_arriving (p := p) r.final fun arrived =>
      .terminal p.direction.target fun old =>
        .setTerminal p.direction.target arrived
          (.answer (⟨arrivals, arrived ≠ old⟩ : Pass α))
  exact (uses_refreshAll r.stations).bind hrest

theorem uses_settle (r : Route) (limit : Nat) :
    ∀ done, FactMap.Uses (p.settle r done limit) := by
  induction limit with
  | zero => exact fun done => .fail _
  | succ limit ih =>
      intro done
      have hrest (pass : Pass α) : FactMap.Uses fun t =>
          if pass.changes = 0 then .ok (t, [pass])
          else p.settle r (done + 1) limit t >>= fun out =>
            .ok (out.1, pass :: out.2) := by
        split
        · exact .answer [pass]
        · exact (ih (done + 1)).bind fun passes => .answer (pass :: passes)
      exact (uses_sweep r).bind hrest

theorem ids_solve {g : Graph} {sol : Solution α} (h : p.solve g = .ok sol) :
    sol.facts.ids = (OrdSet.ofList (g.quads.map Quad.id)).toList := by
  obtain ⟨r, -, h⟩ := exists_of_bind_eq_ok h
  obtain ⟨⟨facts, passes⟩, hsettle, h⟩ := exists_of_bind_eq_ok h
  cases h
  rw [(uses_settle r _ 0).ids_eq hsettle, initial]
  simp

/-- The solver is one access, the same for all tables, and on the columns of a
graph that access finds the solution. -/
theorem solveAlong_in_columns (p : Problem α) (g : Graph) (r : Route) :
    ∃ a : Access (OrdSet α) (List (Pass α)),
      (∀ t, a.run .slots t =
        p.settle r 0 (p.sweepLimit (r.stations.map Station.quad))
          ((t.setTerminal p.direction.source p.atSource).setTerminal
            p.direction.target p.atTarget)) ∧
      ∃ new, FactColumns.allocate g p.top = .ok new ∧
        p.solveAlong g r = (a.run .columns new).map fun out =>
          ⟨out.1.toMap, out.2, r.stations.length⟩ := by
  have huses := FactMap.Uses.setTerminal p.direction.source p.atSource
    (.setTerminal p.direction.target p.atTarget
      (uses_settle (p := p) r (p.sweepLimit (r.stations.map Station.quad)) 0))
  obtain ⟨a, ha⟩ := huses
  obtain ⟨new, hnew, huniform⟩ := FactColumns.allocate_ok g p.top
  refine ⟨a, ha, new, hnew, ?_⟩
  have hrun : p.settle r 0 (p.sweepLimit (r.stations.map Station.quad))
      (p.initial g) = (a.run .columns new).map
        (Prod.map FactColumns.toMap id) := by
    rw [a.run_columns, huniform]
    exact (ha _).symm
  simp only [solveAlong, hrun]
  cases a.run .columns new with
  | error fault => rfl
  | ok out => exact congrArg Except.ok (by simp)

end Problem

end Dataflow
