import Dataflow.Element

/-!
# Finite sets as ascending lists

A set is its strictly ascending listing. Union, intersection and difference are
one walk over two listings that differs only in what it keeps: elements of the
left alone, of both, of the right alone. So one membership law and one order law
serve all three, and equality of sets is equality of values (`OrdSet.ext`).
-/

namespace Dataflow

/-- A finite set, held as the strictly ascending list of its elements. -/
structure OrdSet (α : Type) [Element α] where
  toList : List α
  ascending : toList.Pairwise (· < ·)

namespace OrdSet

variable {α : Type}

/-- Puts `a` in front when asked to. -/
def keep (wanted : Bool) (a : α) (rest : List α) : List α :=
  if wanted then a :: rest else rest

theorem mem_keep {w : Bool} {a z : α} {zs : List α} :
    z ∈ keep w a zs ↔ (w = true ∧ z = a) ∨ z ∈ zs := by
  cases w <;> simp [keep]

variable [Element α]

instance : Membership α (OrdSet α) := ⟨fun s a => a ∈ s.toList⟩

theorem mem_def {a : α} {s : OrdSet α} : a ∈ s ↔ a ∈ s.toList := Iff.rfl

instance : HasSubset (OrdSet α) := ⟨fun s t => ∀ a ∈ s, a ∈ t⟩

theorem subset_def {s t : OrdSet α} : s ⊆ t ↔ ∀ a ∈ s, a ∈ t := Iff.rfl

instance [DecidableEq α] (a : α) (s : OrdSet α) : Decidable (a ∈ s) :=
  inferInstanceAs (Decidable (a ∈ s.toList))

instance [DecidableEq α] : DecidableEq (OrdSet α) := fun s t =>
  if h : s.toList = t.toList then
    isTrue (by cases s; cases t; cases h; rfl)
  else
    isFalse (fun e => h (e ▸ rfl))

/-! ## The walk over two listings -/

/-- One element of the left listing against the whole right listing; `rest`
walks on with the elements after it. -/
def weaveFrom (l b r : Bool) (x : α) (xs : List α) (rest : List α → List α) :
    List α → List α
  | [] => if l then x :: xs else []
  | y :: ys =>
    if x < y then keep l x (rest (y :: ys))
    else if y < x then keep r y (weaveFrom l b r x xs rest ys)
    else keep b x (rest ys)

/-- Walks two ascending listings in step. The flags say whether to keep what
only the left one has, what both have, and what only the right one has. -/
def weave (l b r : Bool) : List α → List α → List α
  | [] => fun ys => if r then ys else []
  | x :: xs => weaveFrom l b r x xs (weave l b r xs)

@[simp] theorem weave_nil (l b r : Bool) (ys : List α) :
    weave l b r [] ys = if r then ys else [] := rfl

@[simp] theorem weave_cons_nil (l b r : Bool) (x : α) (xs : List α) :
    weave l b r (x :: xs) [] = if l then x :: xs else [] := rfl

theorem weave_cons_cons (l b r : Bool) (x y : α) (xs ys : List α) :
    weave l b r (x :: xs) (y :: ys) =
      if x < y then keep l x (weave l b r xs (y :: ys))
      else if y < x then keep r y (weave l b r (x :: xs) ys)
      else keep b x (weave l b r xs ys) := rfl

/-- The walk adds nothing. -/
theorem mem_or_mem_of_mem_weave {l b r : Bool} {z : α} (xs ys : List α)
    (h : z ∈ weave l b r xs ys) : z ∈ xs ∨ z ∈ ys := by
  induction xs generalizing ys with
  | nil => cases r <;> simp_all
  | cons x xs ihx =>
    induction ys with
    | nil => cases l <;> simp_all
    | cons y ys ihy =>
      rw [weave_cons_cons] at h
      split at h
      · rcases mem_keep.1 h with ⟨_, rfl⟩ | h
        · simp
        · rcases ihx _ h with h | h <;> simp_all
      · split at h
        · rcases mem_keep.1 h with ⟨_, rfl⟩ | h
          · simp
          · rcases ihy h with h | h <;> simp_all
        · rcases mem_keep.1 h with ⟨_, rfl⟩ | h
          · simp
          · rcases ihx _ h with h | h <;> simp_all

theorem pairwise_keep {w : Bool} {a : α} {zs : List α} (ha : ∀ z ∈ zs, a < z)
    (hz : zs.Pairwise (· < ·)) : (keep w a zs).Pairwise (· < ·) := by
  cases w
  · exact hz
  · exact List.pairwise_cons.2 ⟨ha, hz⟩

/-- The walk keeps the order. -/
theorem pairwise_weave {l b r : Bool} {xs ys : List α}
    (hx : xs.Pairwise (· < ·)) (hy : ys.Pairwise (· < ·)) :
    (weave l b r xs ys).Pairwise (· < ·) := by
  induction xs generalizing ys with
  | nil => cases r <;> simp_all
  | cons x xs ihx =>
    have hx' := List.pairwise_cons.1 hx
    induction ys with
    | nil => cases l <;> simp_all
    | cons y ys ihy =>
      have hy' := List.pairwise_cons.1 hy
      rw [weave_cons_cons]
      split
      · next hxy =>
        refine pairwise_keep (fun z hz => ?_) (ihx hx'.2 hy)
        rcases mem_or_mem_of_mem_weave _ _ hz with hz | hz
        · exact hx'.1 z hz
        · rcases List.mem_cons.1 hz with rfl | hz
          · exact hxy
          · exact Element.trans hxy (hy'.1 z hz)
      · split
        · next hyx =>
          refine pairwise_keep (fun z hz => ?_) (ihy hy'.2)
          rcases mem_or_mem_of_mem_weave _ _ hz with hz | hz
          · rcases List.mem_cons.1 hz with rfl | hz
            · exact hyx
            · exact Element.trans hyx (hx'.1 z hz)
          · exact hy'.1 z hz
        · next hxy hyx =>
          obtain rfl := Element.eq_of_not_lt hxy hyx
          refine pairwise_keep (fun z hz => ?_) (ihx hx'.2 hy'.2)
          rcases mem_or_mem_of_mem_weave _ _ hz with hz | hz
          · exact hx'.1 z hz
          · exact hy'.1 z hz

/-- An element below the head of an ascending list is not in it. -/
theorem not_mem_of_lt_head {z y : α} {ys : List α} (h : z < y)
    (hy : (y :: ys).Pairwise (· < ·)) : z ∉ y :: ys := by
  intro hz
  rcases List.mem_cons.1 hz with rfl | hz
  · exact Element.irrefl _ h
  · exact Element.irrefl _ (Element.trans h ((List.pairwise_cons.1 hy).1 z hz))

/-- What the walk keeps, by where an element stands. -/
theorem mem_weave {l b r : Bool} {z : α} {xs ys : List α}
    (hx : xs.Pairwise (· < ·)) (hy : ys.Pairwise (· < ·)) :
    z ∈ weave l b r xs ys ↔
      (l = true ∧ z ∈ xs ∧ z ∉ ys) ∨ (b = true ∧ z ∈ xs ∧ z ∈ ys) ∨
        (r = true ∧ z ∉ xs ∧ z ∈ ys) := by
  induction xs generalizing ys with
  | nil => cases r <;> simp
  | cons x xs ihx =>
    have hx' := List.pairwise_cons.1 hx
    induction ys with
    | nil => cases l <;> simp
    | cons y ys ihy =>
      have hy' := List.pairwise_cons.1 hy
      rw [weave_cons_cons]
      split
      · next hxy =>
        have hxs : x ∉ xs := fun h => Element.irrefl _ (hx'.1 x h)
        have hxy' : x ∉ y :: ys := not_mem_of_lt_head hxy hy
        rw [mem_keep, ihx hx'.2 hy]
        by_cases hz : z = x
        · subst hz; simp [hxs, hxy']
        · simp [hz]
      · split
        · next hyx =>
          have hyy : y ∉ ys := fun h => Element.irrefl _ (hy'.1 y h)
          have hyx' : y ∉ x :: xs := not_mem_of_lt_head hyx hx
          have ih : z ∈ weave l b r (x :: xs) ys ↔ _ := ihy hy'.2
          rw [mem_keep, ih]
          by_cases hz : z = y
          · subst hz; simp [hyy, hyx']
          · simp [hz]
        · next hxy hyx =>
          obtain rfl := Element.eq_of_not_lt hxy hyx
          have hxs : x ∉ xs := fun h => Element.irrefl _ (hx'.1 x h)
          have hys : x ∉ ys := fun h => Element.irrefl _ (hy'.1 x h)
          rw [mem_keep, ihx hx'.2 hy'.2]
          by_cases hz : z = x
          · subst hz; simp [hxs, hys]
          · simp [hz]

/-! ## Sets -/

/-- The set with no elements. -/
def empty : OrdSet α := ⟨[], List.Pairwise.nil⟩

instance : EmptyCollection (OrdSet α) := ⟨empty⟩

instance : Inhabited (OrdSet α) := ⟨empty⟩

/-- The set with one element. -/
def singleton (a : α) : OrdSet α := ⟨[a], by simp⟩

def union (s t : OrdSet α) : OrdSet α :=
  ⟨weave true true true s.toList t.toList,
    pairwise_weave s.ascending t.ascending⟩

def inter (s t : OrdSet α) : OrdSet α :=
  ⟨weave false true false s.toList t.toList,
    pairwise_weave s.ascending t.ascending⟩

def diff (s t : OrdSet α) : OrdSet α :=
  ⟨weave true false false s.toList t.toList,
    pairwise_weave s.ascending t.ascending⟩

def insert (a : α) (s : OrdSet α) : OrdSet α := (singleton a).union s

def erase (s : OrdSet α) (a : α) : OrdSet α := s.diff (singleton a)

/-- The elements of a list, each once. -/
def ofList (l : List α) : OrdSet α := l.foldl (fun s a => s.insert a) empty

/-- Takes every element of a list out of a set. -/
def eraseAll (s : OrdSet α) (l : List α) : OrdSet α := l.foldl erase s

/-- Puts every element of a list into a set. -/
def insertAll (s : OrdSet α) (l : List α) : OrdSet α :=
  l.foldl (fun s a => s.insert a) s

def size (s : OrdSet α) : Nat := s.toList.length

def isEmpty (s : OrdSet α) : Bool := s.toList.isEmpty

/-- Whether every element of `s` is in `t`. -/
def subset [DecidableEq α] (s t : OrdSet α) : Bool := s.toList.all (· ∈ t)

@[simp] theorem not_mem_empty (a : α) : a ∉ (∅ : OrdSet α) := fun h => nomatch h

@[simp] theorem mem_singleton {a b : α} : a ∈ singleton b ↔ a = b := by
  simp [mem_def, singleton]

@[simp] theorem mem_union {a : α} {s t : OrdSet α} :
    a ∈ s.union t ↔ a ∈ s ∨ a ∈ t := by
  simp only [mem_def, union]
  rw [mem_weave s.ascending t.ascending]
  by_cases hs : a ∈ s.toList <;> by_cases ht : a ∈ t.toList <;> simp [hs, ht]

@[simp] theorem mem_inter {a : α} {s t : OrdSet α} :
    a ∈ s.inter t ↔ a ∈ s ∧ a ∈ t := by
  simp only [mem_def, inter]
  rw [mem_weave s.ascending t.ascending]
  simp

@[simp] theorem mem_diff {a : α} {s t : OrdSet α} :
    a ∈ s.diff t ↔ a ∈ s ∧ a ∉ t := by
  simp only [mem_def, diff]
  rw [mem_weave s.ascending t.ascending]
  simp

@[simp] theorem mem_insert {a b : α} {s : OrdSet α} :
    a ∈ s.insert b ↔ a = b ∨ a ∈ s := by
  simp [insert]

@[simp] theorem mem_erase {a b : α} {s : OrdSet α} :
    a ∈ s.erase b ↔ a ∈ s ∧ a ≠ b := by
  simp [erase]

@[simp] theorem mem_insertAll {a : α} {l : List α} {s : OrdSet α} :
    a ∈ s.insertAll l ↔ a ∈ s ∨ a ∈ l := by
  induction l generalizing s with
  | nil => simp [insertAll]
  | cons b l ih =>
    have step : a ∈ (s.insert b).insertAll l ↔ a ∈ s ∨ a ∈ b :: l := by
      rw [ih]
      simp only [mem_insert, List.mem_cons]
      exact ⟨fun h => by rcases h with (h | h) | h <;> simp [h],
        fun h => by rcases h with h | h | h <;> simp [h]⟩
    exact step

@[simp] theorem mem_eraseAll {a : α} {l : List α} {s : OrdSet α} :
    a ∈ s.eraseAll l ↔ a ∈ s ∧ a ∉ l := by
  induction l generalizing s with
  | nil => simp [eraseAll]
  | cons b l ih =>
    have step : a ∈ (s.erase b).eraseAll l ↔ a ∈ s ∧ a ∉ b :: l := by
      rw [ih]
      simp only [mem_erase, List.mem_cons, not_or]
      exact ⟨fun h => ⟨h.1.1, h.1.2, h.2⟩, fun h => ⟨⟨h.1, h.2.1⟩, h.2.2⟩⟩
    exact step

@[simp] theorem mem_ofList {a : α} {l : List α} : a ∈ ofList l ↔ a ∈ l := by
  have h : a ∈ (empty : OrdSet α).insertAll l ↔ a ∈ l := by
    rw [mem_insertAll]
    exact ⟨fun h => h.resolve_left (not_mem_empty a), Or.inr⟩
  exact h

@[simp] theorem subset_iff [DecidableEq α] {s t : OrdSet α} :
    s.subset t = true ↔ s ⊆ t := by
  simp [subset, subset_def, mem_def]

/-- Two ascending lists with the same members are the same list. -/
theorem eq_of_mem_iff {xs ys : List α} (hx : xs.Pairwise (· < ·))
    (hy : ys.Pairwise (· < ·)) (h : ∀ a, a ∈ xs ↔ a ∈ ys) : xs = ys := by
  induction xs generalizing ys with
  | nil =>
    cases ys with
    | nil => rfl
    | cons y ys => exact absurd ((h y).2 (by simp)) (by simp)
  | cons x xs ih =>
    cases ys with
    | nil => exact absurd ((h x).1 (by simp)) (by simp)
    | cons y ys =>
      have hx' := List.pairwise_cons.1 hx
      have hy' := List.pairwise_cons.1 hy
      have hxy : x = y := by
        apply Element.eq_of_not_lt
        · exact fun hlt => not_mem_of_lt_head hlt hy ((h x).1 (by simp))
        · exact fun hlt => not_mem_of_lt_head hlt hx ((h y).2 (by simp))
      subst hxy
      congr 1
      refine ih hx'.2 hy'.2 fun a => ⟨fun ha => ?_, fun ha => ?_⟩
      · rcases List.mem_cons.1 ((h a).1 (by simp [ha])) with rfl | h'
        · exact absurd (hx'.1 a ha) (Element.irrefl a)
        · exact h'
      · rcases List.mem_cons.1 ((h a).2 (by simp [ha])) with rfl | h'
        · exact absurd (hy'.1 a ha) (Element.irrefl a)
        · exact h'

/-- Sets with the same elements are equal. -/
theorem ext {s t : OrdSet α} (h : ∀ a, a ∈ s ↔ a ∈ t) : s = t := by
  cases s with
  | mk xs hx =>
    cases t with
    | mk ys hy =>
      have e : xs = ys := eq_of_mem_iff hx hy h
      subst e
      rfl

/-- The printed forms of the elements, ascending. -/
def texts (s : OrdSet α) : List String := s.toList.map Element.text

/-- The printed form of a set, `[a, b]`. -/
def text (s : OrdSet α) : String := "[" ++ ", ".intercalate s.texts ++ "]"

end OrdSet

end Dataflow
