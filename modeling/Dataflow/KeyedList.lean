/-!
# Keyed lists

A map that remembers the order in which its keys first came. Storing under a key
that is already there changes the value in place, so the order of keys only ever
grows at the end. No key stands twice, which makes the list of pairs a function
of its keys.
-/

namespace Dataflow

/-- Pairs of keys and values in order of first insertion, no key twice. -/
structure KeyedList (κ β : Type) where
  entries : List (κ × β)
  nodup : (entries.map Prod.fst).Nodup

namespace KeyedList

variable {κ β : Type}

def empty : KeyedList κ β := ⟨[], List.nodup_nil⟩

instance : EmptyCollection (KeyedList κ β) := ⟨empty⟩

instance : Inhabited (KeyedList κ β) := ⟨empty⟩

def keys (m : KeyedList κ β) : List κ := m.entries.map Prod.fst

def values (m : KeyedList κ β) : List β := m.entries.map Prod.snd

def size (m : KeyedList κ β) : Nat := m.entries.length

variable [DecidableEq κ]

def get? (m : KeyedList κ β) (k : κ) : Option β :=
  (m.entries.find? (fun e => e.1 = k)).map Prod.snd

def contains (m : KeyedList κ β) (k : κ) : Bool := k ∈ m.keys

/-- The value under `k` passed through `f`; other values and all keys as they
were. -/
def modify (m : KeyedList κ β) (k : κ) (f : β → β) : KeyedList κ β where
  entries := m.entries.map fun e => if e.1 = k then (e.1, f e.2) else e
  nodup := by
    have h : (m.entries.map fun e =>
        if e.1 = k then (e.1, f e.2) else e).map Prod.fst =
        m.entries.map Prod.fst := by
      rw [List.map_map]
      apply List.map_congr_left
      intro e _
      simp only [Function.comp]
      split <;> rfl
    rw [h]
    exact m.nodup

/-- Stores a value: in place when the key is there, at the end otherwise. -/
def insert (m : KeyedList κ β) (k : κ) (v : β) : KeyedList κ β :=
  if h : k ∈ m.keys then m.modify k fun _ => v
  else
    { entries := m.entries ++ [(k, v)]
      nodup := by
        rw [List.map_append, List.nodup_append]
        refine ⟨m.nodup, by simp, ?_⟩
        intro a ha b hb
        simp only [List.map_cons, List.map_nil, List.mem_singleton] at hb
        subst hb
        exact fun e => h (e ▸ ha) }

/-- Every value passed through `f` together with its key; all keys as they
were. -/
def mapEach (m : KeyedList κ β) (f : κ → β → β) : KeyedList κ β where
  entries := m.entries.map fun e => (e.1, f e.1 e.2)
  nodup := by
    rw [List.map_map]
    exact m.nodup

/-- Without the value under `k`; the others stay where they were. -/
def erase (m : KeyedList κ β) (k : κ) : KeyedList κ β where
  entries := m.entries.filter fun e => e.1 ≠ k
  nodup := m.nodup.sublist (List.filter_sublist.map Prod.fst)

/-- Stores pairs one after the other. -/
def ofList (l : List (κ × β)) : KeyedList κ β :=
  l.foldl (fun m e => m.insert e.1 e.2) empty

omit [DecidableEq κ] in
theorem eq_of_entries {m m' : KeyedList κ β} (h : m.entries = m'.entries) :
    m = m' := by
  cases m
  cases h
  rfl

@[simp] theorem keys_modify (m : KeyedList κ β) (k : κ) (f : β → β) :
    (m.modify k f).keys = m.keys := by
  simp only [keys, modify, List.map_map]
  apply List.map_congr_left
  intro e _
  simp only [Function.comp]
  split <;> rfl

theorem keys_insert (m : KeyedList κ β) (k : κ) (v : β) :
    (m.insert k v).keys = if k ∈ m.keys then m.keys else m.keys ++ [k] := by
  unfold insert
  split
  · exact keys_modify ..
  · simp [keys]

theorem get?_eq_none_iff {m : KeyedList κ β} {k : κ} :
    m.get? k = none ↔ k ∉ m.keys := by
  unfold get? keys
  rw [Option.map_eq_none_iff, List.find?_eq_none, List.mem_map]
  constructor
  · rintro h ⟨e, he, rfl⟩
    exact h e he (by simp)
  · intro h e he hk
    exact h ⟨e, he, by simpa using hk⟩

theorem get?_modify (m : KeyedList κ β) (k k' : κ) (f : β → β) :
    (m.modify k f).get? k' =
      if k' = k then (m.get? k').map f else m.get? k' := by
  have hfind : (m.modify k f).entries.find? (fun e => e.1 = k') =
      (m.entries.find? fun e => e.1 = k').map fun e =>
        if e.1 = k then (e.1, f e.2) else e := by
    simp only [modify, List.find?_map]
    congr 2
    funext e
    simp only [Function.comp]
    split <;> rfl
  unfold get?
  rw [hfind]
  cases he : m.entries.find? fun e => e.1 = k' with
  | none => simp
  | some e =>
    have hk : e.1 = k' := by simpa using List.find?_some he
    by_cases h : k' = k
    · simp [hk, h]
    · simp [hk, h]

theorem get?_modify_eq_map (m : KeyedList κ β) (k k' : κ) (f : β → β) :
    (m.modify k f).get? k' =
      (m.get? k').map fun v => if k' = k then f v else v := by
  rw [get?_modify]
  split
  · rfl
  · exact Option.map_id'.symm

theorem get?_insert (m : KeyedList κ β) (k k' : κ) (v : β) :
    (m.insert k v).get? k' = if k' = k then some v else m.get? k' := by
  unfold insert
  split
  · next hmem =>
    rw [get?_modify]
    by_cases h : k' = k
    · subst h
      cases hget : m.get? k' with
      | none => exact absurd hmem (get?_eq_none_iff.1 hget)
      | some b => simp
    · simp [h]
  · next hmem =>
    have hnone := get?_eq_none_iff.2 hmem
    unfold get? at hnone ⊢
    rw [List.find?_append]
    by_cases h : k' = k
    · subst h
      rw [Option.map_eq_none_iff.1 hnone]
      simp
    · have hsingle : [(k, v)].find? (fun e => decide (e.1 = k')) = none := by
        simp [Ne.symm h]
      rw [hsingle, Option.or_none, if_neg h]

omit [DecidableEq κ] in
@[simp] theorem keys_mapEach (m : KeyedList κ β) (f : κ → β → β) :
    (m.mapEach f).keys = m.keys := by
  simp only [keys, mapEach, List.map_map]
  rfl

theorem get?_mapEach (m : KeyedList κ β) (f : κ → β → β) (k : κ) :
    (m.mapEach f).get? k = (m.get? k).map (f k) := by
  unfold get? mapEach
  rw [List.find?_map, Option.map_map]
  cases he : m.entries.find? fun e => e.1 = k with
  | none => exact congrArg (Option.map _) he
  | some e =>
    have hk : e.1 = k := by simpa using List.find?_some he
    have hfind : m.entries.find?
        ((fun e => decide (e.1 = k)) ∘ fun e => (e.1, f e.1 e.2)) = some e := he
    rw [hfind]
    show some (f e.1 e.2) = some (f k e.2)
    rw [hk]

theorem keys_erase (m : KeyedList κ β) (k : κ) :
    (m.erase k).keys = m.keys.filter (· ≠ k) := by
  simp only [keys, erase, List.filter_map]
  rfl

theorem get?_erase (m : KeyedList κ β) (k k' : κ) :
    (m.erase k).get? k' = if k' = k then none else m.get? k' := by
  unfold get? erase
  rw [List.find?_filter]
  split
  · next hk =>
    rw [List.find?_eq_none.2]
    · rfl
    · intro e _
      simp [hk]
  · next hk =>
    congr 2
    funext e
    by_cases he : e.1 = k'
    · simp [he, hk]
    · simp [he]

theorem isSome_get?_modify (m : KeyedList κ β) (k k' : κ) (f : β → β) :
    ((m.modify k f).get? k').isSome = (m.get? k').isSome := by
  rw [get?_modify]
  split <;> simp

theorem isSome_get?_insert {m : KeyedList κ β} {k k' : κ} {v : β}
    (h : (m.get? k').isSome) : ((m.insert k v).get? k').isSome := by
  rw [get?_insert]
  split
  · rfl
  · exact h

theorem mem_entries_of_get? {m : KeyedList κ β} {k : κ} {v : β}
    (h : m.get? k = some v) : (k, v) ∈ m.entries := by
  obtain ⟨e, he, rfl⟩ := Option.map_eq_some_iff.1 h
  have hk : e.1 = k := by simpa using List.find?_some he
  rw [← hk]
  exact List.mem_of_find?_eq_some he

variable {γ : Type}

/-- The list that `f` finds under a key; empty where the key is not there. -/
def listAt (m : KeyedList κ β) (f : β → List γ) (k : κ) : List γ :=
  ((m.get? k).map f).getD []

theorem listAt_modify (m : KeyedList κ β) (f : β → List γ) (k k' : κ)
    (h : β → β) :
    (m.modify k h).listAt f k' =
      if k' = k then m.listAt (fun b => f (h b)) k' else m.listAt f k' := by
  unfold listAt
  rw [get?_modify]
  split
  · rw [Option.map_map]
    rfl
  · rfl

theorem listAt_insert (m : KeyedList κ β) (f : β → List γ) (k k' : κ) (v : β) :
    (m.insert k v).listAt f k' = if k' = k then f v else m.listAt f k' := by
  unfold listAt
  rw [get?_insert]
  split <;> rfl

theorem listAt_mapEach (m : KeyedList κ β) (f : β → List γ) (h : κ → β → β)
    (k : κ) : (m.mapEach h).listAt f k = m.listAt (fun b => f (h k b)) k := by
  unfold listAt
  rw [get?_mapEach, Option.map_map]
  rfl

theorem listAt_of_get? {m : KeyedList κ β} {k : κ} {v : β}
    (h : m.get? k = some v) (f : β → List γ) : m.listAt f k = f v := by
  rw [listAt, h]
  rfl

theorem exists_of_mem_listAt {m : KeyedList κ β} {f : β → List γ}
    {k : κ} {x : γ} (h : x ∈ m.listAt f k) :
    ∃ v, m.get? k = some v ∧ x ∈ f v := by
  unfold listAt at h
  cases hget : m.get? k with
  | none =>
    rw [hget] at h
    cases h
  | some v =>
    rw [hget] at h
    exact ⟨v, rfl, h⟩

end KeyedList

end Dataflow
