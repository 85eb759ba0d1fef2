import Dataflow.Proofs.Neighbours

/-!
# Valuations

The solver works on a `FactMap`, a table that can lack a slot and answers with
a fault when it does. What stands in it is simpler to say: a `Valuation` gives
a fact on both sides of every quad and at both ends, and has no gaps. A table
shows a valuation when it agrees with it at every quad of the program order.

The lemmas here carry that over reading and writing: a table that shows a
valuation answers for each quad of the program order, never with a fault, and
after a write it shows the valuation with the fact put in its place.
-/

namespace Dataflow

/-- A fact on both sides of every quad and at both ends of a method. -/
structure Valuation (α : Type) [Element α] where
  fact : Side → QuadId → OrdSet α
  terminal : Terminal → OrdSet α

namespace Valuation

variable {α : Type} [Element α]

/-- Puts a fact in its place. -/
def set (v : Valuation α) (side : Side) (q : QuadId) (s : OrdSet α) :
    Valuation α :=
  { v with
    fact := fun side' q' =>
      if side' = side ∧ q' = q then s else v.fact side' q' }

/-- Puts a fact at an end. -/
def setTerminal (v : Valuation α) (e : Terminal) (s : OrdSet α) : Valuation α :=
  { v with terminal := fun e' => if e' = e then s else v.terminal e' }

@[simp] theorem fact_set_self (v : Valuation α) (side : Side) (q : QuadId)
    (s : OrdSet α) : (v.set side q s).fact side q = s := by
  simp [set]

theorem fact_set_of_ne_side {v : Valuation α} {side side' : Side}
    {q q' : QuadId} {s : OrdSet α} (h : side' ≠ side) :
    (v.set side q s).fact side' q' = v.fact side' q' := by
  simp [set, h]

theorem fact_set_of_ne {v : Valuation α} {side side' : Side} {q q' : QuadId}
    {s : OrdSet α} (h : q' ≠ q) :
    (v.set side q s).fact side' q' = v.fact side' q' := by
  simp [set, h]

@[simp] theorem terminal_set (v : Valuation α) (side : Side) (q : QuadId)
    (s : OrdSet α) : (v.set side q s).terminal = v.terminal := rfl

@[simp] theorem fact_setTerminal (v : Valuation α) (e : Terminal)
    (s : OrdSet α) : (v.setTerminal e s).fact = v.fact := rfl

@[simp] theorem terminal_setTerminal_self (v : Valuation α) (e : Terminal)
    (s : OrdSet α) : (v.setTerminal e s).terminal e = s := by
  simp [setTerminal]

theorem terminal_setTerminal_of_ne {v : Valuation α} {e e' : Terminal}
    {s : OrdSet α} (h : e' ≠ e) :
    (v.setTerminal e s).terminal e' = v.terminal e' := by
  simp [setTerminal, h]

/-- Putting a fact where it stands already changes nothing. -/
theorem set_eq_self {v : Valuation α} {side : Side} {q : QuadId} {s : OrdSet α}
    (h : v.fact side q = s) : v.set side q s = v := by
  have hfact : (v.set side q s).fact = v.fact := by
    funext side' q'
    by_cases hp : side' = side ∧ q' = q
    · simp [set, hp.1, hp.2, h]
    · simp [set, hp]
  exact congrArg (fun f => (⟨f, v.terminal⟩ : Valuation α)) hfact

theorem setTerminal_eq_self {v : Valuation α} {e : Terminal} {s : OrdSet α}
    (h : v.terminal e = s) : v.setTerminal e s = v := by
  have hterm : (v.setTerminal e s).terminal = v.terminal := by
    funext e'
    by_cases he : e' = e
    · simp [setTerminal, he, h]
    · simp [setTerminal, he]
  exact congrArg (fun f => (⟨v.fact, f⟩ : Valuation α)) hterm

/-- Passes every fact through a function. -/
def map (f : OrdSet α → OrdSet α) (v : Valuation α) : Valuation α where
  fact side q := f (v.fact side q)
  terminal e := f (v.terminal e)

end Valuation

theorem Direction.departure_ne_arrival (d : Direction) :
    d.departure ≠ d.arrival := by
  cases d <;> decide

theorem Direction.source_ne_target (d : Direction) : d.source ≠ d.target := by
  cases d <;> decide

/-- What a chain of steps answers comes from what the first one answers. -/
theorem exists_of_bind_eq_ok {ε α β : Type} {x : Except ε α}
    {f : α → Except ε β} {b : β} (h : x >>= f = .ok b) :
    ∃ a, x = .ok a ∧ f a = .ok b := by
  cases x with
  | error e => cases h
  | ok a => exact ⟨a, rfl, h⟩

/-! ## Tables that show a valuation -/

namespace FactMap

variable {F : Type}

theorem find?_modify (slots : List (QuadId × Slot F)) (side : Side)
    (q q' : QuadId) (f : F → F) :
    (slots.map fun s => if s.1 = q then (s.1, s.2.modify side f) else s).find?
        (fun s => s.1 = q') =
      (slots.find? fun s => s.1 = q').map fun s =>
        if s.1 = q then (s.1, s.2.modify side f) else s := by
  rw [List.find?_map]
  congr 2
  funext s
  simp only [Function.comp]
  split <;> rfl

theorem slot?_modify_self (t : FactMap F) (side : Side) (q : QuadId)
    (f : F → F) :
    (t.modify side q f).slot? q = (t.slot? q).map fun s => s.modify side f := by
  unfold slot? modify
  rw [find?_modify]
  cases hfind : t.slots.find? fun s => s.1 = q with
  | none => rfl
  | some s =>
      have hs : s.1 = q := by simpa using List.find?_some hfind
      simp [hs]

theorem slot?_modify_of_ne {t : FactMap F} {side : Side} {q q' : QuadId}
    {f : F → F} (h : q' ≠ q) : (t.modify side q f).slot? q' = t.slot? q' := by
  unfold slot? modify
  rw [find?_modify]
  cases hfind : t.slots.find? fun s => s.1 = q' with
  | none => rfl
  | some s =>
      have hs : s.1 = q' := by simpa using List.find?_some hfind
      simp [hs, h]

theorem slot?_uniform {g : Graph} {q : QuadId} (h : g.Visits q) (f : F) :
    (uniform g f).slot? q = some ⟨f, f⟩ := by
  obtain ⟨quad, hquad, rfl⟩ := h
  have hmem : quad.id ∈ (OrdSet.ofList (g.quads.map Quad.id)).toList :=
    OrdSet.mem_ofList.2 (List.mem_map.2 ⟨quad, hquad, rfl⟩)
  unfold slot? uniform
  simp only [List.find?_map]
  cases hfind : List.find?
    ((fun s : QuadId × Slot F => decide (s.1 = quad.id)) ∘
      fun q => (q, (⟨f, f⟩ : Slot F)))
      (OrdSet.ofList (g.quads.map Quad.id)).toList with
  | none =>
      have hnone := List.find?_eq_none.1 hfind _ hmem
      exact absurd hnone (by simp)
  | some q => rfl

variable {α : Type} [Element α]

/-- A table has the facts of a valuation at every quad of the program order
and at both ends. -/
structure Shows (g : Graph) (t : FactMap (OrdSet α)) (v : Valuation α) :
    Prop where
  fact : ∀ q, g.Visits q → ∀ side, t.get? side q = some (v.fact side q)
  terminal : ∀ e, t.terminal? e = some (v.terminal e)

theorem Shows.get {g : Graph} {t : FactMap (OrdSet α)} {v : Valuation α}
    (h : t.Shows g v) {q : QuadId} (hq : g.Visits q) (side : Side) :
    t.get side q = .ok (v.fact side q) := by
  unfold FactMap.get
  rw [h.fact q hq side]

theorem Shows.terminal_ok {g : Graph} {t : FactMap (OrdSet α)}
    {v : Valuation α} (h : t.Shows g v) (e : Terminal) :
    t.terminal e = .ok (v.terminal e) := by
  unfold FactMap.terminal
  rw [h.terminal e]

theorem Shows.update {g : Graph} {t : FactMap (OrdSet α)} {v : Valuation α}
    (h : t.Shows g v) {q : QuadId} (hq : g.Visits q) (side : Side)
    (s : OrdSet α) :
    ∃ t', t.update side q (fun _ => s) = .ok t' ∧
      t'.Shows g (v.set side q s) := by
  have hget := h.fact q hq side
  cases hslot : t.slot? q with
  | none => rw [get?, hslot] at hget; cases hget
  | some slot =>
      refine ⟨t.modify side q fun _ => s, by rw [FactMap.update, hslot], ?_,
        h.terminal⟩
      intro q' hq' side'
      have hold := h.fact q' hq' side'
      by_cases hne : q' = q
      · subst hne
        rw [get?, hslot] at hold
        rw [get?, slot?_modify_self, hslot]
        cases side <;> cases side' <;>
          simp_all [Slot.modify, Slot.get, Valuation.set]
      · rw [Valuation.fact_set_of_ne hne, ← hold, get?, get?,
          slot?_modify_of_ne hne]

theorem Shows.setTerminal {g : Graph} {t : FactMap (OrdSet α)}
    {v : Valuation α} (h : t.Shows g v) (e : Terminal) (s : OrdSet α) :
    (t.setTerminal e s).Shows g (v.setTerminal e s) := by
  refine ⟨fun q hq side => ?_, fun e' => ?_⟩
  · have hold := h.fact q hq side
    cases e <;> exact hold
  · have hold := h.terminal e'
    cases e <;> cases e' <;>
      simp_all [FactMap.setTerminal, FactMap.terminal?, Valuation.setTerminal]

theorem slot?_map (t : FactMap F) {G : Type} (f : F → G) (q : QuadId) :
    (t.map f).slot? q = (t.slot? q).map fun s => ⟨f s.before, f s.after⟩ := by
  simp only [slot?, map, List.find?_map, Option.map_map]
  rfl

theorem get?_map (t : FactMap F) {G : Type} (f : F → G) (side : Side)
    (q : QuadId) : (t.map f).get? side q = (t.get? side q).map f := by
  rw [get?, get?, slot?_map]
  cases t.slot? q with
  | none => rfl
  | some s => cases side <;> rfl

theorem Shows.map {g : Graph} {t : FactMap (OrdSet α)} {v : Valuation α}
    (h : t.Shows g v) (f : OrdSet α → OrdSet α) :
    (t.map f).Shows g (v.map f) := by
  refine ⟨fun q hq side => ?_, fun e => ?_⟩
  · rw [get?_map, h.fact q hq side]
    rfl
  · have hold := h.terminal e
    cases e <;> exact congrArg (Option.map f) hold

end FactMap

end Dataflow
