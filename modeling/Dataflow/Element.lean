/-!
# Elements of facts

A fact is a finite set, and wherever one is shown its elements stand in
ascending order. The order is strict and total, so a set has one ascending
listing, and two sets with the same elements are the same value.
-/

namespace Dataflow

/-- What a fact can hold: values with a strict total order and a printed
form. -/
class Element (α : Type) extends LT α where
  decLT : DecidableLT α
  irrefl : ∀ a : α, ¬ a < a
  trans : ∀ {a b c : α}, a < b → b < c → a < c
  total : ∀ a b : α, a < b ∨ a = b ∨ b < a
  text : α → String

namespace Element

instance decidableLT (α : Type) [Element α] : DecidableLT α := decLT

variable {α : Type} [Element α]

theorem ne_of_lt {a b : α} (h : a < b) : a ≠ b :=
  fun e => irrefl b (e ▸ h)

/-- Neither below the other leaves only equality. -/
theorem eq_of_not_lt {a b : α} (h : ¬ a < b) (h' : ¬ b < a) : a = b := by
  rcases total a b with hab | hab | hab
  · exact absurd hab h
  · exact hab
  · exact absurd hab h'

end Element

end Dataflow
