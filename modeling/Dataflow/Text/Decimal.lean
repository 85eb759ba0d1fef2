/-!
# Decimal numbers

The written form of a natural number has no leading zero, and only that form
reads back.
-/

namespace Dataflow.Text.Decimal

/-- The digits of a number, most significant first. -/
def digits (n : Nat) : List Char := Nat.toDigits 10 n

/-- The number that a list of digits stands for. -/
def value (ds : List Char) : Nat :=
  ds.foldl (fun n c => 10 * n + (c.toNat - '0'.toNat)) 0

/-- Digits with no zero in front of others. -/
def isPlain : List Char → Bool
  | [] => false
  | ['0'] => true
  | c :: cs => c != '0' && (c :: cs).all Char.isDigit

/-- Reads a natural number; a sign, a blank or a leading zero is refused. -/
def read? (cs : List Char) : Option Nat :=
  if isPlain cs then some (value cs) else none

/-- The digits of an integer, after a minus sign when it is negative. -/
def signed (n : Int) : List Char :=
  if n < 0 then '-' :: digits n.natAbs else digits n.natAbs

/-- The printed form of a natural number. -/
def text (n : Nat) : String := String.ofList (digits n)

end Dataflow.Text.Decimal
