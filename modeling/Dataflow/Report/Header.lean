import Dataflow.Text.Lines

/-!
# Headers

A header line is cyan where colours are wanted and the terminal shows them. Text
that resets the colour on its own is coloured again behind each reset, so the
whole header stays cyan.
-/

namespace Dataflow

/-- What a text is written for. -/
structure Context where
  /-- Whether colours are wanted. -/
  colors : Bool
  /-- Whether the terminal shows colours. -/
  terminal : Bool

namespace Header

/-- Switches to cyan. -/
def cyan : List Char := ['\x1b', '[', '3', '6', 'm']

/-- Switches back to the terminal's own colour. -/
def reset : List Char := ['\x1b', '[', '0', 'm']

/-- Switches to cyan again behind each reset. -/
def recolored : List Char → List Char
  | [] => []
  | '\x1b' :: '[' :: '0' :: 'm' :: rest => reset ++ cyan ++ recolored rest
  | c :: rest => c :: recolored rest

/-- A header as written, without its line end. -/
def styled (ctx : Context) (text : String) : List Char :=
  if ctx.colors && ctx.terminal then cyan ++ recolored text.toList ++ reset
  else text.toList

/-- A header line. -/
def line (ctx : Context) (text : String) : String :=
  String.ofList (Text.ended (styled ctx text))

end Header

end Dataflow
