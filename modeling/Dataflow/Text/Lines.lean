/-!
# Lines

A text falls into lines at each line feed. A carriage return directly in front
of a line feed belongs to the line end; any other stays where it is. The empty
text has no line, and a line end at the very end opens no further one.
-/

namespace Dataflow.Text

/-- The lines of a text, without their ends. -/
def lines : List Char → List (List Char)
  | [] => []
  | '\n' :: rest => [] :: lines rest
  | '\r' :: '\n' :: rest => [] :: lines rest
  | c :: rest =>
    match lines rest with
    | [] => [[c]]
    | l :: ls => (c :: l) :: ls

/-- A line with its end. -/
def ended (line : List Char) : List Char := line ++ ['\n']

/-- The lines of a text, each with the same end. -/
def relined (text : String) : String :=
  String.ofList ((lines text.toList).flatMap ended)

end Dataflow.Text
