/-!
# Lines of text

Printed blocks are indented line by line. A line ends at a line feed; a carriage return right before the line feed belongs to
the line end, and a last line needs no line feed.
-/

namespace CodeLift.Text

/-- A line as it stood before its line feed, without the one carriage return that may end it. -/
def chomp (line : String) : String :=
  match line.toList.reverse with
  | '\r' :: rest => String.ofList rest.reverse
  | _ => line

/-- The lines of a text: what stands before each line feed, and what stands after the last one if that is not empty. -/
def lines (text : String) : List String :=
  let parts := text.splitOn "\n"
  let last := parts.getLast?.getD ""
  parts.dropLast.map chomp ++ (if last.isEmpty then [] else [last])

/-- The text with each line moved in by four blanks and ended by a line feed. -/
def indent (text : String) : String :=
  String.join ((lines text).map fun line => "    " ++ line ++ "\n")

end CodeLift.Text
