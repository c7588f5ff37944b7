/-!
# Lines of a text

`Text.lines` cuts a text into its lines and `Text.indent` puts a margin in front of each of them.
A line feed ends a line, together with a carriage return right before it. What follows the last
line feed is a line only if it is not empty, so a text that ends in a line feed has no empty last
line and the empty text has no line at all.
-/

namespace QueryTuning.Text

/-- The lines of a text, each without its line ending. -/
def splitLines : List Char → List (List Char)
  | [] => []
  | '\n' :: rest => [] :: splitLines rest
  | '\r' :: '\n' :: rest => [] :: splitLines rest
  | c :: rest =>
    match splitLines rest with
    | [] => [[c]]
    | line :: more => (c :: line) :: more

/-- The lines of a text, as texts. -/
def lines (s : String) : List String :=
  (splitLines s.toList).map String.ofList

/-- Puts `margin` in front of every line. The result has no line ending after its last line. -/
def indent (margin : String) (s : String) : String :=
  "\n".intercalate ((lines s).map (margin ++ ·))

end QueryTuning.Text
