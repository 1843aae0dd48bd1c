/-!
# Lines

A line of a text ends in a line feed, and a carriage return right before it is part of the end. What
follows the last end is a line as well, unless it is empty.

* `Text.lines`: the lines of a text, without their ends.
-/

namespace VisualMemory.Text

/-- A line without the carriage return of its end. -/
def dropReturn (line : List Char) : List Char :=
  if line.getLast? = some '\r' then line.dropLast else line

/-- The lines of a text, without their ends. -/
def lines (text : String) : List String :=
  let parts := text.toList.splitOn '\n'
  let last := parts.getLast?.toList.filter (!·.isEmpty)
  (parts.dropLast.map dropReturn ++ last).map String.ofList

end VisualMemory.Text
