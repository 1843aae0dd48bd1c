import VisualMemory.Hex

/-!
# Texts that leave a terminal alone

A terminal obeys some control characters. In a text that may hold any character they are written
out, so that whoever chose the text cannot steer the terminal that shows it.

* `Text.escapeChar`: how a character is shown.
* `Text.escape`: how a text is shown.
-/

namespace VisualMemory.Text

/-- Bell, backspace, form feed, escape and delete. -/
def commands : List Char :=
  ['\x07', '\x08', '\x0c', '\x1b', '\x7f']

/-- Whether a character is one of the control characters above ASCII. -/
def isHighControl (c : Char) : Bool :=
  0x80 ≤ c.toNat && c.toNat < 0xa0

/-- How a character is shown: as it is, unless a terminal obeys it. -/
def escapeChar (c : Char) : String :=
  let code := (Hex.text 2 c.toNat).toLower
  if c ∈ commands then "\\x" ++ code
  else if isHighControl c then "\\u\x7b" ++ code ++ "\x7d"
  else c.toString

/-- How a text is shown. -/
def escape (text : String) : String :=
  String.join (text.toList.map escapeChar)

end VisualMemory.Text
