/-
  Quoted text — how a string stands inside a condition, a value or a message.

  1. **Data** — any string; nothing is assumed about its characters.

  2. **Program** — `quote s` puts `s` between double quotes with a backslash before every double
     quote and every backslash.  EVERYTHING else stands as it is: a line break inside a string is
     written as a line break, so that a written string reads back as the same string.

  Core only.
-/

namespace Verdict.Text

/-- What one character becomes between double quotes: the quote and the backslash are escaped. -/
def escaped (c : Char) : List Char :=
  if c = '"' ∨ c = '\\' then ['\\', c] else [c]

/-- A string between double quotes. -/
def quote (s : String) : String :=
  String.ofList ('"' :: s.toList.flatMap escaped ++ ['"'])

end Verdict.Text
