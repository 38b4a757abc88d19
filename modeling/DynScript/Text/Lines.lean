/-!
# Lines

Text is cut into lines at line feed, carriage return, vertical tab, form feed, the file, group and
record separators, next line, and the line and paragraph separators; a carriage return followed by
a line feed is one break.  The break that ends the last line opens no further line.
-/

namespace DynScript.Text

/-- Whether a character breaks a line. -/
def isLineBreak (c : Char) : Bool :=
  c = '\n' || c = '\r' || c = '\x0b' || c = '\x0c' || c = '\x1c' || c = '\x1d' || c = '\x1e' ||
    c = '\u0085' || c = '\u2028' || c = '\u2029'

/-- The lines of a text whose first line already holds `line`, in reverse. -/
def linesFrom (line : List Char) : List Char → List (List Char)
  | [] => if line.isEmpty then [] else [line.reverse]
  | '\r' :: '\n' :: cs => line.reverse :: linesFrom [] cs
  | c :: cs => if isLineBreak c then line.reverse :: linesFrom [] cs else linesFrom (c :: line) cs

/-- The lines of a text. -/
def lines (s : String) : List String :=
  (linesFrom [] s.toList).map String.ofList

/-- Turns a carriage return, with or without a line feed after it, into one line feed. -/
def unifyBreaks : List Char → List Char
  | [] => []
  | '\r' :: '\n' :: cs => '\n' :: unifyBreaks cs
  | c :: cs => (if c = '\r' then '\n' else c) :: unifyBreaks cs

/-- A text as a file reader presents it, with every line break written as one line feed. -/
def withLineFeeds (s : String) : String :=
  String.ofList (unifyBreaks s.toList)

end DynScript.Text
