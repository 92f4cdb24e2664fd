import CloneDetection.Text.Basic

/-!
# Lines

A text is cut into lines at its breaks. A carriage return and a line feed in a row are one break,
and a break at the end of the text opens no further line. Files use `isFileBreak`, display text uses
the wider `isDisplayBreak`.
-/
namespace CloneDetection

def isFileBreak (c : Char) : Bool :=
  c == '\n' || c == '\r'

/-- Line feed, vertical tab, form feed, carriage return, the three upper information separators,
next line, line separator and paragraph separator. -/
def isDisplayBreak (c : Char) : Bool :=
  [0x0A, 0x0B, 0x0C, 0x0D, 0x1C, 0x1D, 0x1E, 0x85, 0x2028, 0x2029].contains c.toNat

namespace Text

def unifyBreaks (isBreak : Char → Bool) : Text → Text
  | [] => []
  | '\r' :: '\n' :: rest => '\n' :: unifyBreaks isBreak rest
  | c :: rest => (if isBreak c then '\n' else c) :: unifyBreaks isBreak rest

def feedLines (t : Text) : List Text :=
  let parts := t.splitOn '\n'
  if parts.getLast? = some [] then parts.dropLast else parts

def fileLines (t : Text) : List Text :=
  (t.unifyBreaks isFileBreak).feedLines

def displayLines (t : Text) : List Text :=
  (t.unifyBreaks isDisplayBreak).feedLines

end Text

end CloneDetection
