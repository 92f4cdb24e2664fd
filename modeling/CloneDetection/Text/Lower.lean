import CloneDetection.Text.Basic

/-!
# Lower case against ASCII words

Outside ASCII only the Kelvin sign and the capital dotted i have a lower-case form with an ASCII
letter in it, so a comparison with ASCII words needs no other letter folded.
-/
namespace CloneDetection

def lowerChar (c : Char) : Text :=
  if c = '\u212A' then ['k']
  else if c = '\u0130' then ['i', '\u0307']
  else [c.toLower]

def Text.lower (t : Text) : Text :=
  t.flatMap lowerChar

end CloneDetection
