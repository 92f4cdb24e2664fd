import CloneDetection.Scan.Basic
import CloneDetection.Text.Basic

/-!
# Settings as they are given

A caller may give a setting that is of no use. It is at fault when it is looked at and not before,
so a scan that never needs it is not disturbed. Texts that are given in a row are looked at one
after another. `any_ofTexts` and `toTexts_ofTexts` say that plain texts are never at fault.
-/
namespace CloneDetection

/-- A setting, or the fault that shows when it is looked at. -/
abbrev Given (α : Type) := Except Fault α

abbrev GivenTexts := List (Given Text)

namespace GivenTexts

def ofTexts (texts : List Text) : GivenTexts :=
  texts.map .ok

/-- Whether the test holds of one of the texts; those behind it are not looked at. -/
def any (test : Text → Bool) : GivenTexts → Given Bool
  | [] => .ok false
  | .error e :: _ => .error e
  | .ok text :: rest => if test text then .ok true else any test rest

def toTexts (texts : GivenTexts) : Given (List Text) :=
  texts.mapM id

theorem any_ofTexts (test : Text → Bool) (texts : List Text) :
    any test (ofTexts texts) = .ok (texts.any test) := by
  induction texts with
  | nil => rfl
  | cons text texts ih =>
    simp only [ofTexts, List.map_cons, any, List.any_cons] at ih ⊢
    cases test text <;> simp [ih]

theorem toTexts_ofTexts (texts : List Text) : toTexts (ofTexts texts) = .ok texts := by
  induction texts with
  | nil => rfl
  | cons text texts ih =>
    simp only [toTexts, ofTexts, List.map_cons, List.mapM_cons] at ih ⊢
    simp only [id, ih]
    rfl

end GivenTexts

end CloneDetection
