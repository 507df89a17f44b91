import IpsecTransform.Text.Blank

namespace IpsecTransform

structure Settings where
  /-- Diagnostics may reveal keys. -/
  debuggable : Bool
deriving DecidableEq, Repr

namespace Settings

def affirmatives : List Text := [Text.ofString "true", Text.ofString "1"]

/-- The settings for the value of a variable that may be unset. Blanks around the
value and the case of its letters do not count; any value but the affirmatives
keeps keys hidden. -/
def load (value : Option Text) : Settings :=
  { debuggable := affirmatives.contains (value.getD []).trim.lower }

end Settings

end IpsecTransform
