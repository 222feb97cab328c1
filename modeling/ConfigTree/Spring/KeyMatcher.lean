import ConfigTree.Glob.Parse
import ConfigTree.Text.LowerCase

/-!
Matching property keys. Under relaxed binding letter case, dashes and underscores make
no difference.
-/

namespace ConfigTree.Spring

/-- The key in lower case, without dashes and underscores. -/
def normalize (key : Text) : Text := Text.lower (key.filter fun c => c != '-' && c != '_')

/-- A property key to compare other keys with. -/
structure KeyMatcher where
  relaxed : Bool
  matcher : Glob.Matcher

namespace KeyMatcher

/-- What is compared: under relaxed binding the normal form of a key, else the key. -/
def comparable (relaxed : Bool) (key : Text) : Text := if relaxed then normalize key else key

def ofKey (key : Text) (relaxed : Bool) : KeyMatcher := ⟨relaxed, .ofText (comparable relaxed key)⟩

def isMatch (m : KeyMatcher) (candidate : Text) : Bool :=
  m.matcher.isMatch (comparable m.relaxed candidate)

end KeyMatcher

end ConfigTree.Spring
