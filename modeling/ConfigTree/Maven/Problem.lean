import ConfigTree.Text.Basic

/-!
What can be wrong with build files and with the versions, selectors and scopes in them.
-/

namespace ConfigTree.Maven

inductive Problem where
  /-- The text is not well-formed XML. -/
  | malformed
  | missingElement (name : Text)
  | invalidVersion (text : Text)
  | invalidSelector (text : Text)
  | unknownScope (text : Text)
deriving DecidableEq, Repr

def Problem.message : Problem → Text
  | malformed => "malformed XML".toList
  | missingElement name => "POM is missing <".toList ++ name ++ ['>']
  | invalidVersion text => "invalid version: ".toList ++ text
  | invalidSelector text => "invalid version selector: ".toList ++ text
  | unknownScope text => "unknown scope: ".toList ++ text

end ConfigTree.Maven
