import ConfigTree.Yaml.Cursor

/-!
What can be wrong with a YAML text, and where. Anchors, aliases, tags, directives and complex keys
are outside the supported language.
-/

namespace ConfigTree.Yaml

/-- Why a text is refused. -/
inductive Problem where
  | anchorUsed
  | aliasUsed
  | tag
  | directive
  | reservedIndicator
  | complexKey
  | unterminatedQuote
  | scalarExpected
  | keyExpected
  | contentAfterDocument
  | contentAfterMappingValue
  | entryIndentation
  | itemIndentation
  | itemNotAllowed
  | mappingNotAllowed
  | unterminatedFlowSequence
  | unterminatedFlowMapping
  | unterminatedFlowCollection
  | flowColonExpected
  | flowCommaExpected
  /-- The step budget ran out. The budgets given here never do. -/
  | outOfSteps
deriving DecidableEq, Repr

def Problem.message : Problem → String
  | anchorUsed => "anchors are not supported"
  | aliasUsed => "aliases are not supported"
  | tag => "tags are not supported"
  | directive => "directives are not supported"
  | reservedIndicator => "reserved indicator"
  | complexKey => "complex keys are not supported"
  | unterminatedQuote => "unterminated quoted scalar"
  | scalarExpected => "expected a scalar"
  | keyExpected => "expected a mapping key"
  | contentAfterDocument => "unexpected content after document body"
  | contentAfterMappingValue => "unexpected content after mapping value"
  | entryIndentation => "bad indentation of a mapping entry"
  | itemIndentation => "bad indentation of a sequence entry"
  | itemNotAllowed => "block sequence entries are not allowed here"
  | mappingNotAllowed => "mapping values are not allowed here"
  | unterminatedFlowSequence => "unterminated flow sequence"
  | unterminatedFlowMapping => "unterminated flow mapping"
  | unterminatedFlowCollection => "unterminated flow collection"
  | flowColonExpected => "expected ':' in flow mapping"
  | flowCommaExpected => "expected ',' or end of flow collection"
  | outOfSteps => "too many steps"

/-- A problem at the place where it was met. -/
structure Failure where
  problem : Problem
  here : Cursor
deriving DecidableEq, Repr

/-- A problem with its line and column in a text, both counted from one, columns in bytes. -/
structure SyntaxError where
  problem : Problem
  line : Nat
  column : Nat
deriving DecidableEq, Repr

/-- The place in `text` of a failure met while reading it: the line is one more than the number of
line feeds read by then. -/
def Failure.locate (text : Text) (f : Failure) : SyntaxError where
  problem := f.problem
  line := text.lineFeeds - f.here.rest.lineFeeds + 1
  column := f.here.column + 1

/-- The error as told for the file at `path`. -/
def SyntaxError.message (path : String) (e : SyntaxError) : String :=
  path ++ ":" ++ toString e.line ++ ":" ++ toString e.column ++ ": " ++ e.problem.message

end ConfigTree.Yaml
