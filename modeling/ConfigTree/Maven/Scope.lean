import ConfigTree.Maven.Problem
import ConfigTree.Text.Blank

/-!
Dependency scopes, and the classpaths on which dependencies of each scope are visible.
-/

namespace ConfigTree.Maven

inductive Scope where
  | compile
  | provided
  | runtime
  | test
  | system
  | imported
deriving DecidableEq, Repr

namespace Scope

def all : List Scope := [compile, provided, runtime, test, system, imported]

def name : Scope → Text
  | compile => "compile".toList
  | provided => "provided".toList
  | runtime => "runtime".toList
  | test => "test".toList
  | system => "system".toList
  | imported => "import".toList

/-- The scope named by a text, in any letter case and with white space around it. -/
def parse (text : Text) : Except Problem Scope :=
  match all.find? (·.name = Text.asciiLower text.trim) with
  | some s => .ok s
  | none => .error (.unknownScope text)

/-- Whether a dependency of scope `s` is on the classpath of scope `classpath`. -/
def isOnClasspathOf (s classpath : Scope) : Bool :=
  match s, classpath with
  | compile, compile => true
  | compile, runtime => true
  | compile, test => true
  | provided, provided => true
  | provided, compile => true
  | provided, test => true
  | runtime, runtime => true
  | runtime, test => true
  | test, test => true
  | system, system => true
  | system, compile => true
  | system, test => true
  | _, _ => false

end Scope

end ConfigTree.Maven
