import ConfigTree.Json.Parse
import ConfigTree.Spring.Recipes

/-!
Recipes as described in JSON: an object whose member `recipe` names the recipe and whose other
members are its options. Members that the recipe does not know are passed over.
-/

namespace ConfigTree.Spring

/-- A recipe with its options. -/
inductive RecipeSpec where
  | findProperty (query : PropertyQuery)
  | findPropertyForVersions (versions : Text) (query : PropertyQuery)
deriving DecidableEq, Repr

namespace RecipeSpec

def query : RecipeSpec → PropertyQuery
  | findProperty q => q
  | findPropertyForVersions _ q => q

/-- The name of the recipe as shown to the user. -/
def displayName : RecipeSpec → Text
  | findProperty q => (Spring.findProperty q).name
  | findPropertyForVersions versions q => (Spring.findPropertyForVersions versions q).name

def description : RecipeSpec → Text
  | findProperty q => (Spring.findProperty q).description
  | findPropertyForVersions versions q => (Spring.findPropertyForVersions versions q).description

/-- Runs the recipe over files, unless its options are wrong. -/
def run (spec : RecipeSpec) (files : List SourceFile) : Except RecipeProblem RecipeRun :=
  match spec with
  | findProperty q => (Spring.findProperty q).run files
  | findPropertyForVersions versions q => (Spring.findPropertyForVersions versions q).run files

/-! ### Reading -/

/-- The only member with a name, if there is one. Two of them are a fault. -/
def option? (name : Text) (members : List (Text × Json.Value)) : Option (Option Json.Value) :=
  match members.filter fun m => m.1 = name with
  | [] => some none
  | [m] => some (some m.2)
  | _ => none

/-- The text that is the value of the only member with a name. -/
def textOption? (name : Text) (members : List (Text × Json.Value)) : Option Text :=
  match option? name members with
  | some (some (.string t)) => some t
  | _ => none

/-- The truth value of the only member with a name. The member may be left out or null. -/
def boolOption? (name : Text) (members : List (Text × Json.Value)) : Option (Option Bool) :=
  match option? name members with
  | some none => some none
  | some (some .null) => some none
  | some (some (.bool b)) => some (some b)
  | _ => none

def queryOf? (members : List (Text × Json.Value)) : Option PropertyQuery := do
  let key ← textOption? "propertyKey".toList members
  let relaxed ← boolOption? "relaxedBinding".toList members
  some ⟨key, relaxed⟩

def ofJson? : Json.Value → Option RecipeSpec
  | .object members => do
    let name ← textOption? "recipe".toList members
    if name = "FindSpringProperty".toList then (queryOf? members).map findProperty
    else if name = "FindSpringPropertyForVersions".toList then do
      let versions ← textOption? "versionRange".toList members
      (queryOf? members).map (findPropertyForVersions versions)
    else none
  | _ => none

/-- The recipe that a text describes, if it describes one. -/
def parse? (t : Text) : Option RecipeSpec := Json.parse? t >>= ofJson?

/-! ### Writing -/

def queryMembers (q : PropertyQuery) : List (Text × Json.Value) :=
  ("propertyKey".toList, .string q.key) ::
    (q.relaxed.map fun b => ("relaxedBinding".toList, Json.Value.bool b)).toList

def toJson : RecipeSpec → Json.Value
  | findProperty q => .object (("recipe".toList, .string "FindSpringProperty".toList) :: queryMembers q)
  | findPropertyForVersions versions q =>
    .object (("recipe".toList, .string "FindSpringPropertyForVersions".toList) ::
      ("versionRange".toList, .string versions) :: queryMembers q)

end RecipeSpec

end ConfigTree.Spring
