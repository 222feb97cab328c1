import ConfigTree.Yaml.Substitute

/-!
Views on YAML trees. A view is on one node and remembers the views it was reached through.
Writing through a view changes its node and puts the changed node into each of those views in
turn, up to the root; where a view has moved on and no longer has the node as a child, it stays
on the node it is on.
-/

namespace ConfigTree.Yaml

/-- A view on a node, or on nothing, with the views it was reached through, the nearest first. -/
structure View where
  node : Option Node
  ancestors : List Nat

/-- All views on the trees of a session. Views are known by their numbers. -/
structure Views where
  views : List View
  /-- The revision of the next write. -/
  revision : Nat

namespace Views

/-- The number of the view on nothing, which stands for all that is not found. -/
def nothing : Nat := 0

/-- No views but the one on nothing. -/
def new : Views := ⟨[⟨none, []⟩], 1⟩

/-- The node that a view is on. -/
def node? (vs : Views) (i : Nat) : Option Node := vs.views[i]? >>= View.node

/-- The views that a view was reached through, the nearest first. -/
def ancestors (vs : Views) (i : Nat) : List Nat := (vs.views[i]?.map View.ancestors).getD []

/-- Whether a view is on a node. -/
def isOnNode (vs : Views) (i : Nat) : Bool := (vs.node? i).isSome

/-- One more view, and its number. -/
def add (vs : Views) (view : View) : Nat × Views :=
  (vs.views.length, { vs with views := vs.views ++ [view] })

/-- A view on a node with nothing around it. Later writes belong to later revisions
than the node. -/
def addRoot (vs : Views) (node : Node) : Nat × Views :=
  { vs with revision := max vs.revision (node.id.revision + 1) }.add ⟨some node, []⟩

/-- A view on a node reached through the view `i`. -/
def addChild (vs : Views) (i : Nat) (node : Node) : Nat × Views :=
  vs.add ⟨some node, i :: vs.ancestors i⟩

/-! ### Reading -/

/-- The mapping that a view is on, if need be as the body of a document. -/
def mapping? (vs : Views) (i : Nat) : Option Mapping :=
  match vs.node? i with
  | some (.mapping m) => some m
  | some (.document d) => d.body.asMapping
  | _ => none

/-- The document that a view is on. -/
def document? (vs : Views) (i : Nat) : Option Document := vs.node? i >>= Node.asDocument

/-- The text of the scalar that a view is on. -/
def text? (vs : Views) (i : Nat) : Option Text := (vs.node? i >>= Node.asScalar).map Scalar.text

/-- The keys of the entries that a view was reached through, outermost first, its own
entry included. -/
def keys (vs : Views) (i : Nat) : List Text :=
  ((i :: vs.ancestors i).filterMap fun j => (vs.node? j >>= Node.asEntry).map (·.key.text)).reverse

/-- The dotted path from the root to a view. -/
def path (vs : Views) (i : Nat) : Text := Text.joinWith '.' (vs.keys i)

/-- The number of entries with a mapping as their value. -/
def size (vs : Views) (i : Nat) : Nat :=
  ((vs.mapping? i).map fun m => m.entries.countP (·.value.isMapping)).getD 0

/-! ### Going on to other views -/

/-- A view on the mapping that the view `i` is on: itself, or one reached through it when `i` is on
a document. -/
def mappingView (vs : Views) (i : Nat) : Option (Nat × Mapping) × Views :=
  match vs.node? i with
  | some (.mapping m) => (some (i, m), vs)
  | some (.document d) =>
    match d.body with
    | .mapping m => let (j, vs) := vs.addChild i (.mapping m); (some (j, m), vs)
    | _ => (none, vs)
  | _ => (none, vs)

/-- A view on the value of `entry`, reached through one on the entry, reached through
the view `i`. -/
def addEntryValue (vs : Views) (i : Nat) (entry : Entry) : Nat × Views :=
  let (j, vs) := vs.addChild i (.entry entry)
  vs.addChild j entry.value.toNode

/-- A view on the value of the first entry with the key `key`. -/
def get (vs : Views) (i : Nat) (key : Text) : Nat × Views :=
  match vs.mappingView i with
  | (none, vs) => (nothing, vs)
  | (some (j, m), vs) =>
    match m.find? key with
    | none => (nothing, vs)
    | some entry => vs.addEntryValue j entry

/-- The view reached by one key after the other. -/
def getKeys (vs : Views) (i : Nat) : List Text → Nat × Views
  | [] => (i, vs)
  | key :: keys => let (j, vs) := vs.get i key; vs.getKeys j keys

/-- The view reached by a dotted path, one key per segment. -/
def getPath (vs : Views) (i : Nat) (path : Text) : Nat × Views := vs.getKeys i (Text.splitOn '.' path)

/-- Views on the values of the given entries, reached through the view `i`, with the keys. -/
def addEntryValues (vs : Views) (i : Nat) : List Entry → List (Text × Nat) × Views
  | [] => ([], vs)
  | e :: es =>
    let (j, vs) := vs.addEntryValue i e
    let (js, vs) := vs.addEntryValues i es
    ((e.key.text, j) :: js, vs)

/-- Views on the mappings that are values of entries, with the keys of the entries. -/
def entries (vs : Views) (i : Nat) : List (Text × Nat) × Views :=
  match vs.mappingView i with
  | (none, vs) => ([], vs)
  | (some (j, m), vs) => vs.addEntryValues j (m.entries.filter (·.value.isMapping))

/-! ### Writing -/

/-- Moves the view `i` to another node. -/
def moveTo (vs : Views) (i : Nat) (node : Node) : Views :=
  { vs with views := vs.views.modify i fun view => { view with node := some node } }

/-- Moves the view `i` to the node `after`, and each of its ancestors to its node with the
moved child. -/
def update (vs : Views) (i : Nat) (ancestors : List Nat) (after : Node) : Views :=
  match ancestors with
  | [] => vs.moveTo i after
  | p :: ps =>
    match vs.node? i, vs.node? p with
    | some before, some parent =>
      (vs.moveTo i after).update p ps (parent.substitute vs.revision before after)
    | _, _ => vs.moveTo i after

/-- Gives the scalar that a view is on another text. Without a scalar nothing happens. -/
def setText (vs : Views) (i : Nat) (text : Text) : Views :=
  match vs.node? i >>= Node.asScalar with
  | none => vs
  | some s =>
    let written := vs.update i (vs.ancestors i) (.scalar (s.withText vs.revision text))
    { written with revision := vs.revision + 1 }

/-! ### What cannot be done -/

/-- Why no entries are added to what a view is on. -/
inductive InsertError where
  /-- The view is not on a mapping, but on a node of the kind `found`. -/
  | notAMapping (found : String)
  /-- It is not settled what adding entries to a mapping would do to its text. -/
  | unsupported
deriving DecidableEq, Repr

def InsertError.message : InsertError → String
  | notAMapping found => "values can only be inserted at mapping nodes, found " ++ found
  | unsupported => "inserting values into a mapping is not supported"

/-- Why no entries are added at the view `i`. -/
def insertError (vs : Views) (i : Nat) : InsertError :=
  match vs.node? i with
  | some (.mapping _) => .unsupported
  | some node => .notAMapping node.kind
  | none => .notAMapping "nothing"

end Views

end ConfigTree.Yaml
