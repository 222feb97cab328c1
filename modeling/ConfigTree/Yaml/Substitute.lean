import ConfigTree.Yaml.Visit

/-!
Putting one node in the place of another, directly below a given parent. The child is told by
identity, so a sibling that reads the same is never taken for it.
-/

namespace ConfigTree.Yaml

/-- `after` in the place of `child`, if `child` is the node `before` and `after` fits;
else `child`. -/
def exchange {α : Type} (toNode : α → Node) (ofNode : Node → Option α) (before after : Node)
    (child : α) : α :=
  if (toNode child).same before then (ofNode after).getD child else child

/-- The node `parent` with `after` in the place of its child `before`. -/
def Node.substitute (revision : Nat) (parent before after : Node) : Node :=
  let value := exchange Value.toNode Node.asValue before after
  match parent with
  | .document d => .document (d.withBody revision (value d.body))
  | .mapping m =>
    .mapping (m.withEntries revision (m.entries.map (exchange .entry Node.asEntry before after)))
  | .entry e =>
    .entry (e.withParts revision (exchange .scalar Node.asScalar before after e.key) (value e.value))
  | .sequence s =>
    .sequence (s.withItems revision (s.items.map (exchange .item Node.asItem before after)))
  | .item i => .item (i.withValue revision (value i.value))
  | .scalar s => .scalar s

end ConfigTree.Yaml
