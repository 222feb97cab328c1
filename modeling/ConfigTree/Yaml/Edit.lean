import ConfigTree.Yaml.View

/-!
Reading and setting the scalars of a stream by dotted paths.
-/

namespace ConfigTree.Yaml

/-- The scalar at a dotted path in a document. -/
def Document.textAt? (d : Document) (path : Text) : Option Text :=
  let (root, vs) := Views.new.addRoot (.document d)
  let (i, vs) := vs.getPath root path
  vs.text? i

/-- The document with another text at a dotted path, if it has a scalar there. -/
def Document.setTextAt? (d : Document) (path text : Text) : Option Document :=
  let (root, vs) := Views.new.addRoot (.document d)
  let (i, vs) := vs.getPath root path
  if (vs.text? i).isSome then (vs.setText i text).document? root else none

/-- The scalar at a dotted path in the first document that has one. -/
def Stream.textAt? (s : Stream) (path : Text) : Option Text := s.documents.findSome? (·.textAt? path)

/-- The stream with another text at a dotted path in every document with a scalar there, if
there is one. -/
def Stream.setTextAt? (s : Stream) (path text : Text) : Option Stream :=
  let edited := s.documents.map (·.setTextAt? path text)
  if edited.any Option.isSome then
    some (s.withDocuments s.nextRevision ((s.documents.zip edited).map fun (d, e) => e.getD d))
  else none

end ConfigTree.Yaml
