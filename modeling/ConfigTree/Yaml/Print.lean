import ConfigTree.Yaml.Tree

/-!
Printing YAML trees. A tree prints as its pieces in order; a mark stands between the lead of its
scalar and the scalar itself.
-/

namespace ConfigTree.Yaml

/-- The scalar without its lead, quotes or indicator included. -/
def Scalar.written (s : Scalar) : Text :=
  match s.style with
  | .plain => s.text
  | .singleQuoted => '\'' :: s.text ++ ['\'']
  | .doubleQuoted => '"' :: s.text ++ ['"']
  | .literal => '|' :: s.text
  | .folded => '>' :: s.text

def Scalar.pieces (s : Scalar) : List (Piece Scalar) :=
  match s.mark with
  | none => [.chars s.lead, .chars s.written]
  | some m => [.chars s.lead, .mark s m, .chars s.written]

/-- What closes an entry or an item: its comma, if it has one. -/
def commaPieces : Option Text → List (Piece Scalar)
  | none => []
  | some lead => [.chars (lead ++ [','])]

/-- The pieces of a collection between its brackets, if it has any. -/
def CollectionStyle.around (style : CollectionStyle) (opening closing : Char)
    (inner : List (Piece Scalar)) : List (Piece Scalar) :=
  match style with
  | .block => inner
  | .flow before last => .chars (before ++ [opening]) :: (inner ++ [.chars (last ++ [closing])])

mutual

def Value.pieces : Value → List (Piece Scalar)
  | .scalar s => s.pieces
  | .mapping m => m.pieces
  | .sequence s => s.pieces

def Mapping.pieces : Mapping → List (Piece Scalar)
  | ⟨_, style, entries⟩ => style.around '{' '}' (entriesPieces entries)

def entriesPieces : List Entry → List (Piece Scalar)
  | [] => []
  | e :: es => e.pieces ++ entriesPieces es

def Entry.pieces : Entry → List (Piece Scalar)
  | ⟨_, lead, key, gap, value, comma⟩ =>
    .chars lead :: (key.pieces ++ .chars (gap ++ [':']) :: (value.pieces ++ commaPieces comma))

def Sequence.pieces : Sequence → List (Piece Scalar)
  | ⟨_, style, items⟩ => style.around '[' ']' (itemsPieces items)

def itemsPieces : List Item → List (Piece Scalar)
  | [] => []
  | i :: is => i.pieces ++ itemsPieces is

def Item.pieces : Item → List (Piece Scalar)
  | ⟨_, lead, dash, value, comma⟩ =>
    .chars (if dash then lead ++ ['-'] else lead) :: (value.pieces ++ commaPieces comma)

end

def Document.pieces (d : Document) : List (Piece Scalar) :=
  .chars (if d.explicitStart then d.lead ++ ['-', '-', '-'] else d.lead) ::
    (d.body.pieces ++ [.chars (if d.explicitEnd then d.tail ++ ['.', '.', '.'] else d.tail)])

def Stream.pieces (s : Stream) : List (Piece Scalar) :=
  s.documents.flatMap Document.pieces ++ [.chars s.trailer]

/-- A value alone, as it stands in its file. -/
def Value.print (v : Value) : Text := Piece.print v.pieces

/-- An entry alone. -/
def Entry.print (e : Entry) : Text := Piece.print e.pieces

/-- An item alone. -/
def Item.print (i : Item) : Text := Piece.print i.pieces

/-- The text of the whole file. -/
def Stream.print (s : Stream) : Text := Piece.print s.pieces

end ConfigTree.Yaml
