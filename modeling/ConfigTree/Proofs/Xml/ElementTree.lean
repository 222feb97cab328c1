import ConfigTree.Xml.Event

/-!
# Element trees

The events of an XML text as a tree, and the elements and texts that a path of names leads to. Every
sequence of events in which tags match is that of one tree.
-/

namespace ConfigTree.Xml

/-- What stands between two tags: texts and elements in the order of the document. -/
inductive Content where
  | nil
  | text (value : Text) (rest : Content)
  | element (name : String) (inner rest : Content)
deriving DecidableEq, Repr

namespace Content

/-- The events that tell of a content. -/
def events : Content → List Event
  | nil => []
  | text value rest => .text value :: rest.events
  | element name inner rest => .opened name :: (inner.events ++ .closed name :: rest.events)

/-- The texts that stand directly in a content. -/
def texts : Content → List Text
  | nil => []
  | text value rest => value :: rest.texts
  | element _ _ rest => rest.texts

/-- What stands in the elements called `name` that stand directly in a content. -/
def elements (name : String) : Content → List Content
  | nil => []
  | text _ rest => rest.elements name
  | element own inner rest => (if own = name then [inner] else []) ++ rest.elements name

/-- What stands in the elements that the path leads to, the name of the outermost element first. -/
def elementsAt : List String → Content → List Content
  | [], c => [c]
  | name :: path, c => (c.elements name).flatMap (elementsAt path)

/-- The texts that stand directly in the elements that the path leads to. -/
def textsAt (path : List String) (c : Content) : List Text := (c.elementsAt path).flatMap texts

/-- The last text that stands directly in an element that the path leads to. -/
def lastText? (path : List String) (c : Content) : Option Text := (c.textsAt path).getLast?

/-- An element called `name` stands somewhere in the content. -/
def Has (name : String) : Content → Prop
  | nil => False
  | text _ rest => rest.Has name
  | element own inner rest => own = name ∨ inner.Has name ∨ rest.Has name

/-- No element called `name` stands in another one of that name. -/
def NoneNested (name : String) : Content → Prop
  | nil => True
  | text _ rest => rest.NoneNested name
  | element own inner rest =>
    (own = name → ¬ inner.Has name) ∧ inner.NoneNested name ∧ rest.NoneNested name

instance decidableHas (name : String) : (c : Content) → Decidable (c.Has name)
  | nil => inferInstanceAs (Decidable False)
  | text _ rest => decidableHas name rest
  | element own inner rest =>
    have := decidableHas name inner
    have := decidableHas name rest
    inferInstanceAs (Decidable (own = name ∨ inner.Has name ∨ rest.Has name))

instance decidableNoneNested (name : String) : (c : Content) → Decidable (c.NoneNested name)
  | nil => inferInstanceAs (Decidable True)
  | text _ rest => decidableNoneNested name rest
  | element own inner rest =>
    have := decidableNoneNested name inner
    have := decidableNoneNested name rest
    inferInstanceAs (Decidable ((own = name → ¬ inner.Has name) ∧ inner.NoneNested name ∧
      rest.NoneNested name))

/-- All texts of a content, each with the names of the elements around it, the outermost first. -/
def textsBelow : Content → List (List String × Text)
  | nil => []
  | text value rest => ([], value) :: rest.textsBelow
  | element name inner rest =>
    inner.textsBelow.map (Prod.map (name :: ·) id) ++ rest.textsBelow

/-- All elements of a content, each with the names from the outermost element around it to
its own. -/
def elementsBelow : Content → List (List String × Content)
  | nil => []
  | text _ rest => rest.elementsBelow
  | element name inner rest =>
    ([name], inner) :: inner.elementsBelow.map (Prod.map (name :: ·) id) ++ rest.elementsBelow

@[simp] theorem textsAt_nil (c : Content) : c.textsAt [] = c.texts :=
  List.flatMap_singleton texts c

theorem textsAt_cons (name : String) (path : List String) (c : Content) :
    c.textsAt (name :: path) = (c.elements name).flatMap (textsAt path) := by
  simp only [textsAt, elementsAt, List.flatMap_assoc]
  rfl

theorem textsBelow_at (path : List String) (c : Content) :
    (c.textsBelow.filter (·.1 = path)).map Prod.snd = c.textsAt path := by
  induction c generalizing path with
  | nil => cases path <;> rfl
  | text value rest ih =>
    cases path with
    | nil => simpa [textsBelow, texts] using ih []
    | cons name path => simpa [textsBelow, textsAt_cons, elements] using ih (name :: path)
  | element own inner rest ihInner ihRest =>
    rw [textsBelow, List.filter_append, List.map_append, ihRest, List.filter_map]
    cases path with
    | nil => simp [texts, Function.comp_def]
    | cons name path =>
      rw [textsAt_cons, textsAt_cons, elements, List.flatMap_append]
      by_cases same : own = name
      · simp [same, Function.comp_def, ← ihInner]
      · simp [same, Function.comp_def]

theorem has_of_mem_textsBelow {c : Content} {x : List String × Text} (isIn : x ∈ c.textsBelow)
    {name : String} (onPath : name ∈ x.1) : c.Has name := by
  induction c generalizing x with
  | nil => cases isIn
  | text value rest ih =>
    rcases List.mem_cons.mp isIn with rfl | isIn
    · cases onPath
    · exact ih isIn onPath
  | element own inner rest ihInner ihRest =>
    rcases List.mem_append.mp isIn with isIn | isIn
    · obtain ⟨y, inside, rfl⟩ := List.mem_map.mp isIn
      rcases List.mem_cons.mp onPath with rfl | onPath
      · exact .inl rfl
      · exact .inr (.inl (ihInner inside onPath))
    · exact .inr (.inr (ihRest isIn onPath))

theorem has_of_mem_elementsBelow {c : Content} {x : List String × Content}
    (isIn : x ∈ c.elementsBelow) {name : String} (onPath : name ∈ x.1) : c.Has name := by
  induction c generalizing x with
  | nil => cases isIn
  | text _ rest ih => exact ih isIn onPath
  | element own inner rest ihInner ihRest =>
    rcases List.mem_append.mp isIn with isIn | isIn
    · rcases List.mem_cons.mp isIn with rfl | isIn
      · exact .inl (List.mem_singleton.mp onPath).symm
      · obtain ⟨y, inside, rfl⟩ := List.mem_map.mp isIn
        rcases List.mem_cons.mp onPath with rfl | onPath
        · exact .inl rfl
        · exact .inr (.inl (ihInner inside onPath))
    · exact .inr (.inr (ihRest isIn onPath))

theorem ne_nil_of_mem_elementsBelow {c : Content} {x : List String × Content}
    (isIn : x ∈ c.elementsBelow) : x.1 ≠ [] := by
  induction c generalizing x with
  | nil => cases isIn
  | text _ rest ih => exact ih isIn
  | element own inner rest _ ihRest =>
    rcases List.mem_append.mp isIn with isIn | isIn
    · rcases List.mem_cons.mp isIn with rfl | isIn
      · exact List.cons_ne_nil own []
      · obtain ⟨y, -, rfl⟩ := List.mem_map.mp isIn
        exact List.cons_ne_nil own y.1
    · exact ihRest isIn

theorem elementsBelow_at (name : String) (path : List String) (c : Content) :
    (c.elementsBelow.filter (·.1 = name :: path)).map Prod.snd = c.elementsAt (name :: path) := by
  induction c generalizing name path with
  | nil => rfl
  | text value rest ih => exact ih name path
  | element own inner rest ihInner ihRest =>
    rw [elementsBelow, List.filter_append, List.map_append, ihRest, elementsAt, elementsAt,
      elements,
      List.flatMap_append, List.filter_cons, List.filter_map]
    by_cases same : own = name
    · cases path with
      | nil =>
        have deeper : inner.elementsBelow.filter (·.1 = []) = [] :=
          List.filter_eq_nil_iff.mpr fun x isIn => by simpa using ne_nil_of_mem_elementsBelow isIn
        simp [same, Function.comp_def, elementsAt, deeper]
      | cons next path => simp [same, Function.comp_def, ← ihInner]
    · simp [same, Function.comp_def]

end Content

/-- Elements close in the reverse of the order in which they opened, and none stays open. `nesting`
are the names of those that are open before the events, the innermost first. -/
def Nests : List String → List Event → Prop
  | nesting, [] => nesting = []
  | nesting, .opened name :: events => Nests (name :: nesting) events
  | nesting, .text _ :: events => Nests nesting events
  | nesting, .closed name :: events => ∃ outer, nesting = name :: outer ∧ Nests outer events

/-- Every opening tag has its closing tag, and elements do not overlap. -/
def WellNested (events : List Event) : Prop := Nests [] events

theorem nests_append (nesting : List String) (c : Content) (events : List Event) :
    Nests nesting (c.events ++ events) ↔ Nests nesting events := by
  induction c generalizing nesting events with
  | nil => rfl
  | text value rest ih => rw [Content.events, List.cons_append, Nests, ih]
  | element name inner rest ihInner ihRest =>
    rw [Content.events, List.cons_append, List.append_assoc, List.cons_append, Nests, ihInner,
      Nests]
    simp only [List.cons.injEq, true_and, exists_eq_left', ihRest]

/-- What is left of the events once a content has been told: nothing, or the tag that closes the
innermost element and what closes the others. -/
def ClosesInnermost : List String → List Event → Prop
  | [], others => others = []
  | name :: outer, others => ∃ later, others = .closed name :: later ∧ Nests outer later

theorem exists_content_of_nests {nesting : List String} {events : List Event}
    (nests : Nests nesting events) :
    ∃ (c : Content) (others : List Event), c.events ++ others = events ∧
      ClosesInnermost nesting others := by
  match events with
  | [] =>
    obtain rfl : nesting = [] := nests
    exact ⟨.nil, [], rfl, rfl⟩
  | .text value :: events =>
    rw [Nests] at nests
    obtain ⟨c, others, rfl, closes⟩ := exists_content_of_nests nests
    exact ⟨.text value c, others, rfl, closes⟩
  | .closed name :: events =>
    obtain ⟨outer, rfl, nests⟩ := nests
    exact ⟨.nil, _, rfl, events, rfl, nests⟩
  | .opened name :: events =>
    rw [Nests] at nests
    obtain ⟨inner, _, told, later, rfl, nests⟩ := exists_content_of_nests nests
    have shorter : later.length < events.length + 1 := by
      rw [← told, List.length_append, List.length_cons]
      omega
    obtain ⟨rest, others, rfl, closes⟩ := exists_content_of_nests nests
    exact ⟨.element name inner rest, others, by simp [Content.events, ← told], closes⟩
termination_by events.length

/-- The events in which tags match are those of the contents. -/
theorem wellNested_iff {events : List Event} :
    WellNested events ↔ ∃ c : Content, c.events = events := by
  constructor
  · intro nests
    obtain ⟨c, others, told, rfl⟩ := exists_content_of_nests nests
    exact ⟨c, (List.append_nil _).symm.trans told⟩
  · rintro ⟨c, rfl⟩
    have closes := nests_append [] c []
    rw [List.append_nil] at closes
    exact closes.mpr rfl

end ConfigTree.Xml
