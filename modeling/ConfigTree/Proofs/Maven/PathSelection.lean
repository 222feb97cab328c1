import Mathlib.Data.List.Basic
import ConfigTree.Maven.Pom
import ConfigTree.Proofs.Xml.ElementTree

/-!
# Build files by element path

What a build file tells is selected from its element tree by paths of names. The reader goes through
the events once, with the path of open elements and one dependency that is open; what it has at the
end is what the paths lead to, and nothing else.
-/

namespace ConfigTree.Maven

open Xml (Content)

/-- The dependency that the content of its element tells of: for each field the last text in an
element of that name. -/
def Dependency.ofContent (c : Content) : Dependency where
  group := (c.lastText? ["groupId"]).getD []
  artifact := (c.lastText? ["artifactId"]).getD []
  version := c.lastText? ["version"]
  scope := c.lastText? ["scope"]
  type := c.lastText? ["type"]

/-- The build file has what the paths lead to in the content of a document. -/
structure Pom.Selects (p : Pom) (c : Content) : Prop where
  group : p.group = c.lastText? ["project", "groupId"]
  artifact : some p.artifact = c.lastText? ["project", "artifactId"]
  version : p.version = c.lastText? ["project", "version"]
  hasParent : p.parent.isSome ↔ ∃ name, c.textsAt ["project", "parent", name] ≠ []
  parent : ∀ q ∈ p.parent, q = ⟨(c.lastText? ["project", "parent", "groupId"]).getD [],
    (c.lastText? ["project", "parent", "artifactId"]).getD [],
    (c.lastText? ["project", "parent", "version"]).getD []⟩
  properties : ∀ name, p.properties.find? name =
    c.lastText? ["project", "properties", String.ofList name]
  propertiesOnce : (p.properties.pairs.map Prod.fst).Nodup
  dependencies : p.dependencies =
    (c.elementsAt ["project", "dependencies", "dependency"]).map Dependency.ofContent
  managed : p.managed =
    (c.elementsAt ["project", "dependencyManagement", "dependencies", "dependency"]).map
      Dependency.ofContent

namespace PomReader

variable {α : Type} {r : PomReader} {c : Content} {name : String}

@[simp] theorem path_opened (r : PomReader) (name : String) :
    (r.opened name).path = name :: r.path := rfl

/-- Where no dependency is complete, an element that closes only shortens the path. -/
theorem closed_of_not_complete (h : r.pending = none ∨ r.path.head? ≠ some "dependency") :
    r.closed = { r with path := r.path.tail } := by
  unfold closed
  split
  · next path own =>
    have idle : r.pending = none := h.resolve_right fun other => other (by rw [own]; rfl)
    simp [idle, own]
  · rfl

theorem closed_of_complete {d : Dependency} {path : List String}
    (own : r.path = "dependency" :: path) (complete : r.pending = some d) :
    r.closed =
      if isManagedList path then
        { r with path, pending := none, managed := r.managed ++ [d] }
      else if isDeclaredList path then
        { r with path, pending := none, dependencies := r.dependencies ++ [d] }
      else { r with path, pending := none } := by
  unfold closed
  simp only [own, complete]

@[simp] theorem path_closed (r : PomReader) : r.closed.path = r.path.tail := by
  by_cases h : r.pending = none ∨ r.path.head? ≠ some "dependency"
  · rw [closed_of_not_complete h]
  · obtain ⟨complete, own⟩ := not_or.mp h
    obtain ⟨d, complete⟩ := Option.ne_none_iff_exists'.mp complete
    obtain ⟨path, own⟩ := List.head?_eq_some_iff.mp (Decidable.not_not.mp own)
    rw [closed_of_complete own complete, own]
    split
    · rfl
    · split <;> rfl

@[simp] theorem path_text (r : PomReader) (value : Text) : (r.text value).path = r.path := by
  unfold text
  split <;> simp_all

theorem path_foldl (c : Content) (r : PomReader) : (c.events.foldl read r).path = r.path := by
  induction c generalizing r with
  | nil => rfl
  | text value rest ih => simp [Content.events, ih, read]
  | element name inner rest ihInner ihRest =>
    simp [Content.events, List.foldl_append, ihInner, ihRest, read]

/-- What a part of the reader becomes over a content, where tags leave it alone: it goes through the
texts with their paths. -/
theorem foldl_read_eq (f : PomReader → α) (step : α → List String → Text → α)
    (onText : ∀ r value, f (r.text value) = step (f r) r.path value)
    (onOpened : ∀ r name, c.Has name → f (r.opened name) = f r)
    (onClosed : ∀ r name, c.Has name → r.path.head? = some name → f r.closed = f r)
    (r : PomReader) :
    f (c.events.foldl read r) =
      c.textsBelow.foldl (fun a x => step a (x.1.reverse ++ r.path) x.2) (f r) := by
  induction c generalizing r with
  | nil => rfl
  | text value rest ih =>
    rw [Content.events, Content.textsBelow, List.foldl_cons, List.foldl_cons, ih onOpened onClosed]
    simp [read, onText]
  | element name inner rest ihInner ihRest =>
    have inside := ihInner (fun r n h => onOpened r n (.inr (.inl h)))
      fun r n h => onClosed r n (.inr (.inl h))
    have behind := ihRest (fun r n h => onOpened r n (.inr (.inr h)))
      fun r n h => onClosed r n (.inr (.inr h))
    have close : (inner.events.foldl read (r.opened name)).path.head? = some name := by
      rw [path_foldl]
      rfl
    rw [Content.events, Content.textsBelow, List.foldl_cons, List.foldl_append, List.foldl_cons,
      List.foldl_append, behind, List.foldl_map]
    simp only [read, path_closed, path_foldl, path_opened, List.tail_cons]
    rw [onClosed _ name (.inl rfl) close, inside, onOpened _ name (.inl rfl)]
    simp

/-- What the last text that counts made of a value, through a list of texts. -/
theorem foldl_last {β : Type} (p : β → Prop) [DecidablePred p] (g : β → α) (a : α) (l : List β) :
    l.foldl (fun a x => if p x then g x else a) a = ((l.filter p).map g).getLast?.getD a := by
  induction l generalizing a with
  | nil => rfl
  | cons x l ih =>
    rw [List.foldl_cons, ih, List.filter_cons]
    by_cases counts : p x
    · rw [if_pos counts, if_pos (decide_eq_true counts), List.map_cons, List.getLast?_cons,
        Option.getD_some]
    · rw [if_neg counts, if_neg (by simpa using counts)]

theorem foldl_textsBelow (path : List String) (g : Text → α) (a : α) (c : Content) :
    c.textsBelow.foldl (fun a x => if x.1 = path then g x.2 else a) a =
      ((c.lastText? path).map g).getD a := by
  refine (foldl_last (fun x : List String × Text => x.1 = path) (fun x => g x.2) a _).trans ?_
  rw [Content.lastText?, ← c.textsBelow_at, ← List.getLast?_map, List.map_map]
  rfl

/-! ## What stands in the project itself -/

/-- A part of the reader that is neither the path nor anything about dependencies. -/
def IsOwn (f : PomReader → α) : Prop :=
  ∀ (r : PomReader) path pending dependencies managed,
    f { r with path, pending, dependencies, managed } = f r

theorem IsOwn.closed {f : PomReader → α} (own : IsOwn f) (r : PomReader) : f r.closed = f r := by
  by_cases h : r.pending = none ∨ r.path.head? ≠ some "dependency"
  · rw [closed_of_not_complete h]
    exact own r _ _ _ _
  · obtain ⟨complete, list⟩ := not_or.mp h
    obtain ⟨d, complete⟩ := Option.ne_none_iff_exists'.mp complete
    obtain ⟨path, list⟩ := List.head?_eq_some_iff.mp (Decidable.not_not.mp list)
    rw [closed_of_complete list complete]
    split
    · exact own r _ _ _ _
    · split
      · exact own r _ _ _ _
      · exact own r _ _ _ _

theorem IsOwn.foldl {f : PomReader → α} (own : IsOwn f) (step : α → List String → Text → α)
    (onText : ∀ r value, f (r.text value) = step (f r) r.path value) (c : Content) :
    f (c.events.foldl read start) =
      c.textsBelow.foldl (fun a x => step a x.1.reverse x.2) (f start) := by
  rw [foldl_read_eq f step onText (fun r _ _ => own r _ _ r.dependencies r.managed)
    fun r _ _ _ => own.closed r]
  simp [start]

/-- A part of which only the texts at one path say anything is what the last of them says. -/
theorem IsOwn.foldl_last {f : PomReader → α} (own : IsOwn f) (path : List String) (g : Text → α)
    (onText : ∀ r value, f (r.text value) = if r.path = path.reverse then g value else f r)
    (c : Content) :
    f (c.events.foldl read start) = ((c.lastText? path).map g).getD (f start) := by
  rw [own.foldl (fun a p value => if p = path.reverse then g value else a) onText,
    ← foldl_textsBelow]
  simp only [List.reverse_inj]

theorem getD_map_some (o : Option α) : (o.map some).getD none = o := by cases o <;> rfl

theorem IsOwn.foldl_lastText {f : PomReader → Option Text} (own : IsOwn f) (path : List String)
    (atStart : f start = none)
    (onText : ∀ r value, f (r.text value) = if r.path = path.reverse then some value else f r)
    (c : Content) : f (c.events.foldl read start) = c.lastText? path := by
  rw [own.foldl_last path some onText, atStart, getD_map_some]

theorem group_foldl (c : Content) :
    (c.events.foldl read start).group = c.lastText? ["project", "groupId"] := by
  refine IsOwn.foldl_lastText (f := group) (fun _ _ _ _ _ => rfl) _ rfl (fun r value => ?_) c
  unfold text
  split <;> simp_all

theorem artifact_foldl (c : Content) :
    (c.events.foldl read start).artifact = c.lastText? ["project", "artifactId"] := by
  refine IsOwn.foldl_lastText (f := artifact) (fun _ _ _ _ _ => rfl) _ rfl (fun r value => ?_) c
  unfold text
  split <;> simp_all

theorem version_foldl (c : Content) :
    (c.events.foldl read start).version = c.lastText? ["project", "version"] := by
  refine IsOwn.foldl_lastText (f := version) (fun _ _ _ _ _ => rfl) _ rfl (fun r value => ?_) c
  unfold text
  split <;> simp_all

theorem nodup_insert {b : Bindings} (once : (b.pairs.map Prod.fst).Nodup) (name value : Text) :
    ((b.insert name value).pairs.map Prod.fst).Nodup := by
  rw [Bindings.insert, List.map_cons, List.nodup_cons]
  refine ⟨fun isIn => ?_, once.sublist (List.filter_sublist.map Prod.fst)⟩
  obtain ⟨x, isIn, own⟩ := List.mem_map.mp isIn
  exact of_decide_eq_true (List.mem_filter.mp isIn).2 own

/-- The properties after a text at a path, the innermost name first. -/
def enterProperty (b : Bindings) (path : List String) (value : Text) : Bindings :=
  match path with
  | [name, "properties", "project"] => b.insert name.toList value
  | _ => b

theorem properties_text (r : PomReader) (value : Text) :
    (r.text value).properties = enterProperty r.properties r.path value := by
  unfold text enterProperty
  split <;> simp_all

theorem find?_properties_foldl (name : Text) (c : Content) :
    (c.events.foldl read start).properties.find? name =
      c.lastText? ["project", "properties", String.ofList name] := by
  refine IsOwn.foldl_lastText (f := fun r => r.properties.find? name) (fun _ _ _ _ _ => rfl) _ rfl
    (fun r value => ?_) c
  rw [properties_text]
  unfold enterProperty
  split
  · next own isAt =>
    have same : own.toList = name ↔ own = String.ofList name := by
      rw [← String.toList_inj, String.toList_ofList]
    by_cases bound : own.toList = name
    · simp [isAt, ← same, bound]
    · simp [isAt, ← same, bound, Bindings.find?_insert_ne _ value (Ne.symm bound)]
  · next elsewhere => exact (if_neg (elsewhere (String.ofList name))).symm

theorem nodup_properties_foldl (c : Content) :
    ((c.events.foldl read start).properties.pairs.map Prod.fst).Nodup := by
  rw [IsOwn.foldl (f := properties) (fun _ _ _ _ _ => rfl) enterProperty properties_text]
  refine List.foldlRecOn (motive := fun b : Bindings => (b.pairs.map Prod.fst).Nodup) _ _
    List.nodup_nil fun b once x _ => ?_
  unfold enterProperty
  split
  · exact nodup_insert once _ _
  · exact once

theorem parent_set (q : Parent) (field : String) (value : Text) :
    q.set field value = ⟨if field = "groupId" then value else q.group,
      if field = "artifactId" then value else q.artifact,
      if field = "version" then value else q.version⟩ := by
  unfold Parent.set
  split <;> simp_all

/-- The parent after a text at a path, the innermost name first. -/
def enterParent (q : Option Parent) (path : List String) (value : Text) : Option Parent :=
  match path with
  | [field, "parent", "project"] => some ((q.getD .empty).set field value)
  | _ => q

theorem parent_text (r : PomReader) (value : Text) :
    (r.text value).parent = enterParent r.parent r.path value := by
  unfold text enterParent
  split <;> simp_all

/-- A field of the parent, where the parent stands for nothing as long as nothing is known of it. -/
theorem parentField_foldl (field : String) (get : Parent → Text) (blank : get .empty = [])
    (set : ∀ q own value, get (q.set own value) = if own = field then value else get q)
    (c : Content) :
    get ((c.events.foldl read start).parent.getD .empty) =
      (c.lastText? ["project", "parent", field]).getD [] := by
  rw [IsOwn.foldl_last (f := fun r => get (r.parent.getD .empty)) (fun _ _ _ _ _ => rfl)
    ["project", "parent", field] id, Option.map_id, id, ← blank]
  · rfl
  · intro r value
    rw [parent_text]
    unfold enterParent
    split
    · next own isAt => simp [isAt, set]
    · next elsewhere => exact (if_neg (elsewhere field)).symm

theorem parent_foldl (c : Content) :
    ∀ q ∈ (c.events.foldl read start).parent,
      q = ⟨(c.lastText? ["project", "parent", "groupId"]).getD [],
        (c.lastText? ["project", "parent", "artifactId"]).getD [],
        (c.lastText? ["project", "parent", "version"]).getD []⟩ := by
  intro q known
  have field := fun name get blank set => (parentField_foldl name get blank set c).symm
  rw [known, Option.getD_some] at field
  rw [field "groupId" Parent.group rfl fun q own value => by rw [parent_set],
    field "artifactId" Parent.artifact rfl fun q own value => by rw [parent_set],
    field "version" Parent.version rfl fun q own value => by rw [parent_set]]

theorem isSome_enterParent (q : Option Parent) (path : List String) (value : Text) :
    (enterParent q path.reverse value).isSome ↔
      q.isSome ∨ ∃ name, path = ["project", "parent", name] := by
  have turned (name : String) :
      path = ["project", "parent", name] ↔ path.reverse = [name, "parent", "project"] := by
    rw [List.reverse_eq_iff]
    rfl
  simp only [turned]
  unfold enterParent
  split <;> simp_all

theorem isSome_parent_foldl (c : Content) :
    (c.events.foldl read start).parent.isSome ↔
      ∃ name, c.textsAt ["project", "parent", name] ≠ [] := by
  have known (l : List (List String × Text)) (q : Option Parent) :
      (l.foldl (fun q x => enterParent q x.1.reverse x.2) q).isSome ↔
        q.isSome ∨ ∃ name, ∃ x ∈ l, x.1 = ["project", "parent", name] := by
    induction l generalizing q with
    | nil => simp
    | cons x l ih =>
      rw [List.foldl_cons, ih, isSome_enterParent]
      simp only [List.mem_cons, or_and_right, exists_or, exists_eq_left, or_assoc]
  rw [IsOwn.foldl (f := parent) (fun _ _ _ _ _ => rfl) enterParent parent_text, known]
  simp [start, ← Content.textsBelow_at]

/-! ## Dependencies -/

/-- The path of the declared dependencies, the innermost name first. -/
def declaredList : List String := ["dependencies", "project"]

/-- The path of the managed dependencies, the innermost name first. -/
def managedList : List String := ["dependencies", "dependencyManagement", "project"]

def IsList (path : List String) : Prop := path = declaredList ∨ path = managedList

theorem dependency_set (d : Dependency) (field : String) (value : Text) :
    d.set field value = ⟨if field = "groupId" then value else d.group,
      if field = "artifactId" then value else d.artifact,
      if field = "version" then some value else d.version,
      if field = "scope" then some value else d.scope,
      if field = "type" then some value else d.type⟩ := by
  unfold Dependency.set
  split <;> simp_all

/-- The dependency after a text at a path from its element on, the outermost name first. -/
def enterDependency (d : Dependency) (x : List String × Text) : Dependency :=
  match x.1 with
  | [field] => d.set field x.2
  | _ => d

theorem enterDependency_field (get : Dependency → α) (field : String) (g : Text → α)
    (set : ∀ d own value, get (d.set own value) = if own = field then g value else get d)
    (d : Dependency) (c : Content) :
    get (c.textsBelow.foldl enterDependency d) = ((c.lastText? [field]).map g).getD (get d) := by
  have step (d : Dependency) (x : List String × Text) :
      get (enterDependency d x) = if x.1 = [field] then g x.2 else get d := by
    unfold enterDependency
    split
    · next own isAt => simp [isAt, set]
    · next elsewhere => exact (if_neg (elsewhere field)).symm
  rw [← foldl_textsBelow, List.foldl_hom get fun d x => (step d x).symm]

/-- A new dependency has what its content tells once all its texts have been entered. -/
theorem enterDependency_foldl (c : Content) :
    c.textsBelow.foldl enterDependency .empty = .ofContent c := by
  have field {α : Type} := fun get name g set =>
    enterDependency_field (α := α) get name g set .empty c
  have group := field Dependency.group "groupId" id fun d own value => by rw [dependency_set]; rfl
  have artifact := field Dependency.artifact "artifactId" id fun d own value => by
    rw [dependency_set]; rfl
  have version := field Dependency.version "version" some fun d own value => by rw [dependency_set]
  have scope := field Dependency.scope "scope" some fun d own value => by rw [dependency_set]
  have type := field Dependency.type "type" some fun d own value => by rw [dependency_set]
  rw [Option.map_id] at group artifact
  rw [Dependency.empty, getD_map_some] at version scope type
  rw [Dependency.ofContent, ← version, ← scope, ← type]
  exact congr (congrArg (fun group artifact => Dependency.mk group artifact _ _ _) group) artifact

/-- The open dependency after a text at a path, the innermost name first. -/
def enterPending (p : Option Dependency) (path : List String) (value : Text) : Option Dependency :=
  match path with
  | field :: "dependency" :: "dependencies" :: _ => p.map (·.set field value)
  | _ => p

theorem pending_text (r : PomReader) (value : Text) :
    (r.text value).pending = enterPending r.pending r.path value := by
  unfold text enterPending
  split <;> simp_all

theorem enterPending_of_flat {list : List String} (isList : IsList list)
    {x : List String × Text} (flat : "dependency" ∉ x.1) (p : Option Dependency) :
    enterPending p (x.1.reverse ++ "dependency" :: list) x.2 = p.map (enterDependency · x) := by
  obtain ⟨outer, rfl⟩ : ∃ outer, list = "dependencies" :: outer := by
    rcases isList with rfl | rfl
    · exact ⟨_, rfl⟩
    · exact ⟨_, rfl⟩
  obtain ⟨path, value⟩ := x
  obtain ⟨inward, rfl⟩ : ∃ inward : List String, path = inward.reverse :=
    ⟨path.reverse, path.reverse_reverse.symm⟩
  rw [List.mem_reverse] at flat
  match inward, flat with
  | [], _ => simp [enterPending, enterDependency]
  | [field], _ => simp [enterPending, enterDependency]
  | field :: parent :: outer', flat =>
    have other : parent ≠ "dependency" := fun same => flat (by simp [same])
    have deep (d : Dependency) :
        enterDependency d ((field :: parent :: outer').reverse, value) = d := by
      unfold enterDependency
      split
      · next isAt => simpa using congrArg List.length isAt
      · rfl
    simp only [deep, List.reverse_reverse]
    simp [enterPending, other]

/-- Within a dependency that is open no other opens or closes; its fields are entered. -/
theorem foldl_read_dependency {list : List String} (isList : IsList list) {d : Dependency}
    (own : r.path = "dependency" :: list) (isOpen : r.pending = some d)
    (flat : ¬ c.Has "dependency") :
    (c.events.foldl read r).pending = some (c.textsBelow.foldl enterDependency d) ∧
      (c.events.foldl read r).dependencies = r.dependencies ∧
      (c.events.foldl read r).managed = r.managed := by
  have noneOpens (r : PomReader) (name : String) (has : c.Has name) :
      r.opened name = { r with path := name :: r.path } := by
    have other : name ≠ "dependency" := fun same => flat (same ▸ has)
    simp [opened, other]
  have noneCloses (r : PomReader) (name : String) (has : c.Has name)
      (innermost : r.path.head? = some name) : r.closed = { r with path := r.path.tail } := by
    refine closed_of_not_complete (.inr fun same => flat ?_)
    exact Option.some.inj (innermost.symm.trans same) ▸ has
  have kept {α : Type} (f : PomReader → α) step onText
      (frame : ∀ (r : PomReader) path, f { r with path } = f r) :=
    foldl_read_eq (c := c) f step onText (fun r name has => noneOpens r name has ▸ frame r _)
      (fun r name has innermost => noneCloses r name has innermost ▸ frame r _) r
  refine ⟨?_, ?_, ?_⟩
  · rw [kept pending enterPending pending_text fun _ _ => rfl, own, isOpen]
    rw [List.foldl_ext _ (fun p x => p.map (enterDependency · x)) _ fun p x isIn =>
      enterPending_of_flat isList
        (fun onPath => flat (Content.has_of_mem_textsBelow isIn onPath)) p]
    exact List.foldl_hom some fun _ _ => rfl
  · rw [kept dependencies (fun a _ _ => a) ?_ fun _ _ => rfl, List.foldl_fixed]
    intro r value
    unfold text
    split <;> rfl
  · rw [kept managed (fun a _ _ => a) ?_ fun _ _ => rfl, List.foldl_fixed]
    intro r value
    unfold text
    split <;> rfl

/-- The dependencies that a content below the open elements `path` has in a list. -/
def listed (list path : List String) (c : Content) : List Dependency :=
  (c.elementsBelow.filter (·.1.reverse ++ path = "dependency" :: list)).map
    (Dependency.ofContent ·.2)

theorem listed_eq (list : List String) (c : Content) :
    listed list [] c = (c.elementsAt (list.reverse ++ ["dependency"])).map .ofContent := by
  have below : c.elementsBelow.filter (·.1.reverse ++ [] = "dependency" :: list) =
      c.elementsBelow.filter (·.1 = list.reverse ++ ["dependency"]) := by
    simp only [List.append_nil, List.reverse_eq_iff, List.reverse_cons]
  obtain ⟨name, path, own⟩ := List.exists_cons_of_ne_nil
    (List.append_ne_nil_of_right_ne_nil list.reverse (List.cons_ne_nil "dependency" []))
  rw [listed, below, own, ← c.elementsBelow_at, List.map_map]
  rfl

theorem listed_element (list path : List String) (name : String) (inner rest : Content) :
    listed list path (.element name inner rest) =
      (if name = "dependency" ∧ path = list then [.ofContent inner] else []) ++
        listed list (name :: path) inner ++ listed list path rest := by
  have deeper (x : List String × Content) :
      (Prod.map (name :: ·) id x).1.reverse ++ path = x.1.reverse ++ name :: path := by
    simp
  rw [listed, Content.elementsBelow, List.filter_append, List.filter_cons, List.filter_map,
    List.map_append, listed, listed]
  simp only [Function.comp_def, deeper, List.reverse_singleton, List.singleton_append,
    List.cons.injEq, decide_eq_true_eq]
  split <;> simp

theorem listed_of_flat {list path : List String} (flat : ¬ c.Has "dependency") :
    listed list path c = [] := by
  refine List.map_eq_nil_iff.mpr (List.filter_eq_nil_iff.mpr fun x isIn own => flat ?_)
  refine Content.has_of_mem_elementsBelow isIn ?_
  have own := of_decide_eq_true own
  obtain ⟨last, others, turned⟩ := List.exists_cons_of_ne_nil
    fun none => Content.ne_nil_of_mem_elementsBelow isIn (List.reverse_eq_nil_iff.mp none)
  rw [turned, List.cons_append, List.cons.injEq] at own
  rw [← List.mem_reverse, turned, own.1]
  exact List.mem_cons_self

/-- From one reader to the next the lists grow by some dependencies, and no element or dependency is
left open. -/
structure Grows (r r' : PomReader) (declared managed : List Dependency) : Prop where
  path : r'.path = r.path
  idle : r'.pending = none
  dependencies : r'.dependencies = r.dependencies ++ declared
  managed : r'.managed = r.managed ++ managed

theorem Grows.trans {r r' r'' : PomReader} {ds ds' ms ms' : List Dependency}
    (first : Grows r r' ds ms) (second : Grows r' r'' ds' ms') :
    Grows r r'' (ds ++ ds') (ms ++ ms') where
  path := second.path.trans first.path
  idle := second.idle
  dependencies := by rw [second.dependencies, first.dependencies, List.append_assoc]
  managed := by rw [second.managed, first.managed, List.append_assoc]

/-- A dependency in its list is added to it, and nothing else. -/
theorem grows_dependency (isList : IsList r.path) (flat : ¬ c.Has "dependency") :
    Grows r (c.events.foldl read (r.opened "dependency")).closed
      (if r.path = declaredList then [.ofContent c] else [])
      (if r.path = managedList then [.ofContent c] else []) := by
  have opens : (r.opened "dependency").pending = some .empty := by
    rcases isList with own | own <;>
      simp [opened, own, isDeclaredList, isManagedList, declaredList, managedList]
  obtain ⟨complete, declared, managed⟩ := foldl_read_dependency isList rfl opens flat
  rw [enterDependency_foldl] at complete
  rw [closed_of_complete (path_foldl c _) complete]
  rcases isList with own | own
  · rw [own]
    exact ⟨own.symm, rfl, congrArg (· ++ _) declared, managed.trans (List.append_nil _).symm⟩
  · rw [own]
    exact ⟨own.symm, rfl, declared.trans (List.append_nil _).symm, congrArg (· ++ _) managed⟩

/-- An element that is no dependency in a list adds what its content adds. -/
theorem Grows.element {ds ms : List Dependency}
    (other : ¬ (name = "dependency" ∧ IsList r.path))
    (inside : Grows { r with path := name :: r.path }
      (c.events.foldl read { r with path := name :: r.path }) ds ms) :
    Grows r (c.events.foldl read (r.opened name)).closed ds ms := by
  have opens : r.opened name = { r with path := name :: r.path } := by
    have noList : ¬ (name = "dependency" ∧ (isDeclaredList r.path ∨ isManagedList r.path)) := by
      simpa [IsList, isDeclaredList, isManagedList, declaredList, managedList] using other
    rw [opened, if_neg noList]
  rw [opens, closed_of_not_complete (.inl inside.idle)]
  exact ⟨congrArg List.tail inside.path, inside.idle, inside.dependencies, inside.managed⟩

theorem grows_text (idle : r.pending = none) (value : Text) : Grows r (r.text value) [] [] := by
  refine ⟨path_text r value, ?_, ?_, ?_⟩
  · rw [pending_text, idle]
    unfold enterPending
    split <;> rfl
  · unfold text
    split <;> simp
  · unfold text
    split <;> simp

/-- Over a content that stands in no open dependency, each list grows by what the content has
in it. -/
theorem grows_foldl (idle : r.pending = none) (flat : c.NoneNested "dependency") :
    Grows r (c.events.foldl read r) (listed declaredList r.path c)
      (listed managedList r.path c) := by
  induction c generalizing r with
  | nil => exact ⟨rfl, idle, (List.append_nil _).symm, (List.append_nil _).symm⟩
  | text value rest ih =>
    have behind := ih (r := r.text value) (grows_text idle value).idle flat
    rw [path_text] at behind
    exact (grows_text idle value).trans behind
  | element name inner rest ihInner ihRest =>
    obtain ⟨flatHere, flatInner, flatRest⟩ := flat
    have first : Grows r (inner.events.foldl read (r.opened name)).closed
        ((if name = "dependency" ∧ r.path = declaredList then [.ofContent inner] else []) ++
          listed declaredList (name :: r.path) inner)
        ((if name = "dependency" ∧ r.path = managedList then [.ofContent inner] else []) ++
          listed managedList (name :: r.path) inner) := by
      by_cases own : name = "dependency" ∧ IsList r.path
      · obtain ⟨rfl, isList⟩ := own
        have noneInside := flatHere rfl
        simpa [listed_of_flat noneInside] using grows_dependency isList noneInside
      · have inside := ihInner (r := { r with path := name :: r.path }) idle flatInner
        have noDeclared : ¬ (name = "dependency" ∧ r.path = declaredList) :=
          fun h => own ⟨h.1, .inl h.2⟩
        have noManaged : ¬ (name = "dependency" ∧ r.path = managedList) :=
          fun h => own ⟨h.1, .inr h.2⟩
        rw [if_neg noDeclared, if_neg noManaged]
        exact inside.element own
    have behind := ihRest first.idle flatRest
    rw [first.path] at behind
    rw [Content.events, List.foldl_cons, List.foldl_append, List.foldl_cons, listed_element,
      listed_element]
    exact first.trans behind

end PomReader

namespace Pom

open PomReader

variable {c : Content}

/-- What the reader has at the end of a document whose artifact it knows. -/
theorem selects_foldl (flat : c.NoneNested "dependency") {artifact : Text}
    (known : (c.events.foldl read start).artifact = some artifact) :
    Selects ⟨(c.events.foldl read start).group, artifact, (c.events.foldl read start).version,
      (c.events.foldl read start).parent, (c.events.foldl read start).properties,
      (c.events.foldl read start).dependencies, (c.events.foldl read start).managed⟩ c := by
  have lists := grows_foldl (r := start) rfl flat
  exact {
    group := group_foldl c
    artifact := known.symm.trans (artifact_foldl c)
    version := version_foldl c
    hasParent := isSome_parent_foldl c
    parent := parent_foldl c
    properties := fun name => find?_properties_foldl name c
    propertiesOnce := nodup_properties_foldl c
    dependencies := lists.dependencies.trans (listed_eq declaredList c)
    managed := lists.managed.trans (listed_eq managedList c) }

/-- What is read of the events of a document in which no dependency stands in another is what the
paths lead to in its element tree. Only the name of the artifact has to be there. -/
theorem ofEvents_of_wellNested {events : List Xml.Event} (nested : Xml.WellNested events) :
    (∀ text, Xml.events? text = some events → parse text = ofEvents events) ∧
    (∃ c : Content, c.events = events) ∧
    ∀ c : Content, c.events = events → c.NoneNested "dependency" →
      (∀ problem, ofEvents events = .error problem ↔
        problem = .missingElement "artifactId".toList ∧
          c.textsAt ["project", "artifactId"] = []) ∧
      (c.textsAt ["project", "artifactId"] ≠ [] →
        ∃ p, ofEvents events = .ok p ∧ p.Selects c) := by
  refine ⟨fun text told => by rw [parse, told], Xml.wellNested_iff.mp nested, ?_⟩
  rintro c rfl flat
  have found := artifact_foldl c
  rw [ofEvents, finish]
  cases known : (c.events.foldl read start).artifact with
  | none =>
    rw [known, Content.lastText?, eq_comm, List.getLast?_eq_none_iff] at found
    simp [found, eq_comm]
  | some artifact =>
    rw [known, Content.lastText?] at found
    have nonempty : c.textsAt ["project", "artifactId"] ≠ [] := by
      intro none
      rw [none] at found
      cases found
    exact ⟨by simp [nonempty], fun _ => ⟨_, rfl, selects_foldl flat known⟩⟩

/-- A project with a dependency that leaves one of its own out, and with one in a profile. -/
def profiledProject : Content :=
  .element "project"
    (.element "artifactId" (.text "demo".toList .nil)
    (.element "dependencies"
      (.element "dependency"
        (.element "artifactId" (.text "starter".toList .nil)
        (.element "exclusions"
          (.element "exclusion" (.element "artifactId" (.text "core".toList .nil) .nil) .nil)
          .nil))
        .nil)
    (.element "profiles"
      (.element "profile"
        (.element "dependencies"
          (.element "dependency" (.element "artifactId" (.text "webmvc".toList .nil) .nil) .nil)
          .nil)
        .nil)
      .nil)))
    .nil

/-- Neither the exclusion nor the profile counts. -/
theorem ofEvents_of_wellNested_profiledProject :
    Xml.WellNested profiledProject.events ∧ profiledProject.NoneNested "dependency" ∧
      ∃ p, ofEvents profiledProject.events = .ok p ∧ p.Selects profiledProject ∧
        p.dependencies = [⟨[], "starter".toList, none, none, none⟩] := by
  have nested : Xml.WellNested profiledProject.events := Xml.wellNested_iff.mpr ⟨_, rfl⟩
  have flat : profiledProject.NoneNested "dependency" := by decide
  have told := (ofEvents_of_wellNested nested).2.2 profiledProject rfl flat
  obtain ⟨p, read, selects⟩ := told.2 (by decide)
  exact ⟨nested, flat, p, read, selects, selects.dependencies.trans (by decide)⟩

end Pom

end ConfigTree.Maven
