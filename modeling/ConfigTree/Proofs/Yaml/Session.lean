import ConfigTree.Proofs.Yaml.Views

/-!
# Sessions of views

Views on the trees of one stream are taken and written through in any order, old views and new ones.
-/

namespace ConfigTree.Yaml

/-- What can be done with the views of a session on a stream. Views are told by their numbers. -/
inductive Call where
  /-- A view on a document of the stream. -/
  | build (document : Nat)
  /-- A view on the mapping at an address of the stream. -/
  | buildMapping (address : List Nat)
  /-- A view, with nothing around it, on the document that a view is on. -/
  | rebuild (view : Nat)
  /-- A view, with nothing around it, on the mapping that a view is on. -/
  | rebuildMapping (view : Nat)
  | get (view : Nat) (key : Text)
  | getPath (view : Nat) (path : Text)
  | entries (view : Nat)
  | setText (view : Nat) (text : Text)

/-- The views after a call. Nothing happens where there is nothing to build on. -/
def Call.run (s : Stream) (vs : Views) : Call → Views
  | .build d => ((s.documents[d]?).map fun d => (vs.addRoot (.document d)).2).getD vs
  | .buildMapping address =>
    match s.nodeAt? address with
    | some (.mapping m) => (vs.addRoot (.mapping m)).2
    | _ => vs
  | .rebuild i => ((vs.document? i).map fun d => (vs.addRoot (.document d)).2).getD vs
  | .rebuildMapping i => ((vs.mapping? i).map fun m => (vs.addRoot (.mapping m)).2).getD vs
  | .get i key => (vs.get i key).2
  | .getPath i path => (vs.getPath i path).2
  | .entries i => (vs.entries i).2
  | .setText i text => vs.setText i text

/-- The views after a session. -/
def session (s : Stream) (calls : List Call) : Views := calls.foldl (Call.run s) Views.new

namespace Views

variable {s : Stream} {vs : Views}

/-- One call. -/
theorem Coherent.call (h : vs.Coherent s) (c : Call) : (c.run s vs).Coherent s := by
  cases c with
  | build d =>
    rw [Call.run]
    cases found : s.documents[d]? with
    | none => exact h
    | some document =>
      exact h.addRoot (.inl (Stream.mem_nodes_of_document (List.mem_of_getElem? found)))
  | buildMapping address =>
    rw [Call.run]
    split
    · rename_i m found
      exact h.addRoot (.inl (Stream.mem_nodes_of_nodeAt found))
    · exact h
  | rebuild i =>
    rw [Call.run, document?]
    cases found : vs.node? i >>= Node.asDocument with
    | none => exact h
    | some d =>
      obtain ⟨n, onNode, isDocument⟩ := Option.bind_eq_some_iff.mp found
      cases n with
      | document d' =>
        obtain rfl := Option.some.inj isDocument
        exact h.addRoot (h.knows_of_node onNode)
      | mapping | entry | sequence | item | scalar => contradiction
  | rebuildMapping i =>
    rw [Call.run]
    cases found : vs.mapping? i with
    | none => exact h
    | some m =>
      exact h.addRoot (h.knows_of_mapping found)
  | get i key => exact (vs.grows_get i key).coherent h
  | getPath i path => exact (vs.grows_getKeys i _).coherent h
  | entries i => exact (vs.grows_entries i).coherent h
  | setText i text => exact h.setText i text

/-- The views of a session are coherent. -/
theorem coherent_session {source : Text} (parsed : parse source = .ok s) (calls : List Call) :
    (session s calls).Coherent s := by
  have run : ∀ vs : Views, vs.Coherent s → (calls.foldl (Call.run s) vs).Coherent s := by
    induction calls with
    | nil => exact fun vs h => h
    | cons c calls ih => exact fun vs h => ih _ (h.call c)
  exact run Views.new (coherent_new parsed)

end Views

/-- A write through any view of a session, old or new, has one of two effects on the tree of a root
view: it stays the tree it was, or the scalar that the view is on is rewritten and nothing else is.
It is rewritten if the view is on a scalar with another text, and below this root, and each view on
the way up still has the node below it as a child. -/
theorem root_after_setText {source : Text} {s : Stream} (parsed : parse source = .ok s)
    (calls : List Call) (w : Nat) (text : Text) {r : Nat} {n : Node}
    (isRoot : (session s calls).ancestors r = []) (found : (session s calls).node? r = some n) :
    ∃ n', ((session s calls).setText w text).node? r = some n' ∧
      (n' = n ↔ ¬ (session s calls).RewrittenThrough w text n n') ∧
      ((session s calls).RewrittenThrough w text n n' ↔ (session s calls).root w = r ∧
        (session s calls).ChainLive w ∧
          ∃ t, (session s calls).node? w = some (.scalar t) ∧ t.text ≠ text) :=
  (Views.coherent_session parsed calls).root_of_setText w text isRoot found

def twoKeysText : Text := "a: 1\nb: 2\n".toList

/-- Two views on one scalar. -/
def twoViews : List Call := [.build 0, .get 1 ['a'], .get 1 ['a']]

/-- After a write through the first of them the second is stale. -/
def oneWritten : List Call := twoViews ++ [.setText 4 ['x']]

theorem root_after_setText_twoViews :
    ∃ s m n, parse twoKeysText = .ok s ∧ (session s twoViews).node? 1 = some m ∧
      (session s oneWritten).node? 1 = some n ∧ (session s twoViews).RewrittenThrough 4 ['x'] m n ∧
      ((session s oneWritten).setText 7 ['y']).node? 1 = some n := by
  obtain ⟨s, parsed, onRoot, isRoot, root, live, text, isRoot', stale⟩ :
    ∃ s, parse twoKeysText = .ok s ∧
      ((session s twoViews).node? 1).isSome ∧ (session s twoViews).ancestors 1 = [] ∧
      (session s twoViews).root 4 = 1 ∧ (session s twoViews).ChainLive 4 ∧
      (session s twoViews).text? 4 = some ['1'] ∧ (session s oneWritten).ancestors 1 = [] ∧
      ¬ (session s oneWritten).ChainLive 7 := exists_parse (by decide +kernel)
  obtain ⟨m, found⟩ := Option.isSome_iff_exists.mp onRoot
  obtain ⟨n, written, -, rewritten⟩ := root_after_setText parsed twoViews 4 ['x'] isRoot found
  have found' : (session s oneWritten).node? 1 = some n := by
    rw [session, oneWritten, List.foldl_append]
    exact written
  obtain ⟨n', after, kept, rewritten'⟩ :=
    root_after_setText parsed oneWritten 7 ['y'] isRoot' found'
  obtain ⟨t, onScalar, isText⟩ := Option.map_eq_some_iff.mp text
  obtain ⟨k, onNode, isScalar⟩ := Option.bind_eq_some_iff.mp onScalar
  obtain rfl := Node.asScalar_eq_some.mp isScalar
  have changed : t.text ≠ ['x'] := by
    rw [isText]
    decide
  refine ⟨s, m, n, parsed, found, found', rewritten.mpr ⟨root, live, t, onNode, changed⟩, ?_⟩
  rw [after, kept.mpr fun isRewritten => stale (rewritten'.mp isRewritten).2.1]

end ConfigTree.Yaml
