import Conform.Proofs.Answers
import Conform.Proofs.Resolver.Graph

/-!
The graph of declarations, computed: what a definition names, with a bound on how deeply it nests.
-/

namespace Conform

theorem Inside.cases_head {expr part : List Char} {uses : List Use} (inside : Inside expr uses part) :
    (uses = [] ∧ part = expr) ∨
      ∃ use first rest, uses = use :: rest ∧ Piece use expr first ∧ Inside first rest part := by
  induction inside with
  | whole => exact .inl ⟨rfl, rfl⟩
  | piece around piece ih =>
      rcases ih with ⟨rfl, rfl⟩ | ⟨use, first, rest, rfl, head, around⟩
      · exact .inr ⟨_, _, [], rfl, piece, .whole⟩
      · exact .inr ⟨use, first, rest ++ [_], rfl, head, .piece around piece⟩

def Form.name? : Form → Option (List Char)
  | .reference name => some name
  | _ => none

theorem ok_of_toOption {ε α : Type} {result : Except ε α} {value : α}
    (found : result.toOption = some value) : result = .ok value := by
  cases result with
  | error error => cases found
  | ok known => exact congrArg Except.ok (Option.some.inj found)

def bareName? (expr : List Char) : Option (List Char) :=
  (Form.read expr).toOption.bind Form.name?

theorem read_of_bareName? {expr name : List Char} (found : bareName? expr = some name) :
    Form.read expr = .ok (.reference name) := by
  obtain ⟨form, read, isName⟩ := Option.bind_eq_some_iff.mp found
  cases form with
  | reference other =>
      cases isName
      exact ok_of_toOption read
  | _ => cases isName

def namesWithin : Nat → List Char → Option (List (List Use × List Char))
  | 0, _ => none
  | bound + 1, expr =>
    match Form.read expr with
    | .error _ => some []
    | .ok form => do
      let found ← form.pieces.mapM fun (use, part) =>
        (namesWithin bound part).map (·.map fun (uses, name) => (use :: uses, name))
      return form.name?.toList.map ([], ·) ++ found.flatten

theorem mem_namesWithin {bound : Nat} {expr part name : List Char} {uses : List Use}
    {found : List (List Use × List Char)} (computed : namesWithin bound expr = some found)
    (inside : Inside expr uses part) (form : Form.read part = .ok (.reference name)) :
    (uses, name) ∈ found := by
  induction bound generalizing expr uses found with
  | zero => simp [namesWithin] at computed
  | succ bound ih =>
      rcases inside.cases_head with ⟨rfl, rfl⟩ | ⟨use, first, rest, rfl, piece, inner⟩
      · simp only [namesWithin, form, Option.bind_eq_bind, Option.bind_eq_some_iff, Option.pure_def,
          Option.some.injEq] at computed
        obtain ⟨others, _, rfl⟩ := computed
        simp [Form.name?]
      · cases read : Form.read expr with
        | error fault => cases piece <;> simp_all
        | ok whole =>
            simp only [namesWithin, read, Option.bind_eq_bind, Option.bind_eq_some_iff,
              Option.pure_def, Option.some.injEq] at computed
            obtain ⟨others, pieces, rfl⟩ := computed
            obtain ⟨names, member, known⟩ :=
              exists_of_mapM pieces (use, first) (Form.mem_pieces read piece)
            obtain ⟨known, named, rfl⟩ := Option.map_eq_some_iff.mp known
            have inKnown := ih named inner
            refine List.mem_append_right _ (List.mem_flatten.mpr ⟨_, member, ?_⟩)
            exact List.mem_map.mpr ⟨(rest, name), inKnown, rfl⟩

namespace Sources

def edgesIn (sources : Sources) (bound : Nat) (file : FilePath) (expr : List Char) :
    Option (List (List Use × Place)) :=
  (namesWithin bound expr).map fun found => found.filterMap fun (uses, name) =>
    match sources.locate name file.normalize with
    | .ok key => some (uses, key.place)
    | .error _ => none

def edges (sources : Sources) (bound : Nat) (key : DeclKey) : Option (List (List Use × Place)) :=
  match sources.definition key with
  | .ok expr => sources.edgesIn bound key.file expr
  | .error _ => some []

variable {sources : Sources} {bound : Nat} {uses : List Use} {target : Place}
  {found : List (List Use × Place)}

theorem mem_edgesIn {file : FilePath} {expr : List Char}
    (computed : sources.edgesIn bound file expr = some found)
    (named : sources.NamesIn (some file) expr uses target) : (uses, target) ∈ found := by
  obtain ⟨part, name, key, inside, form, ⟨_, ⟨⟩, located⟩, rfl⟩ := named
  obtain ⟨names, within, rfl⟩ := Option.map_eq_some_iff.mp computed
  refine List.mem_filterMap.mpr ⟨(uses, name), mem_namesWithin within inside form, ?_⟩
  simp [located]

theorem mem_edges {key : DeclKey} (computed : sources.edges bound key = some found)
    (named : sources.Names key.place uses target) : (uses, target) ∈ found := by
  obtain ⟨expr, defined, named⟩ := names_iff.mp named
  simp only [edges, defined] at computed
  exact mem_edgesIn computed named

structure Closed (sources : Sources) (graph : List (DeclKey × List (List Use × Place))) : Prop where
  edges : ∀ node ∈ graph, ∃ bound, sources.edges bound node.1 = some node.2
  inside : ∀ node ∈ graph, ∀ edge ∈ node.2, edge.2 ∈ graph.map (·.1.place)

theorem Closed.names {graph : List (DeclKey × List (List Use × Place))}
    (closed : sources.Closed graph) {place : Place} (among : place ∈ graph.map (·.1.place))
    (named : sources.Names place uses target) :
    (∃ node ∈ graph, node.1.place = place ∧ (uses, target) ∈ node.2) ∧
      target ∈ graph.map (·.1.place) := by
  obtain ⟨node, member, rfl⟩ := List.mem_map.mp among
  obtain ⟨bound, computed⟩ := closed.edges node member
  have edge := mem_edges computed named
  exact ⟨⟨node, member, rfl, edge⟩, closed.inside node member _ edge⟩

theorem Closed.leads {graph : List (DeclKey × List (List Use × Place))}
    (closed : sources.Closed graph) {place : Place} (among : place ∈ graph.map (·.1.place))
    (leads : sources.Leads place target) : target ∈ graph.map (·.1.place) := by
  induction leads with
  | refl => exact among
  | tail _ step ih =>
      obtain ⟨uses, named⟩ := step
      exact (closed.names ih named).2

theorem not_transGen_of_rank {step : Place → Place → Prop} (places : Place → Prop)
    (closed : ∀ place next, places place → step place next → places next) (rank : Place → Nat)
    (down : ∀ place next, places place → step place next → rank next < rank place) {place : Place}
    (start : places place) : ¬Relation.TransGen step place place := by
  intro cycle
  have lower : ∀ {last}, Relation.TransGen step place last → places last ∧ rank last < rank place := by
    intro last path
    induction path with
    | single first => exact ⟨closed _ _ start first, down _ _ start first⟩
    | tail _ next ih => exact ⟨closed _ _ ih.1 next, Nat.lt_trans (down _ _ ih.1 next) ih.2⟩
  exact Nat.lt_irrefl _ (lower cycle).2

end Sources

end Conform
