import Mathlib.Data.List.Basic
import Conform.Declaration.Import

/-!
What a path is once its dots are folded. A step up that finds no name to leave stays on the way
once, and the next such step takes it off again: of the steps up that lead out of the start of a
path, only their parity is left. A fold that reads the path with a stack keeps every one of them on
a relative path and none on an absolute one; both agree where at most one step leads out, and on an
absolute path where an even number does.
-/

namespace Conform

namespace Component

def Plain (component : Component) : Prop :=
  '/' ∉ component.text.toList ∧ ofPiece? component.text.toList = some component

theorem plain_up : Plain up :=
  ⟨by decide, by decide⟩

theorem Plain.ne_root {component : Component} (plain : Plain component) : component ≠ root := by
  rintro rfl
  exact absurd plain.2 (by decide)

theorem Plain.text_ne_nil {component : Component} (plain : Plain component) :
    component.text.toList ≠ [] := by
  intro empty
  have read := plain.2
  rw [empty] at read
  exact absurd read (by simp [ofPiece?])

theorem Plain.text_ne_dot {component : Component} (plain : Plain component) :
    component.text.toList ≠ ['.'] := by
  intro dot
  have read := plain.2
  rw [dot] at read
  exact absurd read (by simp [ofPiece?])

theorem plain_of_piece {piece : List Char} {component : Component} (slashless : '/' ∉ piece)
    (read : ofPiece? piece = some component) : Plain component := by
  have text : component.text.toList = piece := by
    unfold ofPiece? at read
    split at read
    next => cases read
    next => cases read
    next dots =>
      cases read
      rw [← String.toList_ofList (l := piece), dots]
      rfl
    next =>
      cases read
      exact String.toList_ofList
  exact ⟨text ▸ slashless, text ▸ read⟩

end Component

namespace FilePath

open Component

/-! ## The components of a path -/

theorem slashless_of_mem_splitOn {text piece : List Char} (member : piece ∈ text.splitOn '/') :
    '/' ∉ piece := by
  induction text generalizing piece with
  | nil => simp_all
  | cons c text ih =>
    rw [List.splitOn_cons_eq_if_modifyHead] at member
    split at member
    next slash =>
      rcases List.mem_cons.mp member with rfl | member
      · simp
      · exact ih member
    next other =>
      cases pieces : text.splitOn '/' with
      | nil => exact absurd pieces (List.splitOn_ne_nil _ _)
      | cons first rest =>
        rw [pieces] at member ih
        rcases List.mem_cons.mp member with rfl | member
        · have : '/' ∉ first := ih List.mem_cons_self
          grind
        · exact ih (List.mem_cons_of_mem _ member)

theorem plain_of_mem_pieces {text : List Char} {component : Component}
    (member : component ∈ (text.splitOn '/').filterMap ofPiece?) : Plain component := by
  obtain ⟨piece, within, read⟩ := List.mem_filterMap.mp member
  exact plain_of_piece (slashless_of_mem_splitOn within) read

theorem components_eq (path : FilePath) :
    ∃ start rest, path.components = start ++ rest ∧ start ∈ [[], [root], [here]] ∧
      ∀ component ∈ rest, Plain component := by
  unfold components
  split
  next => exact ⟨[], [], by simp⟩
  next rest _ =>
    exact ⟨[root], (rest.splitOn '/').filterMap ofPiece?, rfl, by simp,
      fun _ => plain_of_mem_pieces⟩
  next =>
    dsimp only
    split
    next =>
      exact ⟨[here], (path.text.toList.splitOn '/').filterMap ofPiece?, rfl, by simp,
        fun _ => plain_of_mem_pieces⟩
    next =>
      exact ⟨[], (path.text.toList.splitOn '/').filterMap ofPiece?, rfl, by simp,
        fun _ => plain_of_mem_pieces⟩

theorem pieces_intercalate {components : List Component} (some_ : components ≠ [])
    (plain : ∀ component ∈ components, Plain component) :
    ("/".intercalate (components.map Component.text)).toList.splitOn '/' =
      components.map fun component => component.text.toList := by
  rw [String.toList_intercalate, List.map_map]
  apply List.splitOn_intercalate
  · intro piece member
    obtain ⟨component, within, rfl⟩ := List.mem_map.mp member
    exact (plain component within).1
  · simpa using some_

theorem filterMap_plain {components : List Component}
    (plain : ∀ component ∈ components, Plain component) :
    (components.map fun component => component.text.toList).filterMap ofPiece? = components := by
  rw [List.filterMap_map]
  conv => rhs; rw [← List.filterMap_some (l := components)]
  exact List.filterMap_congr fun component member => (plain component member).2

theorem components_of_root {text : List Char} {path : FilePath}
    (read : path.text.toList = '/' :: text) :
    path.components = root :: (text.splitOn '/').filterMap ofPiece? := by
  unfold components
  split
  next empty => simp_all
  next => simp_all
  next other => exact absurd read (other text)

theorem components_of_pieces (path : FilePath) {first : List Char} {pieces : List (List Char)}
    (split_ : path.text.toList.splitOn '/' = first :: pieces) (some_ : first ≠ [])
    (dotless : first ≠ ['.']) :
    path.components = (first :: pieces).filterMap ofPiece? := by
  unfold components
  split
  next empty => simp_all
  next rest slash =>
    rw [slash, List.splitOn_cons_eq_if_modifyHead] at split_
    simp_all
  next => simp [split_, dotless]

theorem ofComponents_plain {first : Component} (plain : Plain first) (more : List Component) :
    ofComponents (first :: more) = ⟨"/".intercalate ((first :: more).map Component.text)⟩ := by
  cases first with
  | root => exact absurd rfl plain.ne_root
  | here | up | name => rfl

theorem components_ofComponents {start rest : List Component} (start_ : start ∈ [[], [root]])
    (plain : ∀ component ∈ rest, Plain component) :
    (ofComponents (start ++ rest)).components = start ++ rest := by
  have fromStart : start = [] ∨ start = [root] := by simpa using start_
  cases rest with
  | nil => rcases fromStart with rfl | rfl <;> rfl
  | cons first more =>
    have pieces := pieces_intercalate (List.cons_ne_nil first more) plain
    have read := filterMap_plain plain
    have leading := plain first List.mem_cons_self
    rcases fromStart with rfl | rfl
    · have written : (ofComponents (first :: more)).text.toList.splitOn '/' =
          (first :: more).map fun component => component.text.toList := by
        rw [ofComponents_plain leading, pieces]
      exact (components_of_pieces _ written leading.text_ne_nil leading.text_ne_dot).trans read
    · have written : (ofComponents ([root] ++ first :: more)).text.toList =
          '/' :: ("/".intercalate ((first :: more).map Component.text)).toList := by
        simp [ofComponents]
      rw [components_of_root written, pieces, read]
      rfl

/-! ## Folding dots -/

def lexicalStep (visited : List Component) : Component → List Component
  | .here => visited
  | .up =>
    match visited with
    | .name _ :: below => below
    | .root :: below => .root :: below
    | visited => .up :: visited
  | component => component :: visited

def lexical (components : List Component) : List Component :=
  (components.foldl lexicalStep []).reverse

structure Way where
  climbs : Nat := 0
  names : List String := []

namespace Way

def step (way : Way) : Component → Way
  | .up =>
    match way.names with
    | [] => { way with climbs := way.climbs + 1 }
    | _ :: below => { way with names := below }
  | .name text => { way with names := text :: way.names }
  | _ => way

def of (components : List Component) : Way :=
  components.foldl step {}

def stack (way : Way) (start : List Component) (kept : Nat) : List Component :=
  way.names.map .name ++ List.replicate kept .up ++ start

theorem reverse_stack (way : Way) (start : List Component) (kept : Nat) :
    (way.stack start kept).reverse =
      start.reverse ++ (List.replicate kept .up ++ way.names.reverse.map .name) := by
  simp [stack]

theorem walk_stack {way : Way} {start : List Component} {component : Component}
    (start_ : start = [] ∨ start = [root]) (inner : component ≠ root) :
    walk (way.stack start (way.climbs % 2)) component =
      (way.step component).stack start ((way.step component).climbs % 2) := by
  cases component with
  | root => exact absurd rfl inner
  | here => rfl
  | name text => rfl
  | up =>
    cases names : way.names with
    | cons nearest below => simp [stack, step, walk, names]
    | nil =>
      -- With no name left the step is put on the start, or takes off the one put there before.
      rcases Nat.mod_two_eq_zero_or_one way.climbs with even | odd
      · have next : (way.climbs + 1) % 2 = 1 := by omega
        rcases start_ with rfl | rfl <;> simp [stack, step, walk, names, even, next]
      · have next : (way.climbs + 1) % 2 = 0 := by omega
        simp [stack, step, walk, names, odd, next]

theorem lexicalStep_relative {way : Way} {component : Component} (inner : component ≠ root) :
    lexicalStep (way.stack [] way.climbs) component =
      (way.step component).stack [] (way.step component).climbs := by
  cases component with
  | root => exact absurd rfl inner
  | here => rfl
  | name text => rfl
  | up =>
    cases names : way.names with
    | cons nearest below => simp [stack, step, lexicalStep, names]
    | nil =>
      cases climbs : way.climbs with
      | zero => simp [stack, step, lexicalStep, names, climbs]
      | succ => simp [stack, step, lexicalStep, names, climbs, List.replicate_succ]

theorem lexicalStep_absolute {way : Way} {component : Component} (inner : component ≠ root) :
    lexicalStep (way.stack [root] 0) component = (way.step component).stack [root] 0 := by
  cases component with
  | root => exact absurd rfl inner
  | here => rfl
  | name text => rfl
  | up => cases names : way.names <;> simp [stack, step, lexicalStep, names]

variable {components : List Component}

theorem foldl_walk {start : List Component} (start_ : start = [] ∨ start = [root])
    (inner : root ∉ components) (way : Way) :
    components.foldl walk (way.stack start (way.climbs % 2)) =
      (components.foldl step way).stack start ((components.foldl step way).climbs % 2) := by
  induction components generalizing way with
  | nil => rfl
  | cons component rest ih =>
    have ⟨first, later⟩ : component ≠ root ∧ root ∉ rest := by grind
    simp only [List.foldl_cons, walk_stack start_ first, ih later]

theorem foldl_lexicalStep_relative (inner : root ∉ components) (way : Way) :
    components.foldl lexicalStep (way.stack [] way.climbs) =
      (components.foldl step way).stack [] (components.foldl step way).climbs := by
  induction components generalizing way with
  | nil => rfl
  | cons component rest ih =>
    have ⟨first, later⟩ : component ≠ root ∧ root ∉ rest := by grind
    simp only [List.foldl_cons, lexicalStep_relative first, ih later]

theorem foldl_lexicalStep_absolute (inner : root ∉ components) (way : Way) :
    components.foldl lexicalStep (way.stack [root] 0) =
      (components.foldl step way).stack [root] 0 := by
  induction components generalizing way with
  | nil => rfl
  | cons component rest ih =>
    have ⟨first, later⟩ : component ≠ root ∧ root ∉ rest := by grind
    simp only [List.foldl_cons, lexicalStep_absolute first, ih later]

theorem names_foldl {text : String} {way : Way}
    (member : text ∈ (components.foldl step way).names) :
    text ∈ way.names ∨ .name text ∈ components := by
  induction components generalizing way with
  | nil => exact .inl member
  | cons component rest ih =>
    rcases ih member with earlier | later
    · cases component with
      | root | here => exact .inl earlier
      | name => rcases List.mem_cons.mp earlier with rfl | earlier <;> simp_all
      | up =>
        rw [step] at earlier
        split at earlier <;> simp_all
    · exact .inr (List.mem_cons_of_mem _ later)

end Way

def Absolute (components : List Component) : Prop :=
  components.head? = some root

instance (components : List Component) : Decidable (Absolute components) :=
  inferInstanceAs (Decidable (_ = _))

def folded (components : List Component) (kept : Nat) : List Component :=
  (if Absolute components then [root] else []) ++
    (List.replicate kept up ++ (Way.of components).names.reverse.map .name)

variable {components : List Component}

theorem rootless_of_relative (inner : root ∉ components.tail) (relative : ¬Absolute components) :
    root ∉ components := by
  cases components with
  | nil => simp
  | cons first rest =>
    intro within
    rcases List.mem_cons.mp within with rfl | within
    · exact relative rfl
    · exact inner within

/-- The fold keeps one step up of an odd number that leave no name, and none of an even number. -/
theorem fold_eq (inner : root ∉ components.tail) :
    fold components = ofComponents (folded components ((Way.of components).climbs % 2)) := by
  unfold fold folded
  congr 1
  by_cases absolute : Absolute components
  · obtain ⟨rest, rfl⟩ : ∃ rest, components = root :: rest := List.head?_eq_some_iff.mp absolute
    rw [if_pos absolute]
    exact (congrArg _ (Way.foldl_walk (.inr rfl) inner {})).trans (Way.reverse_stack ..)
  · have rootless := rootless_of_relative inner absolute
    rw [if_neg absolute]
    exact (congrArg _ (Way.foldl_walk (.inl rfl) rootless {})).trans (Way.reverse_stack ..)

/-- A stack keeps every step up that leaves no name of a relative path, and none of an absolute
one. -/
theorem lexical_eq (inner : root ∉ components.tail) :
    lexical components =
      folded components (if Absolute components then 0 else (Way.of components).climbs) := by
  unfold lexical folded
  by_cases absolute : Absolute components
  · obtain ⟨rest, rfl⟩ : ∃ rest, components = root :: rest := List.head?_eq_some_iff.mp absolute
    rw [if_pos absolute, if_pos absolute]
    exact (congrArg _ (Way.foldl_lexicalStep_absolute inner {})).trans (Way.reverse_stack ..)
  · have rootless := rootless_of_relative inner absolute
    rw [if_neg absolute, if_neg absolute]
    exact (congrArg _ (Way.foldl_lexicalStep_relative rootless {})).trans (Way.reverse_stack ..)

theorem folded_inj {kept kept' : Nat} :
    folded components kept = folded components kept' ↔ kept = kept' := by
  unfold folded
  rw [List.append_cancel_left_eq, List.append_left_inj]
  exact ⟨fun same => by simpa using congrArg List.length same, fun same => same ▸ rfl⟩

structure Passable (components : List Component) : Prop where
  inner : root ∉ components.tail
  plain : ∀ component ∈ components, component = root ∨ component = here ∨ Plain component

theorem passable_components (path : FilePath) : Passable path.components := by
  obtain ⟨start, rest, components, start_, plain⟩ := components_eq path
  have rootless : root ∉ rest := fun within => (plain root within).ne_root rfl
  rw [components]
  rcases (by simpa using start_ : start = [] ∨ start = [root] ∨ start = [here]) with
    rfl | rfl | rfl
  · exact ⟨fun within => rootless (List.mem_of_mem_tail within),
      fun component member => .inr (.inr (plain component member))⟩
  · exact ⟨rootless, by simp; grind⟩
  · exact ⟨rootless, by simp; grind⟩

theorem components_folded (passable : Passable components) (kept : Nat) :
    (ofComponents (folded components kept)).components = folded components kept := by
  apply components_ofComponents
  · split <;> simp
  · intro component member
    rcases List.mem_append.mp member with climbs | left
    · rw [List.eq_of_mem_replicate climbs]
      exact plain_up
    · obtain ⟨text, among, rfl⟩ := List.mem_map.mp left
      have within : name text ∈ components := by
        simpa using Way.names_foldl (List.mem_reverse.mp among)
      simpa using passable.plain _ within

/-- The path that a fold makes of a way. -/
structure Folds (components : List Component) (path : FilePath) : Prop where
  path_eq : path = ofComponents (folded components ((Way.of components).climbs % 2))
  /-- It reads as it was made. -/
  components_eq : path.components = folded components ((Way.of components).climbs % 2)
  lexical_eq : lexical components =
    folded components (if Absolute components then 0 else (Way.of components).climbs)
  agrees_iff : path.components = lexical components ↔
    if Absolute components then (Way.of components).climbs % 2 = 0
    else (Way.of components).climbs ≤ 1

theorem folds (passable : Passable components) : Folds components (fold components) where
  path_eq := fold_eq passable.inner
  components_eq := by rw [fold_eq passable.inner, components_folded passable]
  lexical_eq := lexical_eq passable.inner
  agrees_iff := by
    rw [fold_eq passable.inner, components_folded passable, lexical_eq passable.inner, folded_inj]
    split
    next => rfl
    next => omega

/-! ## From a file to a module -/

def route (importer : FilePath) (specifier : String) : List Component :=
  let target := FilePath.components ⟨specifier⟩
  if Absolute target then target else importer.directory ++ target

theorem relative_eq (importer : FilePath) (specifier : String) :
    importer.relative specifier = fold (importer.route specifier) := by
  unfold relative route
  exact (apply_ite fold _ _ _).symm

theorem directory_prefix (path : FilePath) : path.directory <+: path.components := by
  unfold directory
  split
  next => exact List.nil_prefix
  next => exact List.nil_prefix
  next => exact List.dropLast_prefix _

theorem passable_route (importer : FilePath) (specifier : String) :
    Passable (importer.route specifier) := by
  have target := passable_components ⟨specifier⟩
  have whole := passable_components importer
  unfold route
  dsimp only
  split
  next => exact target
  next relative =>
    have rootless := rootless_of_relative target.inner relative
    obtain ⟨rest, split_⟩ := importer.directory_prefix
    rw [← split_] at whole
    constructor
    · have inner := whole.inner
      cases directory : importer.directory with
      | nil => exact fun within => rootless (List.mem_of_mem_tail within)
      | cons first above =>
        rw [directory] at inner
        simp only [List.cons_append, List.tail_cons, List.mem_append, not_or] at inner ⊢
        exact ⟨inner.1, rootless⟩
    · intro component member
      rcases List.mem_append.mp member with above | below
      · exact whole.plain component (List.mem_append_left _ above)
      · exact target.plain component below

namespace Way

theorem foldl_names (texts : List String) (way : Way) :
    (texts.map Component.name).foldl step way = { way with names := texts.reverse ++ way.names } := by
  induction texts generalizing way with
  | nil => rfl
  | cons text rest ih =>
    rw [List.map_cons, List.foldl_cons, ih]
    simp [step]

theorem foldl_up (count : Nat) (way : Way) :
    (List.replicate count up).foldl step way =
      ⟨way.climbs + (count - way.names.length), way.names.drop count⟩ := by
  induction count generalizing way with
  | zero => simp
  | succ count ih =>
    rw [List.replicate_succ, List.foldl_cons, ih, step]
    cases names : way.names with
    | nil => simp; omega
    | cons nearest below => simp

theorem foldl_lead {lead : List Component} (lead_ : lead ∈ [[], [here]]) (way : Way) :
    lead.foldl step way = way := by
  rcases (by simpa using lead_ : lead = [] ∨ lead = [here]) with rfl | rfl <;> rfl

theorem of_climbing {lead lead' : List Component} (lead_ : lead ∈ [[], [here]])
    (lead'_ : lead' ∈ [[], [here]]) (directories names : List String) (extra : Nat) :
    of (lead ++ directories.map .name ++
        (lead' ++ (List.replicate (directories.length + extra) up ++ names.map .name))) =
      ⟨extra, names.reverse⟩ := by
  simp [of, foldl_lead lead_, foldl_lead lead'_, foldl_names, foldl_up]

end Way

theorem relative_of_rootless (rootless : root ∉ components) : ¬Absolute components :=
  fun absolute => rootless (List.mem_of_mem_head? absolute)

theorem folded_climbing {importer : FilePath} {specifier : String} {lead lead' : List Component}
    (lead_ : lead ∈ [[], [here]]) (lead'_ : lead' ∈ [[], [here]])
    {directories names : List String} {extra : Nat}
    (directory : importer.directory = lead ++ directories.map .name)
    (target : FilePath.components ⟨specifier⟩ =
      lead' ++ (List.replicate (directories.length + extra) up ++ names.map .name)) :
    (importer.relative specifier).components =
        List.replicate (extra % 2) up ++ names.map .name ∧
      lexical (importer.route specifier) = List.replicate extra up ++ names.map .name := by
  have leadless : root ∉ lead ∧ root ∉ lead' := by
    constructor <;> rintro within <;> simp_all <;> grind
  have relative : ¬Absolute (FilePath.components ⟨specifier⟩) := by
    apply relative_of_rootless
    rw [target]
    simp [leadless.2]
  have route_eq : importer.route specifier = lead ++ directories.map .name ++
      (lead' ++ (List.replicate (directories.length + extra) up ++ names.map .name)) := by
    rw [route, if_neg relative, directory, target]
  have whole : ¬Absolute (importer.route specifier) := by
    apply relative_of_rootless
    rw [route_eq]
    simp [leadless]
  have way : Way.of (importer.route specifier) = ⟨extra, names.reverse⟩ := by
    rw [route_eq, Way.of_climbing lead_ lead'_]
  have folds := folds (passable_route importer specifier)
  rw [relative_eq, folds.components_eq, folds.lexical_eq, folded, folded, way]
  simp [whole]

theorem moduleFile_probes (files : FileTable) (importer : FilePath) (specifier : String)
    (extensions : List String) :
    let base := importer.relative specifier
    (files.contains base →
      Declaration.moduleFile files importer specifier extensions = .ok base) ∧
    ((∀ probe ∈ base :: extensions.map base.withSuffix, files.contains probe = false) →
      Declaration.moduleFile files importer specifier extensions = .error (.fileNotFound base)) := by
  intro base
  constructor
  · intro there
    simp [Declaration.moduleFile, base, there]
  · intro nowhere
    have none_ : (base :: extensions.map base.withSuffix).find? files.contains = none :=
      List.find?_eq_none.mpr fun probe member => by simp [nowhere probe member]
    simp only [Declaration.moduleFile, base, none_]

/-! ## The fold and the stack -/

/-- Every path and every specifier is folded to what a stack makes of it but for the steps up that
leave no name: of these the fold keeps one when they are odd in number and none when they are even.
A module is then looked for at the place the fold gives. -/
theorem normalize_folds (path importer : FilePath) (specifier : String) :
    Folds path.components path.normalize ∧
      Folds (importer.route specifier) (importer.relative specifier) ∧
      (∀ lead ∈ [[], [here]], ∀ lead' ∈ [[], [here]],
        ∀ (directories names : List String) (extra : Nat),
        importer.directory = lead ++ directories.map .name →
        FilePath.components ⟨specifier⟩ =
          lead' ++ (List.replicate (directories.length + extra) up ++ names.map .name) →
        (importer.relative specifier).components =
            List.replicate (extra % 2) up ++ names.map .name ∧
          lexical (importer.route specifier) = List.replicate extra up ++ names.map .name) ∧
      ∀ (files : FileTable) (extensions : List String),
        let base := importer.relative specifier
        (files.contains base →
          Declaration.moduleFile files importer specifier extensions = .ok base) ∧
        ((∀ probe ∈ base :: extensions.map base.withSuffix, files.contains probe = false) →
          Declaration.moduleFile files importer specifier extensions =
            .error (.fileNotFound base)) := by
  refine ⟨folds (passable_components path), ?_, ?_, ?_⟩
  · rw [relative_eq]
    exact folds (passable_route importer specifier)
  · intro lead lead_ lead' lead'_ directories names extra directory target
    exact folded_climbing lead_ lead'_ directory target
  · exact fun files extensions => moduleFile_probes files importer specifier extensions

/-- One step more than the directory has names is kept, and the module is found there. -/
theorem normalize_folds_above :
    (FilePath.relative ⟨"a/b.ts"⟩ "../../x").components = [.up, .name "x"] ∧
    Declaration.moduleFile (.ofList [(⟨"../x"⟩, .text "")]) ⟨"a/b.ts"⟩ "../../x" [] =
      .ok (FilePath.relative ⟨"a/b.ts"⟩ "../../x") ∧
    Declaration.moduleFile {} ⟨"a/b.ts"⟩ "../../x" [] =
      .error (.fileNotFound (FilePath.relative ⟨"a/b.ts"⟩ "../../x")) := by
  have ⟨_, _, climbing, probes⟩ := normalize_folds ⟨"../../x"⟩ ⟨"a/b.ts"⟩ "../../x"
  refine ⟨?_, ?_, ?_⟩
  · exact (climbing [] (by simp) [] (by simp) ["a"] ["x"] 1 (by decide +kernel)
      (by decide +kernel)).1
  · exact (probes (.ofList [(⟨"../x"⟩, .text "")]) []).1 (by decide +kernel)
  · exact (probes {} []).2 (by decide +kernel)

/-- Two steps up that leave no name take each other off, on a relative path; on an absolute one a
single step is kept. -/
theorem normalize_ne_lexical :
    (normalize ⟨"../../a"⟩ = ⟨"a"⟩ ∧
      lexical (FilePath.components ⟨"../../a"⟩) = [.up, .up, .name "a"]) ∧
    (normalize ⟨"/../a"⟩ = ⟨"/../a"⟩ ∧
      lexical (FilePath.components ⟨"/../a"⟩) = [.root, .name "a"]) ∧
    (FilePath.relative ⟨"a/b.ts"⟩ "../../../x" = ⟨"x"⟩ ∧
      lexical (route ⟨"a/b.ts"⟩ "../../../x") = [.up, .up, .name "x"]) := by
  decide +kernel

end FilePath

end Conform
