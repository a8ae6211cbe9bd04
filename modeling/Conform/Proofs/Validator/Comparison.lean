import Conform.Validator.Validate
import Mathlib.Data.List.Forall2

/-!
Comparing judgements. Validators that look alike get comparable outcomes when their parts do, in
every way to compare outcomes that sequencing respects.
-/

namespace Conform

def andThen (first second : Option Outcome) : Option Outcome :=
  first.bind fun outcome => if outcome.isSuccess then second else some outcome

def orElse (first second : Option Outcome) : Option Outcome :=
  first.bind fun outcome => if outcome.isSuccess then some .success else second

theorem firstFailure_cons {α : Type} (check : α → Option Outcome) (item : α) (rest : List α) :
    firstFailure check (item :: rest) = andThen (check item) (firstFailure check rest) := rfl

theorem firstFailure_eq_some {α : Type} {check : α → Option Outcome} {items : List α}
    {outcome : Outcome} (found : firstFailure check items = some outcome) :
    outcome = .success ∨ ∃ item ∈ items, check item = some outcome := by
  induction items with
  | nil =>
      cases found
      exact .inl rfl
  | cons first rest ih =>
      obtain ⟨known, checked, found⟩ := Option.bind_eq_some_iff.mp found
      split at found
      · rcases ih found with success | ⟨item, member, same⟩
        · exact .inl success
        · exact .inr ⟨item, by simp [member], same⟩
      · cases found
        exact .inr ⟨first, by simp, checked⟩

theorem andThen_eq_some {first second : Option Outcome} {outcome : Outcome}
    (found : andThen first second = some outcome) :
    first = some outcome ∨ second = some outcome := by
  obtain ⟨known, judged, found⟩ := Option.bind_eq_some_iff.mp found
  split at found
  · exact .inr found
  · exact .inl (judged.trans found)

def unionOutcome (last : Outcome) (accepted : Option Bool) : Option Outcome :=
  accepted.map fun accepted => if accepted then .success else last

theorem unionOutcome_cons {α : Type} (last : Outcome) (check : α → Option Outcome) (item : α)
    (rest : List α) :
    unionOutcome last (anySuccess check (item :: rest)) =
      orElse (check item) (unionOutcome last (anySuccess check rest)) := by
  simp only [anySuccess, unionOutcome, orElse, Option.bind_eq_bind, Option.map_bind]
  congr 1
  funext outcome
  by_cases success : outcome.isSuccess
  · simp [success]
  · simp [success]

theorem exists_of_forall₂ {α β : Type} {rel : α → β → Prop} {items : List α} {others : List β}
    (related : List.Forall₂ rel items others) {item : α} (member : item ∈ items) :
    ∃ other ∈ others, rel item other := by
  induction related with
  | nil => simp at member
  | cons first _ ih =>
      rcases List.mem_cons.mp member with rfl | later
      · exact ⟨_, List.mem_cons_self, first⟩
      · obtain ⟨other, among, known⟩ := ih later
        exact ⟨other, List.mem_cons_of_mem _ among, known⟩

/-- A way to compare two results either of which may be missing. -/
structure Comparison where
  rel : Option Outcome → Option Outcome → Prop
  same : ∀ outcome, rel (some outcome) (some outcome)
  under : ∀ {first second} (code : Code) (field : String), rel first second →
    rel (first.map (Outcome.at code field)) (second.map (Outcome.at code field))
  andThen : ∀ {first first' second second'}, rel first first' → rel second second' →
    rel (andThen first second) (andThen first' second')
  orElse : ∀ {first first' second second'}, rel first first' → rel second second' →
    rel (orElse first second) (orElse first' second')

namespace Comparison

def equal : Comparison where
  rel first second := first = second
  same _ := rfl
  under _ _ same := by rw [same]
  andThen same same' := by rw [same, same']
  orElse same same' := by rw [same, same']

def onward : Comparison where
  rel first second := first = none ∨ second = first
  same _ := .inr rfl
  under := by
    rintro first second code field (rfl | rfl)
    · exact .inl rfl
    · exact .inr rfl
  andThen := by
    intro first first' second second' earlier later
    rcases earlier with rfl | rfl
    · exact .inl rfl
    · rcases first' with _ | outcome
      · exact .inl rfl
      · by_cases success : outcome.isSuccess
        · simpa [Conform.andThen, success] using later
        · simp [Conform.andThen, success]
  orElse := by
    intro first first' second second' earlier later
    rcases earlier with rfl | rfl
    · exact .inl rfl
    · rcases first' with _ | outcome
      · exact .inl rfl
      · by_cases success : outcome.isSuccess
        · simp [Conform.orElse, success]
        · simpa [Conform.orElse, success] using later

variable (compare : Comparison)

theorem firstFailure {α α' : Type} {check : α → Option Outcome} {check' : α' → Option Outcome}
    {items : List α} {items' : List α'}
    (related : List.Forall₂ (fun item item' => compare.rel (check item) (check' item')) items items') :
    compare.rel (Conform.firstFailure check items) (Conform.firstFailure check' items') := by
  induction related with
  | nil => exact compare.same _
  | cons first _ ih =>
      rw [firstFailure_cons, firstFailure_cons]
      exact compare.andThen first ih

theorem unionOutcome {α α' : Type} {check : α → Option Outcome} {check' : α' → Option Outcome}
    {items : List α} {items' : List α'} {last last' : Outcome}
    (lasts : compare.rel (some last) (some last'))
    (related : List.Forall₂ (fun item item' => compare.rel (check item) (check' item')) items items') :
    compare.rel (Conform.unionOutcome last (anySuccess check items))
      (Conform.unionOutcome last' (anySuccess check' items')) := by
  induction related with
  | nil => exact lasts
  | cons first _ ih =>
      rw [unionOutcome_cons, unionOutcome_cons]
      exact compare.orElse first ih

structure Widens (scope scope' : Scope) : Prop where
  kept : ∀ key, scope.contains key → scope'.contains key
  skipped : ∀ key, scope'.contains key → ¬scope.contains key →
    ∀ result, compare.rel result (some .success)

theorem Widens.of_same {scope scope' : Scope}
    (same : ∀ key, scope.contains key = scope'.contains key) : compare.Widens scope scope' where
  kept key tolerated := by rwa [← same]
  skipped key tolerated untolerated := by
    rw [same] at untolerated
    exact absurd tolerated untolerated

variable {compare}

theorem Widens.push {scope scope' : Scope} (widens : compare.Widens scope scope')
    (names : List String) : compare.Widens (names :: scope) (names :: scope') where
  kept key tolerated := by
    simp only [Scope.contains, List.any_cons, Bool.or_eq_true] at tolerated ⊢
    exact tolerated.imp id (widens.kept key)
  skipped key tolerated untolerated := by
    simp only [Scope.contains, List.any_cons, Bool.or_eq_true, not_or] at tolerated untolerated
    exact widens.skipped key (tolerated.resolve_left untolerated.1) untolerated.2

end Comparison

inductive Json.Holds : Option Json → Json → Prop where
  | item {items : List Json} {item : Json} (member : item ∈ items) : Holds (some (.array items)) item
  | entry {entries : List (String × Json)} {key : String} {item : Json}
      (member : (key, item) ∈ entries) : Holds (some (.object entries)) item

theorem Json.mem_of_lookup {α : Type} {key : String} {entries : List (String × α)} {item : α}
    (found : lookup key entries = some item) : (key, item) ∈ entries := by
  obtain ⟨entry, known, rfl⟩ := Option.map_eq_some_iff.mp found
  have same : entry.1 = key := by simpa using List.find?_some known
  rw [← same]
  exact List.mem_of_find?_eq_some known

structure Field.Alike (rel : Validator → Validator → Prop) (field field' : Field Validator) :
    Prop where
  name : field'.name = field.name
  required : field'.required = field.required
  strict : field'.strict = field.strict
  type : rel field.type field'.type

structure Level.Alike (rel : Validator → Validator → Prop) (level level' : Level Validator) :
    Prop where
  fields : List.Forall₂ (Field.Alike rel) level.fields level'.fields
  index : Option.Rel rel level.index level'.index

namespace Validator

inductive Alike (rel : Validator → Validator → Prop) : Validator → Validator → Prop where
  | primitive (kind : Primitive) : Alike rel (.primitive kind) (.primitive kind)
  | array (node node' : NodeId) {element element' : Validator} (elements : rel element element') :
      Alike rel (.array node element) (.array node' element')
  | group (node node' : NodeId) (connective : Connective) {operands operands' : List Validator}
      (related : List.Forall₂ rel operands operands')
      (names : groupNames operands' = groupNames operands)
      (literals : operands'.all isLiteral = operands.all isLiteral) :
      Alike rel (.group node connective operands) (.group node' connective operands')
  | record {own own' : Level Validator} {ancestors ancestors' : List (Level Validator)}
      (levels : List.Forall₂ (Level.Alike rel) (own :: ancestors) (own' :: ancestors')) :
      Alike rel (.record own ancestors) (.record own' ancestors')

variable {rel : Validator → Validator → Prop}

theorem Alike.imp {rel' : Validator → Validator → Prop} {validator validator' : Validator}
    (alike : Alike rel validator validator') (weaker : ∀ part part', rel part part' → rel' part part') :
    Alike rel' validator validator' := by
  cases alike with
  | primitive kind => exact .primitive kind
  | array node node' elements => exact .array node node' (weaker _ _ elements)
  | group node node' connective related names literals =>
      exact .group node node' connective (related.imp weaker) names literals
  | record levels =>
      refine .record (levels.imp fun level level' alike => ⟨?_, ?_⟩)
      · exact alike.fields.imp fun field field' related =>
          ⟨related.name, related.required, related.strict, weaker _ _ related.type⟩
      · have index := alike.index
        generalize level.index = found, level'.index = found' at index
        cases index with
        | none => exact .none
        | some related => exact .some (weaker _ _ related)

theorem levelNames_eq {levels levels' : List (Level Validator)}
    (alike : List.Forall₂ (Level.Alike rel) levels levels') :
    levelNames levels' = levelNames levels := by
  have names : ∀ {fields fields' : List (Field Validator)},
      List.Forall₂ (Field.Alike rel) fields fields' →
        fields'.map (·.name) = fields.map (·.name) := by
    intro fields fields' related
    induction related with
    | nil => rfl
    | cons first _ ih => simp only [List.map_cons, first.name, ih]
  unfold levelNames
  congr 1
  induction alike with
  | nil => rfl
  | cons first _ ih => simp only [List.flatMap_cons, names first.fields, ih]

theorem forall₂_zipIdx {α : Type} {related : α → α → Prop} {items items' : List α} (start : Nat)
    (alike : List.Forall₂ related items items') :
    List.Forall₂ (fun item item' => related item.1 item'.1 ∧ item'.2 = item.2)
      (items.zipIdx start) (items'.zipIdx start) := by
  induction alike generalizing start with
  | nil => exact .nil
  | cons first _ ih => exact .cons ⟨first, rfl⟩ (ih (start + 1))

theorem isEnum_eq (connective : Connective) {operands operands' : List Validator}
    (related : List.Forall₂ rel operands operands')
    (literals : operands'.all isLiteral = operands.all isLiteral) :
    isEnum connective operands' = isEnum connective operands := by
  have empty : operands'.isEmpty = operands.isEmpty := by cases related <;> rfl
  simp only [isEnum, literals, empty]

def rejection (connective : Connective) (operands : List Validator) : Outcome :=
  if isEnum connective operands then .leaf .invalidStrLiteral else .leaf .logicFalse

theorem judgeGroup_or (below : Judgement) (scope : Scope) (operands : List Validator)
    (value : Option Json) :
    judgeGroup below scope .or operands value =
      unionOutcome (rejection .or operands)
        (anySuccess (fun operand => below (groupNames operands :: scope) operand value) operands) := by
  simp only [judgeGroup, unionOutcome, rejection, Option.map_eq_bind]
  rfl

theorem judgeField_eq_below {below : Judgement} {field : Field Validator} {item : Json}
    (seen : ¬(field.required = false ∧ item = .null ∧ field.strict = false)) :
    judgeField below field (some item) = below [] field.type (some item) := by
  unfold judgeField
  split
  · contradiction
  next optional null =>
    cases strict : field.strict with
    | true => rfl
    | false => exact absurd ⟨optional, Option.some.inj null, strict⟩ seen
  · rfl

def judgeDeclared (below : Judgement) (entries : List (String × Json)) (field : Field Validator) :
    Option Outcome :=
  let value := Json.lookup field.name entries
  let outcome := if value.isNone && field.required then some (.leaf .nullOnRequired)
    else judgeField below field value
  outcome.map (Outcome.at .interfaceNotMatch field.name)

def judgeUndeclared (below : Judgement) (level : Level Validator) (item : Json) : Option Outcome :=
  match level.index with
  | some index => below [] index (some item)
  | none => some (.leaf .fieldNotAllowed)

def judgeKey (below : Judgement) (tolerated : Scope) (level : Level Validator) :
    String × Json → Option Outcome
  | (key, item) =>
    if tolerated.contains key then some .success
    else (judgeUndeclared below level item).map (Outcome.at .interfaceNotMatch key)

theorem judgeLevel_eq (below : Judgement) (tolerated : Scope) (level : Level Validator)
    (entries : List (String × Json)) :
    judgeLevel below tolerated level entries =
      andThen (firstFailure (judgeDeclared below entries) level.fields)
        (firstFailure (judgeKey below tolerated level) entries) := by
  simp only [judgeLevel, andThen, Option.bind_eq_bind]
  congr 1
  funext outcome
  by_cases success : outcome.isSuccess
  · simp only [success, Bool.not_true, Bool.false_eq_true, if_false, if_true]
    rfl
  · simp only [success, Bool.not_false, Bool.false_eq_true, if_false, if_true]
    rfl

def InnerCompare (compare : Comparison) (rel : Validator → Validator → Prop)
    (below below' : Judgement) (value : Option Json) : Prop :=
  ∀ {part part' item}, rel part part' → Json.Holds value item →
    compare.rel (below [] part (some item)) (below' [] part' (some item))

section Judge

variable {compare : Comparison} {below below' : Judgement} {scope scope' : Scope}
  {value : Option Json}

theorem judgeField_compare (inner : InnerCompare compare rel below below' value)
    {field field' : Field Validator} (alike : Field.Alike rel field field') {item : Json}
    (holds : Json.Holds value item) :
    compare.rel (judgeField below field (some item)) (judgeField below' field' (some item)) := by
  have type := inner alike.type holds
  unfold judgeField
  rw [alike.required, alike.strict]
  split
  · exact compare.same _
  · split
    · exact type
    · exact compare.same _
  · exact type

theorem judgeLevel_compare {entries : List (String × Json)}
    (inner : InnerCompare compare rel below below' (some (.object entries)))
    {tolerated tolerated' : Scope} (widens : compare.Widens tolerated tolerated')
    {level level' : Level Validator} (alike : Level.Alike rel level level') :
    compare.rel (judgeLevel below tolerated level entries)
      (judgeLevel below' tolerated' level' entries) := by
  rw [judgeLevel_eq, judgeLevel_eq]
  refine compare.andThen (compare.firstFailure ?_) (compare.firstFailure ?_)
  · refine alike.fields.imp fun field field' related => ?_
    simp only [judgeDeclared, related.name, related.required]
    apply compare.under
    cases found : Json.lookup field.name entries with
    | none =>
        cases required : field.required with
        | false => simpa [judgeField, required, related.required] using compare.same .success
        | true => exact compare.same _
    | some item => exact judgeField_compare inner related (.entry (Json.mem_of_lookup found))
  · refine List.forall₂_same.mpr fun ⟨key, item⟩ member => ?_
    have undeclared : compare.rel (judgeUndeclared below level item)
        (judgeUndeclared below' level' item) := by
      have index := alike.index
      unfold judgeUndeclared
      generalize level.index = found, level'.index = found' at index
      cases index with
      | none => exact compare.same _
      | some related => exact inner related (.entry member)
    by_cases kept : tolerated.contains key
    · simp only [judgeKey, kept, widens.kept key kept, if_true]
      exact compare.same _
    · by_cases skipped : tolerated'.contains key
      · simp only [judgeKey, skipped, if_true]
        exact widens.skipped key skipped kept _
      · simp only [judgeKey, kept, skipped, Bool.false_eq_true, if_false]
        exact compare.under _ _ undeclared

variable (compare) in
theorem judgeLevels_compare {entries : List (String × Json)}
    (inner : InnerCompare compare rel below below' (some (.object entries)))
    {outer outer' : Scope} {own own' : Level Validator} {ancestors ancestors' : List (Level Validator)}
    (alike : List.Forall₂ (Level.Alike rel) (own :: ancestors) (own' :: ancestors'))
    (widens : compare.Widens (levelNames (own :: ancestors) :: outer)
      (levelNames (own :: ancestors) :: outer')) :
    compare.rel (judgeLevels below outer own ancestors entries)
      (judgeLevels below' outer' own' ancestors' entries) := by
  induction ancestors generalizing ancestors' outer outer' own own' with
  | nil =>
      rcases List.forall₂_cons.mp alike with ⟨first, none⟩
      cases none
      simp only [judgeLevels, levelNames_eq alike]
      exact judgeLevel_compare inner widens first
  | cons parent further ih =>
      rcases List.forall₂_cons.mp alike with ⟨first, rest⟩
      cases rest with
      | cons parents others =>
          simp only [judgeLevels, levelNames_eq alike]
          exact compare.andThen (ih (.cons parents others) (widens.push _))
            (judgeLevel_compare inner widens first)

variable (compare) in
theorem judgeGroup_compare (connective : Connective) {operands operands' : List Validator}
    {value' : Option Json}
    (operand : List.Forall₂ (fun part part' =>
      compare.rel (below (groupNames operands :: scope) part value)
        (below' (groupNames operands' :: scope') part' value')) operands operands')
    (rejections : compare.rel (some (rejection .or operands)) (some (rejection .or operands'))) :
    compare.rel (judgeGroup below scope connective operands value)
      (judgeGroup below' scope' connective operands' value') := by
  cases connective with
  | and =>
      simp only [judgeGroup]
      refine compare.firstFailure ((forall₂_zipIdx 0 operand).imp ?_)
      rintro ⟨operand, position⟩ ⟨operand', _⟩ ⟨related, rfl⟩
      exact compare.under _ _ related
  | or =>
      rw [judgeGroup_or, judgeGroup_or]
      exact compare.unionOutcome rejections operand

variable (compare) in
/-- Validators that are no references are judged by their parts. -/
theorem judge_compare (references references' : References) {validator validator' : Validator}
    (alike : Alike rel validator validator') (widens : compare.Widens scope scope')
    (operand : ∀ {node connective operands}, validator = .group node connective operands →
      ∀ {part part'}, rel part part' →
        compare.rel (below (groupNames operands :: scope) part value)
          (below' (groupNames operands :: scope') part' value))
    (inner : InnerCompare compare rel below below' value) :
    compare.rel (judge references below scope validator value)
      (judge references' below' scope' validator' value) := by
  cases alike with
  | primitive kind => exact compare.same _
  | array node node' elements =>
      simp only [judge]
      split
      · refine compare.firstFailure (List.forall₂_same.mpr fun ⟨item, position⟩ member => ?_)
        have among : item ∈ _ := List.fst_mem_of_mem_zipIdx member
        exact compare.under _ _ (inner elements (.item among))
      · exact compare.same _
  | group node node' connective related names literals =>
      have enum := fun connective => isEnum_eq connective related literals
      simp only [judge, enum]
      split
      · exact compare.same _
      · refine judgeGroup_compare compare connective ?_ ?_
        · rw [names]
          exact related.imp fun part part' => operand rfl
        · simp only [rejection, enum]
          exact compare.same _
  | record levels =>
      simp only [judge]
      split
      · exact judgeLevels_compare compare inner levels (widens.push _)
      · exact compare.same _

end Judge

end Validator

end Conform
