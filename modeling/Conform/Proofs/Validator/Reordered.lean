import Conform.Proofs.Validator.Relaxed
import Conform.Proofs.Validator.Tolerance
import Mathlib.Data.List.Perm.Basic

/-!
Orders that make no difference. The keys of an object may stand in any order, and so may the fields of a
record, both at any depth: the first failure is another one then, but the value passes or fails as before.
-/

namespace Conform

section Permuted

variable {α β α' β' : Type} {rel : α → β → Prop} {rel' : α' → β' → Prop} {items rest : List α}
  {others rest' : List β}

def Permuted (rel : α → β → Prop) (items : List α) (others : List β) : Prop :=
  ∃ middle, items.Perm middle ∧ List.Forall₂ rel middle others

namespace Permuted

theorem of_forall₂ (related : List.Forall₂ rel items others) : Permuted rel items others :=
  ⟨items, .refl _, related⟩

theorem imp {weaker : α → β → Prop} (permuted : Permuted rel items others)
    (holds : ∀ item other, rel item other → weaker item other) : Permuted weaker items others := by
  obtain ⟨middle, order, related⟩ := permuted
  exact ⟨middle, order, related.imp holds⟩

theorem exists_right (permuted : Permuted rel items others) {item : α} (member : item ∈ items) :
    ∃ other ∈ others, rel item other := by
  obtain ⟨middle, order, related⟩ := permuted
  exact exists_of_forall₂ related (order.mem_iff.mp member)

theorem exists_left (permuted : Permuted rel items others) {other : β} (member : other ∈ others) :
    ∃ item ∈ items, rel item other := by
  obtain ⟨middle, order, related⟩ := permuted
  obtain ⟨item, among, holds⟩ := exists_of_forall₂ related.flip member
  exact ⟨item, order.mem_iff.mpr among, holds⟩

theorem append (first : Permuted rel items others) (second : Permuted rel rest rest') :
    Permuted rel (items ++ rest) (others ++ rest') := by
  obtain ⟨middle, order, related⟩ := first
  obtain ⟨middle', order', related'⟩ := second
  exact ⟨middle ++ middle', order.append order', List.rel_append related related'⟩

theorem map {make : α → α'} {make' : β → β'} (permuted : Permuted rel items others)
    (holds : ∀ item other, rel item other → rel' (make item) (make' other)) :
    Permuted rel' (items.map make) (others.map make') := by
  obtain ⟨middle, order, related⟩ := permuted
  refine ⟨middle.map make, order.map make, ?_⟩
  rw [List.forall₂_map_left_iff, List.forall₂_map_right_iff]
  exact related.imp holds

theorem filter {kept : α → Bool} {kept' : β → Bool} (permuted : Permuted rel items others)
    (same : ∀ item other, rel item other → kept item = kept' other) :
    Permuted rel (items.filter kept) (others.filter kept') := by
  obtain ⟨middle, order, related⟩ := permuted
  refine ⟨middle.filter kept, order.filter kept, List.rel_filter ?_ related⟩
  intro item other holds
  exact Bool.eq_iff_iff.mp (same item other holds)

theorem flatMap {make : α → List α'} {make' : β → List β'} (related : List.Forall₂ rel items others)
    (each : ∀ item other, rel item other → Permuted rel' (make item) (make' other)) :
    Permuted rel' (items.flatMap make) (others.flatMap make') := by
  induction related with
  | nil => exact ⟨[], .refl _, .nil⟩
  | cons holds _ ih =>
      rw [List.flatMap_cons, List.flatMap_cons]
      exact (each _ _ holds).append ih

end Permuted

end Permuted

namespace Comparison

def bothWays (compare : Comparison) : Comparison where
  rel first second := compare.rel first second ∧ compare.rel second first
  same outcome := ⟨compare.same outcome, compare.same outcome⟩
  under code field related :=
    ⟨compare.under code field related.1, compare.under code field related.2⟩
  andThen earlier later :=
    ⟨compare.andThen earlier.1 later.1, compare.andThen earlier.2 later.2⟩
  orElse earlier later := ⟨compare.orElse earlier.1 later.1, compare.orElse earlier.2 later.2⟩

def agreeing : Comparison :=
  passing.bothWays

theorem passing_firstFailure {α β : Type} {check : α → Option Outcome} {check' : β → Option Outcome}
    {items : List α} {others : List β}
    (covered : ∀ other ∈ others, ∃ item ∈ items, passing.rel (check item) (check' other)) :
    passing.rel (Conform.firstFailure check items) (Conform.firstFailure check' others) := by
  intro outcome outcome' found found' success
  rcases firstFailure_eq_some found' with rfl | ⟨other, member', judged'⟩
  · rfl
  · obtain ⟨item, member, related⟩ := covered other member'
    have all : succeeds (Conform.firstFailure check items) := by rwa [found]
    rw [succeeds_firstFailure, List.all_eq_true] at all
    obtain ⟨known, judged, success⟩ := (Option.any_eq_true _ _).mp (all item member)
    exact related known outcome' judged judged' success

theorem agreeing_firstFailure {α β : Type} {check : α → Option Outcome} {check' : β → Option Outcome}
    {items : List α} {others : List β}
    (permuted : Permuted (fun item other => agreeing.rel (check item) (check' other)) items others) :
    agreeing.rel (Conform.firstFailure check items) (Conform.firstFailure check' others) := by
  constructor
  · apply passing_firstFailure
    intro other member
    obtain ⟨item, among, forth, _⟩ := permuted.exists_left member
    exact ⟨item, among, forth⟩
  · apply passing_firstFailure
    intro item member
    obtain ⟨other, among, _, back⟩ := permuted.exists_right member
    exact ⟨other, among, back⟩

end Comparison

namespace Json

/-- The values differ in the order of keys at most. An object that is reordered has each key once. -/
inductive Reordered : Json → Json → Prop where
  | same (value : Json) : Reordered value value
  | array {items items' : List Json} (each : List.Forall₂ Reordered items items') :
      Reordered (.array items) (.array items')
  | object {entries middle entries' : List (String × Json)} (distinct : (entries.map (·.1)).Nodup)
      (order : entries.Perm middle) (keys : middle.map (·.1) = entries'.map (·.1))
      (values : List.Forall₂ Reordered (middle.map (·.2)) (entries'.map (·.2))) :
      Reordered (.object entries) (.object entries')

def SameKey (entry entry' : String × Json) : Prop :=
  entry.1 = entry'.1 ∧ Reordered entry.2 entry'.2

theorem lookup_of_mem {entries : List (String × Json)} (distinct : (entries.map (·.1)).Nodup)
    {key : String} {item : Json} (member : (key, item) ∈ entries) : lookup key entries = some item := by
  induction entries with
  | nil => cases member
  | cons first rest ih =>
      rw [List.map_cons, List.nodup_cons] at distinct
      rcases List.mem_cons.mp member with rfl | later
      · simp [lookup]
      · have differs : first.1 ≠ key := by
          rintro rfl
          exact distinct.1 (List.mem_map.mpr ⟨_, later, rfl⟩)
        rw [← ih distinct.2 later]
        simp [lookup, differs]

theorem lookup_of_perm {entries entries' : List (String × Json)}
    (distinct : (entries.map (·.1)).Nodup) (order : entries.Perm entries') (key : String) :
    lookup key entries = lookup key entries' := by
  have distinct' : (entries'.map (·.1)).Nodup := (order.map _).nodup_iff.mp distinct
  apply Option.ext
  intro item
  constructor
  · intro found
    exact lookup_of_mem distinct' (order.mem_iff.mp (mem_of_lookup found))
  · intro found
    exact lookup_of_mem distinct (order.mem_iff.mpr (mem_of_lookup found))

theorem lookup_of_forall₂ {entries entries' : List (String × Json)}
    (related : List.Forall₂ SameKey entries entries') (key : String) :
    Option.Rel Reordered (lookup key entries) (lookup key entries') := by
  induction related with
  | nil => exact .none
  | @cons entry entry' _ _ same _ ih =>
      obtain ⟨name, reordered⟩ := same
      by_cases here : entry.1 = key
      · have here' : entry'.1 = key := name ▸ here
        simp only [lookup, List.find?_cons, here, here', beq_self_eq_true, Option.map_some]
        exact .some reordered
      · have away : (entry.1 == key) = false := beq_false_of_ne here
        have away' : (entry'.1 == key) = false := name ▸ away
        simpa only [lookup, List.find?_cons, away, away'] using ih

structure Matching (entries entries' : List (String × Json)) : Prop where
  order : Permuted SameKey entries entries'
  values : ∀ key, Option.Rel Reordered (lookup key entries) (lookup key entries')

namespace Reordered

variable {value' : Json}

theorem array_left {items : List Json} (reordered : Reordered (.array items) value') :
    ∃ items', value' = .array items' ∧ List.Forall₂ Reordered items items' := by
  cases reordered with
  | same => exact ⟨items, rfl, List.forall₂_same.mpr fun item _ => .same item⟩
  | array each => exact ⟨_, rfl, each⟩

theorem object_left {entries : List (String × Json)} (reordered : Reordered (.object entries) value') :
    ∃ entries', value' = .object entries' ∧ Matching entries entries' := by
  cases reordered with
  | same =>
      have related : List.Forall₂ SameKey entries entries :=
        List.forall₂_same.mpr fun entry _ => ⟨rfl, .same entry.2⟩
      exact ⟨entries, rfl, .of_forall₂ related, lookup_of_forall₂ related⟩
  | @object _ middle entries' distinct order keys values =>
      rw [← List.forall₂_eq_eq_eq, List.forall₂_map_left_iff, List.forall₂_map_right_iff] at keys
      rw [List.forall₂_map_left_iff, List.forall₂_map_right_iff] at values
      have related : List.Forall₂ SameKey middle entries' :=
        List.Forall₂.mp (fun _ _ name reordered => ⟨name, reordered⟩) keys values
      refine ⟨entries', rfl, ⟨middle, order, related⟩, fun key => ?_⟩
      rw [lookup_of_perm distinct order]
      exact lookup_of_forall₂ related key

end Reordered

end Json

structure Level.Shuffled (rel : Validator → Validator → Prop) (level level' : Level Validator) :
    Prop where
  fields : Permuted (Field.Alike rel) level.fields level'.fields
  index : Option.Rel rel level.index level'.index

namespace Validator

inductive Outside (rel : Validator → Validator → Prop) : Validator → Validator → Prop where
  | primitive (kind : Primitive) : Outside rel (.primitive kind) (.primitive kind)
  | array (node node' : NodeId) {element element' : Validator} (elements : rel element element') :
      Outside rel (.array node element) (.array node' element')
  | group (node node' : NodeId) (connective : Connective) {operands operands' : List Validator}
      (related : List.Forall₂ rel operands operands') :
      Outside rel (.group node connective operands) (.group node' connective operands')
  | record {own own' : Level Validator} {ancestors ancestors' : List (Level Validator)}
      (levels : List.Forall₂ (Level.Shuffled rel) (own :: ancestors) (own' :: ancestors')) :
      Outside rel (.record own ancestors) (.record own' ancestors')
  | deferred (name : String) (cell : CellId) : Outside rel (.deferred name cell) (.deferred name cell)

/-- The validators differ in the order of fields at most, in their records and the ancestors of those. -/
inductive Shuffled : Validator → Validator → Prop where
  | same (validator : Validator) : Shuffled validator validator
  | inside {rel : Validator → Validator → Prop} {validator validator' : Validator}
      (parts : ∀ part part', rel part part' → Shuffled part part')
      (outside : Outside rel validator validator') : Shuffled validator validator'

variable {rel : Validator → Validator → Prop} {references references' : References} {scope : Scope}
  {below below' : Judgement} {levels levels' : List (Level Validator)} {operands operands' : List Validator}
  {validator validator' : Validator} {value value' : Option Json} {entries entries' : List (String × Json)}

theorem Outside.imp {weaker : Validator → Validator → Prop} (outside : Outside rel validator validator')
    (holds : ∀ part part', rel part part' → weaker part part') : Outside weaker validator validator' := by
  cases outside with
  | primitive kind => exact .primitive kind
  | array node node' elements => exact .array node node' (holds _ _ elements)
  | group node node' connective related => exact .group node node' connective (related.imp holds)
  | record levels =>
      refine .record (levels.imp fun level level' shuffled => ⟨?_, ?_⟩)
      · exact shuffled.fields.imp fun field field' alike =>
          ⟨alike.name, alike.required, alike.strict, holds _ _ alike.type⟩
      · have index := shuffled.index
        generalize level.index = found, level'.index = found' at index
        cases index with
        | none => exact .none
        | some related => exact .some (holds _ _ related)
  | deferred name cell => exact .deferred name cell

theorem Outside.refl (holds : ∀ part, rel part part) (validator : Validator) :
    Outside rel validator validator := by
  cases validator with
  | primitive kind => exact .primitive kind
  | array node element => exact .array node node (holds element)
  | group node connective operands =>
      exact .group node node connective (List.forall₂_same.mpr fun operand _ => holds operand)
  | record own ancestors =>
      refine .record (List.forall₂_same.mpr fun level _ => ⟨.of_forall₂ ?_, ?_⟩)
      · exact List.forall₂_same.mpr fun field _ => ⟨rfl, rfl, rfl, holds field.type⟩
      · cases level.index with
        | none => exact .none
        | some index => exact .some (holds index)
  | deferred name cell => exact .deferred name cell

theorem Shuffled.outside (shuffled : Shuffled validator validator') :
    Outside Shuffled validator validator' := by
  cases shuffled with
  | same => exact .refl .same validator
  | inside parts outside => exact outside.imp parts

theorem declares_shuffled (shuffled : List.Forall₂ (Level.Shuffled rel) levels levels') (key : String) :
    declares levels' key = declares levels key := by
  induction shuffled with
  | nil => rfl
  | @cons level level' _ _ first _ ih =>
      have here : (level'.fields.any fun field => field.name == key) =
          level.fields.any fun field => field.name == key := by
        rw [Bool.eq_iff_iff, List.any_eq_true, List.any_eq_true]
        constructor
        · rintro ⟨field', member, named⟩
          obtain ⟨field, among, alike⟩ := first.fields.exists_left member
          exact ⟨field, among, alike.name ▸ named⟩
        · rintro ⟨field, member, named⟩
          obtain ⟨field', among, alike⟩ := first.fields.exists_right member
          exact ⟨field', among, alike.name ▸ named⟩
      unfold declares at ih ⊢
      rw [List.any_cons, List.any_cons, here, ih]

theorem mem_groupNames_congr {name : String} (same : List.Forall₂
      (fun operand operand' => name ∈ offeredNames operand' ↔ name ∈ offeredNames operand)
      operands operands') :
    name ∈ groupNames operands' ↔ name ∈ groupNames operands := by
  induction same with
  | nil => rfl
  | cons first _ ih => simp only [groupNames, List.mem_eraseDups, List.mem_append, first, ih]

theorem Shuffled.mem_offeredNames (shuffled : Shuffled validator validator') (name : String) :
    name ∈ offeredNames validator' ↔ name ∈ offeredNames validator := by
  induction shuffled with
  | same => rfl
  | inside _ outside ih =>
      cases outside with
      | group node node' connective related =>
          exact mem_groupNames_congr (related.imp fun operand operand' => ih operand operand')
      | record levels =>
          unfold offeredNames
          rw [← List.contains_iff_mem, ← List.contains_iff_mem, contains_levelNames, contains_levelNames,
            declares_shuffled levels]
      | _ => rfl

theorem contains_groupNames_shuffled (shuffled : List.Forall₂ Shuffled operands operands')
    (key : String) : Scope.contains (groupNames operands' :: scope) key =
      Scope.contains (groupNames operands :: scope) key := by
  have names := mem_groupNames_congr (shuffled.imp fun _ _ related => related.mem_offeredNames key)
  rw [contains_cons, contains_cons, Bool.eq_iff_iff]
  simp only [List.contains_eq_mem, Bool.or_eq_true, decide_eq_true_eq, names]

theorem isEnum_shuffled (connective : Connective) (shuffled : List.Forall₂ Shuffled operands operands') :
    isEnum connective operands' = isEnum connective operands := by
  apply isEnum_eq connective shuffled
  induction shuffled with
  | nil => rfl
  | cons first _ ih =>
      rw [List.all_cons, List.all_cons, ih]
      congr 1
      cases first.outside <;> rfl

inductive Check.Matches (rel : Validator → Validator → Prop) : Check → Check → Prop where
  | ofField {field field' : Field Validator} (alike : Field.Alike rel field field') :
      Matches rel (.ofField field) (.ofField field')
  | ofKey {index index' : Option Validator} (key : String) {item item' : Json}
      (related : Option.Rel rel index index') (reordered : Json.Reordered item item') :
      Matches rel (.ofKey index key item) (.ofKey index' key item')

theorem recordChecks_shuffled (shuffled : List.Forall₂ (Level.Shuffled rel) levels levels')
    (order : Permuted Json.SameKey entries entries') :
    Permuted (Check.Matches rel) (recordChecks scope entries levels)
      (recordChecks scope entries' levels') := by
  have names : declares levels' = declares levels := funext (declares_shuffled shuffled)
  unfold recordChecks
  rw [names]
  refine .flatMap (List.rel_reverse shuffled) fun level level' related => .append ?_ ?_
  · exact related.fields.map fun _ _ alike => .ofField alike
  · refine Permuted.map (order.filter ?_) ?_
    · rintro ⟨key, item⟩ ⟨_, item'⟩ ⟨rfl, _⟩
      rfl
    · rintro ⟨key, item⟩ ⟨_, item'⟩ ⟨rfl, reordered⟩
      exact .ofKey key related.index reordered

def InnerAgree (rel : Validator → Validator → Prop) (below below' : Judgement) : Prop :=
  ∀ {part part' item item'}, rel part part' → Json.Reordered item item' →
    Comparison.agreeing.rel (below [] part (some item)) (below' [] part' (some item'))

theorem judgeField_agree {field field' : Field Validator} {item item' : Json}
    (alike : Field.Alike rel field field') (reordered : Json.Reordered item item')
    (inner : InnerAgree rel below below') :
    Comparison.agreeing.rel (judgeField below field (some item))
      (judgeField below' field' (some item')) := by
  have type := inner alike.type reordered
  by_cases present : item = .null
  · subst present
    cases reordered
    unfold judgeField
    rw [alike.required, alike.strict]
    cases field.required
    · cases field.strict
      · exact Comparison.agreeing.same _
      · exact type
    · exact type
  · have present' : item' ≠ .null := by
      rintro rfl
      cases reordered
      exact present rfl
    rwa [judgeField_eq_below fun null => present null.2.1,
      judgeField_eq_below fun null => present' null.2.1]

theorem Check.Matches.run {check check' : Check} (pair : Check.Matches rel check check')
    (matching : Json.Matching entries entries') (inner : InnerAgree rel below below') :
    Comparison.agreeing.rel (check.run below entries) (check'.run below' entries') := by
  cases pair with
  | @ofField field field' alike =>
      simp only [Check.run, Check.place, Check.verdict, alike.name, alike.required]
      apply Comparison.agreeing.under
      have found := matching.values field.name
      generalize Json.lookup field.name entries = item, Json.lookup field.name entries' = item' at found
      cases found with
      | none => cases field.required <;> exact Comparison.agreeing.same _
      | some reordered => exact judgeField_agree alike reordered inner
  | ofKey key related reordered =>
      apply Comparison.agreeing.under
      cases related with
      | none => exact Comparison.agreeing.same _
      | some parts => exact inner parts reordered

theorem judgeLevels_agree {own own' : Level Validator} {ancestors ancestors' : List (Level Validator)}
    (shuffled : List.Forall₂ (Level.Shuffled rel) (own :: ancestors) (own' :: ancestors'))
    (matching : Json.Matching entries entries') (inner : InnerAgree rel below below') :
    Comparison.agreeing.rel (judgeLevels below scope own ancestors entries)
      (judgeLevels below' scope own' ancestors' entries') := by
  rw [judgeLevels_eq_firstFailure fun _ => rfl, judgeLevels_eq_firstFailure fun _ => rfl]
  apply Comparison.agreeing_firstFailure
  exact (recordChecks_shuffled shuffled matching.order).imp fun _ _ pair => pair.run matching inner

theorem judgeElements_agree {items items' : List Json} {element element' : Validator}
    (related : rel element element') (each : List.Forall₂ Json.Reordered items items')
    (inner : InnerAgree rel below below') :
    Comparison.agreeing.rel
      (firstFailure (fun (item, position) =>
        (below [] element (some item)).map (Outcome.at .arrayNotMatch (toString position))) items.zipIdx)
      (firstFailure (fun (item, position) =>
        (below' [] element' (some item)).map (Outcome.at .arrayNotMatch (toString position)))
        items'.zipIdx) := by
  refine Comparison.agreeing.firstFailure ((forall₂_zipIdx 0 each).imp ?_)
  rintro ⟨item, position⟩ ⟨item', _⟩ ⟨reordered, rfl⟩
  exact Comparison.agreeing.under _ _ (inner related reordered)

theorem judge_primitive_agree (kind : Primitive) (reordered : Option.Rel Json.Reordered value value') :
    Comparison.agreeing.rel (some (kind.judge value)) (some (kind.judge value')) := by
  have same : kind.judge value' = kind.judge value := by
    cases reordered with
    | none => rfl
    | some reordered => cases reordered <;> cases kind <;> rfl
  rw [same]
  exact Comparison.agreeing.same _

theorem isString_reordered (reordered : Option.Rel Json.Reordered value value') :
    isString value' = isString value := by
  cases reordered with
  | none => rfl
  | some reordered => cases reordered <;> rfl

/-- By induction on the bound: as deep as the first judgement goes, the second goes too, and where both
end they agree. -/
theorem validateWithin_reordered
    (targets : ∀ cell, Option.Rel Shuffled (references.target? cell) (references'.target? cell))
    (bound : Nat) (shuffled : Shuffled validator validator')
    (reordered : Option.Rel Json.Reordered value value') :
    Comparison.agreeing.rel (validateWithin references bound scope validator value)
      (validateWithin references' bound scope validator' value') := by
  induction bound generalizing scope validator validator' value value' with
  | zero => constructor <;> rintro _ _ ⟨⟩
  | succ bound ih =>
      have inner : InnerAgree Shuffled (validateWithin references bound)
          (validateWithin references' bound) :=
        fun shuffled reordered => ih shuffled (.some reordered)
      simp only [validateWithin]
      cases shuffled.outside with
      | primitive kind => exact judge_primitive_agree kind reordered
      | array node node' related =>
          cases reordered with
          | none => exact Comparison.agreeing.same _
          | @some item item' reordered =>
              cases item with
              | array items =>
                  obtain ⟨items', rfl, each⟩ := reordered.array_left
                  exact judgeElements_agree related each inner
              | _ => cases reordered <;> exact Comparison.agreeing.same _
      | group node node' connective related =>
          simp only [judge, isEnum_shuffled connective related, isString_reordered reordered]
          split
          · exact Comparison.agreeing.same _
          · refine judgeGroup_compare Comparison.agreeing connective ?_ ?_
            · refine related.imp fun operand operand' shuffled => ?_
              rw [validateWithin_of_same (contains_groupNames_shuffled related)]
              exact ih shuffled reordered
            · simp only [rejection, isEnum_shuffled _ related]
              exact Comparison.agreeing.same _
      | record levels =>
          cases reordered with
          | none => exact Comparison.agreeing.same _
          | @some item item' reordered =>
              cases item with
              | object entries =>
                  obtain ⟨entries', rfl, matching⟩ := reordered.object_left
                  exact judgeLevels_agree levels matching inner
              | _ => cases reordered <;> exact Comparison.agreeing.same _
      | deferred name cell =>
          have filled := targets cell
          simp only [judge]
          generalize references.target? cell = target, references'.target? cell = target' at filled
          cases filled with
          | none => exact Comparison.agreeing.same _
          | some shuffled => exact ih shuffled reordered

theorem Verdict.reordered {passes passes' : Bool}
    (targets : ∀ cell, Option.Rel Shuffled (references.target? cell) (references'.target? cell))
    (shuffled : Shuffled validator validator') (reordered : Option.Rel Json.Reordered value value')
    (verdict : Verdict references scope validator value passes)
    (verdict' : Verdict references' scope validator' value' passes') : passes' = passes := by
  obtain ⟨bound, outcome, found, rfl⟩ := verdict
  obtain ⟨bound', outcome', found', rfl⟩ := verdict'
  have known := validateWithin_of_le found (Nat.le_max_left bound bound') fun _ => rfl
  have known' := validateWithin_of_le found' (Nat.le_max_right bound bound') fun _ => rfl
  obtain ⟨forth, back⟩ : Comparison.agreeing.rel _ _ :=
    validateWithin_reordered targets (max bound bound') shuffled reordered
  rw [Bool.eq_iff_iff]
  constructor
  · exact back outcome' outcome known' known
  · exact forth outcome outcome' known known'

/-- Whether a value passes depends neither on the order of keys, in the value and in all that is inside it,
nor on the order in which the records of the validator, and of what its references stand for, have their
fields. Where the second validator is guarded, its judgement ends too. -/
theorem verdict_reordered {passes : Bool}
    (targets : ∀ cell, Option.Rel Shuffled (references.target? cell) (references'.target? cell))
    (shuffled : Shuffled validator validator') (reordered : Option.Rel Json.Reordered value value')
    (verdict : Verdict references scope validator value passes) :
    (∀ passes', Verdict references' scope validator' value' passes' → passes' = passes) ∧
      (Guarded references' validator' → Verdict references' scope validator' value' passes) := by
  have same (passes' : Bool) (verdict' : Verdict references' scope validator' value' passes') :
      passes' = passes := verdict.reordered targets shuffled reordered verdict'
  refine ⟨same, fun guarded => ?_⟩
  obtain ⟨passes', verdict'⟩ := guarded.exists_verdict
  obtain rfl := same passes' verdict'
  exact verdict'

def person (node : NodeId) (fields : List (Field Validator)) : Validator :=
  .record ⟨node, some "Person", fields, none⟩ []

def called : Field Validator :=
  ⟨"name", true, false, .primitive .string⟩

def children : Field Validator :=
  ⟨"children", false, true, .array 1 (.deferred "Person" 0)⟩

def people (person : Validator) : References :=
  [⟨⟨"Person", ⟨"/person.ts"⟩⟩, some person⟩]

/-- The first failure is at the name in the one order, and at the age of the child in the other. -/
theorem verdict_reordered_person :
    let first := person 0 [called, children]
    let second := person 2 [children, called]
    let child := Json.object [("name", .string "Ann"), ("age", .null)]
    let child' := Json.object [("age", .null), ("name", .string "Ann")]
    let value := Json.object [("name", .null), ("children", .array [child])]
    let value' := Json.object [("children", .array [child']), ("name", .null)]
    (∀ cell, Option.Rel Shuffled ((people first).target? cell) ((people second).target? cell)) ∧
      Shuffled first second ∧ Option.Rel Json.Reordered (some value) (some value') ∧
      Verdict (people first) [] first (some value) false ∧
      Verdict (people second) [] second (some value') false := by
  intro first second child child' value value'
  have shuffled : Shuffled first second := by
    refine .inside (fun _ _ same => same) (.record (.cons ⟨⟨_, .swap _ _ [], ?_⟩, .none⟩ .nil))
    exact .cons ⟨rfl, rfl, rfl, .same _⟩ (.cons ⟨rfl, rfl, rfl, .same _⟩ .nil)
  have targets (cell : CellId) :
      Option.Rel Shuffled ((people first).target? cell) ((people second).target? cell) := by
    cases cell with
    | zero => exact .some shuffled
    | succ cell => exact .none
  have children : Json.Reordered (.array [child]) (.array [child']) :=
    .array (.cons (.object (by decide) (.swap _ _ []) rfl (.cons (.same _) (.cons (.same _) .nil))) .nil)
  have reordered : Option.Rel Json.Reordered (some value) (some value') :=
    .some (.object (by decide) (.swap _ _ []) rfl (.cons children (.cons (.same _) .nil)))
  have verdict : Verdict (people first) [] first (some value) false :=
    ⟨9, .within .interfaceNotMatch "name" (.leaf .notString), by decide +kernel, rfl⟩
  obtain ⟨_, ended⟩ := verdict_reordered targets shuffled reordered verdict
  exact ⟨targets, shuffled, reordered, verdict, ended (guarded_of_one rfl second)⟩

end Validator

end Conform
