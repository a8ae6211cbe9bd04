import Conform.Proofs.Validator.Inheritance
import Conform.Proofs.Validator.Scopes
import Conform.Resolver.Basic

/-!
Copies of records that require no field of their own. The copy checks what the record checks, in the same
order, and passes over its own fields where the object has nothing for them; what the ancestors of the
record declare it requires as before.
-/

namespace Conform

def succeeds (result : Option Outcome) : Bool :=
  result.any (·.isSuccess)

@[simp] theorem succeeds_success : succeeds (some .success) = true := rfl

theorem succeeds_andThen (first second : Option Outcome) :
    succeeds (andThen first second) = (succeeds first && succeeds second) := by
  rcases first with _ | outcome
  · rfl
  · cases success : outcome.isSuccess <;> simp [succeeds, andThen, success]

theorem succeeds_firstFailure {α : Type} (check : α → Option Outcome) (items : List α) :
    succeeds (firstFailure check items) = items.all fun item => succeeds (check item) := by
  induction items with
  | nil => rfl
  | cons item rest ih => rw [firstFailure_cons, succeeds_andThen, ih, List.all_cons]

namespace Json

variable {removed : String → Bool} {key : String} {entries : List (String × Json)}

def without (removed : String → Bool) (entries : List (String × Json)) : List (String × Json) :=
  entries.filter fun entry => !removed entry.1

theorem lookup_without_kept (kept : removed key = false) :
    lookup key (without removed entries) = lookup key entries := by
  unfold lookup without
  rw [List.find?_filter]
  congr 2
  funext entry
  by_cases same : entry.1 = key
  · simp [same, kept]
  · simp [same]

theorem lookup_without_removed (gone : removed key) : lookup key (without removed entries) = none := by
  unfold lookup without
  rw [List.find?_filter, Option.map_eq_none_iff, List.find?_eq_none]
  intro entry _
  by_cases same : entry.1 = key
  · simp [same, gone]
  · simp [same]

end Json

namespace Validator

variable {references : References} {scope : Scope} {below : Judgement} {own : Level Validator}
  {ancestors levels : List (Level Validator)} {node : NodeId} {entries : List (String × Json)}
  {check : Check}

theorem succeeds_run : succeeds (check.run below entries) = succeeds (check.verdict below entries) := by
  unfold Check.run succeeds
  rw [Option.any_map]
  congr 1
  funext outcome
  exact (Outcome.isSuccess_at _ _ outcome).trans (Bool.or_false _)

theorem verdict_record : Verdict references scope (.record own ancestors) (some (.object entries)) true ↔
    ∃ bound, ∀ check ∈ recordChecks scope entries (own :: ancestors),
      succeeds (check.verdict (validateWithin references bound) entries) := by
  have judged (bound : Nat) : succeeds (validateWithin references (bound + 1) scope
      (.record own ancestors) (some (.object entries))) =
        (recordChecks scope entries (own :: ancestors)).all fun check =>
          succeeds (check.verdict (validateWithin references bound) entries) := by
    simp only [validateWithin, judge]
    rw [judgeLevels_eq_firstFailure fun _ => rfl, succeeds_firstFailure, recordChecks]
    simp only [succeeds_run]
  have verdict_iff : Verdict references scope (.record own ancestors) (some (.object entries)) true ↔
      ∃ bound, succeeds (validateWithin references bound scope (.record own ancestors)
        (some (.object entries))) := by
    simp [Verdict, succeeds, Option.any_eq_true]
  rw [verdict_iff]
  constructor
  · rintro ⟨_ | bound, success⟩
    · cases success
    · rw [judged, List.all_eq_true] at success
      exact ⟨bound, success⟩
  · rintro ⟨bound, success⟩
    refine ⟨bound + 1, ?_⟩
    rw [judged, List.all_eq_true]
    exact success

def freed (field : Field Validator) : Field Validator :=
  { field with required := false }

theorem declares_relaxed (key : String) :
    declares (own.relaxed node :: ancestors) key = declares (own :: ancestors) key := by
  simp [declares, Level.relaxed, Function.comp_def]

def Freed (own : Level Validator) (check check' : Check) : Prop :=
  check' = check ∨ ∃ field ∈ own.fields, check = .ofField field ∧ check' = .ofField (freed field)

/-- The checks of the copy, next to those of the record. -/
theorem recordChecks_relaxed : List.Forall₂ (Freed own) (recordChecks scope entries (own :: ancestors))
    (recordChecks scope entries (own.relaxed node :: ancestors)) := by
  have names : declares (own.relaxed node :: ancestors) = declares (own :: ancestors) :=
    funext declares_relaxed
  have same (checks : List Check) : List.Forall₂ (Freed own) checks checks :=
    List.forall₂_same.mpr fun _ _ => .inl rfl
  have fields : List.Forall₂ (Freed own) (own.fields.map .ofField)
      ((own.relaxed node).fields.map .ofField) := by
    simp only [Level.relaxed, List.forall₂_map_left_iff, List.forall₂_map_right_iff]
    exact List.forall₂_same.mpr fun field member => .inr ⟨field, member, rfl, rfl⟩
  simp only [recordChecks, names, List.reverse_cons, List.flatMap_append, List.flatMap_singleton,
    levelChecks]
  exact List.rel_append (same _) (List.rel_append fields (same _))

theorem succeeds_freed {field : Field Validator}
    (success : succeeds (Check.verdict below entries (.ofField field))) :
    succeeds (Check.verdict below entries (.ofField (freed field))) := by
  unfold Check.verdict at success ⊢
  cases found : Json.lookup field.name entries with
  | none => simp [freed, found]
  | some item =>
      simp only [freed, found] at success ⊢
      by_cases spared : item = .null ∧ field.strict = false
      · obtain ⟨rfl, lax⟩ := spared
        simp [judgeField, lax]
      · have seen : judgeField below (freed field) (some item) = below [] field.type (some item) :=
          judgeField_eq_below fun null => spared null.2
        rw [judgeField_eq_below fun null => spared null.2] at success
        exact seen ▸ success

theorem verdict_freed {field : Field Validator} {item : Json}
    (found : Json.lookup field.name entries = some item) (present : item ≠ .null) :
    Check.verdict below entries (.ofField (freed field)) =
      Check.verdict below entries (.ofField field) := by
  simp only [Check.verdict, freed, found]
  rw [judgeField_eq_below fun null => present null.2.1, judgeField_eq_below fun null => present null.2.1]

theorem validateWithin_relaxed (bound : Nat)
    (present : ∀ field ∈ own.fields, ∃ item, Json.lookup field.name entries = some item ∧ item ≠ .null) :
    validateWithin references bound scope (.record (own.relaxed node) ancestors)
        (some (.object entries)) =
      validateWithin references bound scope (.record own ancestors) (some (.object entries)) := by
  cases bound with
  | zero => rfl
  | succ bound =>
      simp only [validateWithin, judge]
      rw [judgeLevels_eq_firstFailure fun _ => rfl, judgeLevels_eq_firstFailure fun _ => rfl]
      symm
      refine Comparison.equal.firstFailure (recordChecks_relaxed.imp fun check check' related => ?_)
      rcases related with rfl | ⟨field, member, rfl, rfl⟩
      · rfl
      · obtain ⟨item, found, present⟩ := present field member
        simp only [Comparison.equal, Check.run, verdict_freed found present]
        rfl

theorem Verdict.relaxed
    (verdict : Verdict references scope (.record own ancestors) (some (.object entries)) true) :
    Verdict references scope (.record (own.relaxed node) ancestors) (some (.object entries)) true := by
  obtain ⟨bound, success⟩ := verdict_record.mp verdict
  refine verdict_record.mpr ⟨bound, fun check' member' => ?_⟩
  obtain ⟨check, member, related⟩ := exists_of_forall₂ recordChecks_relaxed.flip member'
  rcases related with rfl | ⟨field, _, rfl, rfl⟩
  · exact success _ member
  · exact succeeds_freed (success _ member)

theorem required_relaxed {level : Level Validator} {field : Field Validator}
    (among : level ∈ own.relaxed node :: ancestors) (member : field ∈ level.fields)
    (undeclared : declares ancestors field.name = false) : field.required = false := by
  rcases List.mem_cons.mp among with rfl | inherited
  · obtain ⟨field, _, rfl⟩ := List.mem_map.mp member
    rfl
  · have declared := declares_of_mem inherited member
    rw [undeclared] at declared
    cases declared

theorem verdict_ofKey (index : Option Validator) (key : String) (item : Json)
    (entries' : List (String × Json)) :
    Check.verdict below entries (.ofKey index key item) =
      Check.verdict below entries' (.ofKey index key item) := by
  cases index <;> rfl

theorem Verdict.without {removed : String → Bool}
    (undeclared : ∀ key, removed key → declares ancestors key = false)
    (verdict : Verdict references scope (.record (own.relaxed node) ancestors)
      (some (.object entries)) true) :
    Verdict references scope (.record (own.relaxed node) ancestors)
      (some (.object (Json.without removed entries))) true := by
  obtain ⟨bound, success⟩ := verdict_record.mp verdict
  refine verdict_record.mpr ⟨bound, ?_⟩
  simp only [mem_recordChecks] at success ⊢
  rintro check ⟨level, among, ⟨field, member, rfl⟩ | ⟨key, item, member, unknown, rfl⟩⟩
  · have before := success _ ⟨level, among, .inl ⟨field, member, rfl⟩⟩
    by_cases gone : removed field.name
    · have free := required_relaxed among member (undeclared field.name gone)
      simp [Check.verdict, Json.lookup_without_removed gone, free]
    · rw [Bool.not_eq_true] at gone
      simpa only [Check.verdict, Json.lookup_without_kept gone] using before
  · rw [verdict_ofKey level.index key item entries]
    exact success _
      ⟨level, among, .inr ⟨key, item, (List.mem_filter.mp member).1, unknown, rfl⟩⟩

/-- The copy accepts what the record accepts, and goes on to accept it without any keys that no ancestor
declares; with values for all own fields of the record the two come to the same. The record and all that
is known of it stay as they are when the copy is made. -/
theorem relaxed_accepts (references : References) (scope : Scope) (own : Level Validator)
    (ancestors : List (Level Validator)) (node : NodeId) (entries : List (String × Json)) :
    let whole := Validator.record own ancestors
    let copy := Validator.record (own.relaxed node) ancestors
    (Verdict references scope whole (some (.object entries)) true →
      Verdict references scope copy (some (.object entries)) true) ∧
    (∀ removed : String → Bool, (∀ key, removed key → declares ancestors key = false) →
      Verdict references scope copy (some (.object entries)) true →
        Verdict references scope copy (some (.object (Json.without removed entries))) true) ∧
    ((∀ field ∈ own.fields, ∃ item, Json.lookup field.name entries = some item ∧ item ≠ .null) →
      ∀ bound, validateWithin references bound scope copy (some (.object entries)) =
        validateWithin references bound scope whole (some (.object entries))) ∧
    ∀ resolver : Resolver,
      let made := resolver.relaxed own ancestors
      made.1 = .record (own.relaxed resolver.nextId) ancestors ∧
        made.2.cached? = resolver.cached? ∧ made.2.references = resolver.references := by
  intro whole copy
  refine ⟨Verdict.relaxed, fun removed undeclared verdict => verdict.without undeclared, ?_, ?_⟩
  · intro present bound
    exact validateWithin_relaxed bound present
  · intro resolver
    exact ⟨rfl, rfl, rfl⟩

def annotated : Level Validator where
  node := 2
  name := some "Annotated"
  fields := [⟨"id", true, false, .primitive .any⟩, ⟨"notes", true, true, .array 3 (.primitive .string)⟩]
  index := some (.primitive .string)

def numbered : Level Validator where
  node := 1
  name := some "Numbered"
  fields := [⟨"id", true, false, .primitive .number⟩]
  index := some (.primitive .any)

def annotation : List (String × Json) :=
  [("id", .number (.integer 1)), ("more", .string "yes"), ("notes", .array [.string "new"])]

theorem relaxed_accepts_annotation :
    let removed (key : String) : Bool := key == "notes" || key == "more"
    let whole := Validator.record annotated [numbered]
    let copy := Validator.record (annotated.relaxed 4) [numbered]
    (∀ key, removed key → declares [numbered] key = false) ∧
      (∀ field ∈ annotated.fields, ∃ item, Json.lookup field.name annotation = some item ∧ item ≠ .null) ∧
      Verdict [] [] whole (some (.object annotation)) true ∧
      Verdict [] [] copy (some (.object annotation)) true ∧
      Verdict [] [] copy (some (.object (Json.without removed annotation))) true ∧
      validateWithin [] 3 [] copy (some (.object annotation)) =
        validateWithin [] 3 [] whole (some (.object annotation)) := by
  intro removed whole copy
  obtain ⟨accepts, removes, equal, _⟩ :=
    relaxed_accepts [] [] annotated [numbered] 4 annotation
  have undeclared : ∀ key, removed key → declares [numbered] key = false := by
    intro key gone
    rcases Bool.or_eq_true _ _ ▸ gone with same | same <;> rw [eq_of_beq same] <;> decide
  have present : ∀ field ∈ annotated.fields,
      ∃ item, Json.lookup field.name annotation = some item ∧ item ≠ .null := by
    simp [annotated, annotation, Json.lookup]
  have verdict : Verdict [] [] whole (some (.object annotation)) true :=
    ⟨3, .success, by decide +kernel, rfl⟩
  have verdict' := accepts verdict
  exact ⟨undeclared, present, verdict, verdict', removes removed undeclared verdict', equal present 3⟩

end Validator

end Conform
