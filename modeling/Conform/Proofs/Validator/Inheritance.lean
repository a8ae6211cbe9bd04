import Conform.Proofs.Validator.Comparison

/-!
A record with ancestors, level by level. However long the chain is, it comes to one list of checks,
those of the furthest ancestor first, which all pass over the same keys.
-/

namespace Conform

section FirstFailure

variable {α β : Type} {check check' : α → Option Outcome}

theorem andThen_assoc (first second third : Option Outcome) :
    andThen (andThen first second) third = andThen first (andThen second third) := by
  rcases first with _ | outcome
  · rfl
  · by_cases success : outcome.isSuccess
    · simp [andThen, success]
    · simp [andThen, success]

theorem firstFailure_append (items rest : List α) :
    firstFailure check (items ++ rest) =
      andThen (firstFailure check items) (firstFailure check rest) := by
  induction items with
  | nil => rfl
  | cons item items ih =>
      simp only [List.cons_append, firstFailure_cons, ih, andThen_assoc]

theorem firstFailure_map (make : β → α) (items : List β) :
    firstFailure check (items.map make) = firstFailure (fun item => check (make item)) items := by
  induction items with
  | nil => rfl
  | cons item items ih => simp only [List.map_cons, firstFailure_cons, ih]

theorem firstFailure_filter (kept : α → Bool) (items : List α) :
    firstFailure check (items.filter kept) =
      firstFailure (fun item => if kept item then check item else some .success) items := by
  induction items with
  | nil => rfl
  | cons item items ih =>
      rw [List.filter_cons, firstFailure_cons]
      by_cases keep : kept item
      · rw [if_pos keep, if_pos keep, firstFailure_cons, ih]
      · rw [if_neg keep, if_neg keep, ih]
        rfl

end FirstFailure

namespace Validator

inductive Check where
  /-- Of what the object has for a field. -/
  | ofField (field : Field Validator)
  /-- Of a key that is declared nowhere, by the index signature of the level, if it has one. -/
  | ofKey (index : Option Validator) (key : String) (item : Json)

namespace Check

def place : Check → String
  | ofField field => field.name
  | ofKey _ key _ => key

def verdict (below : Judgement) (entries : List (String × Json)) : Check → Option Outcome
  | ofField field =>
    match Json.lookup field.name entries with
    | none => if field.required then some (.leaf .nullOnRequired) else some .success
    | some item => judgeField below field (some item)
  | ofKey (some index) _ item => below [] index (some item)
  | ofKey none _ _ => some (.leaf .fieldNotAllowed)

def run (below : Judgement) (entries : List (String × Json)) (check : Check) : Option Outcome :=
  (check.verdict below entries).map (Outcome.at .interfaceNotMatch check.place)

end Check

def declares (levels : List (Level Validator)) (key : String) : Bool :=
  levels.any fun level => level.fields.any fun field => field.name == key

def levelChecks (tolerated : String → Bool) (entries : List (String × Json))
    (level : Level Validator) : List Check :=
  level.fields.map .ofField ++
    (entries.filter fun entry => !tolerated entry.1).map fun entry =>
      .ofKey level.index entry.1 entry.2

/-- The checks of a record and its ancestors, the furthest first. -/
def recordChecks (scope : Scope) (entries : List (String × Json)) (levels : List (Level Validator)) :
    List Check :=
  levels.reverse.flatMap
    (levelChecks (fun key => declares levels key || scope.contains key) entries)

theorem declares_of_mem {levels : List (Level Validator)} {level : Level Validator}
    {field : Field Validator} (among : level ∈ levels) (member : field ∈ level.fields) :
    declares levels field.name :=
  List.any_eq_true.mpr ⟨level, among, List.any_eq_true.mpr ⟨field, member, beq_self_eq_true _⟩⟩

theorem mem_recordChecks {scope : Scope} {entries : List (String × Json)}
    {levels : List (Level Validator)} {check : Check} : check ∈ recordChecks scope entries levels ↔
    ∃ level ∈ levels, (∃ field ∈ level.fields, .ofField field = check) ∨
      ∃ key item, (key, item) ∈ entries ∧
        (declares levels key || scope.contains key) = false ∧ .ofKey level.index key item = check := by
  simp only [recordChecks, levelChecks, List.mem_flatMap, List.mem_reverse, List.mem_append,
    List.mem_map, List.mem_filter, Bool.not_eq_true', Prod.exists, and_assoc]

theorem contains_levelNames (levels : List (Level Validator)) (key : String) :
    (levelNames levels).contains key = declares levels key := by
  rw [Bool.eq_iff_iff]
  simp [levelNames, declares, List.mem_eraseDups]

variable {below : Judgement} {entries : List (String × Json)}

theorem judgeLevel_eq_firstFailure (tolerated : Scope) (level : Level Validator) :
    judgeLevel below tolerated level entries =
      firstFailure (Check.run below entries) (levelChecks tolerated.contains entries level) := by
  have fields : firstFailure (judgeDeclared below entries) level.fields =
      firstFailure (fun field => Check.run below entries (.ofField field)) level.fields := by
    congr 1
    funext field
    simp only [judgeDeclared, Check.run, Check.verdict, Check.place]
    congr 1
    cases found : Json.lookup field.name entries with
    | none => cases required : field.required <;> simp [judgeField, required]
    | some item => simp
  have keys : firstFailure (judgeKey below tolerated level) entries =
      firstFailure (fun entry => if !tolerated.contains entry.1 then
        Check.run below entries (.ofKey level.index entry.1 entry.2) else some .success) entries := by
    congr 1
    funext entry
    obtain ⟨key, item⟩ := entry
    simp only [judgeKey, judgeUndeclared, Check.run, Check.place]
    cases tolerated.contains key with
    | true => rfl
    | false => cases level.index <;> rfl
  rw [judgeLevel_eq, levelChecks, firstFailure_append, firstFailure_map, firstFailure_map,
    firstFailure_filter, fields, keys]

/-- Each level tolerates the names of those below it, which together with its own and its ancestors'
are all names of the record: so all levels pass over the same keys. -/
theorem judgeLevels_eq_firstFailure {scope : Scope} {tolerated : String → Bool}
    {own : Level Validator} {ancestors : List (Level Validator)}
    (same : ∀ key, (declares (own :: ancestors) key || scope.contains key) = tolerated key) :
    judgeLevels below scope own ancestors entries =
      firstFailure (Check.run below entries)
        ((own :: ancestors).reverse.flatMap (levelChecks tolerated entries)) := by
  have contains : Scope.contains (levelNames (own :: ancestors) :: scope) = tolerated := by
    funext key
    rw [← same key, ← contains_levelNames]
    rfl
  induction ancestors generalizing own scope with
  | nil => simp [judgeLevels, judgeLevel_eq_firstFailure, contains]
  | cons parent further ih =>
      have inherited : judgeLevels below (levelNames (own :: parent :: further) :: scope) parent
          further entries = firstFailure (Check.run below entries)
            ((parent :: further).reverse.flatMap (levelChecks tolerated entries)) := by
        have same' : ∀ key, (declares (parent :: further) key ||
            Scope.contains (levelNames (own :: parent :: further) :: scope) key) = tolerated key := by
          intro key
          rw [contains]
          cases known : declares (parent :: further) key with
          | false => rfl
          | true =>
              rw [← same key]
              simp only [declares, List.any_cons] at known ⊢
              simp [known]
        refine ih same' ?_
        funext key
        rw [← same' key, ← contains_levelNames]
        rfl
      have stepped : judgeLevels below scope own (parent :: further) entries =
          andThen (judgeLevels below (levelNames (own :: parent :: further) :: scope) parent further
            entries) (judgeLevel below (levelNames (own :: parent :: further) :: scope) own entries) :=
        rfl
      have turned : (own :: parent :: further).reverse = (parent :: further).reverse ++ [own] :=
        List.reverse_cons
      rw [stepped, inherited, judgeLevel_eq_firstFailure, contains, ← firstFailure_append, turned,
        List.flatMap_append, List.flatMap_singleton]

/-- An object passes a record, or fails it, by the first failure in one list of checks. -/
theorem record_outcome (references : References) (bound : Nat) (scope : Scope)
    (own : Level Validator) (ancestors : List (Level Validator)) (entries : List (String × Json)) :
    validateWithin references (bound + 1) scope (.record own ancestors) (some (.object entries)) =
      firstFailure (Check.run (validateWithin references bound) entries)
        (recordChecks scope entries (own :: ancestors)) :=
  judgeLevels_eq_firstFailure fun _ => rfl

end Validator

end Conform
