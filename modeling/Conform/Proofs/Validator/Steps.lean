import Conform.Proofs.Validator.Truthful
import Conform.Proofs.Validator.Levels

/-!
What the path of a failure is made of. Its steps are positions in arrays and groups, keys of the value, and names that
the records of the type declare; whatever holds of all of these holds of every step.
-/

namespace Conform

inductive Json.HasKey : Json → String → Prop where
  | here {entries : List (String × Json)} {key : String} {item : Json} (member : (key, item) ∈ entries) :
    HasKey (.object entries) key
  | inside {value item : Json} {key : String} (holds : Json.Holds (some value) item) (deeper : HasKey item key) :
    HasKey value key

namespace Validator

def Named (holds : String → Prop) (level : Level Validator) : Prop :=
  ∀ field ∈ level.fields, holds field.name

/-- The property of all names that records declare, in the validator and in all that it reaches. -/
def Declares (references : References) (holds : String → Prop) : Validator → Prop :=
  Everywhere references (OnLevels (Named holds))

section Steps

variable {references : References} {holds : String → Prop} {below : Judgement} {value : Option Json}
  {result : Option Outcome} {outcome : Outcome}

def KeysHold (holds : String → Prop) (value : Option Json) : Prop :=
  ∀ inner ∈ value, ∀ key, inner.HasKey key → holds key

theorem KeysHold.part {item : Json} (keys : KeysHold holds value) (member : Json.Holds value item) :
    KeysHold holds (some item) := by
  intro inner same key deeper
  cases same
  cases member with
  | item member => exact keys _ rfl key (.inside (.item member) deeper)
  | entry member => exact keys _ rfl key (.inside (.entry member) deeper)

def StepsHold (holds : String → Prop) (outcome : Outcome) : Prop :=
  ∀ step ∈ outcome.steps, holds step

theorem stepsHold_leaf (code : Code) : StepsHold holds (.leaf code) :=
  fun _ member => absurd member List.not_mem_nil

theorem stepsHold_at {code : Code} {field : String} (found : result.map (Outcome.at code field) = some outcome)
    (first : holds field) (others : ∀ cause, result = some cause → StepsHold holds cause) :
    StepsHold holds outcome := by
  obtain ⟨cause, same, rfl⟩ := Option.map_eq_some_iff.mp found
  unfold Outcome.at
  split
  next => exact stepsHold_leaf .success
  next => exact List.forall_mem_cons.mpr ⟨first, others cause same⟩

theorem stepsHold_primitive (kind : Primitive) (value : Option Json) : StepsHold holds (kind.judge value) := by
  fun_cases Primitive.judge kind value
  all_goals exact stepsHold_leaf _

variable (parts : ∀ {scope : Scope} {part : Validator} {value : Option Json} {outcome : Outcome},
  Declares references holds part → KeysHold holds value → below scope part value = some outcome →
    StepsHold holds outcome)

include parts

theorem stepsHold_judgeField {field : Field Validator} (declares : Declares references holds field.type)
    (keys : KeysHold holds value) (found : judgeField below field value = some outcome) : StepsHold holds outcome := by
  unfold judgeField at found
  split at found
  next =>
    cases found
    exact stepsHold_leaf .success
  next =>
    split at found
    next => exact parts declares keys found
    next =>
      cases found
      exact stepsHold_leaf .success
  next => exact parts declares keys found

theorem stepsHold_judgeDeclared {entries : List (String × Json)} {field : Field Validator} (named : holds field.name)
    (declares : Declares references holds field.type) (keys : KeysHold holds (some (.object entries)))
    (found : judgeDeclared below entries field = some outcome) : StepsHold holds outcome := by
  refine stepsHold_at found named fun cause judged => ?_
  split at judged
  next =>
    cases judged
    exact stepsHold_leaf .nullOnRequired
  next =>
    refine stepsHold_judgeField parts declares ?_ judged
    cases known : Json.lookup field.name entries with
    | none =>
        intro inner none_
        cases none_
    | some item => exact keys.part (.entry (Json.mem_of_lookup known))

theorem stepsHold_judgeKey {entries : List (String × Json)} {tolerated : Scope} {level : Level Validator}
    (index : ∀ index, level.index = some index → Declares references holds index)
    (keys : KeysHold holds (some (.object entries))) {entry : String × Json} (member : entry ∈ entries)
    (found : judgeKey below tolerated level entry = some outcome) : StepsHold holds outcome := by
  obtain ⟨key, item⟩ := entry
  simp only [judgeKey] at found
  split at found
  next =>
    cases found
    exact stepsHold_leaf .success
  next =>
    refine stepsHold_at found (keys _ rfl key (.here member)) fun cause judged => ?_
    unfold judgeUndeclared at judged
    split at judged
    next signature => exact parts (index _ signature) (keys.part (.entry member)) judged
    next =>
      cases judged
      exact stepsHold_leaf .fieldNotAllowed

theorem stepsHold_judgeLevel {entries : List (String × Json)} {tolerated : Scope} {level : Level Validator}
    (named : Named holds level) (throughout : Throughout references (OnLevels (Named holds)) level)
    (keys : KeysHold holds (some (.object entries)))
    (found : judgeLevel below tolerated level entries = some outcome) : StepsHold holds outcome := by
  rw [judgeLevel_eq] at found
  rcases andThen_eq_some found with found | found
  · rcases firstFailure_eq_some found with rfl | ⟨field, member, judged⟩
    · exact stepsHold_leaf .success
    · exact stepsHold_judgeDeclared parts (named field member) (throughout.fields field member) keys judged
  · rcases firstFailure_eq_some found with rfl | ⟨entry, member, judged⟩
    · exact stepsHold_leaf .success
    · exact stepsHold_judgeKey parts throughout.index keys member judged

theorem stepsHold_judgeLevels {entries : List (String × Json)} {scope : Scope} {own : Level Validator}
    {ancestors : List (Level Validator)}
    (named : ∀ level ∈ own :: ancestors, Named holds level)
    (throughout : ∀ level ∈ own :: ancestors, Throughout references (OnLevels (Named holds)) level)
    (keys : KeysHold holds (some (.object entries)))
    (found : judgeLevels below scope own ancestors entries = some outcome) : StepsHold holds outcome := by
  have own_ {tolerated : Scope} (found : judgeLevel below tolerated own entries = some outcome) :
      StepsHold holds outcome :=
    stepsHold_judgeLevel parts (named own List.mem_cons_self) (throughout own List.mem_cons_self) keys found
  induction ancestors generalizing own scope with
  | nil => exact own_ found
  | cons parent further ih =>
      have ⟨_, named'⟩ := List.forall_mem_cons.mp named
      have ⟨_, throughout'⟩ := List.forall_mem_cons.mp throughout
      rcases @andThen_eq_some _ _ _ found with found | found
      · refine ih named' throughout' found fun found => ?_
        exact stepsHold_judgeLevel parts (named' parent List.mem_cons_self) (throughout' parent List.mem_cons_self)
          keys found
      · exact own_ found

variable (item : ∀ position : Nat, holds (toString position))
  (operand : ∀ position : Nat, holds ("<Condition" ++ toString position ++ ">"))

include operand

theorem stepsHold_judgeGroup {scope : Scope} {connective : Connective} {operands : List Validator}
    (declares : ∀ operand ∈ operands, Declares references holds operand) (keys : KeysHold holds value)
    (found : judgeGroup below scope connective operands value = some outcome) : StepsHold holds outcome := by
  cases connective with
  | and =>
      rcases firstFailure_eq_some found with rfl | ⟨⟨part, position⟩, member, judged⟩
      · exact stepsHold_leaf .success
      · have among : part ∈ operands := List.mem_of_getElem? (List.mem_zipIdx_iff_getElem?.mp member)
        exact stepsHold_at judged (operand position) fun cause judged => parts (declares part among) keys judged
  | or =>
      rw [judgeGroup_or] at found
      obtain ⟨accepted, _, rfl⟩ := Option.map_eq_some_iff.mp found
      unfold rejection
      split
      next => exact stepsHold_leaf .success
      next =>
        split
        next => exact stepsHold_leaf .invalidStrLiteral
        next => exact stepsHold_leaf .logicFalse

include item

theorem stepsHold_judge {scope : Scope} {validator : Validator}
    (declares : Declares references holds validator) (keys : KeysHold holds value)
    (found : judge references below scope validator value = some outcome) : StepsHold holds outcome := by
  cases validator with
  | primitive kind =>
      cases found
      exact stepsHold_primitive kind value
  | array node element =>
      simp only [judge] at found
      split at found
      next items =>
        rcases firstFailure_eq_some found with rfl | ⟨⟨inner, position⟩, member, judged⟩
        · exact stepsHold_leaf .success
        · have among : inner ∈ items := List.mem_of_getElem? (List.mem_zipIdx_iff_getElem?.mp member)
          exact stepsHold_at judged (item position) fun cause judged =>
            parts (declares.of_reaches (.single .element)) (keys.part (.item among)) judged
      next =>
        cases found
        exact stepsHold_leaf .notArray
  | group node connective operands =>
      simp only [judge] at found
      split at found
      next =>
        cases found
        exact stepsHold_leaf .notString
      next =>
        exact stepsHold_judgeGroup parts operand
          (fun part member => declares.of_reaches (.single (.operand member))) keys found
  | record own ancestors =>
      simp only [judge] at found
      split at found
      next => exact stepsHold_judgeLevels parts declares.here declares.levels keys found
      next =>
        cases found
        exact stepsHold_leaf .notObject
  | deferred name cell =>
      simp only [judge] at found
      split at found
      next filled => exact parts (declares.of_reaches (.single (.target filled))) keys found
      next =>
        cases found
        exact stepsHold_leaf .logicFalse

omit parts

theorem stepsHold_validate {validator : Validator} (declares : Declares references holds validator)
    (keys : KeysHold holds value) (judged : validate references validator value = some outcome) :
    StepsHold holds outcome := by
  have within (bound : Nat) : ∀ {scope : Scope} {validator : Validator} {value : Option Json} {outcome : Outcome},
      Declares references holds validator → KeysHold holds value →
        validateWithin references bound scope validator value = some outcome → StepsHold holds outcome := by
    induction bound with
    | zero =>
        intro _ _ _ _ _ _ judged
        cases judged
    | succ bound ih => exact fun declares keys judged =>
        stepsHold_judge ih item operand declares keys judged
  exact within _ declares keys judged

end Steps

end Validator

end Conform
