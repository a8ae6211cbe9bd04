import Conform.Proofs.Validator.Comparison

/-!
Outcomes are true of the values that they are about. A failure is a chain of causes; each leads to a
place in the value of the one before it, and the last code fits the value that the chain comes to.
-/

namespace Conform

def Code.Fits : Code → Option Json → Prop
  | .logicFalse, _ => True
  | .notArray, value => ∀ items, value ≠ some (.array items)
  | .notNumber, value => ∀ number, value ≠ some (.number number)
  | .notString, value => ∀ text, value ≠ some (.string text)
  | .notBoolean, value => ∀ bool, value ≠ some (.bool bool)
  | .notObject, value => ∀ entries, value ≠ some (.object entries)
  | .notNull, value => value ≠ some .null
  | .notUndefined, value => value ≠ none
  | .invalidStrLiteral, value => ∃ text, value = some (.string text)
  | _, _ => False

/-- The failure is true of the value, with all its causes. -/
inductive Truthful : Option Json → Outcome → Prop where
  | leaf {value : Option Json} {code : Code} (fits : code.Fits value) : Truthful value (.leaf code)
  | element {items : List Json} {position : Nat} {item : Json} {cause : Outcome}
      (at_ : items[position]? = some item) (true_ : Truthful (some item) cause) :
      Truthful (some (.array items)) (.within .arrayNotMatch (toString position) cause)
  | entry {entries : List (String × Json)} {key : String} {item : Json} {cause : Outcome}
      (member : (key, item) ∈ entries) (true_ : Truthful (some item) cause) :
      Truthful (some (.object entries)) (.within .interfaceNotMatch key cause)
  | notAllowed {entries : List (String × Json)} {key : String} {item : Json}
      (member : (key, item) ∈ entries) :
      Truthful (some (.object entries)) (.within .interfaceNotMatch key (.leaf .fieldNotAllowed))
  | missing {entries : List (String × Json)} {key : String}
      (absent : ∀ item, (key, item) ∉ entries) :
      Truthful (some (.object entries)) (.within .interfaceNotMatch key (.leaf .nullOnRequired))
  | operand {value : Option Json} {cause : Outcome} (position : Nat)
      (true_ : Truthful value cause) :
      Truthful value (.within .logicFalse ("<Condition" ++ toString position ++ ">") cause)

def Outcome.codes : Outcome → List Code
  | leaf code => [code]
  | within code _ cause => code :: cause.codes
  | flat code _ => [code]

theorem Truthful.ne_success {value : Option Json} {outcome : Outcome}
    (true_ : Truthful value outcome) : ∀ code ∈ outcome.codes, code ≠ .success := by
  induction true_ with
  | @leaf value code fits =>
      intro other member
      rw [List.mem_singleton.mp member]
      rintro rfl
      exact fits
  | notAllowed | missing => simp [Outcome.codes]
  | element _ _ ih => simpa [Outcome.codes] using ih
  | entry _ _ ih => simpa [Outcome.codes] using ih
  | operand _ _ ih => simpa [Outcome.codes] using ih

theorem Json.not_mem_of_lookup {α : Type} {key : String} {entries : List (String × α)}
    (found : lookup key entries = none) : ∀ item, (key, item) ∉ entries := by
  intro item member
  have none_ := Option.map_eq_none_iff.mp found
  have differs := List.find?_eq_none.mp none_ (key, item) member
  simp at differs

namespace Validator

def Reports (value : Option Json) (outcome : Outcome) : Prop :=
  outcome = .success ∨ Truthful value outcome

theorem reports_at {value : Option Json} {code : Code} {field : String} {result : Option Outcome}
    {outcome : Outcome} (found : result.map (Outcome.at code field) = some outcome)
    (known : ∀ cause, result = some cause →
      cause = .success ∨ Truthful value (.within code field cause)) : Reports value outcome := by
  obtain ⟨cause, same, rfl⟩ := Option.map_eq_some_iff.mp found
  unfold Outcome.at
  split
  · exact .inl rfl
  · rename_i failed
    rcases known cause same with rfl | true_
    · exact absurd rfl failed
    · exact .inr true_

theorem primitive_reports (kind : Primitive) (value : Option Json) :
    Reports value (kind.judge value) := by
  fun_cases Primitive.judge kind value
  case case3 other | case5 other | case7 other | case12 other | case17 other =>
    exact .inr (.leaf other)
  case case10 noObject _ => exact .inr (.leaf noObject)
  case case14 item => exact .inr (.leaf (Option.some_ne_none item))
  case case16 => exact .inr (.leaf ⟨_, rfl⟩)
  all_goals exact .inl rfl

variable {references : References} {below : Judgement}
  (parts : ∀ scope part value outcome, below scope part value = some outcome →
    Reports value outcome)

include parts

theorem judgeField_reports {field : Field Validator} {item : Json} {outcome : Outcome}
    (found : judgeField below field (some item) = some outcome) : Reports (some item) outcome := by
  unfold judgeField at found
  split at found
  · cases found
    exact .inl rfl
  · split at found
    · exact parts _ _ _ _ found
    · cases found
      exact .inl rfl
  · exact parts _ _ _ _ found

theorem judgeDeclared_reports {entries : List (String × Json)} {field : Field Validator}
    {outcome : Outcome} (found : judgeDeclared below entries field = some outcome) :
    Reports (some (.object entries)) outcome := by
  refine reports_at found fun cause judged => ?_
  cases known : Json.lookup field.name entries with
  | none =>
      rw [known] at judged
      cases required : field.required with
      | true =>
          simp only [Option.isNone_none, required, Bool.and_self, if_true, Option.some.injEq]
            at judged
          rw [← judged]
          exact .inr (.missing (Json.not_mem_of_lookup known))
      | false =>
          simp only [required, Bool.and_false, Bool.false_eq_true, if_false, judgeField,
            Option.some.injEq] at judged
          exact .inl judged.symm
  | some item =>
      rw [known] at judged
      simp only [Option.isNone_some, Bool.false_and, Bool.false_eq_true, if_false] at judged
      rcases judgeField_reports parts judged with success | true_
      · exact .inl success
      · exact .inr (.entry (Json.mem_of_lookup known) true_)

theorem judgeKey_reports {entries : List (String × Json)} {tolerated : Scope}
    {level : Level Validator} {entry : String × Json} (member : entry ∈ entries)
    {outcome : Outcome} (found : judgeKey below tolerated level entry = some outcome) :
    Reports (some (.object entries)) outcome := by
  obtain ⟨key, item⟩ := entry
  simp only [judgeKey] at found
  split at found
  · cases found
    exact .inl rfl
  · refine reports_at found fun cause judged => ?_
    unfold judgeUndeclared at judged
    split at judged
    · rcases parts _ _ _ _ judged with success | true_
      · exact .inl success
      · exact .inr (.entry member true_)
    · cases judged
      exact .inr (.notAllowed member)

theorem judgeLevel_reports {entries : List (String × Json)} {tolerated : Scope}
    {level : Level Validator} {outcome : Outcome}
    (found : judgeLevel below tolerated level entries = some outcome) :
    Reports (some (.object entries)) outcome := by
  rw [judgeLevel_eq] at found
  rcases andThen_eq_some found with found | found
  · rcases firstFailure_eq_some found with success | ⟨field, _, judged⟩
    · exact .inl success
    · exact judgeDeclared_reports parts judged
  · rcases firstFailure_eq_some found with success | ⟨entry, member, judged⟩
    · exact .inl success
    · exact judgeKey_reports parts member judged

theorem judgeLevels_reports {entries : List (String × Json)} {scope : Scope}
    {own : Level Validator} {ancestors : List (Level Validator)} {outcome : Outcome}
    (found : judgeLevels below scope own ancestors entries = some outcome) :
    Reports (some (.object entries)) outcome := by
  induction ancestors generalizing own scope with
  | nil => exact judgeLevel_reports parts found
  | cons parent further ih =>
      rcases @andThen_eq_some _ _ _ found with found | found
      · exact ih found
      · exact judgeLevel_reports parts found

theorem judgeGroup_reports {scope : Scope} {connective : Connective} {operands : List Validator}
    {value : Option Json} {outcome : Outcome}
    (literal : isEnum connective operands → ∃ text, value = some (.string text))
    (found : judgeGroup below scope connective operands value = some outcome) :
    Reports value outcome := by
  cases connective with
  | and =>
      rcases firstFailure_eq_some found with success | ⟨⟨operand, position⟩, _, judged⟩
      · exact .inl success
      · refine reports_at judged fun cause judged => ?_
        rcases parts _ _ _ _ judged with success | true_
        · exact .inl success
        · exact .inr (.operand position true_)
  | or =>
      rw [judgeGroup_or] at found
      obtain ⟨accepted, _, rfl⟩ := Option.map_eq_some_iff.mp found
      cases accepted with
      | true => exact .inl rfl
      | false =>
          right
          simp only [Bool.false_eq_true, if_false, rejection]
          split
          · rename_i enum
            exact .leaf (literal enum)
          · exact .leaf trivial

theorem judge_reports {scope : Scope} {validator : Validator} {value : Option Json}
    {outcome : Outcome} (found : judge references below scope validator value = some outcome) :
    Reports value outcome := by
  cases validator with
  | primitive kind =>
      cases found
      exact primitive_reports kind value
  | array node element =>
      simp only [judge] at found
      split at found
      · rcases firstFailure_eq_some found with success | ⟨⟨item, position⟩, member, judged⟩
        · exact .inl success
        · refine reports_at judged fun cause judged => ?_
          rcases parts _ _ _ _ judged with success | true_
          · exact .inl success
          · exact .inr (.element (List.mem_zipIdx_iff_getElem?.mp member) true_)
      · rename_i noArray
        cases found
        exact .inr (.leaf noArray)
  | group node connective operands =>
      simp only [judge] at found
      split at found
      · rename_i other
        cases found
        refine .inr (.leaf ?_)
        rintro text rfl
        simp [isString] at other
      · rename_i string
        refine judgeGroup_reports parts (fun enum => ?_) found
        rw [enum] at string
        unfold isString at string
        split at string
        · exact ⟨_, rfl⟩
        · simp at string
  | record own ancestors =>
      simp only [judge] at found
      split at found
      · exact judgeLevels_reports parts found
      · rename_i noObject
        cases found
        exact .inr (.leaf noObject)
  | deferred name cell =>
      simp only [judge] at found
      split at found
      · exact parts _ _ _ _ found
      · cases found
        exact .inr (.leaf trivial)

omit parts

/-- Every failure is true of the value, whatever the validator, the references and the scope, and
no success hides in its causes. -/
theorem outcome_truthful {references : References} {bound : Nat} {scope : Scope}
    {validator : Validator} {value : Option Json} {outcome : Outcome}
    (judged : validateWithin references bound scope validator value = some outcome) :
    outcome = .success ∨ Truthful value outcome ∧ ∀ code ∈ outcome.codes, code ≠ .success := by
  have reports : Reports value outcome := by
    induction bound generalizing scope validator value outcome with
    | zero => cases judged
    | succ bound ih => exact judge_reports (fun _ _ _ _ known => ih known) judged
  exact reports.imp id fun true_ => ⟨true_, true_.ne_success⟩

def nested : Validator :=
  .group 0 .and [.record ⟨1, none, [⟨"items", true, false, .array 2 (.deferred "Nested" 0)⟩], none⟩ [],
    .primitive .object]

def nestedReferences : References := [⟨⟨"Nested", ⟨"/nested.ts"⟩⟩, some nested⟩]

theorem outcome_truthful_nested :
    ∃ outcome, validateWithin nestedReferences 9 [] nested (some (.object [("items", .array
        [.object [("items", .array [])], .object [("items", .array []), ("more", .null)]])])) =
          some outcome ∧ outcome.codes = [.logicFalse, .interfaceNotMatch, .arrayNotMatch,
            .logicFalse, .interfaceNotMatch, .fieldNotAllowed] ∧
      Truthful (some (.object [("items", .array
        [.object [("items", .array [])], .object [("items", .array []), ("more", .null)]])]))
        outcome := by
  have judged : validateWithin nestedReferences 9 [] nested (some (.object [("items", .array
      [.object [("items", .array [])], .object [("items", .array []), ("more", .null)]])])) =
        some (.within .logicFalse "<Condition0>" (.within .interfaceNotMatch "items"
          (.within .arrayNotMatch "1" (.within .logicFalse "<Condition0>"
            (.within .interfaceNotMatch "more" (.leaf .fieldNotAllowed)))))) := by
    decide +kernel
  rcases outcome_truthful judged with success | ⟨true_, _⟩
  · cases success
  · exact ⟨_, judged, rfl, true_⟩

end Validator

end Conform
