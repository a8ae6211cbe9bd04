import Conform.Outcome

/-!
Outcomes made in any way, and what is left of them when they are flattened. A flattened outcome still
says which code was the last cause and by which path it is reached; but it says so in a field without a
cause, and such a field is no step of a path any more.
-/

namespace Conform

theorem intercalate_eq_empty_iff {separator : String} (some_ : separator ≠ "") {parts : List String} :
    separator.intercalate parts = "" ↔ parts = [] ∨ parts = [""] := by
  match parts with
  | [] => simp
  | [part] => simp
  | first :: second :: rest => simp [String.append_eq_empty_iff, some_]

namespace Outcome

/-- The ways to come by an outcome, one after another. -/
inductive Construction where
  | success
  | leaf (code : Code)
  | within (code : Code) (field : String) (cause : Construction)
  | flattened (whole : Construction)

def Construction.outcome : Construction → Outcome
  | success => Outcome.success
  | leaf code => Outcome.leaf code
  | within code field cause => Outcome.within code field cause.outcome
  | flattened whole => whole.outcome.flatten

def Paired (outcome : Outcome) : Prop :=
  outcome.field?.isSome = outcome.cause?.isSome

section Flattened

variable (outcome : Outcome)

@[simp] theorem path_flatten : outcome.flatten.path = "" := rfl

@[simp] theorem innermost_flatten : outcome.flatten.innermost = outcome.innermost := rfl

@[simp] theorem text_flatten : outcome.flatten.text = outcome.innermost.message := rfl

theorem path_eq_empty_iff : outcome.path = "" ↔ outcome.steps = [] ∨ outcome.steps = [""] :=
  intercalate_eq_empty_iff (by decide)

theorem message_eq_text_iff : outcome.innermost.message = outcome.text ↔ outcome.path = "" := by
  unfold text
  by_cases none_ : outcome.path = ""
  · simp [none_]
  · have shown : outcome.path.isEmpty = false := by simpa using none_
    simp only [shown, Bool.false_eq_true, if_false, none_, iff_false]
    intro same
    have longer := congrArg String.length same
    simp only [String.length_append] at longer
    have colon : ": ".length = 2 := rfl
    omega

theorem flatten_flatten_iff : outcome.flatten.flatten = outcome.flatten ↔ outcome.path = "" := by
  have twice : outcome.flatten.flatten = flat outcome.innermost "" := rfl
  rw [twice, flatten, flat.injEq, eq_comm (a := "")]
  simp

end Flattened

theorem Construction.paired_iff (built : Construction) :
    built.outcome.Paired ↔ ∀ whole, built ≠ .flattened whole := by
  cases built with
  | flattened whole => simp [Paired, outcome, flatten, field?, cause?]
  | _ => simp [Paired, outcome, Outcome.success, field?, cause?]

/-- However an outcome has come about, it has a field and a cause, or neither, unless it was flattened
last. To flatten it keeps the last cause's code, and puts the path into the field; but path and text stay
as they are, and to flatten it again changes nothing, only where the path is empty: where there is no
step, or none but one without a name. From the second time on nothing changes. -/
theorem flattened_path_lost (built : Construction) :
    let outcome := built.outcome
    (outcome.Paired ↔ ∀ whole, built ≠ .flattened whole) ∧
      outcome.flatten = flat outcome.innermost outcome.path ∧
      outcome.flatten.innermost = outcome.innermost ∧
      (outcome.flatten.path = outcome.path ↔ outcome.path = "") ∧
      (outcome.flatten.text = outcome.text ↔ outcome.path = "") ∧
      (outcome.flatten.flatten = outcome.flatten ↔ outcome.path = "") ∧
      outcome.flatten.flatten.flatten = outcome.flatten.flatten ∧
      (outcome.path = "" ↔ outcome.steps = [] ∨ outcome.steps = [""]) := by
  intro outcome
  refine ⟨built.paired_iff, rfl, outcome.innermost_flatten, ?path, ?text, outcome.flatten_flatten_iff,
    ?again, outcome.path_eq_empty_iff⟩
  case path => rw [path_flatten, eq_comm]
  case text => rw [text_flatten, message_eq_text_iff]
  case again => rw [flatten_flatten_iff, path_flatten]

/-- A number in a field is wrong. Flattened, the failure is one of the value as a whole. -/
theorem flattened_path_lost_field :
    let outcome := within .interfaceNotMatch "a" (leaf .notNumber)
    outcome.flatten.field? = some "a" ∧ outcome.flatten.cause? = none ∧
      outcome.path = "a" ∧ outcome.flatten.path = "" ∧
      outcome.text = "a: Field must be number" ∧ outcome.flatten.text = "Field must be number" ∧
      outcome.flatten.flatten ≠ outcome.flatten := by
  decide +kernel

end Outcome

end Conform
