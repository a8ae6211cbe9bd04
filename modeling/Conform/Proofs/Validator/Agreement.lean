import Conform.Proofs.Validator.Comparison
import Conform.Proofs.Validator.Scopes

/-!
Validators that agree where both give an outcome. One may get by with fewer references than the other,
so what is compared are judgements with bounds of their own, on scopes that need not tolerate the same.
-/

namespace Conform

def Comparison.coinciding : Comparison where
  rel first second := ∀ outcome outcome', first = some outcome → second = some outcome' →
    outcome = outcome'
  same _ _ _ first second := Option.some.inj (first.symm.trans second)
  under := by
    rintro (_ | first) (_ | second) code field agree outcome outcome' ⟨⟩ ⟨⟩
    rw [agree first second rfl rfl]
  andThen := by
    rintro (_ | first) (_ | first') second second' agree later outcome outcome' found found'
    · cases found
    · cases found
    · cases found'
    · obtain rfl := agree first first' rfl rfl
      by_cases success : first.isSuccess
      · simp only [Conform.andThen, success, Option.bind_some, if_true] at found found'
        exact later outcome outcome' found found'
      · simp only [Conform.andThen, success, Option.bind_some, Bool.false_eq_true, if_false] at found found'
        exact Option.some.inj (found.symm.trans found')
  orElse := by
    rintro (_ | first) (_ | first') second second' agree later outcome outcome' found found'
    · cases found
    · cases found
    · cases found'
    · obtain rfl := agree first first' rfl rfl
      by_cases success : first.isSuccess
      · simp only [Conform.orElse, success, Option.bind_some, if_true] at found found'
        exact Option.some.inj (found.symm.trans found')
      · simp only [Conform.orElse, success, Option.bind_some, Bool.false_eq_true, if_false] at found found'
        exact later outcome outcome' found found'

namespace Validator

/-- On every value for which both validations end they end in the same way. -/
def Agree (references references' : References) (validator validator' : Validator) : Prop :=
  ∀ bound bound' scope value outcome outcome',
    validateWithin references bound scope validator value = some outcome →
    validateWithin references' bound' scope validator' value = some outcome' → outcome = outcome'

section

variable (references references' : References) (bound bound' : Nat)

def AgreeWithin (minds : String → Prop) (validator validator' : Validator) : Prop :=
  ∀ scope scope' value, (∀ key, minds key → Scope.contains scope key = Scope.contains scope' key) →
    Comparison.coinciding.rel (validateWithin references bound scope validator value)
      (validateWithin references' bound' scope' validator' value)

def AgreeInside (validator validator' : Validator) : Prop :=
  ∀ value, Comparison.coinciding.rel (validateWithin references bound [] validator value)
    (validateWithin references' bound' [] validator' value)

end

variable {references references' : References} {bound bound' : Nat} {minds minds' : String → Prop}
  {validator validator' : Validator}

namespace AgreeWithin

theorem inside (agree : AgreeWithin references references' bound bound' minds validator validator') :
    AgreeInside references references' bound bound' validator validator' :=
  fun value => agree [] [] value fun _ _ => rfl

theorem mono (agree : AgreeWithin references references' bound bound' minds validator validator')
    (fewer : ∀ key, minds key → minds' key) :
    AgreeWithin references references' bound bound' minds' validator validator' :=
  fun scope scope' value same => agree scope scope' value fun key minded => same key (fewer key minded)

theorem exhausted_left : AgreeWithin references references' 0 bound' minds validator validator' := by
  rintro scope scope' value same outcome outcome' ⟨⟩

theorem exhausted_right : AgreeWithin references references' bound 0 minds validator validator' := by
  rintro scope scope' value same outcome outcome' _ ⟨⟩

theorem deferred_left {name : String} {cell : CellId} {target : Validator}
    (filled : references.target? cell = some target)
    (agree : AgreeWithin references references' bound bound' minds target validator') :
    AgreeWithin references references' (bound + 1) bound' minds (.deferred name cell) validator' := by
  intro scope scope' value same
  simpa only [validateWithin, judge, filled] using agree scope scope' value same

theorem deferred_right {name : String} {cell : CellId} {target : Validator}
    (filled : references'.target? cell = some target)
    (agree : AgreeWithin references references' bound bound' minds validator target) :
    AgreeWithin references references' bound (bound' + 1) minds validator (.deferred name cell) := by
  intro scope scope' value same
  simpa only [validateWithin, judge, filled] using agree scope scope' value same

theorem primitive (kind : Primitive) :
    AgreeWithin references references' bound bound' minds (.primitive kind) (.primitive kind) := by
  intro scope scope' value same
  cases bound with
  | zero => rintro outcome outcome' ⟨⟩
  | succ bound =>
      cases bound' with
      | zero => rintro outcome outcome' _ ⟨⟩
      | succ bound' => exact Comparison.coinciding.same _

theorem array (node node' : NodeId) {element element' : Validator}
    (agree : AgreeInside references references' bound bound' element element') :
    AgreeWithin references references' (bound + 1) (bound' + 1) minds (.array node element)
      (.array node' element') := by
  intro scope scope' value _
  -- An array passes no names on to its elements.
  change Comparison.coinciding.rel (judge references _ [] (.array node element) value)
    (judge references' _ [] (.array node' element') value)
  refine judge_compare .coinciding references references' (.array node node' agree)
    (.of_same _ fun _ => rfl) (fun found => by cases found) ?_
  exact fun agree _ => agree _

theorem record {own own' : Level Validator} {ancestors ancestors' : List (Level Validator)}
    (levels : List.Forall₂ (Level.Alike (AgreeInside references references' bound bound'))
      (own :: ancestors) (own' :: ancestors'))
    (declared : ∀ key, ¬minds key → key ∈ levelNames (own :: ancestors)) :
    AgreeWithin references references' (bound + 1) (bound' + 1) minds (.record own ancestors)
      (.record own' ancestors') := by
  intro scope scope' value same
  simp only [validateWithin, judge]
  split
  · refine judgeLevels_compare .coinciding (fun agree _ => agree _) levels (.of_same _ fun key => ?_)
    rw [contains_cons, contains_cons]
    by_cases minded : minds key
    · rw [same key minded]
    · simp [declared key minded]
  · exact Comparison.coinciding.same _

theorem group (node node' : NodeId) (connective : Connective) {operands operands' : List Validator}
    (literals : operands'.all isLiteral = operands.all isLiteral)
    (related : ∀ scope scope', (∀ key, minds key → Scope.contains scope key = Scope.contains scope' key) →
      List.Forall₂ (fun operand operand' => ∀ value,
        Comparison.coinciding.rel
          (validateWithin references bound (groupNames operands :: scope) operand value)
          (validateWithin references' bound' (groupNames operands' :: scope') operand' value))
        operands operands') :
    AgreeWithin references references' (bound + 1) (bound' + 1) minds (.group node connective operands)
      (.group node' connective operands') := by
  intro scope scope' value same
  have each := related scope scope' same
  have enum (connective : Connective) := isEnum_eq connective each literals
  simp only [validateWithin, judge, enum]
  split
  · exact Comparison.coinciding.same _
  · refine judgeGroup_compare .coinciding connective (each.imp fun _ _ agree => agree value) ?_
    simp only [rejection, enum]
    exact Comparison.coinciding.same _

end AgreeWithin

end Validator

end Conform
