import Conform.Proofs.Validator.Nesting

/-!
Tolerated names. A judgement depends on its scope only through the names in it: the more names, the
more values pass, and some validators do not heed them. A group gives all that its operands offer to
each of them, but a reference offers nothing.
-/

namespace Conform

theorem Outcome.isSuccess_at (code : Code) (field : String) (outcome : Outcome) :
    (outcome.at code field).isSuccess = (outcome.isSuccess || code == .success) := by
  unfold Outcome.at
  by_cases success : outcome.isSuccess
  · simp only [success, if_true, Bool.true_or]
    rfl
  · simp only [success, if_false, Bool.false_eq_true, Bool.false_or]
    rfl

namespace Comparison

def verdict : Comparison where
  rel first second := ∀ outcome, first = some outcome →
    ∃ outcome', second = some outcome' ∧ outcome'.isSuccess = outcome.isSuccess
  same _ := fun _ known => ⟨_, known, rfl⟩
  under := by
    intro first second code field related outcome found
    obtain ⟨cause, known, rfl⟩ := Option.map_eq_some_iff.mp found
    obtain ⟨cause', rfl, agree⟩ := related cause known
    exact ⟨_, rfl, by rw [Outcome.isSuccess_at, Outcome.isSuccess_at, agree]⟩
  andThen := by
    intro first first' second second' earlier later outcome found
    obtain ⟨known, judged, found⟩ := Option.bind_eq_some_iff.mp found
    obtain ⟨known', rfl, agree⟩ := earlier known judged
    by_cases success : known.isSuccess
    · simp only [Conform.andThen, Option.bind_some, agree, success, if_true] at found ⊢
      exact later outcome found
    · simp only [Conform.andThen, Option.bind_some, agree, success] at found ⊢
      cases found
      exact ⟨known', rfl, agree⟩
  orElse := by
    intro first first' second second' earlier later outcome found
    obtain ⟨known, judged, found⟩ := Option.bind_eq_some_iff.mp found
    obtain ⟨known', rfl, agree⟩ := earlier known judged
    by_cases success : known.isSuccess
    · simp only [Conform.orElse, Option.bind_some, agree, success, if_true] at found ⊢
      exact ⟨outcome, found, rfl⟩
    · simp only [Conform.orElse, Option.bind_some, agree, success] at found ⊢
      exact later outcome found

def passing : Comparison where
  rel first second := ∀ outcome outcome', first = some outcome → second = some outcome' →
    outcome.isSuccess → outcome'.isSuccess
  same _ := by
    rintro outcome outcome' known known' success
    cases known
    cases known'
    exact success
  under := by
    intro first second code field related outcome outcome' found found' success
    obtain ⟨cause, known, rfl⟩ := Option.map_eq_some_iff.mp found
    obtain ⟨cause', known', rfl⟩ := Option.map_eq_some_iff.mp found'
    rw [Outcome.isSuccess_at, Bool.or_eq_true] at success ⊢
    exact success.imp (related cause cause' known known') id
  andThen := by
    intro first first' second second' earlier later outcome outcome' found found' success
    obtain ⟨known, judged, found⟩ := Option.bind_eq_some_iff.mp found
    obtain ⟨known', judged', found'⟩ := Option.bind_eq_some_iff.mp found'
    by_cases passes : known.isSuccess
    · have passes' := earlier known known' judged judged' passes
      simp only [passes, passes', if_true] at found found'
      exact later outcome outcome' found found' success
    · simp only [passes] at found
      cases found
      exact absurd success passes
  orElse := by
    intro first first' second second' earlier later outcome outcome' found found' success
    obtain ⟨known, judged, found⟩ := Option.bind_eq_some_iff.mp found
    obtain ⟨known', judged', found'⟩ := Option.bind_eq_some_iff.mp found'
    by_cases passes' : known'.isSuccess
    · simp only [passes', if_true] at found'
      cases found'
      rfl
    · have fails : ¬known.isSuccess := fun passes =>
        passes' (earlier known known' judged judged' passes)
      simp only [fails, passes'] at found found'
      exact later outcome outcome' found found' success

end Comparison

namespace Validator

variable {references : References} {scope scope' : Scope} {validator : Validator}
  {value : Option Json} {passes : Bool}

/-- With enough room the judgement ends, and the value passes or fails. -/
def Verdict (references : References) (scope : Scope) (validator : Validator)
    (value : Option Json) (passes : Bool) : Prop :=
  ∃ bound outcome, validateWithin references bound scope validator value = some outcome ∧
    outcome.isSuccess = passes

theorem Verdict.of_same (verdict : Verdict references scope validator value passes)
    (same : ∀ key, scope.contains key = scope'.contains key) :
    Verdict references scope' validator value passes := by
  obtain ⟨bound, outcome, found, rfl⟩ := verdict
  exact ⟨bound, outcome, validateWithin_of_le found (Nat.le_refl _) same, rfl⟩

theorem verdict_congr (same : ∀ key, scope.contains key = scope'.contains key) :
    Verdict references scope validator value passes ↔
      Verdict references scope' validator value passes :=
  ⟨fun verdict => verdict.of_same same, fun verdict => verdict.of_same fun key => (same key).symm⟩

/-- A value that passes does not fail where more names are tolerated. -/
theorem Verdict.wider (verdict : Verdict references scope validator value true)
    (wider : ∀ key, scope.contains key → scope'.contains key)
    (verdict' : Verdict references scope' validator value passes) : passes = true := by
  obtain ⟨bound, outcome, found, success⟩ := verdict
  obtain ⟨bound', outcome', found', rfl⟩ := verdict'
  have widens : Comparison.passing.Widens scope scope' := by
    refine ⟨wider, ?_⟩
    rintro _ _ _ _ _ _ _ known _
    cases known
    rfl
  exact validateWithin_compare references .passing
    (fun _ _ _ absent => by cases absent) (.inr fun _ _ _ _ absent => by cases absent) widens
    validator value outcome outcome' found found' success

theorem verdict_deferred {name : String} {cell : CellId} {target : Validator}
    (filled : references.target? cell = some target) :
    Verdict references scope (.deferred name cell) value passes ↔
      Verdict references scope target value passes := by
  constructor
  · rintro ⟨bound, outcome, found, rfl⟩
    cases bound with
    | zero => cases found
    | succ bound =>
        simp only [validateWithin, judge, filled] at found
        exact ⟨bound, outcome, found, rfl⟩
  · rintro ⟨bound, outcome, found, rfl⟩
    refine ⟨bound + 1, outcome, ?_, rfl⟩
    simpa only [validateWithin, judge, filled] using found

theorem contains_cons (names : List String) (scope : Scope) (key : String) :
    Scope.contains (names :: scope) key = (names.contains key || scope.contains key) := rfl

theorem mem_groupNames {operands : List Validator} {name : String} :
    name ∈ groupNames operands ↔ ∃ operand ∈ operands, name ∈ offeredNames operand := by
  induction operands with
  | nil => simp [groupNames]
  | cons operand rest ih => simp [groupNames, List.mem_eraseDups, ih]

/-- It makes no difference to the validator whether the names are tolerated: it declares them all
itself, or it checks no keys on the value that it is given. -/
inductive Indifferent (references : References) (names : List String) : Validator → Prop where
  | offers {validator : Validator} (all : ∀ name ∈ names, name ∈ offeredNames validator) :
      Indifferent references names validator
  | primitive (kind : Primitive) : Indifferent references names (.primitive kind)
  | array (node : NodeId) (element : Validator) : Indifferent references names (.array node element)
  | group (node : NodeId) (connective : Connective) {operands : List Validator}
      (parts : ∀ operand ∈ operands, Indifferent references names operand) :
      Indifferent references names (.group node connective operands)
  | deferred {name : String} {cell : CellId} {target : Validator}
      (filled : references.target? cell = some target)
      (part : Indifferent references names target) :
      Indifferent references names (.deferred name cell)

section Indifferent

variable {names : List String} {bound : Nat}

theorem contains_offered {offered : List String} (all : ∀ name ∈ names, name ∈ offered)
    (more : ∀ key, scope'.contains key = (names.contains key || scope.contains key)) (key : String) :
    Scope.contains (offered :: scope) key = Scope.contains (offered :: scope') key := by
  rw [contains_cons, contains_cons, more]
  cases known : names.contains key with
  | false => simp
  | true =>
      have among : offered.contains key := by simpa using all key (by simpa using known)
      rw [among]
      simp

theorem validateWithin_of_same (same : ∀ key, scope.contains key = scope'.contains key) :
    validateWithin references bound scope validator value =
      validateWithin references bound scope' validator value := by
  cases found : validateWithin references bound scope validator value with
  | some outcome => exact (validateWithin_of_le found (Nat.le_refl _) same).symm
  | none =>
      cases found' : validateWithin references bound scope' validator value with
      | none => rfl
      | some outcome =>
          have back := validateWithin_of_le found' (Nat.le_refl _) fun key => (same key).symm
          rw [found] at back
          cases back

theorem judge_group_of_operands {below : Judgement} {node : NodeId} {connective : Connective}
    {operands : List Validator}
    (same : ∀ operand ∈ operands, below (groupNames operands :: scope') operand value =
      below (groupNames operands :: scope) operand value) :
    judge references below scope' (.group node connective operands) value =
      judge references below scope (.group node connective operands) value := by
  simp only [judge]
  split
  · rfl
  · exact judgeGroup_compare .equal connective (List.forall₂_same.mpr same) rfl

/-- What a validator declares itself, it tolerates anyway. -/
theorem validateWithin_offers (all : ∀ name ∈ names, name ∈ offeredNames validator)
    (more : ∀ key, scope'.contains key = (names.contains key || scope.contains key)) :
    validateWithin references bound scope' validator value =
      validateWithin references bound scope validator value := by
  have heeded := contains_offered all more
  cases bound with
  | zero => rfl
  | succ bound =>
      cases validator with
      | primitive kind => rfl
      | array node element => rfl
      | group node connective operands =>
          exact judge_group_of_operands fun operand _ =>
            (validateWithin_of_same (heeded ·)).symm
      | record own ancestors =>
          simp only [validateWithin, judge]
          split
          · have alike : Alike _ (.record own ancestors) (.record own ancestors) :=
              alike_self references (by simp)
            cases alike with
            | record levels =>
                refine (judgeLevels_compare .equal ?_ levels (.of_same _ heeded)).symm
                rintro part _ item ⟨rfl, _⟩ _
                rfl
          · rfl
      | deferred name cell =>
          refine (validateWithin_of_same fun key => ?_).symm
          rw [more]
          cases known : names.contains key with
          | false => rfl
          | true => simpa [offeredNames] using all key (by simpa using known)

theorem Indifferent.validateWithin (indifferent : Indifferent references names validator)
    (more : ∀ key, scope'.contains key = (names.contains key || scope.contains key)) :
    validateWithin references bound scope' validator value =
      validateWithin references bound scope validator value := by
  induction indifferent generalizing bound scope scope' with
  | offers all => exact validateWithin_offers all more
  | primitive kind => cases bound <;> rfl
  | array node element => cases bound <;> rfl
  | @group node connective operands _ ih =>
      cases bound with
      | zero => rfl
      | succ bound =>
          refine judge_group_of_operands fun operand member => ih operand member fun key => ?_
          rw [contains_cons, contains_cons, more, Bool.or_left_comm]
  | deferred filled _ ih =>
      cases bound with
      | zero => rfl
      | succ bound =>
          simp only [Validator.validateWithin, judge, filled]
          exact ih more

theorem Indifferent.verdict (indifferent : Indifferent references names validator) :
    Verdict references (names :: scope) validator value passes ↔
      Verdict references scope validator value passes := by
  simp only [Verdict, indifferent.validateWithin (contains_cons names scope)]

end Indifferent

end Validator

end Conform
