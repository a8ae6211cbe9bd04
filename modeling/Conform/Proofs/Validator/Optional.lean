import Conform.Proofs.Validator.Formula

/-!
Fields whose type is a union with `undefined`. The field needs no value, and what is left of the union
without `undefined` makes of a value that is there what the whole union makes of it: whether nothing is
left, one operand that has lost the scope of its group, or a union that may have become one of literals.
-/

namespace Conform.Validator

section Filter

variable {α : Type} {check check' : α → Option Outcome} {items : List α} {accepted : Bool}

theorem anySuccess_filter (kept : α → Bool)
    (refused : ∀ item, kept item = false → ∀ outcome, check item = some outcome →
      outcome.isSuccess = false)
    (ended : anySuccess check items = some accepted) :
    anySuccess check (items.filter kept) = some accepted := by
  induction items with
  | nil => exact ended
  | cons item rest ih =>
      obtain ⟨outcome, judged, onward⟩ := Option.bind_eq_some_iff.mp ended
      cases keep : kept item with
      | true =>
          rw [List.filter_cons_of_pos keep, anySuccess, judged]
          by_cases success : outcome.isSuccess
          · simpa [success] using onward
          · simp only [success] at onward
            simpa [success] using ih onward
      | false =>
          have fails := refused item keep outcome judged
          simp only [fails] at onward
          rw [List.filter_cons_of_neg (by simp [keep])]
          exact ih onward

theorem anySuccess_of_filter (kept : α → Bool)
    (same : ∀ item outcome, check item = some outcome → check' item = some outcome)
    (refused : ∀ item, kept item = false → ∃ outcome, check' item = some outcome ∧
      outcome.isSuccess = false)
    (ended : anySuccess check (items.filter kept) = some accepted) :
    anySuccess check' items = some accepted := by
  induction items with
  | nil => exact ended
  | cons item rest ih =>
      cases keep : kept item with
      | true =>
          rw [List.filter_cons_of_pos keep] at ended
          obtain ⟨outcome, judged, onward⟩ := Option.bind_eq_some_iff.mp ended
          rw [anySuccess, same item outcome judged]
          by_cases success : outcome.isSuccess
          · simpa [success] using onward
          · simp only [success] at onward
            simpa [success] using ih onward
      | false =>
          rw [List.filter_cons_of_neg (by simp [keep])] at ended
          obtain ⟨outcome, judged, fails⟩ := refused item keep
          rw [anySuccess, judged]
          simpa [fails] using ih ended

end Filter

variable {references : References} {scope : Scope} {item : Json} {passes : Bool} {node node' : NodeId}
  {operands : List Validator}

theorem verdict_union {value : Option Json} : Verdict references scope (.group node .or operands) value passes ↔
    ∃ bound, anySuccess (fun operand =>
      validateWithin references bound (groupNames operands :: scope) operand value) operands =
        some passes := by
  rw [verdict_group]
  constructor
  · rintro ⟨bound, outcome, ended, rfl⟩
    rw [judgeGroup_or] at ended
    obtain ⟨accepted, judged, rfl⟩ := Option.map_eq_some_iff.mp ended
    refine ⟨bound, ?_⟩
    cases accepted with
    | false => rwa [if_neg Bool.false_ne_true, rejection_fails]
    | true => exact judged
  · rintro ⟨bound, judged⟩
    refine ⟨bound, if passes then .success else rejection .or operands, ?_, ?_⟩
    · rw [judgeGroup_or, judged]
      rfl
    · cases passes with
      | false => exact rejection_fails _ _
      | true => rfl

theorem contains_groupNames_filter (scope : Scope) (key : String) :
    Scope.contains (groupNames (operands.filter fun operand => !operand.isUndefined) :: scope) key =
      Scope.contains (groupNames operands :: scope) key := by
  rw [Bool.eq_iff_iff]
  simp only [contains_cons, Bool.or_eq_true, List.contains_eq_mem, decide_eq_true_eq, mem_groupNames,
    List.mem_filter, Bool.not_eq_true']
  refine or_congr_left ⟨?_, ?_⟩
  · rintro ⟨operand, ⟨member, _⟩, offered⟩
    exact ⟨operand, member, offered⟩
  · rintro ⟨operand, member, offered⟩
    refine ⟨operand, ⟨member, ?_⟩, offered⟩
    unfold isUndefined
    split
    · simp [offeredNames] at offered
    · rfl

theorem verdict_filter : Verdict references scope
      (.group node .or (operands.filter fun operand => !operand.isUndefined)) (some item) passes ↔
    Verdict references scope (.group node' .or operands) (some item) passes := by
  have undefined (bound : Nat) (scope : Scope) {operand : Validator}
      (dropped : (!operand.isUndefined) = false) :
      validateWithin references (bound + 1) scope operand (some item) = some (.leaf .notUndefined) := by
    rw [Bool.not_eq_false'] at dropped
    unfold isUndefined at dropped
    split at dropped
    · rfl
    · cases dropped
  have same (bound : Nat) (operand : Validator) : validateWithin references bound
        (groupNames (operands.filter fun operand => !operand.isUndefined) :: scope) operand (some item) =
      validateWithin references bound (groupNames operands :: scope) operand (some item) :=
    validateWithin_of_same (contains_groupNames_filter scope)
  rw [verdict_union, verdict_union]
  simp only [same]
  constructor
  · rintro ⟨bound, judged⟩
    refine ⟨bound + 1, anySuccess_of_filter _ ?_ ?_ judged⟩
    · exact fun operand outcome found => validateWithin_of_le found (Nat.le_succ bound) fun _ => rfl
    · exact fun operand dropped => ⟨_, undefined bound _ dropped, rfl⟩
  · rintro ⟨bound, judged⟩
    refine ⟨bound, anySuccess_filter _ ?_ judged⟩
    intro operand dropped outcome found
    have known := validateWithin_of_le found (Nat.le_succ bound) fun _ => rfl
    rw [undefined bound _ dropped] at known
    cases known
    rfl

/-- A union of one operand has given it only names that the operand offers itself. -/
theorem verdict_single {operand : Validator} {value : Option Json} :
    Verdict references scope (.group node .or [operand]) value passes ↔
      Verdict references scope operand value passes := by
  have offers : Indifferent references (groupNames [operand]) operand := by
    refine .offers fun name member => ?_
    obtain ⟨_, among, offered⟩ := mem_groupNames.mp member
    rwa [List.mem_singleton.mp among] at offered
  rw [verdict_union, ← offers.verdict]
  constructor
  · rintro ⟨bound, judged⟩
    obtain ⟨outcome, found, onward⟩ := Option.bind_eq_some_iff.mp judged
    refine ⟨bound, outcome, found, ?_⟩
    cases success : outcome.isSuccess with
    | false => simpa [success, anySuccess] using onward
    | true => simpa [success] using onward
  · rintro ⟨bound, outcome, found, rfl⟩
    refine ⟨bound, ?_⟩
    cases success : outcome.isSuccess <;> simp [anySuccess, found, success]

inductive Rest (node : NodeId) : List Validator → Validator → Prop where
  | nothing : Rest node [] (.primitive .undefined)
  | single (operand : Validator) : Rest node [operand] operand
  | union (operands : List Validator) : Rest node operands (.group node .or operands)

theorem make_union (name : String) (optional strict : Bool) (named : operands.any isUndefined) :
    ∃ type, Field.make node name optional strict (.group node' .or operands) =
        ⟨name, false, strict, type⟩ ∧
      Rest node (operands.filter fun operand => !operand.isUndefined) type := by
  simp only [Field.make, withoutUndefined?, named, if_true]
  split
  · rename_i left
    rw [Option.some.inj left]
    exact ⟨_, rfl, .nothing⟩
  · rename_i operand left
    rw [Option.some.inj left]
    exact ⟨_, rfl, .single operand⟩
  · rename_i left
    rw [Option.some.inj left]
    exact ⟨_, rfl, .union _⟩
  · rename_i left
    cases left

theorem Rest.verdict {rest : List Validator} {type : Validator} (left : Rest node rest type) :
    Verdict references scope type (some item) passes ↔
      Verdict references scope (.group node .or rest) (some item) passes := by
  cases left with
  | nothing =>
      have refused : Verdict references scope (.primitive .undefined) (some item) passes ↔
          passes = false := by
        constructor
        · rintro ⟨bound, outcome, found, rfl⟩
          cases bound with
          | zero => cases found
          | succ bound =>
              cases found
              rfl
        · rintro rfl
          exact ⟨1, _, rfl, rfl⟩
      rw [refused, verdict_union]
      constructor
      · rintro rfl
        exact ⟨0, rfl⟩
      · rintro ⟨_, judged⟩
        exact (Option.some.inj judged).symm
  | single operand => exact verdict_single.symm
  | union operands => rfl

theorem Rest.guarded {rest : List Validator} {type : Validator} (left : Rest node rest type)
    (among : ∀ operand ∈ rest, operand ∈ operands)
    (guarded : Guarded references (.group node' .or operands)) : Guarded references type := by
  have inner {operand part : Validator} (member : operand ∈ rest)
      (reaches : Reaches references operand part) : ¬Relation.TransGen (SameValue references) part part :=
    guarded part (.head (.operand (among operand member)) reaches)
  cases left with
  | nothing =>
      intro part reaches cycle
      rcases Relation.ReflTransGen.cases_head reaches with rfl | ⟨_, step, _⟩
      · obtain ⟨_, step, _⟩ := Relation.TransGen.head'_iff.mp cycle
        cases step
      · cases step
  | single operand => exact fun part reaches => inner List.mem_cons_self reaches
  | union operands =>
      intro part reaches cycle
      rcases Relation.ReflTransGen.cases_head reaches with rfl | ⟨_, step, further⟩
      · -- A cycle through the union passes through one of its operands.
        obtain ⟨_, step, back⟩ := Relation.TransGen.head'_iff.mp cycle
        cases step with
        | operand member => exact inner member .refl (.tail' back (.operand member))
      · cases step with
        | operand member => exact inner member further cycle

def FieldVerdict (references : References) (field : Field Validator) (value : Option Json)
    (passes : Bool) : Prop :=
  ∃ bound outcome, judgeField (validateWithin references bound) field value = some outcome ∧
    outcome.isSuccess = passes

section OptionalField

variable {name : String} {strict : Bool} {type : Validator}

theorem judgeField_spared {below : Judgement} (spared : item = .null ∧ strict = false) :
    judgeField below ⟨name, false, strict, type⟩ (some item) = some .success := by
  obtain ⟨rfl, rfl⟩ := spared
  rfl

theorem judgeField_seen {below : Judgement} (seen : ¬(item = .null ∧ strict = false)) :
    judgeField below ⟨name, false, strict, type⟩ (some item) = below [] type (some item) :=
  judgeField_eq_below fun spared => seen spared.2

theorem fieldVerdict_some :
    FieldVerdict references ⟨name, false, strict, type⟩ (some item) passes ↔
      (item = .null ∧ strict = false ∧ passes = true) ∨
        (¬(item = .null ∧ strict = false) ∧ Verdict references [] type (some item) passes) := by
  by_cases spared : item = .null ∧ strict = false
  · have success : FieldVerdict references ⟨name, false, strict, type⟩ (some item) passes ↔
        passes = true := by
      simp only [FieldVerdict, judgeField_spared spared, Option.some.injEq, exists_eq_left',
        exists_const]
      exact eq_comm
    rw [success]
    constructor
    · exact fun passed => .inl ⟨spared.1, spared.2, passed⟩
    · rintro (⟨_, _, passed⟩ | ⟨seen, _⟩)
      · exact passed
      · exact absurd spared seen
  · have same : FieldVerdict references ⟨name, false, strict, type⟩ (some item) passes ↔
        Verdict references [] type (some item) passes := by
      simp only [FieldVerdict, judgeField_seen spared, Verdict]
    rw [same, or_iff_right fun taken => spared ⟨taken.1, taken.2.1⟩, and_iff_right spared]

end OptionalField

/-- A field whose type is a union with `undefined` needs no value. It makes of a value what the whole
union makes of it, except that it takes `null` for none unless it is strict. Where the union is guarded,
both come to an end. -/
theorem union_with_undefined (references : References) (node node' : NodeId) (name : String)
    (optional strict : Bool) {operands : List Validator} (named : operands.any isUndefined) :
    let union := Validator.group node' .or operands
    let field := Field.make node name optional strict union
    field.required = false ∧ (∀ below, judgeField below field none = some .success) ∧
      (∀ item passes, FieldVerdict references field (some item) passes ↔
        (item = .null ∧ strict = false ∧ passes = true) ∨
          (¬(item = .null ∧ strict = false) ∧ Verdict references [] union (some item) passes)) ∧
      (Guarded references union → ∀ item, ∃ outcome outcome',
        validateField references field (some item) = some outcome ∧
          validate references union (some item) = some outcome' ∧
          (outcome.isSuccess ↔ (item = .null ∧ strict = false) ∨ outcome'.isSuccess)) := by
  intro union field
  obtain ⟨type, field_eq, left⟩ : ∃ type, field = ⟨name, false, strict, type⟩ ∧
      Rest node (operands.filter fun operand => !operand.isUndefined) type :=
    make_union name optional strict named
  have same (item : Json) (passes : Bool) : Verdict references [] type (some item) passes ↔
      Verdict references [] union (some item) passes :=
    left.verdict.trans verdict_filter
  rw [field_eq]
  refine ⟨rfl, fun _ => rfl, fun item passes => ?_, fun guarded item => ?_⟩
  · rw [fieldVerdict_some, same]
  · have among : ∀ operand ∈ operands.filter (fun operand => !operand.isUndefined), operand ∈ operands :=
      fun operand member => (List.mem_filter.mp member).1
    obtain ⟨outcome, found⟩ := Option.isSome_iff_exists.mp
      (validateIn_isSome (left.guarded among guarded) [] (some item))
    obtain ⟨outcome', found'⟩ := Option.isSome_iff_exists.mp (validateIn_isSome guarded [] (some item))
    have agree : outcome.isSuccess = outcome'.isSuccess := by
      have verdict : Verdict references [] union (some item) outcome.isSuccess :=
        (same item _).mp ⟨_, outcome, found, rfl⟩
      exact Verdict.unique ⟨_, outcome', found', rfl⟩ verdict
    rw [validateField]
    by_cases spared : item = .null ∧ strict = false
    · exact ⟨.success, outcome', judgeField_spared spared, found', by simp [spared, Outcome.isSuccess,
        Outcome.success, Outcome.code]⟩
    · refine ⟨outcome, outcome', (judgeField_seen spared).trans found, found', ?_⟩
      rw [agree, or_iff_right spared]

def belowTree : List Validator := [.primitive .undefined, .deferred "Tree" 0, .primitive .undefined]

theorem union_with_undefined_tree :
    belowTree.any isUndefined ∧ Guarded trees (.group 5 .or belowTree) ∧
      ∃ outcome outcome',
        validateField trees (Field.make 4 "next" false true (.group 5 .or belowTree))
          (some (.object [("kids", .array [])])) = some outcome ∧
        validate trees (.group 5 .or belowTree) (some (.object [("kids", .array [])])) = some outcome' ∧
        (outcome.isSuccess ↔ outcome'.isSuccess) := by
  have named : belowTree.any isUndefined := rfl
  have guarded : Guarded trees (.group 5 .or belowTree) := guarded_trees _
  obtain ⟨_, _, _, ends⟩ := union_with_undefined trees 4 5 "next" false true named
  obtain ⟨outcome, outcome', found, found', same⟩ := ends guarded (.object [("kids", .array [])])
  exact ⟨named, guarded, outcome, outcome', found, found', by simpa using same⟩

end Conform.Validator
