import Conform.Proofs.Resolver.History
import Conform.Proofs.Validator.Inline
import Conform.Proofs.Validator.Unnumbered

/-!
Resolving what a validator is rendered as. For inline types this gives the validator back, the numbers
of its nodes apart.
-/

namespace Conform

open Conform.Expr Conform.Text

theorem length_le_intercalate (separator : List Char) {item : List Char} {items : List (List Char)}
    (among : item ∈ items) : item.length ≤ (separator.intercalate items).length := by
  induction items with
  | nil => cases among
  | cons first rest ih =>
      cases rest with
      | nil => simp_all
      | cons second rest =>
          rw [List.intercalate_cons_cons, List.length_append, List.length_append]
          rcases List.mem_cons.mp among with rfl | later
          · omega
          · have := ih later
            omega

namespace Validator

theorem length_text_le (validator : Validator) :
    validator.text.length ≤ validator.operandText.length := by
  rcases operandText_cases validator with same | same
  · rw [same]
  · simp only [same, parens, List.length_cons, List.length_append]
    omega

theorem length_operand_lt (node : NodeId) (connective : Connective) {operands : List Validator}
    (several : 2 ≤ operands.length) {operand : Validator} (among : operand ∈ operands) :
    operand.text.length < (group node connective operands).text.length := by
  have shorter := length_text_le operand
  have inText := List.mem_map_of_mem (f := operandText) among
  rw [text_group]
  unfold joined
  match operands, several with
  | first :: second :: rest, _ =>
      simp only [List.map_cons] at inText ⊢
      rw [List.intercalate_cons_cons, List.length_append, List.length_append]
      rcases List.mem_cons.mp inText with same | later
      · rw [← same]
        simp
        omega
      · have := length_le_intercalate [' ', connective.symbol, ' '] later
        simp at this ⊢
        omega

theorem length_bodyText {text : List Char} {texts : List (List Char)} (among : text ∈ texts) :
    text.length ≤ (bodyText texts).length := by
  cases texts with
  | nil => cases among
  | cons first rest =>
      have := length_le_intercalate [';', ' '] among
      simp only [bodyText, List.length_cons, List.length_append]
      omega

theorem length_field_lt (node : NodeId) {fields : List (Field Validator)} (index : Option Validator)
    {field : Field Validator} (among : field ∈ fields) :
    field.type.text.length < (record ⟨node, none, fields, index⟩ []).text.length := by
  have inBody : fieldText field.name.toList (!field.required) field.type.text ∈
      fieldTexts fields ++ indexTexts index :=
    List.mem_append_left _ (List.mem_map_of_mem among)
  have := length_bodyText inBody
  rw [text_record]
  simp only [fieldText, List.length_append, List.length_cons] at this ⊢
  omega

theorem length_index_lt (node : NodeId) (fields : List (Field Validator)) (type : Validator) :
    type.text.length < (record ⟨node, none, fields, some type⟩ []).text.length := by
  have inBody : indexText type.text ∈ fieldTexts fields ++ indexTexts (some type) :=
    List.mem_append_right _ (by simp [indexTexts])
  have := length_bodyText inBody
  rw [text_record]
  simp only [indexText, List.length_append, List.length_cons] at this ⊢
  omega

end Validator

namespace Resolve

variable {strict : Bool}

def GivesBack (strict : Bool) (validator : Validator) (action : Resolve Validator) : Prop :=
  ∀ before : Resolver, before.options.strict = strict →
    Meets action before
      (fun found after => found.unnumbered = validator.unnumbered ∧ after.options.strict = strict)
      fun _ _ => False

theorem resolveEach_givesBack {below : Below} {site : Site} {operands : List Validator}
    (each : ∀ operand ∈ operands, GivesBack strict operand (below site operand.operandText))
    (before : Resolver) (state : before.options.strict = strict) :
    Meets (resolveEach below site (operands.map Validator.operandText)) before
      (fun found after => found.map Validator.unnumbered = operands.map Validator.unnumbered ∧
        after.options.strict = strict)
      fun _ _ => False := by
  induction operands generalizing before with
  | nil => exact ⟨rfl, state⟩
  | cons first rest ih =>
      simp only [List.map_cons, resolveEach, meets_bind, meets_pure]
      refine (each first (by simp) before state).mono ?_ fun _ _ never => never
      rintro found middle ⟨same, state'⟩
      refine (ih (fun operand among => each operand (by simp [among])) middle state').mono ?_
        fun _ _ never => never
      rintro others after ⟨same', state''⟩
      exact ⟨by simp only [same, same'], state''⟩

theorem unnumbered_make {field : Field Validator} {found : Validator} (node : NodeId)
    (declared : field.Declared strict) (same : found.unnumbered = field.type.unnumbered) :
    Validator.unnumberedField
        (Field.make node (String.ofList field.name.toList) (!field.required) strict found) =
      Validator.unnumberedField field := by
  have noUnion : found.withoutUndefined? = none := by
    have both := Validator.withoutUndefined?_unnumbered found
    rw [same, Validator.withoutUndefined?_unnumbered, declared.type] at both
    simpa using both.symm
  have undefined : found.isUndefined = field.type.isUndefined := by
    rw [← Validator.isUndefined_unnumbered, same, Validator.isUndefined_unnumbered]
  have required : (!(!field.required) && !field.type.isUndefined) = field.required := by
    cases absent : field.type.isUndefined with
    | false => simp
    | true => simp [declared.required absent]
  obtain ⟨name, _, _, type⟩ := field
  simp only [Field.make, noUnion, undefined, required, String.ofList_toList]
  simp only [Validator.unnumberedField, same, declared.strict_eq.symm]

theorem resolveMembers_givesBack {below : Below} {site : Site} {fields : List (Field Validator)}
    {index : Option Validator} (declared : ∀ field ∈ fields, field.Declared strict)
    (shown : ∀ field ∈ fields, Validator.Shown field.type) (shownIndex : ∀ type ∈ index, type.Shown)
    (each : ∀ field ∈ fields, GivesBack strict field.type (resolveNested below site field.type.text))
    (last : ∀ type ∈ index, GivesBack strict type (resolveNested below site type.text))
    (before : Resolver) (state : before.options.strict = strict) :
    Meets (resolveMembers below site (Validator.fieldTexts fields ++ Validator.indexTexts index)) before
      (fun found after =>
        Validator.unnumberedFields found.1 = Validator.unnumberedFields fields ∧
          Validator.unnumberedIndex found.2 = Validator.unnumberedIndex index ∧
            after.options.strict = strict)
      fun _ _ => False := by
  induction fields generalizing before with
  | nil =>
      cases index with
      | none => exact ⟨rfl, rfl, state⟩
      | some type =>
          have read := member?_index (shownIndex type rfl).printed.toItem
          simp only [Validator.fieldTexts, Validator.indexTexts, List.map_nil, List.nil_append,
            Option.toList_some, List.map_cons, resolveMembers, read, meets_bind, meets_pure]
          refine (last type rfl before state).mono ?_ fun _ _ never => never
          rintro found after ⟨same, state'⟩
          exact ⟨trivial, by simp [Validator.unnumberedIndex, same], state'⟩
  | cons field rest ih =>
      have declared' := declared field (by simp)
      have read := member?_field declared'.name (shown field (by simp)).printed.toItem
        (!field.required)
      simp only [Validator.fieldTexts, List.map_cons, List.cons_append, resolveMembers, read,
        meets_bind, meets_get, meets_freshId, meets_pure]
      refine (each field (by simp) before state).mono ?_ fun _ _ never => never
      rintro found middle ⟨same, state'⟩
      refine (ih (fun field among => declared field (by simp [among]))
        (fun field among => shown field (by simp [among]))
        (fun field among => each field (by simp [among]))
        { middle with nextId := middle.nextId + 1 } state').mono ?_ fun _ _ never => never
      rintro ⟨fields', index'⟩ after ⟨sameFields, sameIndex, state''⟩
      refine ⟨?_, sameIndex, state''⟩
      simp only [Validator.unnumberedFields, state', unnumbered_make _ declared' same, sameFields]

theorem resolveWithin_of_form {validator : Validator} {bound : Nat} {site : Site} {expr : List Char}
    (enough : validator.text.length < bound) (read : Form.read expr = .ok validator.form)
    (form : ∀ smaller, validator.text.length ≤ smaller →
      GivesBack strict validator (resolveForm (resolveWithin smaller) site validator.form)) :
    GivesBack strict validator (resolveWithin bound site expr) := by
  obtain ⟨smaller, rfl⟩ : ∃ smaller, bound = smaller + 1 := ⟨bound - 1, by omega⟩
  intro before state
  rw [resolveWithin, resolveStep_eq, read, ofExcept_ok_bind]
  exact form smaller (by omega) before state

/-- By induction on the validator: its parts have shorter texts, so the bound never ends the
resolution. -/
theorem resolveWithin_givesBack {validator : Validator} (inline : validator.Inline strict)
    {bound : Nat} (site : Site) {expr : List Char} (enough : validator.text.length < bound)
    (read : Form.read expr = .ok validator.form) :
    GivesBack strict validator (resolveWithin bound site expr) := by
  induction inline generalizing bound site expr with
  | primitive _ =>
      refine resolveWithin_of_form enough read fun smaller _ before state => ?_
      exact ⟨rfl, state⟩
  | @array node element inline ih =>
      refine resolveWithin_of_form enough read fun smaller atMost before state => ?_
      have shorter : element.text.length < smaller := by
        have := element.length_text_le
        rw [Validator.text_array, List.length_append] at atMost
        simp at atMost
        omega
      simp only [Validator.form, resolveForm, resolveNested, meets_bind, meets_freshId, meets_pure]
      refine (ih _ shorter inline.read.2 { before with nextId := before.nextId + 1 } state).mono ?_
        fun _ _ never => never
      rintro found after ⟨same, state'⟩
      exact ⟨by simp only [Validator.unnumbered, same], state'⟩
  | @group node connective operands several inline ih =>
      refine resolveWithin_of_form enough read fun smaller atMost before state => ?_
      have each : ∀ operand ∈ operands,
          GivesBack strict operand (resolveWithin smaller site operand.operandText) := by
        intro operand among
        have shorter := Validator.length_operand_lt node connective several among
        exact ih operand among site (by omega) (inline operand among).read.2
      simp only [Validator.form, resolveForm, meets_bind, meets_freshId, meets_pure]
      refine (resolveEach_givesBack each before state).mono ?_ fun _ _ never => never
      rintro found after ⟨same, state'⟩
      exact ⟨by simp only [Validator.unnumbered, Validator.unnumberedEach_eq, same], state'⟩
  | @record node fields index declared inline inlineIndex ih ihIndex =>
      refine resolveWithin_of_form enough read fun smaller atMost before state => ?_
      have shown (field : Field Validator) (among : field ∈ fields) := (inline field among).shown
      have shownIndex (type : Validator) (among : type ∈ index) := (inlineIndex type among).shown
      have each : ∀ field ∈ fields,
          GivesBack strict field.type (resolveNested (resolveWithin smaller) site field.type.text) := by
        intro field among
        have shorter := Validator.length_field_lt node index among
        exact ih field among _ (by omega) (inline field among).read.1
      have last : ∀ type ∈ index,
          GivesBack strict type (resolveNested (resolveWithin smaller) site type.text) := by
        rintro type ⟨⟩
        have shorter := Validator.length_index_lt node fields type
        exact ihIndex type rfl _ (by omega) (inlineIndex type rfl).read.1
      simp only [Validator.form, resolveForm, resolveParts, resolveParent, meets_bind, meets_pure,
        members_bodyText (Validator.item_fieldTexts declared shown shownIndex)]
      refine (resolveMembers_givesBack declared shown shownIndex each last before state).mono ?_
        fun _ _ never => never
      rintro ⟨fields', index'⟩ after ⟨sameFields, sameIndex, state'⟩
      simp only [meets_freshId]
      refine ⟨?_, state'⟩
      simp only [Validator.unnumbered, Validator.unnumberedLevel, sameFields, sameIndex,
        Option.map_none]

end Resolve

namespace Resolver

theorem length_lt_nestingLimit (resolver : Resolver) (expr : List Char) :
    expr.length < resolver.nestingLimit expr := by
  have longest : expr.length ≤ resolver.longest expr := by
    have grows : ∀ (lengths : List Nat) (start : Nat), start ≤ lengths.foldl max start := by
      intro lengths
      induction lengths with
      | nil => exact fun start => Nat.le_refl start
      | cons first rest ih => exact fun start => (Nat.le_max_left start first).trans (ih _)
    unfold longest
    rw [List.foldl_cons]
    exact (Nat.le_max_right 0 _).trans (grows _ _)
  have atLeast : resolver.longest expr + 2 ≤ resolver.nestingLimit expr :=
    Nat.le_mul_of_pos_left _ (by omega)
  omega

/-- What an inline type is rendered as resolves, without a file and in every state of a resolver, to a
validator that differs in the numbers of its nodes only; so the names on offer are the same as well. -/
theorem resolve_render {resolver : Resolver} {validator : Validator}
    (inline : validator.Inline resolver.options.strict) :
    ∃ found after, resolver.resolve validator.render none = (some (.ok found), after) ∧
      found.unnumbered = validator.unnumbered ∧ found.offeredNames = validator.offeredNames := by
  have gives : Resolve.Meets (resolver.resolution validator.render none) resolver
      (fun found _ => found.1.unnumbered = validator.unnumbered) fun _ _ => False := by
    have enough := resolver.length_lt_nestingLimit validator.text
    unfold resolution Resolve.inOrder
    rw [Resolve.meets_tryCatch]
    simp only [Resolve.meets_bind, Resolve.meets_pure]
    refine (Resolve.resolveWithin_givesBack inline _ enough inline.read.1 _ rfl).mono ?_
      fun _ _ never => never.elim
    exact fun found after same => same.1
  rcases resolve_of_meets gives with ⟨found, after, _, ended, same⟩ | ⟨_, _, _, _, never⟩ |
    ⟨_, _, never⟩
  · refine ⟨found, after, ended, same, ?_⟩
    rw [← Validator.offeredNames_unnumbered, same, Validator.offeredNames_unnumbered]
  · exact never.elim
  · exact never.elim

def tagged : Validator :=
  .record ⟨7, none,
    [⟨"id", true, false, .primitive .number⟩,
      ⟨"tags", false, false, .array 5
        (.group 4 .or [.primitive (.literal "it's"), .primitive (.literal "a|b")])⟩],
    some (.group 6 .and [.primitive .any, .primitive .string])⟩ []

theorem tagged_inline : tagged.Inline false := by
  have literal (text : String) (writable : Writable text.toList) :
      (Validator.primitive (.literal text)).Inline false :=
    .primitive fun _ same => by cases same; exact writable
  have word (kind : Primitive) (noLiteral : kind.isLiteral = false) :
      (Validator.primitive kind).Inline false := by
    refine .primitive fun text same => ?_
    rw [same] at noLiteral
    cases noLiteral
  have tags : (Validator.group 4 .or
      [.primitive (.literal "it's"), .primitive (.literal "a|b")]).Inline false := by
    refine .group 4 .or (by decide) ?_
    simp only [List.mem_cons, List.not_mem_nil, or_false, forall_eq_or_imp, forall_eq]
    exact ⟨literal _ ⟨by decide, by simp, by simp⟩, literal _ ⟨by decide, by simp, by simp⟩⟩
  refine .record 7 ?_ ?_ ?_
  · simp only [List.mem_cons, List.not_mem_nil, or_false, forall_eq_or_imp, forall_eq]
    exact ⟨⟨by decide, rfl, rfl, by decide⟩, ⟨by decide, rfl, rfl, by decide⟩⟩
  · simp only [List.mem_cons, List.not_mem_nil, or_false, forall_eq_or_imp, forall_eq]
    exact ⟨word .number rfl, .array 5 tags⟩
  · rintro type ⟨⟩
    refine .group 6 .and (by decide) ?_
    simp only [List.mem_cons, List.not_mem_nil, or_false, forall_eq_or_imp, forall_eq]
    exact ⟨word .any rfl, word .string rfl⟩

theorem resolve_render_tagged :
    ∃ found after, (fresh {} (.ofList [])).resolve
        "\x7b id: number; tags?: (\"it's\" | 'a|b')[]; [key: string]: any & string \x7d" none =
        (some (.ok found), after) ∧
      found.unnumbered = tagged.unnumbered ∧ found.offeredNames = ["id", "tags"] := by
  have shown : tagged.render =
      "\x7b id: number; tags?: (\"it's\" | 'a|b')[]; [key: string]: any & string \x7d" := by
    simp [tagged, Validator.render, Validator.renderHeader, Validator.renderLevel,
      Validator.renderFields, Validator.renderField, Validator.renderIndex, Validator.renderOperands,
      Validator.parenthesized, Primitive.text, Connective.symbol, String.contains_char_eq]
  have names : tagged.offeredNames = ["id", "tags"] := by decide +kernel
  rw [← shown, ← names]
  exact resolve_render tagged_inline

end Resolver

end Conform
