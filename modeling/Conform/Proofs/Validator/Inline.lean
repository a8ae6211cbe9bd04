import Conform.Proofs.Expr.Forms
import Conform.Validator.Render

/-!
Validators that stand for inline types, and the expressions that they are rendered as.
-/

namespace Conform

open Conform.Expr Conform.Text

structure Writable (text : List Char) : Prop where
  quote : '\'' ∉ text ∨ '"' ∉ text
  flat : ∀ c ∈ text, c ≠ '\n' ∧ c ≠ '\r' ∧ c ≠ '\t'
  single : text.IsChain fun c d => ¬(c = ' ' ∧ d = ' ')

structure Field.Declared (strict : Bool) (field : Field Validator) : Prop where
  name : isName field.name.toList
  strict_eq : field.strict = strict
  type : field.type.withoutUndefined? = none
  required : field.type.isUndefined → field.required = false

namespace Validator

/-- Primitives, arrays, groups of two operands or more, and records without a name or a parent. -/
inductive Inline (strict : Bool) : Validator → Prop where
  | primitive {kind : Primitive}
      (writable : ∀ text, kind = .literal text → Writable text.toList) : Inline strict (.primitive kind)
  | array (node : NodeId) {element : Validator} (inline : Inline strict element) :
      Inline strict (.array node element)
  | group (node : NodeId) (connective : Connective) {operands : List Validator}
      (several : 2 ≤ operands.length) (inline : ∀ operand ∈ operands, Inline strict operand) :
      Inline strict (.group node connective operands)
  | record (node : NodeId) {fields : List (Field Validator)} {index : Option Validator}
      (declared : ∀ field ∈ fields, field.Declared strict)
      (inline : ∀ field ∈ fields, Inline strict field.type)
      (inlineIndex : ∀ type ∈ index, Inline strict type) :
      Inline strict (.record ⟨node, none, fields, index⟩ [])

def text (validator : Validator) : List Char :=
  validator.render.toList

def operandText (operand : Validator) : List Char :=
  (parenthesized operand operand.render).toList

theorem operandText_group (node : NodeId) (connective : Connective) (operands : List Validator) :
    (group node connective operands).operandText = parens (group node connective operands).text := by
  simp [operandText, parenthesized, text, parens]

theorem operandText_cases (operand : Validator) :
    operand.operandText = operand.text ∨ operand.operandText = parens operand.text := by
  cases operand with
  | group node connective operands => exact .inr (operandText_group node connective operands)
  | _ => exact .inl rfl

theorem text_array (node : NodeId) (element : Validator) :
    (array node element).text = element.operandText ++ ['[', ']'] := by
  simp [text, render, operandText]

theorem renderOperands_eq (operands : List Validator) :
    (renderOperands operands).map String.toList = operands.map operandText := by
  induction operands with
  | nil => simp [renderOperands]
  | cons first rest ih => simp [renderOperands, operandText, ih]

theorem text_group (node : NodeId) (connective : Connective) (operands : List Validator) :
    (group node connective operands).text = joined connective (operands.map operandText) := by
  simp [text, render, joined, renderOperands_eq]

def fieldTexts (fields : List (Field Validator)) : List (List Char) :=
  fields.map fun field => fieldText field.name.toList (!field.required) field.type.text

def indexTexts (index : Option Validator) : List (List Char) :=
  index.toList.map fun type => indexText type.text

theorem renderFields_eq (fields : List (Field Validator)) :
    (renderFields fields).map String.toList = fieldTexts fields := by
  induction fields with
  | nil => simp [renderFields, fieldTexts]
  | cons first rest ih =>
      obtain ⟨name, required, strict, type⟩ := first
      cases required <;> simp_all [renderFields, renderField, fieldTexts, fieldText, text]

theorem renderIndex_eq (index : Option Validator) :
    (renderIndex index).map String.toList = indexTexts index := by
  cases index <;> simp [renderIndex, indexTexts, indexText, text]

theorem text_record (node : NodeId) (fields : List (Field Validator)) (index : Option Validator) :
    (record ⟨node, none, fields, index⟩ []).text =
      '{' :: (bodyText (fieldTexts fields ++ indexTexts index) ++ ['}']) := by
  have members : (renderFields fields ++ renderIndex index).map String.toList =
      fieldTexts fields ++ indexTexts index := by
    rw [List.map_append, renderFields_eq, renderIndex_eq]
  simp only [text, render, renderHeader, renderLevel]
  rw [← members]
  cases renderFields fields ++ renderIndex index with
  | nil => simp [bodyText]
  | cons first rest => simp [bodyText]

theorem text_literal {text : String} (writable : Writable text.toList) :
    ∃ quote, isQuote quote ∧ quote ∉ text.toList ∧
      (primitive (.literal text)).text = quote :: (text.toList ++ [quote]) := by
  by_cases single : '\'' ∈ text.toList
  · have double : '"' ∉ text.toList := writable.quote.resolve_left (by simp [single])
    refine ⟨'"', by decide, double, ?_⟩
    simp [Validator.text, render, Primitive.text, String.contains_char_eq, single]
  · refine ⟨'\'', by decide, single, ?_⟩
    simp [Validator.text, render, Primitive.text, String.contains_char_eq, single]

theorem printed_primitive {kind : Primitive}
    (writable : ∀ text, kind = .literal text → Writable text.toList) :
    Printed IsOperandPart (primitive kind).text := by
  cases kind with
  | literal text =>
      obtain ⟨quote, opens, absent, shown⟩ := text_literal (writable text rfl)
      obtain ⟨_, flat, single⟩ := writable text rfl
      rw [shown]
      refine printed_literal opens (fun c member => ⟨?_, (flat c member).1⟩) flat single
      rintro rfl
      exact absent member
  | _ => exact printed_word (by decide) (by decide) (by decide)

variable {strict : Bool} {validator : Validator}

structure Shown (validator : Validator) : Prop where
  printed : Printed IsMemberPart validator.text
  operand : Operand validator.operandText

theorem shown_of_printed (printed : Printed IsOperandPart validator.text)
    (same : validator.operandText = validator.text) : Shown validator where
  printed := printed.mono fun _ part => part.2
  operand := by
    rw [same]
    exact printed.operand

theorem item_fieldTexts {fields : List (Field Validator)} {index : Option Validator}
    (declared : ∀ field ∈ fields, field.Declared strict) (shown : ∀ field ∈ fields, Shown field.type)
    (shownIndex : ∀ type ∈ index, Shown type) :
    ∀ member ∈ fieldTexts fields ++ indexTexts index, Item IsMemberPart member := by
  intro member among
  rcases List.mem_append.mp among with inFields | inIndex
  · obtain ⟨field, inside, rfl⟩ := List.mem_map.mp inFields
    exact .field (declared field inside).name (shown field inside).printed.toItem _
  · obtain ⟨type, inside, rfl⟩ := List.mem_map.mp inIndex
    exact .index (shownIndex type (by simpa using inside)).printed.toItem

theorem Inline.shown (inline : Inline strict validator) : Shown validator := by
  induction inline with
  | primitive writable => exact shown_of_printed (printed_primitive writable) rfl
  | array node _ ih =>
      refine shown_of_printed ?_ rfl
      rw [text_array]
      exact ih.operand.array
  | @group node connective operands several _ ih =>
      have printed : Printed IsMemberPart (Validator.group node connective operands).text := by
        have each : ∀ text ∈ operands.map operandText, Operand text :=
          List.forall_mem_map.mpr fun operand member => (ih operand member).operand
        rw [text_group]
        match operands, several with
        | _ :: _ :: _, _ => exact printed_joined connective _ _ _ each
      refine ⟨printed, ?_⟩
      rw [operandText_group]
      exact printed.operand_parens
  | record node declared _ _ ih ihIndex =>
      refine shown_of_printed ?_ rfl
      rw [text_record]
      exact printed_braces (item_fieldTexts declared ih ihIndex)

def form : Validator → Form
  | primitive kind => .primitive kind
  | array _ element => .array element.operandText
  | group _ connective operands => .group connective (operands.map operandText)
  | record own _ => .record ⟨none, none, bodyText (fieldTexts own.fields ++ indexTexts own.index)⟩
  | deferred name _ => .reference name.toList

theorem ofBare_primitive {kind : Primitive}
    (writable : ∀ text, kind = .literal text → Writable text.toList) :
    Form.ofBare (primitive kind).text = .ok (.primitive kind) := by
  have printed := printed_primitive writable
  cases kind with
  | literal text =>
      obtain ⟨quote, opens, absent, shown⟩ := text_literal (writable text rfl)
      rw [shown] at printed ⊢
      rw [Form.ofBare_literal opens fun c member => ⟨?_, ((writable text rfl).flat c member).1⟩]
      · simp
      · rintro rfl
        exact absent member
  | _ => rfl

theorem Inline.ofBare_text (inline : Inline strict validator) :
    Form.ofBare validator.text = .ok validator.form := by
  cases inline with
  | primitive writable => exact ofBare_primitive writable
  | array node inline =>
      rw [text_array, Form.ofBare_array (inline.shown.operand.toItem.mono fun _ part => part.1)]
      rfl
  | @group node connective operands several inline =>
      have each : ∀ text ∈ operands.map operandText, Item IsInner text :=
        List.forall_mem_map.mpr fun operand member =>
          (inline operand member).shown.operand.toItem.mono fun _ part => part.1
      rw [text_group]
      match operands, several with
      | _ :: _ :: _, _ => exact Form.ofBare_group connective _ _ _ each
  | record node declared inline inlineIndex =>
      have printed := printed_braces (item_fieldTexts declared
        (fun field member => (inline field member).shown)
        fun type member => (inlineIndex type member).shown)
      rw [text_record, Form.ofBare_record (printed.toItem.mono fun _ part => part.1)]
      rfl

/-- With or without parentheses, the text is read as the validator that it was rendered from. -/
theorem Inline.read (inline : Inline strict validator) :
    Form.read validator.text = .ok validator.form ∧
      Form.read validator.operandText = .ok validator.form := by
  have printed := inline.shown.printed
  have alone : Form.read validator.text = .ok validator.form := by
    rw [Form.read, printed.bare_eq, inline.ofBare_text]
  refine ⟨alone, ?_⟩
  rcases operandText_cases validator with same | same
  · rw [same]
    exact alone
  · rw [same, Form.read, printed.bare_parens, inline.ofBare_text]

end Validator

end Conform
