import Conform.Proofs.Expr.Printed
import Conform.Proofs.Resolver.Form

/-! The forms of printed expressions. -/

namespace Conform

open Conform.Expr Conform.Text

namespace Expr

variable {allowed : Char → Prop} {text : List Char}

theorem shape_uncut (uncut : cut? text = some ⟨text, []⟩) (some_ : text ≠ []) :
    shape text =
      if let some element := element? text then .ok (.array element)
      else if let some kind := Primitive.ofExpr? text then .ok (.primitive kind)
      else if let some name := partialTarget? text then .ok (.partialOf name)
      else if isRecord text then .ok .record
      else if isName text then .ok .reference
      else .error (.invalidExpression (String.ofList text)) := by
  have visible : text.isEmpty = false := by simpa using some_
  simp only [shape, visible, uncut]
  rfl

theorem Item.uncut (item : Item IsInner text) : cut? text = some ⟨text, []⟩ :=
  cut?_woven item.woven fun _ inner => inner

theorem element?_suffixed (tidy : Tidy text) (some_ : text ≠ []) :
    element? (text ++ ['[', ']']) = some text := by
  have suffix : suffixedElement? (text ++ ['[', ']']) = some text := by
    simp [suffixedElement?]
  simp [element?, suffix, tidy.trim_eq, some_]

theorem element?_none {c d : Char} {rest : List Char} (last : text.getLast? = some d)
    (other : d ≠ ']') (head : text = c :: rest) (notA : c ≠ 'A') : element? text = none := by
  have suffix : suffixedElement? text = none := by
    unfold suffixedElement?
    split
    · rename_i found
      have ends : text.reverse.head? = some d := by simpa using last
      rw [found] at ends
      cases ends
      exact absurd rfl other
    · rfl
  have generic : genericElement? text = none := by
    subst head
    simp [genericElement?, after?, Ne.symm notA]
  simp [element?, suffix, generic]

theorem partialTarget?_none {c : Char} {rest : List Char} (notP : c ≠ 'P') :
    partialTarget? (c :: rest) = none := by
  simp [partialTarget?, after?, Ne.symm notP]

theorem recordParts?_braces (body : List Char) :
    recordParts? ('{' :: (body ++ ['}'])) = some ⟨none, none, body⟩ := by
  have word : (after? "interface".toList ('{' :: (body ++ ['}']))).bind interfaceParts? = none := rfl
  simp only [recordParts?, word, bracedBody?]
  simp

theorem ofExpr?_other {c : Char} {rest : List Char} (other : c ∉ "nsboOau".toList) :
    Primitive.ofExpr? (c :: rest) =
      (literalText? (c :: rest)).map fun text => .literal (String.ofList text) := by
  unfold Primitive.ofExpr?
  split
  case h_9 => rfl
  all_goals
    rename_i same
    have letters := congrArg String.toList same
    simp only [String.toList_ofList, String.reduceToList, List.cons.injEq] at letters
    rw [letters.1] at other
    exact absurd other (by decide)

theorem ofExpr?_mark {c : Char} {rest : List Char} (mark : isNamePart c = false) :
    Primitive.ofExpr? (c :: rest) =
      (literalText? (c :: rest)).map fun text => .literal (String.ofList text) := by
  refine ofExpr?_other fun letter => ?_
  have word : "nsboOau".toList.all isNamePart := by decide
  simp [List.all_eq_true.mp word c letter] at mark

theorem literalText?_quoted {quote : Char} (opens : isQuote quote)
    (open_ : ∀ c ∈ text, c ≠ quote ∧ c ≠ '\n') :
    literalText? (quote :: (text ++ [quote])) = some text := by
  have beyond : (text ++ [quote]).dropWhile (· != quote) = [quote] := by
    rw [List.dropWhile_append_of_pos fun c member => by simpa using (open_ c member).1]
    simp
  have inside : (text ++ [quote]).takeWhile (· != quote) = text := by
    rw [List.takeWhile_append_of_pos fun c member => by simpa using (open_ c member).1]
    simp
  simp [literalText?, opens, beyond, inside]

end Expr

namespace Form

variable {text : List Char}

theorem ofBare_literal {quote : Char} (opens : isQuote quote)
    (open_ : ∀ c ∈ text, c ≠ quote ∧ c ≠ '\n') :
    ofBare (quote :: (text ++ [quote])) = .ok (.primitive (.literal (String.ofList text))) := by
  have mark : isNamePart quote = false ∧ quote ≠ 'A' ∧ quote ≠ ']' := by
    rcases isQuote_cases opens with rfl | rfl <;> decide
  have array : element? (quote :: (text ++ [quote])) = none :=
    element?_none (by rw [← List.cons_append, List.getLast?_concat]) mark.2.2 rfl mark.2.1
  have woven : Woven IsInner (quote :: (text ++ [quote])) := .of_literal opens open_
  rw [ofBare, shape_uncut (cut?_woven woven fun _ inner => inner) (by simp), array, ofExpr?_mark mark.1,
    literalText?_quoted opens open_]
  rfl

theorem ofBare_array (item : Item IsInner text) : ofBare (text ++ ['[', ']']) = .ok (.array text) := by
  have brackets : Woven IsInner ('[' :: ([] ++ [']'])) := .square .nil .nil
  have item' : Item IsInner (text ++ ['[', ']']) :=
    item.append ⟨brackets, .of_visible (by decide), by simp⟩
  rw [ofBare, shape_uncut item'.uncut item'.some_, element?_suffixed item.tidy item.some_]
  rfl

theorem ofBare_record {body : List Char} (item : Item IsInner ('{' :: (body ++ ['}']))) :
    ofBare ('{' :: (body ++ ['}'])) = .ok (.record ⟨none, none, body⟩) := by
  have array : element? ('{' :: (body ++ ['}'])) = none :=
    element?_none (by rw [← List.cons_append, List.getLast?_concat]) (by decide) rfl (by decide)
  have primitive : Primitive.ofExpr? ('{' :: (body ++ ['}'])) = none := by
    rw [ofExpr?_mark (by decide)]
    rfl
  have record : isRecord ('{' :: (body ++ ['}'])) = true := by
    simp [isRecord, recordParts?_braces]
  rw [ofBare, shape_uncut item.uncut item.some_, array, primitive, partialTarget?_none (by decide), record]
  simp only [Except.bind, if_true, ofShape, recordParts?_braces]

theorem operands_interleaved (connective : Connective) (first : List Char) (rest : List (List Char)) :
    Resolve.operands (.operand first :: rest.flatMap fun text =>
      [.operator connective, .operand text]) = first :: rest := by
  induction rest with
  | nil => rfl
  | cons second rest ih => simpa [Resolve.operands] using ih

theorem operators_interleaved (connective : Connective) (first : List Char)
    (rest : List (List Char)) :
    Resolve.operators (.operand first :: rest.flatMap fun text =>
      [.operator connective, .operand text]) = rest.map fun _ => connective := by
  induction rest with
  | nil => rfl
  | cons second rest ih => simpa [Resolve.operators] using ih

theorem mergeAnds_interleaved (connective : Connective) (first : List Char)
    (rest : List (List Char)) :
    mergeAnds (.operand first :: rest.flatMap fun text => [.operator connective, .operand text]) =
      .operand first :: rest.flatMap fun text => [.operator connective, .operand text] := by
  refine if_neg ?_
  rintro ⟨and_, or_⟩
  simp only [List.mem_cons, List.mem_flatMap, List.not_mem_nil, reduceCtorEq, false_or, or_false,
    Token.operator.injEq, exists_and_right] at and_ or_
  exact absurd (and_.2.trans or_.2.symm) (by decide)

theorem ofBare_group (connective : Connective) (first second : List Char) (rest : List (List Char))
    (each : ∀ operand ∈ first :: second :: rest, Item IsInner operand) :
    ofBare (joined connective (first :: second :: rest)) =
      .ok (.group connective (first :: second :: rest)) := by
  obtain ⟨cut, found, _, tail⟩ := cut?_joined connective first (second :: rest) each
  have group : cut.rest.isEmpty = false := by
    cases operators : cut.rest with
    | nil => simp [operators] at tail
    | cons _ _ => rfl
  have some_ : (joined connective (first :: second :: rest)).isEmpty = false := by
    simp [joined]
  have shape : shape (joined connective (first :: second :: rest)) = .ok .group := by
    simp [Expr.shape, some_, found, group]
  rw [ofBare, shape]
  simp only [Except.bind, ofShape, tokens_joined connective first (second :: rest) each,
    mergeAnds_interleaved, ofTokens, operators_interleaved, operands_interleaved]
  simp

end Form

end Conform
