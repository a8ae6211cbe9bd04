import Conform.Expr.Members
import Conform.Text.Comment
import Conform.Text.Parens

/-!
Text whose brackets pair up outside its literals. A scanner that counts brackets and minds literals
comes out of such a text the way it went in, and finds nothing on the way.
-/

namespace Conform.Text

def isPlain (c : Char) : Bool :=
  c ∉ ['\'', '"', '\x60', '/', '\n', '(', ')', '{', '}', '<', '>', '[', ']']

inductive Woven : (Char → Prop) → List Char → Prop where
  | nil {allowed : Char → Prop} : Woven allowed []
  | char {allowed : Char → Prop} {c : Char} {rest : List Char} (plain : isPlain c) (fits : allowed c)
      (woven : Woven allowed rest) : Woven allowed (c :: rest)
  | literal {allowed : Char → Prop} {quote : Char} {text rest : List Char} (opens : isQuote quote)
      (open_ : ∀ c ∈ text, c ≠ quote ∧ c ≠ '\n') (woven : Woven allowed rest) :
      Woven allowed (quote :: (text ++ quote :: rest))
  | round {allowed : Char → Prop} {inner rest : List Char} (inside : Woven (fun _ => True) inner)
      (woven : Woven allowed rest) : Woven allowed ('(' :: (inner ++ ')' :: rest))
  | curly {allowed : Char → Prop} {inner rest : List Char} (inside : Woven (fun _ => True) inner)
      (woven : Woven allowed rest) : Woven allowed ('{' :: (inner ++ '}' :: rest))
  | square {allowed : Char → Prop} {inner rest : List Char} (inside : Woven allowed inner)
      (woven : Woven allowed rest) : Woven allowed ('[' :: (inner ++ ']' :: rest))

namespace Woven

variable {allowed other : Char → Prop} {text rest : List Char}

theorem append (woven : Woven allowed text) (woven' : Woven allowed rest) :
    Woven allowed (text ++ rest) := by
  induction woven with
  | nil => exact woven'
  | char plain fits _ ih => exact .char plain fits (ih woven')
  | literal opens open_ _ ih =>
      simp only [List.cons_append, List.append_assoc]
      exact .literal opens open_ (ih woven')
  | round inside _ _ ih =>
      simp only [List.cons_append, List.append_assoc]
      exact .round inside (ih woven')
  | curly inside _ _ ih =>
      simp only [List.cons_append, List.append_assoc]
      exact .curly inside (ih woven')
  | square inside _ _ ih =>
      simp only [List.cons_append, List.append_assoc]
      exact .square inside (ih woven')

theorem mono (woven : Woven allowed text) (weaker : ∀ c, allowed c → other c) : Woven other text := by
  induction woven with
  | nil => exact .nil
  | char plain fits _ ih => exact .char plain (weaker _ fits) (ih weaker)
  | literal opens open_ _ ih => exact .literal opens open_ (ih weaker)
  | round inside _ _ ih => exact .round inside (ih weaker)
  | curly inside _ _ ih => exact .curly inside (ih weaker)
  | square _ _ inner ih => exact .square (inner weaker) (ih weaker)

theorem of_plain [DecidablePred allowed] (plain : text.all fun c => isPlain c && decide (allowed c)) :
    Woven allowed text := by
  induction text with
  | nil => exact .nil
  | cons c rest ih =>
      simp only [List.all_cons, Bool.and_eq_true, decide_eq_true_eq] at plain
      exact .char plain.1.1 plain.1.2 (ih plain.2)

theorem of_literal {quote : Char} (opens : isQuote quote)
    (open_ : ∀ c ∈ text, c ≠ quote ∧ c ≠ '\n') : Woven allowed (quote :: (text ++ [quote])) :=
  .literal opens open_ .nil

theorem parens (inside : Woven (fun _ => True) text) : Woven allowed ('(' :: (text ++ [')'])) :=
  .round inside .nil

theorem braces (inside : Woven (fun _ => True) text) : Woven allowed ('{' :: (text ++ ['}'])) :=
  .curly inside .nil

end Woven

theorem isQuote_cases {quote : Char} (opens : isQuote quote) : quote = '\'' ∨ quote = '"' := by
  simpa [isQuote] using opens

theorem ne_of_isPlain {c : Char} (plain : isPlain c) :
    isQuote c = false ∧ opensLiteral c = false ∧ c ≠ '/' ∧ c ≠ '\n' ∧ c ≠ '(' ∧ c ≠ ')' ∧ c ≠ '{' ∧
      c ≠ '}' ∧ c ≠ '<' ∧ c ≠ '>' ∧ c ≠ '[' ∧ c ≠ ']' := by
  simp only [isPlain, List.mem_cons, List.not_mem_nil, or_false, not_or, decide_eq_true_eq] at plain
  simp [isQuote, opensLiteral, plain]

section Comments

theorem withoutComments_code {c : Char} (rest : List Char) (other : c ≠ '/') :
    withoutComments .code (c :: rest) =
      c :: withoutComments (if opensLiteral c then .quoted c else .code) rest := by
  cases rest with
  | nil => simp [withoutComments]
  | cons d rest => rw [withoutComments] <;> simp_all

theorem withoutComments_quoted {quote : Char} {text : List Char} (rest : List Char)
    (open_ : ∀ c ∈ text, c ≠ quote ∧ c ≠ '\n') :
    withoutComments (.quoted quote) (text ++ quote :: rest) =
      text ++ quote :: withoutComments .code rest := by
  induction text with
  | nil => simp [withoutComments]
  | cons c text ih =>
      have first := open_ c (by simp)
      simp only [List.cons_append, withoutComments, first, or_self, if_false]
      rw [ih fun d member => open_ d (by simp [member])]

theorem Woven.withoutComments_append {allowed : Char → Prop} {text : List Char}
    (woven : Woven allowed text) (rest : List Char) :
    withoutComments .code (text ++ rest) = text ++ withoutComments .code rest := by
  induction woven generalizing rest with
  | nil => rfl
  | @char _ c _ plain _ _ ih =>
      obtain ⟨_, literal, slash, _⟩ := ne_of_isPlain plain
      rw [List.cons_append, withoutComments_code _ slash]
      simp [literal, ih]
  | @literal _ quote text rest' opens open_ _ ih =>
      have starts : opensLiteral quote ∧ quote ≠ '/' := by
        rcases isQuote_cases opens with rfl | rfl <;> decide
      rw [List.cons_append, withoutComments_code _ starts.2, if_pos starts.1, List.append_assoc,
        List.cons_append, withoutComments_quoted _ open_, ih]
      simp
  | @round _ inner rest' _ _ inside ih =>
      rw [List.cons_append, withoutComments_code _ (by decide)]
      simp [opensLiteral, inside, withoutComments_code, ih]
  | @curly _ inner rest' _ _ inside ih =>
      rw [List.cons_append, withoutComments_code _ (by decide)]
      simp [opensLiteral, inside, withoutComments_code, ih]
  | @square _ inner rest' _ _ inside ih =>
      rw [List.cons_append, withoutComments_code _ (by decide)]
      simp [opensLiteral, inside, withoutComments_code, ih]

theorem Woven.withoutComments_eq {allowed : Char → Prop} {text : List Char}
    (woven : Woven allowed text) : withoutComments .code text = text := by
  simpa [withoutComments] using woven.withoutComments_append []

end Comments

section Parens

theorem untilClose?_quoted {quote : Char} {text : List Char} (depth : Nat) (rest : List Char)
    (open_ : ∀ c ∈ text, c ≠ quote ∧ c ≠ '\n') :
    untilClose? depth (some quote) (text ++ quote :: rest) =
      (untilClose? depth none rest).map (text ++ quote :: ·) := by
  induction text with
  | nil => simp [untilClose?, quoteAfter]
  | cons c text ih =>
      have first := open_ c (by simp)
      simp only [List.cons_append, untilClose?, quoteAfter, first, if_false, Option.isSome_some,
        Bool.true_or, if_true]
      rw [ih fun d member => open_ d (by simp [member])]
      simp [Function.comp_def]

theorem Woven.untilClose?_append {allowed : Char → Prop} {text : List Char}
    (woven : Woven allowed text) (depth : Nat) (rest : List Char) :
    untilClose? depth none (text ++ rest) = (untilClose? depth none rest).map (text ++ ·) := by
  induction woven generalizing depth rest with
  | nil => simp
  | char plain _ _ ih =>
      have marks := ne_of_isPlain plain
      simp [untilClose?, marks, ih, Function.comp_def]
  | literal opens open_ _ ih =>
      simp only [List.cons_append, List.append_assoc, untilClose?, quoteAfter, opens,
        Bool.or_true, if_true]
      rw [untilClose?_quoted _ _ open_, ih]
      simp [Function.comp_def]
  | round _ _ inside ih =>
      simp [untilClose?, isQuote, inside, ih, Function.comp_def]
  | curly _ _ inside ih =>
      simp [untilClose?, isQuote, inside, ih, Function.comp_def]
  | square _ _ inside ih =>
      simp [untilClose?, isQuote, inside, ih, Function.comp_def]

def FirstCloses (text : List Char) : Prop :=
  (∀ rest, text ≠ '(' :: rest) ∨
    ∃ inner c rest, text = '(' :: (inner ++ ')' :: c :: rest) ∧ Woven (fun _ => True) inner

theorem FirstCloses.append {text : List Char} (closes : FirstCloses text) (some_ : text ≠ [])
    (rest : List Char) : FirstCloses (text ++ rest) := by
  rcases closes with none | ⟨inner, c, after, rfl, woven⟩
  · refine .inl fun after same => ?_
    cases text with
    | nil => exact some_ rfl
    | cons d text =>
        cases same
        exact none _ rfl
  · exact .inr ⟨inner, c, after ++ rest, by simp, woven⟩

theorem FirstCloses.parens_append {text rest : List Char} (woven : Woven (fun _ => True) text)
    (some_ : rest ≠ []) : FirstCloses ('(' :: (text ++ [')']) ++ rest) := by
  cases rest with
  | nil => exact absurd rfl some_
  | cons c rest => exact .inr ⟨text, c, rest, by simp, woven⟩

theorem FirstCloses.wrapped? {text : List Char} (closes : FirstCloses text) :
    Text.wrapped? text = none := by
  rcases closes with none | ⟨inner, c, rest, rfl, woven⟩
  · unfold Text.wrapped?
    split
    · exact absurd rfl (none _)
    · rfl
  · simp only [Text.wrapped?]
    rw [woven.untilClose?_append]
    simp [untilClose?, isQuote]

theorem Woven.wrapped?_parens {text : List Char} (woven : Woven (fun _ => True) text) :
    Text.wrapped? ('(' :: (text ++ [')'])) = some text := by
  simp only [Text.wrapped?]
  rw [woven.untilClose?_append]
  simp [untilClose?, isQuote]

end Parens

end Conform.Text
