import Conform.Text.Blank

/-!
Quoted literals, and keeping track of them while a text is read. Parentheses around a whole text:
`('a'|'b')` is wrapped and `('a')|('b')` is not, its first parenthesis closes before the end.
-/

namespace Conform.Text

/-- A literal opens and closes with the same kind of quote; nothing escapes it. -/
def isQuote (c : Char) : Bool :=
  c == '\'' || c == '"'

/-- The quote of the literal that is open after `c`, from the one that is open before it. -/
def quoteAfter : Option Char → Char → Option Char
  | some quote, c => if c = quote then none else some quote
  | none, c => if isQuote c then some c else none

/-- The text between the quotes, when the whole text is one literal. -/
def literalText? : List Char → Option (List Char)
  | [] => none
  | quote :: rest =>
    if isQuote quote && rest.dropWhile (· != quote) == [quote] then
      some (rest.takeWhile (· != quote))
    else none

/-- What stands before the parenthesis that closes the group `depth` levels out, when that
parenthesis ends the text. -/
def untilClose? (depth : Nat) (quote : Option Char) : List Char → Option (List Char)
  | [] => none
  | c :: rest =>
    if quote.isSome || isQuote c then
      (untilClose? depth (quoteAfter quote c) rest).map (c :: ·)
    else if c = '(' then (untilClose? (depth + 1) none rest).map (c :: ·)
    else if c = ')' then
      match depth with
      | 0 => if rest.isEmpty then some [] else none
      | outer + 1 => (untilClose? outer none rest).map (c :: ·)
    else (untilClose? depth none rest).map (c :: ·)

/-- The inside of a text that one pair of parentheses wraps. -/
def wrapped? : List Char → Option (List Char)
  | '(' :: rest => untilClose? 0 none rest
  | _ => none

theorem length_untilClose? {depth : Nat} {quote : Option Char} {text inner : List Char}
    (found : untilClose? depth quote text = some inner) : inner.length < text.length := by
  induction text generalizing depth quote inner with
  | nil => simp [untilClose?] at found
  | cons c rest ih =>
    have extend : ∀ {d q}, (untilClose? d q rest).map (c :: ·) = some inner →
        inner.length < (c :: rest).length := by
      intro d q h
      obtain ⟨tail, inside, rfl⟩ := Option.map_eq_some_iff.1 h
      have := ih inside
      simp only [List.length_cons]
      omega
    simp only [untilClose?] at found
    split at found
    · exact extend found
    · split at found
      · exact extend found
      · split at found
        · split at found
          · split at found
            · cases found
              simp
            · cases found
          · exact extend found
        · exact extend found

theorem length_wrapped? {text inner : List Char} (found : wrapped? text = some inner) :
    inner.length < text.length := by
  unfold wrapped? at found
  split at found
  · have := length_untilClose? found
    simp only [List.length_cons]
    omega
  · cases found

theorem length_trimStart (text : List Char) : (trimStart text).length ≤ text.length :=
  (List.dropWhile_suffix _).length_le

theorem length_trim (text : List Char) : (trim text).length ≤ text.length := by
  have tail : (trimEnd (trimStart text)).length ≤ (trimStart text).length := by
    simpa [trimEnd] using (List.dropWhile_suffix isBlank (l := (trimStart text).reverse)).length_le
  have := length_trimStart text
  unfold trim
  omega

/-- The text without white space at its ends and without parentheses that wrap all of it. -/
def trimParens (text : List Char) : List Char :=
  match _found : wrapped? (trim text) with
  | some inner => trimParens inner
  | none => trim text
termination_by text.length
decreasing_by
  have := length_wrapped? _found
  have := length_trim text
  omega

theorem length_trimParens (text : List Char) : (trimParens text).length ≤ text.length := by
  fun_induction trimParens text with
  | case1 text inner found ih =>
    have := length_wrapped? found
    have := length_trim text
    omega
  | case2 text found => exact length_trim text

end Conform.Text
