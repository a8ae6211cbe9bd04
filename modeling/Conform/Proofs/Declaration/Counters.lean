import Conform.Proofs.Declaration.Contained
import Mathlib.Data.List.Induction

/-!
The scanner of bodies counts right. What its place says of open brackets and of an open literal is what
the text says that was read so far. So no count is ever taken below zero, and a body never ends in a
literal, in a group or in angle brackets.
-/

namespace Conform.Declaration

open Text

/-! ## Brackets and literals of a text -/

def balance (opener closer : Char) (text : List Char) : Int :=
  text.count opener - text.count closer

def quoteThrough (quote : Option Char) (text : List Char) : Option Char :=
  text.foldl quoteAfter quote

def unquoted (quote : Option Char) : List Char → List Char
  | [] => []
  | c :: rest =>
    if quote.isSome || isQuote c then unquoted (quoteAfter quote c) rest else c :: unquoted none rest

section Texts

variable {opener closer c mark : Char} {quote : Option Char} {text more : List Char}

theorem balance_append :
    balance opener closer (text ++ more) = balance opener closer text + balance opener closer more := by
  simp only [balance, List.count_append]
  omega

theorem balance_single (apart : opener ≠ closer) :
    balance opener closer [c] = if c = opener then 1 else if c = closer then -1 else 0 := by
  by_cases opens : c = opener
  · subst opens
    simp [balance, apart]
  · by_cases closes : c = closer
    · subst closes
      simp [balance, opens]
    · simp [balance, opens, closes]

theorem quoteThrough_concat :
    quoteThrough quote (text ++ [c]) = quoteAfter (quoteThrough quote text) c := by
  simp [quoteThrough]

theorem quoteThrough_literal (inside : mark ∉ text) : quoteThrough (some mark) text = some mark := by
  induction text with
  | nil => rfl
  | cons c text ih =>
      obtain ⟨first, others⟩ := not_or.mp (mt List.mem_cons.mpr inside)
      rw [quoteThrough, List.foldl_cons, quoteAfter, if_neg (Ne.symm first)]
      exact ih others

theorem quoteThrough_eq_some_iff : quoteThrough none text = some mark ↔
    ∃ before literal, text = before ++ mark :: literal ∧ isQuote mark ∧
      quoteThrough none before = none ∧ mark ∉ literal := by
  constructor
  · intro open_
    induction text using List.reverseRecOn with
    | nil => cases open_
    | append_singleton text c ih =>
        rw [quoteThrough_concat] at open_
        cases known : quoteThrough none text with
        | none =>
            rw [known, quoteAfter] at open_
            split at open_ <;> cases open_
            next opens => exact ⟨text, [], rfl, opens, known, by simp⟩
        | some quote =>
            rw [known, quoteAfter] at open_
            split at open_ <;> cases open_
            next other =>
              obtain ⟨before, literal, rfl, opens, closed, inside⟩ := ih known
              refine ⟨before, literal ++ [c], by simp, opens, closed, ?_⟩
              simpa [inside] using fun same => other same.symm
  · rintro ⟨before, literal, rfl, opens, closed, inside⟩
    have begins : quoteThrough none (before ++ mark :: literal) = quoteThrough (some mark) literal := by
      rw [quoteThrough, List.foldl_append, List.foldl_cons,
        show before.foldl quoteAfter none = none from closed, quoteAfter, if_pos opens]
      rfl
    rw [begins, quoteThrough_literal inside]

theorem unquoted_concat : unquoted quote (text ++ [c]) =
    unquoted quote text ++ if (quoteThrough quote text).isSome || isQuote c then [] else [c] := by
  induction text generalizing quote with
  | nil => exact (List.nil_append _).symm
  | cons d text ih =>
      rw [List.cons_append, unquoted, unquoted]
      split
      next literal => exact ih
      next code =>
        obtain ⟨rfl, plain⟩ : quote = none ∧ isQuote d = false := by simpa using code
        rw [ih, List.cons_append, quoteThrough, quoteThrough, List.foldl_cons, quoteAfter, plain]
        rfl

end Texts

/-! ## Counts of the scanner -/

namespace Place

def depth : Place → Nat
  | token angle => angle
  | nested _ depth _ => depth
  | _ => 0

def change : Place → Char → Int
  | token (_ + 1), c => if c = '<' then 1 else if c = '>' then -1 else 0
  | quoted _, _ => 0
  | nested _ _ (some _), _ => 0
  | nested opener _ none, c => if c = opener then 1 else if c = closer opener then -1 else 0
  | _, c => if c = '{' ∨ c = '(' ∨ c = '<' then 1 else 0

def InGroup : Place → Prop
  | nested _ _ _ => True
  | _ => False

def InAngles (place : Place) : Prop :=
  ∃ outer, place = token (outer + 1)

/-- A part of a text in which the scanner is at places of one kind, right from its beginning. -/
structure Stretch (kind : Place → Prop) (before part : List Char) : Prop where
  outside : ∃ place, start.through? before = some place ∧ ¬kind place
  inside : ∀ front, front <+: part → front ≠ [] →
    ∃ place, start.through? (before ++ front) = some place ∧ kind place

def Accounts (text : List Char) : Place → Prop
  | token angle => ∃ before since, text = before ++ since ∧ Stretch InAngles before since ∧
      angle = balance '<' '>' since
  | nested opener depth quote => (opener = '{' ∨ opener = '(') ∧ 1 ≤ depth ∧
      ∃ before inside, text = before ++ opener :: inside ∧ Stretch InGroup before (opener :: inside) ∧
        depth = balance opener (closer opener) (unquoted none (opener :: inside)) ∧
        quote = quoteThrough none inside
  | _ => True

section Steps

variable {kind : Place → Prop} {place next : Place} {text before part : List Char} {c : Char}

theorem through?_concat (passed : start.through? text = some place) (step : place.step c = some next) :
    start.through? (text ++ [c]) = some next := by
  rw [through?_append, passed, Option.bind_some, through?_cons, step]
  rfl

theorem Stretch.nil (passed : start.through? before = some place) (outside : ¬kind place) :
    Stretch kind before [] where
  outside := ⟨place, passed, outside⟩
  inside _ short some_ := absurd (List.prefix_nil.mp short) some_

theorem Stretch.concat (stretch : Stretch kind before part)
    (passed : start.through? (before ++ part ++ [c]) = some place) (inside : kind place) :
    Stretch kind before (part ++ [c]) where
  outside := stretch.outside
  inside front short some_ := by
    rcases List.prefix_concat_iff.mp short with rfl | shorter
    · exact ⟨place, by rwa [← List.append_assoc], inside⟩
    · exact stretch.inside front shorter some_

theorem accounts_flat (passed : start.through? text = some (token 0)) : Accounts text (token 0) :=
  ⟨text, [], (List.append_nil text).symm, .nil passed (by simp [InAngles]), rfl⟩

theorem accounts_opens (passed : start.through? text = some place)
    (step : place.step c = some (openOperand c)) (outside : ¬InGroup place) (flat : ¬InAngles place) :
    Accounts (text ++ [c]) (openOperand c) := by
  have passed' := through?_concat passed step
  unfold openOperand at passed' ⊢
  split_ifs at passed' ⊢ with groups quotes angles
  · have stretch : Stretch InGroup text ([] ++ [c]) :=
      (Stretch.nil passed outside).concat (by rwa [List.append_nil]) (by trivial)
    refine ⟨groups, Nat.le_refl 1, text, [], rfl, stretch, ?_, rfl⟩
    rcases groups with rfl | rfl <;> rfl
  · trivial
  · have stretch : Stretch InAngles text ([] ++ [c]) :=
      (Stretch.nil passed flat).concat (by rwa [List.append_nil]) ⟨0, rfl⟩
    refine ⟨text, [c], rfl, stretch, ?_⟩
    subst angles
    rfl
  · exact accounts_flat passed'

theorem Accounts.token_concat {angle : Nat} (known : Accounts text (token angle)) (angle' : Nat)
    (passed : start.through? (text ++ [c]) = some (token angle'))
    (count : (angle' : Int) = angle + balance '<' '>' [c]) : Accounts (text ++ [c]) (token angle') := by
  cases angle' with
  | zero => exact accounts_flat passed
  | succ outer =>
      obtain ⟨before, since, rfl, stretch, counted⟩ := known
      refine ⟨before, since ++ [c], List.append_assoc .., stretch.concat passed ⟨outer, rfl⟩, ?_⟩
      rw [balance_append, count, counted]

theorem Accounts.nested_concat {opener : Char} {depth : Nat} {quote : Option Char}
    (known : Accounts text (nested opener depth quote)) (depth' : Nat)
    (passed : start.through? (text ++ [c]) = some (nested opener depth' (quoteAfter quote c)))
    (positive : 1 ≤ depth')
    (count : (depth' : Int) = depth +
      balance opener (closer opener) (if quote.isSome || isQuote c then [] else [c])) :
    Accounts (text ++ [c]) (nested opener depth' (quoteAfter quote c)) := by
  obtain ⟨brackets, _, before, inside, rfl, stretch, counted, open_⟩ := known
  have stretch' : Stretch InGroup before (opener :: inside ++ [c]) :=
    stretch.concat passed (by trivial)
  have same : quoteThrough none (opener :: inside) = quote := by
    rcases brackets with rfl | rfl <;> exact open_.symm
  refine ⟨brackets, positive, before, inside ++ [c], by simp, stretch', ?_, ?_⟩
  · rw [← List.cons_append, unquoted_concat, balance_append, same, count, counted]
  · rw [quoteThrough_concat, open_]

theorem Accounts.depth_step (known : Accounts text place) (step : place.step c = some next) :
    (next.depth : Int) = place.depth + place.change c := by
  have opened : ((openOperand c).depth : Int) = if c = '{' ∨ c = '(' ∨ c = '<' then 1 else 0 := by
    unfold openOperand
    split_ifs <;> simp_all [depth]
  have apart {d : Char} (inner : d = '&' ∨ d = '|' ∨ isBlank d) : ¬(d = '{' ∨ d = '(' ∨ d = '<') := by
    rintro (rfl | rfl | rfl) <;> revert inner <;> decide
  cases place with
  | outside awaiting =>
      simp only [Place.step] at step
      split_ifs at step with blank joins <;> cases step
      · simp [depth, change, apart (.inr (.inr blank))]
      · simp [depth, change, apart (joins.imp_right .inl)]
      · rw [opened]
        simp [depth, change]
  | token angle =>
      cases angle with
      | zero =>
          simp only [Place.step] at step
          split_ifs at step with blank joins <;> cases step
          · simp [depth, change, apart (.inr (.inr blank))]
          · simp [depth, change, apart (joins.imp_right .inl)]
          · rw [opened]
            simp [depth, change]
      | succ angle =>
          simp only [Place.step] at step
          split_ifs at step with opens closes <;> cases step
          · simp only [depth, change, if_pos opens]
            omega
          · simp only [depth, change, if_neg opens, if_pos closes]
            omega
          · simp only [depth, change, if_neg opens, if_neg closes, Int.add_zero]
  | quoted quote =>
      simp only [Place.step] at step
      split_ifs at step <;> cases step <;> rfl
  | nested opener depth quote =>
      have positive := known.2.1
      cases quote with
      | some quote =>
          simp only [Place.step] at step
          split_ifs at step <;> cases step <;> simp [Place.depth, change]
      | none =>
          have unquoted (mark : c = '\'' ∨ c = '"') : c ≠ opener ∧ c ≠ closer opener := by
            rcases known.1 with rfl | rfl <;> rcases mark with rfl | rfl <;> decide
          simp only [Place.step] at step
          split_ifs at step with mark opens closes last <;> cases step
          · simp [Place.depth, change, unquoted mark]
          · simp [Place.depth, change, opens]
          · simp [Place.depth, change, if_neg opens, if_pos closes, last]
          · simp only [Place.depth, change, if_neg opens, if_pos closes]
            omega
          · simp [Place.depth, change, opens, closes]

/-- By the place that the character is read at. -/
theorem Accounts.step (known : Accounts text place) (passed : start.through? text = some place)
    (step : place.step c = some next) : Accounts (text ++ [c]) next := by
  have passed' := through?_concat passed step
  have count := known.depth_step step
  have opened := step
  cases place with
  | outside awaiting =>
      simp only [Place.step] at step
      split_ifs at step <;> cases step
      · trivial
      · trivial
      · exact accounts_opens passed opened (by simp [InGroup]) (by simp [InAngles])
  | token angle =>
      cases angle with
      | zero =>
          simp only [Place.step] at step
          split_ifs at step <;> cases step
          · trivial
          · trivial
          · exact accounts_opens passed opened (by simp [InGroup]) (by simp [InAngles])
      | succ angle =>
          have onward := known.token_concat (c := c) next.depth
          rw [balance_single (by decide)] at onward
          simp only [Place.step] at step
          split_ifs at step <;> cases step <;> exact onward passed' count
  | quoted quote =>
      simp only [Place.step] at step
      split_ifs at step <;> cases step
      · exact accounts_flat passed'
      · trivial
  | nested opener depth quote =>
      cases quote with
      | some quote =>
          have after : (nested opener depth (some quote)).step c =
              some (nested opener depth (quoteAfter (some quote) c)) := by
            simp only [Place.step, quoteAfter]
            split_ifs <;> rfl
          obtain rfl := Option.some.inj (after.symm.trans step)
          exact known.nested_concat _ passed' known.2.1 (by simp [balance])
      | none =>
          by_cases mark : isQuote c
          · have after : (nested opener depth none).step c =
                some (nested opener depth (quoteAfter none c)) := by
              simp [Place.step, quoteAfter, mark, isQuote_cases mark]
            obtain rfl := Option.some.inj (after.symm.trans step)
            exact known.nested_concat _ passed' known.2.1 (by simp [mark, balance])
          · have apart : opener ≠ closer opener := by
              rcases known.1 with rfl | rfl <;> decide
            have onward := known.nested_concat (c := c) next.depth
            have plain : quoteAfter none c = none := by simp [quoteAfter, mark]
            simp only [plain, mark, Option.isSome_none, Bool.or_false, Bool.false_eq_true, if_false,
              balance_single apart] at onward
            have unquoted : ¬(c = '\'' ∨ c = '"') := by simpa [isQuote] using mark
            have positive := known.2.1
            simp only [Place.step, if_neg unquoted] at step
            split_ifs at step with opens closes last <;> cases step
            · exact onward passed' (Nat.le_add_left 1 depth) count
            · exact accounts_flat passed'
            · exact onward passed' (by simp only [Place.depth]; omega) count
            · exact onward passed' positive count

theorem accounts_of_passed (passed : start.through? text = some place) : Accounts text place := by
  induction text using List.reverseRecOn generalizing place with
  | nil =>
      cases passed
      trivial
  | append_singleton text c ih =>
      rw [through?_append] at passed
      obtain ⟨earlier, passed, last⟩ := Option.bind_eq_some_iff.mp passed
      rw [through?_cons] at last
      obtain ⟨place', step, same⟩ := Option.bind_eq_some_iff.mp last
      cases same
      exact (ih passed).step passed step

theorem step_none (stops : place.step c = none) : place = token 0 ∨ ∃ awaiting, place = outside awaiting := by
  cases place with
  | outside awaiting => exact .inr ⟨awaiting, rfl⟩
  | token angle =>
      cases angle with
      | zero => exact .inl rfl
      | succ angle =>
          simp only [Place.step] at stops
          split_ifs at stops
  | quoted quote =>
      simp only [Place.step] at stops
      split_ifs at stops
  | nested opener depth quote =>
      cases quote with
      | some quote | none =>
          simp only [Place.step] at stops
          split_ifs at stops

end Steps

end Place

open Place

/-- Wherever the scanner is in a text that it has not left, its place is right. In a group, that is one of
curly or round brackets, and as many of them are open as began and have not ended since its first
character, literals apart; the literal that is open is the one that began last in the group. In an operand,
as many angle brackets are open as began and have not ended since there were none. Every count is exact,
so none is ever taken below zero; and the body does not end in a literal, in a group or in angle brackets. -/
theorem counters_exact {text : List Char} {place : Place} (passed : start.through? text = some place) :
    (∀ opener depth quote, place = nested opener depth quote →
      (opener = '{' ∨ opener = '(') ∧ 1 ≤ depth ∧
        ∃ before inside, text = before ++ opener :: inside ∧ Stretch InGroup before (opener :: inside) ∧
          depth = balance opener (closer opener) (unquoted none (opener :: inside)) ∧
          ∀ mark, quote = some mark ↔ ∃ outer literal, inside = outer ++ mark :: literal ∧
            isQuote mark ∧ quoteThrough none outer = none ∧ mark ∉ literal) ∧
      (∀ angle, place = token angle → ∃ before since, text = before ++ since ∧
        Stretch InAngles before since ∧ angle = balance '<' '>' since) ∧
      (∀ c next, place.step c = some next → (next.depth : Int) = place.depth + place.change c) ∧
      ∀ c, place.step c = none → place = token 0 ∨ ∃ awaiting, place = outside awaiting := by
  have known := accounts_of_passed passed
  refine ⟨?group, ?angles, fun c next => known.depth_step, fun c => step_none⟩
  case group =>
    rintro opener depth quote rfl
    obtain ⟨kind, positive, before, inside, same, stretch, counted, open_⟩ := known
    refine ⟨kind, positive, before, inside, same, stretch, counted, fun mark => ?_⟩
    rw [open_, quoteThrough_eq_some_iff]
  case angles =>
    rintro angle rfl
    exact known

/-- Two groups in one another, the inner one with a bracket in a literal that has not ended. -/
theorem counters_exact_group :
    start.through? "A<B> & \x7b a: \x7b b: '\x7d".toList = some (nested '{' 2 (some '\'')) ∧
      ∃ before inside, "A<B> & \x7b a: \x7b b: '\x7d".toList = before ++ '{' :: inside ∧
        Stretch InGroup before ('{' :: inside) ∧ balance '{' '}' (unquoted none ('{' :: inside)) = 2 := by
  have passed : start.through? "A<B> & \x7b a: \x7b b: '\x7d".toList = some (nested '{' 2 (some '\'')) := by
    decide +kernel
  obtain ⟨_, _, before, inside, same, stretch, counted, _⟩ := (counters_exact passed).1 _ _ _ rfl
  exact ⟨passed, before, inside, same, stretch, counted.symm⟩

end Conform.Declaration
