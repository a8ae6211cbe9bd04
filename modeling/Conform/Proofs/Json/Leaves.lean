import Conform.Json.Reader
import Conform.Proofs.Answers

/-!
What readers make of a carriage return at the end of a text: nothing. Each of them fails with it where it fails
without it, and otherwise comes to the same value at the same place.
-/

namespace Conform.Json

namespace Cursor

variable {cursor : Cursor}

def returned (cursor : Cursor) : Cursor :=
  { cursor with rest := cursor.rest ++ ['\r'] }

theorem next_cases (cursor : Cursor) : (cursor.next? = none ∧ cursor.returned.next? = some '\r') ∨
    ∃ c, cursor.next? = some c ∧ cursor.returned.next? = some c ∧
      cursor.returned.advance = cursor.advance.returned ∧ cursor.advance.rest.length + 1 = cursor.rest.length := by
  obtain ⟨rest, position⟩ := cursor
  cases rest with
  | nil => exact .inl ⟨rfl, rfl⟩
  | cons c rest => exact .inr ⟨c, rfl, rfl, rfl, rfl⟩

theorem advance_returned {c : Char} (next : cursor.next? = some c) :
    cursor.returned.advance = cursor.advance.returned ∧ cursor.advance.rest.length + 1 = cursor.rest.length := by
  rcases cursor.next_cases with ⟨none_, _⟩ | ⟨_, _, _, onward, length⟩
  · rw [none_] at next
    cases next
  · exact ⟨onward, length⟩

theorem next?_returned_of_next {c : Char} (next : cursor.next? = some c) : cursor.returned.next? = some c := by
  rcases cursor.next_cases with ⟨none_, _⟩ | ⟨_, here, here', _⟩
  · rw [none_] at next
    cases next
  · rw [here', ← here, next]

theorem next?_returned {c : Char} (other : c ≠ '\r') :
    cursor.returned.next? = some c ↔ cursor.next? = some c := by
  rcases cursor.next_cases with ⟨none_, return_⟩ | ⟨d, here, here', _, _⟩
  · simp [none_, return_, Ne.symm other]
  · rw [here, here']

theorem beq_next?_returned {c : Char} (other : c ≠ '\r') :
    (cursor.returned.next? == some c) = (cursor.next? == some c) := by
  rw [Bool.eq_iff_iff, beq_iff_eq, beq_iff_eq, next?_returned other]

theorem rest_advanceBy (count : Nat) : (cursor.advanceBy count).rest = cursor.rest.drop count := by
  induction count generalizing cursor with
  | zero => rfl
  | succ count ih =>
      rw [advanceBy, ih]
      obtain ⟨rest, position⟩ := cursor
      cases rest with
      | nil => simp [advance]
      | cons d rest => rfl

theorem advanceBy_returned {count : Nat} (enough : count ≤ cursor.rest.length) :
    cursor.returned.advanceBy count = (cursor.advanceBy count).returned := by
  induction count generalizing cursor with
  | zero => rfl
  | succ count ih =>
      obtain ⟨rest, position⟩ := cursor
      cases rest with
      | nil => cases enough
      | cons d rest =>
          have enough' : count ≤ (Cursor.mk rest (position.after d)).rest.length := Nat.le_of_succ_le_succ enough
          exact ih enough'

theorem takeWhile_returned {test : Char → Bool} (stops : test '\r' = false) :
    cursor.returned.rest.takeWhile test = cursor.rest.takeWhile test := by
  rw [returned, List.takeWhile_append]
  split
  next whole =>
    rw [List.takeWhile_cons_of_neg (by simp [stops]), List.append_nil]
    exact ((List.takeWhile_sublist test).eq_of_length whole).symm
  next => rfl

theorem length_skipSpaces : cursor.skipSpaces.rest.length ≤ cursor.rest.length := by
  rw [skipSpaces, rest_advanceBy, List.length_drop]
  omega

theorem skip_cases (cursor : Cursor) :
    (cursor.skipSpaces.next? = none ∧ cursor.returned.skipSpaces.next? = none) ∨
      (cursor.returned.skipSpaces = cursor.skipSpaces.returned ∧ ∃ c, cursor.skipSpaces.next? = some c) := by
  have parts : (cursor.rest ++ ['\r']).takeWhile isSpace = _ := List.takeWhile_append
  unfold skipSpaces
  by_cases whole : (cursor.rest.takeWhile isSpace).length = cursor.rest.length
  · left
    rw [if_pos whole] at parts
    have all : cursor.returned.rest.takeWhile isSpace = cursor.returned.rest := parts
    rw [next?, next?, rest_advanceBy, rest_advanceBy, all, whole, List.drop_length, List.drop_length]
    exact ⟨rfl, rfl⟩
  · right
    rw [if_neg whole] at parts
    have same : cursor.returned.rest.takeWhile isSpace = cursor.rest.takeWhile isSpace := parts
    have shorter := (List.takeWhile_sublist isSpace (l := cursor.rest)).length_le
    rw [same, advanceBy_returned shorter]
    refine ⟨rfl, Option.ne_none_iff_exists'.mp fun none_ => ?_⟩
    rw [next?, rest_advanceBy, List.head?_eq_none_iff, List.drop_eq_nil_iff] at none_
    omega

end Cursor

inductive Agrees {α : Type} (related : α → α → Prop) : Reading α → Reading α → Prop
  | ok {result result' : α} (same : related result result') : Agrees related (.ok result) (.ok result')
  | error {error error' : ReadError} : Agrees related (.error error) (.error error')

def Moved (cursor : Cursor) (least : Nat) (after after' : Cursor) : Prop :=
  after = after'.returned ∧ after'.rest.length + least ≤ cursor.rest.length

def Read {α : Type} (cursor : Cursor) (least : Nat) (result result' : α × Cursor) : Prop :=
  result.1 = result'.1 ∧ Moved cursor least result.2 result'.2

namespace Agrees

variable {α β : Type} {related : α → α → Prop} {related' : β → β → Prop} {first first' : Reading α}

theorem bind {next next' : α → Reading β} (agrees : Agrees related first first')
    (others : ∀ result result', related result result' → Agrees related' (next result) (next' result')) :
    Agrees related' (first >>= next) (first' >>= next') := by
  cases agrees with
  | ok same => exact others _ _ same
  | error => exact .error

theorem imp {weaker : α → α → Prop} (agrees : Agrees related first first')
    (holds : ∀ result result', related result result' → weaker result result') : Agrees weaker first first' := by
  cases agrees with
  | ok same => exact .ok (holds _ _ same)
  | error => exact .error

variable {cursor : Cursor} {least : Nat}

theorem read {value : α} {left : Cursor} (enough : left.rest.length + least ≤ cursor.rest.length) :
    Agrees (Read cursor least) (.ok (value, left.returned)) (.ok (value, left)) :=
  .ok ⟨rfl, rfl, enough⟩

theorem behind {cursor' : Cursor} {least' : Nat} {first first' : Reading (α × Cursor)}
    (agrees : Agrees (Read cursor' least') first first')
    (enough : cursor'.rest.length + least ≤ cursor.rest.length + least') :
    Agrees (Read cursor least) first first' := by
  refine agrees.imp fun _ _ ⟨same, moved, further⟩ => ⟨same, moved, ?_⟩
  omega

theorem bindRead {first first' : Reading (α × Cursor)} {next next' : α × Cursor → Reading β}
    (agrees : Agrees (Read cursor least) first first')
    (others : ∀ value left, left.rest.length + least ≤ cursor.rest.length →
      Agrees related' (next (value, left.returned)) (next' (value, left))) :
    Agrees related' (first >>= next) (first' >>= next') := by
  refine agrees.bind ?_
  rintro ⟨value, after⟩ ⟨value', left⟩ ⟨same, moved, enough⟩
  dsimp only at same moved enough
  subst same moved
  exact others value left enough

theorem bindMoved {first first' : Reading Cursor} {next next' : Cursor → Reading β}
    (agrees : Agrees (Moved cursor least) first first')
    (others : ∀ left, left.rest.length + least ≤ cursor.rest.length →
      Agrees related' (next left.returned) (next' left)) :
    Agrees related' (first >>= next) (first' >>= next') := by
  refine agrees.bind ?_
  rintro _ left ⟨rfl, enough⟩
  exact others left enough

end Agrees

/-! ## Words and strings -/

section Leaves

variable {cursor : Cursor}

theorem agrees_readWord {word : List Char} (plain : '\r' ∉ word) :
    Agrees (Moved cursor 0) (readWord cursor.returned word) (readWord cursor word) := by
  induction word generalizing cursor with
  | nil => exact .ok ⟨rfl, Nat.le_refl _⟩
  | cons expected word ih =>
      rw [List.mem_cons, not_or] at plain
      rw [readWord, readWord]
      rcases cursor.next_cases with ⟨none_, return_⟩ | ⟨c, here, here', onward, length⟩
      · rw [none_, return_]
        dsimp only
        rw [if_neg plain.1]
        exact .error
      · rw [here, here', onward]
        dsimp only
        split
        next => exact (ih plain.2).imp fun _ _ ⟨same, enough⟩ => ⟨same, by omega⟩
        next => exact .error

theorem agrees_readMark {expected : Char} (other : expected ≠ '\r') :
    Agrees (Moved cursor 0) (readMark cursor.returned expected) (readMark cursor expected) := by
  unfold readMark
  rcases cursor.next_cases with ⟨none_, return_⟩ | ⟨c, here, here', onward, length⟩
  · rw [none_, return_]
    dsimp only
    rw [if_neg (Ne.symm other)]
    exact .error
  · rw [here, here', onward]
    dsimp only
    split
    next => exact .ok ⟨rfl, by omega⟩
    next => exact .error

theorem utf8Size_of_hexValue? {c : Char} {value : Nat} (digit : hexValue? c = some value) : c.utf8Size = 1 := by
  rw [Char.utf8Size_eq_one_iff]
  unfold hexValue? at digit
  simp only [Char.isDigit, Bool.and_eq_true, decide_eq_true_eq, Char.le_def] at digit
  have small : ∀ bound ≤ (127 : UInt32), c.val ≤ bound → c.val ≤ 127 := fun _ low high => UInt32.le_trans high low
  split at digit
  next bounds => exact small 57 (by decide) bounds.2
  next =>
    split at digit
    next bounds => exact small 102 (by decide) bounds.2
    next =>
      split at digit
      next bounds => exact small 70 (by decide) bounds.2
      next => cases digit

theorem bytes_of_hexValues {text : List Char} {digits : List Nat} (found : text.mapM hexValue? = some digits)
    (before : Nat) : text.foldl (fun count c => count + c.utf8Size) before = before + text.length := by
  have single : ∀ c ∈ text, c.utf8Size = 1 := fun c member => by
    obtain ⟨_, _, digit⟩ := exists_of_mapM found c member
    exact utf8Size_of_hexValue? digit
  clear found
  induction text generalizing before with
  | nil => rfl
  | cons c text ih =>
      obtain ⟨first, others⟩ := List.forall_mem_cons.mp single
      rw [List.foldl_cons, ih _ others, first, List.length_cons]
      omega

theorem readHex_error {cursor : Cursor}
    (few : ∀ digits, (cursor.rest.take 4).mapM hexValue? = some digits → (cursor.rest.take 4).length < 4) :
    ∃ error, readHex cursor = .error error := by
  unfold readHex
  dsimp only
  split
  next => exact ⟨_, rfl⟩
  next many =>
    split
    next digits found =>
      rw [bytes_of_hexValues found] at many
      have short := few digits found
      omega
    next => exact ⟨_, rfl⟩

theorem agrees_readHex : Agrees (Read cursor 0) (readHex cursor.returned) (readHex cursor) := by
  by_cases enough : 4 ≤ cursor.rest.length
  · have same : cursor.returned.rest.take 4 = cursor.rest.take 4 := List.take_append_of_le_length enough
    unfold readHex
    dsimp only
    rw [same]
    split
    next => exact .error
    next =>
      split
      next =>
        rw [Cursor.advanceBy_returned enough]
        refine .read ?_
        rw [Cursor.rest_advanceBy, List.length_drop]
        omega
      next => exact .error
  · obtain ⟨error, failed⟩ : ∃ error, readHex cursor = .error error := by
      refine readHex_error fun _ _ => ?_
      rw [List.length_take]
      omega
    obtain ⟨error', failed'⟩ : ∃ error, readHex cursor.returned = .error error := by
      refine readHex_error fun digits found => ?_
      have last : '\r' ∈ cursor.returned.rest.take 4 := by
        rw [List.take_of_length_le (by simp [Cursor.returned]; omega)]
        simp [Cursor.returned]
      obtain ⟨_, _, digit⟩ := exists_of_mapM found '\r' last
      cases digit
    rw [failed, failed']
    exact .error

theorem agrees_readUnicode : Agrees (Read cursor 0) (readUnicode cursor.returned) (readUnicode cursor) := by
  unfold readUnicode
  refine agrees_readHex.bindRead fun high left shorter => ?_
  dsimp only
  split
  next => exact .error
  next =>
    split
    next => exact .read shorter
    next =>
      refine (agrees_readMark (by decide)).bindMoved fun left' shorter' => ?_
      refine (agrees_readMark (by decide)).bindMoved fun left'' shorter'' => ?_
      refine agrees_readHex.bindRead fun low left''' shorter''' => ?_
      dsimp only
      split
      next => exact .error
      next => exact .read (by omega)

theorem agrees_readEscape : Agrees (Read cursor 1) (readEscape cursor.returned) (readEscape cursor) := by
  unfold readEscape
  rcases cursor.next_cases with ⟨none_, return_⟩ | ⟨c, here, here', onward, length⟩
  · rw [none_, return_]
    exact .error
  · rw [here, here', onward]
    dsimp only
    split
    next => exact agrees_readUnicode.behind (by omega)
    next =>
      split
      next => exact .read (by omega)
      next => exact .error

theorem readCharacters_succ {bound : Nat} {c : Char} (next : cursor.next? = some c) :
    readCharacters (bound + 1) cursor =
      if c = '"' then .ok ([], cursor.advance)
      else if c = '\\' then do
        let (d, cursor) ← readEscape cursor.advance
        let (rest, cursor) ← readCharacters bound cursor
        return (d :: rest, cursor)
      else if c.toNat < 0x20 then cursor.failNext .controlCharacter
      else do
        let (rest, cursor) ← readCharacters bound cursor.advance
        return (c :: rest, cursor) := by
  rw [readCharacters.eq_def, next]
  by_cases closing : c = '"'
  · subst closing
    rfl
  · by_cases slash : c = '\\'
    · subst slash
      rfl
    · rw [if_neg closing, if_neg slash]
      dsimp only
      split
      all_goals simp_all

theorem agrees_readCharacters {bound bound' : Nat} (enough : cursor.rest.length < bound)
    (enough' : cursor.rest.length < bound') :
    Agrees (Read cursor 1) (readCharacters bound cursor.returned) (readCharacters bound' cursor) := by
  induction bound generalizing cursor bound' with
  | zero => exact absurd enough (Nat.not_lt_zero _)
  | succ bound ih =>
      obtain ⟨bound', rfl⟩ := Nat.exists_eq_succ_of_ne_zero (Nat.ne_of_gt (Nat.zero_lt_of_lt enough'))
      rcases cursor.next_cases with ⟨none_, return_⟩ | ⟨c, here, here', onward, length⟩
      · have ends : readCharacters (bound' + 1) cursor = cursor.fail .eofInString := by
          rw [readCharacters.eq_def, none_]
        rw [readCharacters_succ return_, ends]
        exact .error
      · rw [readCharacters_succ here, readCharacters_succ here', onward]
        split
        next => exact .read (by omega)
        next =>
          split
          next =>
            refine agrees_readEscape.bindRead fun d left shorter => ?_
            refine (ih (by omega) (by omega)).bindRead fun rest left' shorter' => ?_
            exact .read (by omega)
          next =>
            split
            next => exact .error
            next =>
              refine (ih (by omega) (by omega)).bindRead fun rest left shorter => ?_
              exact .read (by omega)

theorem agrees_readString : Agrees (Read cursor 1) (readString cursor.returned) (readString cursor) := by
  have length : cursor.returned.rest.length = cursor.rest.length + 1 := List.length_append
  exact (agrees_readCharacters (by omega) (Nat.lt_succ_self _)).bindRead fun text left shorter => .read shorter

/-! ## Numbers -/

theorem agrees_finish {positive : Bool} {significand : Nat} {exponent : Int} :
    Agrees (Read cursor 0) (finish positive significand exponent cursor.returned)
      (finish positive significand exponent cursor) := by
  unfold finish
  split
  next => exact .read (Nat.le_refl _)
  next => exact .error

theorem advanceBy_digits (cursor : Cursor) :
    cursor.returned.rest.takeWhile Char.isDigit = cursor.rest.takeWhile Char.isDigit ∧
      cursor.returned.advanceBy (cursor.rest.takeWhile Char.isDigit).length =
        (cursor.advanceBy (cursor.rest.takeWhile Char.isDigit).length).returned ∧
      (cursor.advanceBy (cursor.rest.takeWhile Char.isDigit).length).rest.length +
        (cursor.rest.takeWhile Char.isDigit).length = cursor.rest.length := by
  have shorter := (List.takeWhile_sublist Char.isDigit (l := cursor.rest)).length_le
  refine ⟨Cursor.takeWhile_returned (by decide), Cursor.advanceBy_returned shorter, ?_⟩
  rw [Cursor.rest_advanceBy, List.length_drop]
  omega

theorem advance_sign (cursor : Cursor) : ∃ behind : Cursor,
    (if cursor.next? == some '-' || cursor.next? == some '+' then cursor.advance else cursor) = behind ∧
      (if cursor.next? == some '-' || cursor.next? == some '+' then cursor.returned.advance else cursor.returned) =
        behind.returned ∧ behind.rest.length ≤ cursor.rest.length := by
  rcases cursor.next_cases with ⟨none_, _⟩ | ⟨c, _, _, onward, length⟩
  · exact ⟨cursor, by rw [none_]; rfl, by rw [none_]; rfl, Nat.le_refl _⟩
  · split
    next => exact ⟨cursor.advance, rfl, onward, by omega⟩
    next => exact ⟨cursor, rfl, rfl, Nat.le_refl _⟩

theorem agrees_readExponent {positive : Bool} {significand : Nat} {start : Int} :
    Agrees (Read cursor 0) (readExponent positive significand start cursor.returned)
      (readExponent positive significand start cursor) := by
  unfold readExponent
  rw [Cursor.beq_next?_returned (by decide), Cursor.beq_next?_returned (by decide)]
  obtain ⟨behind, moved, moved', shorter⟩ := advance_sign cursor
  obtain ⟨digits, onward, length⟩ := advanceBy_digits behind
  dsimp only
  rw [moved, moved', digits, onward]
  rcases behind.next_cases with ⟨none_, return_⟩ | ⟨c, here, here', _, _⟩
  · rw [none_, return_]
    exact .error
  · rw [here, here']
    dsimp only
    split
    next => exact .error
    next =>
      split
      next => exact agrees_finish.behind (by omega)
      next =>
        split
        next => exact .error
        next => exact .read (by omega)

theorem isExponentMark_returned (cursor : Cursor) :
    isExponentMark cursor.returned.next? = isExponentMark cursor.next? := by
  rw [isExponentMark, isExponentMark, Cursor.beq_next?_returned (by decide), Cursor.beq_next?_returned (by decide)]

theorem agrees_readExponent_advance {positive : Bool} {significand : Nat} {start : Int}
    (mark : isExponentMark cursor.next?) :
    Agrees (Read cursor 1) (readExponent positive significand start cursor.returned.advance)
      (readExponent positive significand start cursor.advance) := by
  cases next : cursor.next? with
  | none =>
      rw [next] at mark
      cases mark
  | some c =>
      obtain ⟨onward, length⟩ := Cursor.advance_returned next
      rw [onward]
      exact agrees_readExponent.behind (by omega)

theorem agrees_readFraction {positive : Bool} {significand : Nat} {start : Int} :
    Agrees (Read cursor 0) (readFraction positive significand start cursor.returned)
      (readFraction positive significand start cursor) := by
  obtain ⟨digits, onward, length⟩ := advanceBy_digits cursor
  unfold readFraction
  dsimp only
  rw [digits, onward, isExponentMark_returned]
  split
  next =>
    rcases cursor.next_cases with ⟨none_, return_⟩ | ⟨c, here, here', _, _⟩
    · rw [none_, return_]
      exact .error
    · rw [here, here']
      exact .error
  next =>
    split
    next mark => exact (agrees_readExponent_advance mark).behind (by omega)
    next => exact agrees_finish.behind (by omega)

theorem agrees_readNumber {positive : Bool} :
    Agrees (Read cursor 1) (readNumber positive cursor.returned) (readNumber positive cursor) := by
  obtain ⟨digits, onward, length⟩ := advanceBy_digits cursor
  unfold readNumber
  dsimp only
  rw [digits, onward, isExponentMark_returned]
  rcases cursor.next_cases with ⟨none_, return_⟩ | ⟨c, here, here', _, _⟩
  · rw [none_, return_]
    exact .error
  · rw [here, here']
    dsimp only
    split
    next => exact .error
    next digit =>
      have some_ : 1 ≤ (cursor.rest.takeWhile Char.isDigit).length := by
        obtain ⟨rest, same⟩ := List.head?_eq_some_iff.mp here
        rw [same, List.takeWhile_cons_of_pos (by simpa using digit), List.length_cons]
        omega
      simp only [Cursor.next?_returned (show '.' ≠ '\r' by decide)]
      split
      next => exact .error
      next =>
        split
        next point =>
          obtain ⟨onward', length'⟩ := Cursor.advance_returned point
          rw [onward']
          exact agrees_readFraction.behind (by omega)
        next =>
          split
          next mark => exact (agrees_readExponent_advance mark).behind (by omega)
          next =>
            split
            next => exact .read (by omega)
            next => exact agrees_finish.behind (by omega)

end Leaves

end Conform.Json
