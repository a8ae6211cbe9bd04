import Conform.Proofs.Declaration.Header

/-!
Declarations by themselves. What is read of a declaration is no matter of what stands before or after it:
an interface ends where its braces close, and the body of an alias may be followed by a semicolon or by
nothing, so both are found again where they stand alone.
-/

namespace Conform.Declaration

open Text Conform.Expr

/-! ## Braces -/

structure Braces where
  depth : Int := 0
  quote : Option Char := none

def Braces.after (braces : Braces) (c : Char) : Braces :=
  if braces.quote.isSome || isQuote c then { braces with quote := quoteAfter braces.quote c }
  else if c = '{' then { braces with depth := braces.depth + 1 }
  else if c = '}' then { braces with depth := braces.depth - 1 }
  else braces

def Braces.through (braces : Braces) (text : List Char) : Braces :=
  text.foldl after braces

def braceDepth (text : List Char) : Int :=
  (({} : Braces).through text).depth

def ClosesAtEnd (span : List Char) : Prop :=
  ∃ front inside, span = front ++ '{' :: (inside ++ ['}']) ∧ (∀ part, part <+: front → braceDepth part = 0) ∧
    (∀ part, part <+: inside → 0 < braceDepth (front ++ '{' :: part)) ∧ braceDepth span = 0

inductive BraceStep (depth : Nat) (quote : Option Char) (c : Char) : Prop where
  | goes {depth' : Nat} {quote' : Option Char} (after : (⟨depth, quote⟩ : Braces).after c = ⟨depth', quote'⟩)
      (opens : depth = 0 → depth' = 0 ∨ c = '{') (stays : depth ≠ 0 → depth' ≠ 0)
      (read : ∀ rest, readBraces depth quote (c :: rest) = (readBraces depth' quote' rest).map (c :: ·))
  | closes (brace : c = '}') (open_ : depth ≠ 0) (after : (⟨depth, quote⟩ : Braces).after c = ⟨0, none⟩)
      (read : ∀ rest, readBraces depth quote (c :: rest) = .ok ['}'])
  | fails (read : ∀ rest, readBraces depth quote (c :: rest) = .error .unbalanced)

theorem braceStep (depth : Nat) (quote : Option Char) (c : Char) : BraceStep depth quote c := by
  by_cases literal : quote.isSome || isQuote c
  · refine @BraceStep.goes _ _ _ depth (quoteAfter quote c) ?_ .inl id fun rest => ?_
    · rw [Braces.after, if_pos literal]
    · simp only [readBraces, literal, if_true]
  · obtain rfl : quote = none := by
      cases quote <;> simp_all
    by_cases opening : c = '{'
    · subst opening
      exact @BraceStep.goes _ _ _ (depth + 1) none rfl (fun _ => .inr rfl) (by simp) fun _ => rfl
    by_cases closing : c = '}'
    · subst closing
      obtain _ | _ | outer := depth
      · exact .fails fun _ => rfl
      · exact .closes rfl (by simp) rfl fun _ => rfl
      · refine @BraceStep.goes _ _ _ (outer + 1) none ?_ (by simp) (by simp) fun _ => rfl
        have down : ((outer + 2 : Nat) : Int) - 1 = (outer + 1 : Nat) := by omega
        exact congrArg (Braces.mk · none) down
    · refine @BraceStep.goes _ _ _ depth none ?_ .inl id fun rest => ?_
      · rw [Braces.after, if_neg literal, if_neg opening, if_neg closing]
      · simp only [readBraces, literal, opening, closing, Bool.false_eq_true, if_false]

section Braces

variable {depth : Nat} {quote : Option Char} {c : Char} {text span : List Char}

theorem readBraces_append (read : readBraces depth quote text = .ok span) (more : List Char) :
    readBraces depth quote (span ++ more) = .ok span := by
  induction text generalizing depth quote span with
  | nil => cases read
  | cons c text ih =>
      cases braceStep depth quote c with
      | goes _ _ _ step =>
          rw [step] at read
          obtain ⟨front, inner, rfl⟩ := map_cons_eq_ok.mp read
          rw [List.cons_append, step, ih inner]
          rfl
      | closes brace _ _ step =>
          rw [step] at read
          cases read
          exact brace ▸ step more
      | fails step =>
          rw [step] at read
          cases read

theorem readBraces_inside (open_ : depth ≠ 0) (read : readBraces depth quote text = .ok span) :
    ∃ inside, span = inside ++ ['}'] ∧
      (∀ part, part <+: inside → 0 < ((⟨depth, quote⟩ : Braces).through part).depth) ∧
      ((⟨depth, quote⟩ : Braces).through span).depth = 0 := by
  have here : (0 : Int) < depth := by omega
  induction text generalizing depth quote span with
  | nil => cases read
  | cons c text ih =>
      cases braceStep depth quote c with
      | goes after _ stays step =>
          rw [step] at read
          obtain ⟨more, inner, rfl⟩ := map_cons_eq_ok.mp read
          have open' := stays open_
          obtain ⟨inside, rfl, within, closed⟩ := ih open' inner (by omega)
          refine ⟨c :: inside, rfl, fun part front => ?_, ?_⟩
          · rcases List.prefix_cons_iff.mp front with rfl | ⟨part, rfl, inner⟩
            · exact here
            · rw [Braces.through, List.foldl_cons, after]
              exact within part inner
          · rw [Braces.through, List.foldl_cons, after]
            exact closed
      | closes brace _ after step =>
          rw [step] at read
          cases read
          refine ⟨[], rfl, fun part front => ?_, ?_⟩
          · rw [List.prefix_nil.mp front]
            exact here
          · rw [brace] at after
            rw [Braces.through, List.foldl_cons, after]
            rfl
      | fails step =>
          rw [step] at read
          cases read

theorem readBraces_closes (read : readBraces 0 quote text = .ok span) :
    ∃ front inside, span = front ++ '{' :: (inside ++ ['}']) ∧
      (∀ part, part <+: front → ((⟨0, quote⟩ : Braces).through part).depth = 0) ∧
      (∀ part, part <+: inside → 0 < ((⟨0, quote⟩ : Braces).through (front ++ '{' :: part)).depth) ∧
      ((⟨0, quote⟩ : Braces).through span).depth = 0 := by
  induction text generalizing quote span with
  | nil => cases read
  | cons c text ih =>
      cases braceStep 0 quote c with
      | @goes depth' quote' after opens _ step =>
          rw [step] at read
          obtain ⟨more, inner, rfl⟩ := map_cons_eq_ok.mp read
          have onward (part : List Char) :
              (⟨0, quote⟩ : Braces).through (c :: part) = (⟨depth', quote'⟩ : Braces).through part := by
            rw [Braces.through, List.foldl_cons]
            exact congrArg (List.foldl Braces.after · part) after
          by_cases flat : depth' = 0
          · subst flat
            obtain ⟨front, inside, rfl, before, within, closed⟩ := ih inner
            refine ⟨c :: front, inside, rfl, fun part start => ?_, fun part start => ?_, ?_⟩
            · rcases List.prefix_cons_iff.mp start with rfl | ⟨part, rfl, inner⟩
              · rfl
              · rw [onward]
                exact before part inner
            · rw [List.cons_append, onward]
              exact within part start
            · rw [onward]
              exact closed
          · obtain rfl := (opens rfl).resolve_left flat
            obtain ⟨inside, rfl, within, closed⟩ := readBraces_inside flat inner
            refine ⟨[], inside, rfl, fun part start => ?_, fun part start => ?_, ?_⟩
            · rw [List.prefix_nil.mp start]
              rfl
            · rw [List.nil_append, onward]
              exact within part start
            · rw [onward]
              exact closed
      | closes _ open_ => exact absurd rfl open_
      | fails step =>
          rw [step] at read
          cases read

theorem closesAtEnd_of_read (read : readBraces 0 none text = .ok span) : ClosesAtEnd span :=
  readBraces_closes read

theorem ClosesAtEnd.last (closes : ClosesAtEnd span) : ∃ inside, span = inside ++ ['}'] := by
  obtain ⟨front, inside, rfl, _⟩ := closes
  exact ⟨front ++ '{' :: inside, by simp⟩

end Braces

/-! ## Interfaces -/

section Header

variable {name blank gap text start span found : List Char} {before : Option Char}

theorem reachesBody_iff : reachesBody text ↔
    ∃ gap rest, (∀ c ∈ gap, c ∉ ['{', '}', ';']) ∧ text = gap ++ '{' :: rest := by
  unfold reachesBody
  constructor
  · intro reaches
    have parts := List.takeWhile_append_dropWhile (p := fun c => !(c ∈ ['{', '}', ';'] : Bool)) (l := text)
    obtain ⟨rest, brace⟩ := List.head?_eq_some_iff.mp (eq_of_beq reaches)
    refine ⟨_, rest, fun c member => ?_, by rw [← brace]; exact parts.symm⟩
    simpa using List.mem_takeWhile_imp member
  · rintro ⟨gap, rest, plain, rfl⟩
    rw [List.dropWhile_append_of_pos fun c member => by simpa using plain c member]
    rfl

def headed (keyword blank name gap : List Char) : List Char :=
  keyword ++ (blank ++ (name ++ gap))

structure Heads (name blank gap : List Char) : Prop where
  some_ : blank ≠ []
  spaces : ∀ c ∈ blank, isBlank c
  ends : isBoundary (name.getLast?.or (some ' ')) (gap.head?.or (some '{'))
  plain : ∀ c ∈ gap, c ∉ ['{', '}', ';']

theorem startsHeader_iff : startsHeader name start ↔
    ∃ gap rest, (∀ c ∈ gap, c ∉ ['{', '}', ';']) ∧
      isBoundary (name.getLast?.or (some ' ')) (gap.head?.or (some '{')) ∧
      start = name ++ (gap ++ '{' :: rest) := by
  simp only [startsHeader, Option.any_eq_true, Bool.and_eq_true, after?_eq_some, reachesBody_iff]
  constructor
  · rintro ⟨_, rfl, ends, gap, rest, plain, rfl⟩
    rw [List.head?_append, List.head?_cons] at ends
    exact ⟨gap, rest, plain, ends, rfl⟩
  · rintro ⟨gap, rest, plain, ends, rfl⟩
    refine ⟨_, rfl, ?_, gap, rest, plain, rfl⟩
    rwa [List.head?_append, List.head?_cons]

theorem interfaceHeader?_iff : interfaceHeader? name before text = some found ↔
    text = found ∧ isBoundary before text.head? ∧
      ∃ blank gap rest, Heads name blank gap ∧ text = headed "interface".toList blank name gap ++ '{' :: rest := by
  rw [interfaceHeader?_eq, Option.ite_none_right_eq_some, Bool.and_eq_true, Option.any_eq_true,
    Option.some.injEq, and_comm]
  refine and_congr_right fun _ => and_congr_right fun _ => ?_
  constructor
  · rintro ⟨left, keyword, named⟩
    obtain ⟨start, member, here⟩ := List.any_eq_true.mp named
    obtain ⟨blank, some_, blank', parts⟩ := mem_blankSplitsSome.mp member
    obtain ⟨gap, rest, plain, ends, named⟩ := startsHeader_iff.mp here
    refine ⟨blank, gap, rest, ⟨some_, blank', ends, plain⟩, ?_⟩
    rw [after?_eq_some.mp keyword, parts, named, headed, List.append_assoc, List.append_assoc,
      List.append_assoc]
  · rintro ⟨blank, gap, rest, heads, parts⟩
    have inner : name ++ (gap ++ '{' :: rest) ∈ blankSplitsSome (blank ++ (name ++ (gap ++ '{' :: rest))) :=
      mem_blankSplitsSome.mpr ⟨blank, heads.some_, heads.spaces, rfl⟩
    have named := startsHeader_iff.mpr ⟨gap, rest, heads.plain, heads.ends, rfl⟩
    refine ⟨_, after?_eq_some.mpr ?_, List.any_eq_true.mpr ⟨_, inner, named⟩⟩
    rw [parts, headed, List.append_assoc, List.append_assoc, List.append_assoc]

theorem firstMatch?_here {α : Type} {read : Option Char → List Char → Option α} {found : α}
    (here : read before text = some found) : firstMatch? read before text = some found := by
  cases text with
  | nil => exact here
  | cons c text => simp only [firstMatch?, here]

theorem interface?_some_iff : interface? name text = .ok (some span) ↔
    ∃ start, firstMatch? (interfaceHeader? name) none text = some start ∧
      readBraces 0 none start = .ok span := by
  unfold interface?
  cases firstMatch? (interfaceHeader? name) none text with
  | none => simp
  | some start => cases read : readBraces 0 none start <;> simp [read, Except.map]

theorem interface?_found (found : interface? name text = .ok (some span)) :
    ∃ blank gap rest, Heads name blank gap ∧ headed "interface".toList blank name gap ++ '{' :: rest <:+ text ∧
      readBraces 0 none (headed "interface".toList blank name gap ++ '{' :: rest) = .ok span := by
  obtain ⟨start, matched, read⟩ := interface?_some_iff.mp found
  obtain ⟨before, text, suffix, here⟩ := firstMatch?_some matched
  obtain ⟨rfl, _, blank, gap, rest, heads, rfl⟩ := interfaceHeader?_iff.mp here
  exact ⟨blank, gap, rest, heads, suffix, read⟩

theorem Heads.interface? (heads : Heads name blank gap) {rest : List Char}
    (read : readBraces 0 none (headed "interface".toList blank name gap ++ '{' :: rest) = .ok span) :
    interface? name (headed "interface".toList blank name gap ++ '{' :: rest) = .ok (some span) := by
  have here : interfaceHeader? name none (headed "interface".toList blank name gap ++ '{' :: rest) = some _ :=
    interfaceHeader?_iff.mpr ⟨rfl, rfl, blank, gap, rest, heads, rfl⟩
  exact interface?_some_iff.mpr ⟨_, firstMatch?_here here, read⟩

theorem Heads.readBraces (heads : Heads name blank gap) (rest : List Char) :
    readBraces 0 none ("interface".toList ++ (blank ++ rest)) =
      (readBraces 0 none rest).map ("interface".toList ++ blank ++ ·) := by
  have keyword : ∀ c ∈ "interface".toList, isNamePart c := List.all_eq_true.mp (by decide)
  rw [readBraces_plain fun c member => unbraced_of_inert (inert_of_isNamePart (keyword c member)),
    readBraces_plain fun c member => unbraced_of_inert (inert_of_isBlank (heads.spaces c member))]
  exact map_append _ _ _

/-- A brace that is opened in the name is closed in it as well. -/
def ClosesWithin (name : List Char) : Prop :=
  ∃ part, Declaration.readBraces 0 none name = .ok part

theorem not_closesWithin_of_isName (named : isName name) : ¬ClosesWithin name := by
  rintro ⟨part, read⟩
  have plain := readBraces_plain (fun c member =>
    unbraced_of_inert (inert_of_isNamePart (isNamePart_of_isName named c member))) 0 []
  rw [List.append_nil, read] at plain
  cases plain

theorem Heads.read_within (heads : Heads name blank gap) {part : List Char}
    (closed : Declaration.readBraces 0 none name = .ok part) (rest : List Char) :
    Declaration.readBraces 0 none (headed "interface".toList blank name gap ++ rest) =
      .ok ("interface".toList ++ blank ++ part) := by
  obtain ⟨more, named⟩ := readBraces_isPrefix closed
  have parts : headed "interface".toList blank name gap ++ rest =
      "interface".toList ++ (blank ++ (part ++ (more ++ (gap ++ rest)))) := by
    simp only [headed, ← named, List.append_assoc]
  rw [parts, heads.readBraces, readBraces_append closed]
  rfl

theorem Heads.reaches_brace (heads : Heads name blank gap) (open_ : ¬ClosesWithin name) {rest : List Char}
    (read : Declaration.readBraces 0 none (headed "interface".toList blank name gap ++ '{' :: rest) = .ok span) :
    headed "interface".toList blank name gap ++ ['{'] <+: span := by
  have whole : headed "interface".toList blank name gap ++ ['{'] <+:
      headed "interface".toList blank name gap ++ '{' :: rest := ⟨rest, by simp⟩
  refine (List.prefix_or_prefix_of_prefix (readBraces_isPrefix read) whole).resolve_left fun short => open_ ?_
  obtain ⟨more, parts⟩ := short
  have read' := readBraces_append read more
  rw [parts, headed, List.append_assoc, List.append_assoc, heads.readBraces] at read'
  cases inner : Declaration.readBraces 0 none (name ++ gap ++ ['{']) with
  | error fault =>
      rw [inner] at read'
      cases read'
  | ok left =>
      have front := readBraces_isPrefix inner
      rw [List.append_assoc] at front
      rcases List.prefix_or_prefix_of_prefix front (List.prefix_append name _) with within | ⟨tail, beyond⟩
      · obtain ⟨more, named⟩ := within
        exact ⟨left, named ▸ readBraces_append inner more⟩
      · -- The scanner ends at a closing brace, and none stands after the name.
        rw [← beyond, List.prefix_append_right_inj] at front
        cases tail using List.reverseRecOn with
        | nil =>
            rw [List.append_nil] at beyond
            have read := readBraces_append inner []
            rw [← beyond, List.append_nil] at read
            exact ⟨name, read⟩
        | append_singleton tail c =>
            obtain ⟨inside, last⟩ := (closesAtEnd_of_read inner).last
            rw [← beyond, ← List.append_assoc] at last
            obtain rfl : c = '}' := by simpa using (List.append_inj_right' last rfl)
            have member : '}' ∈ gap ++ ['{'] := front.subset (by simp)
            exact absurd (heads.plain '}' (by simpa using member)) (by simp)

theorem interface?_keyword (found : interface? name text = .ok (some span)) : "interface".toList <+: span := by
  obtain ⟨blank, gap, rest, heads, _, read⟩ := interface?_found found
  rw [headed, List.append_assoc, List.append_assoc, heads.readBraces] at read
  cases inner : Declaration.readBraces 0 none (name ++ gap ++ '{' :: rest) with
  | error fault =>
      rw [inner] at read
      cases read
  | ok left =>
      rw [inner] at read
      obtain rfl := Except.ok.inj read
      exact ⟨blank ++ left, (List.append_assoc _ _ _).symm⟩

theorem interface?_closes (found : interface? name text = .ok (some span)) : ClosesAtEnd span := by
  obtain ⟨_, _, _, _, _, read⟩ := interface?_found found
  exact closesAtEnd_of_read read

/-- An interface is found again where it stands alone, if the braces of its name do not end it. -/
theorem interface?_again (found : interface? name text = .ok (some span)) :
    (∀ more, interface? name (span ++ more) = .ok (some span)) ↔ ¬ClosesWithin name := by
  obtain ⟨blank, gap, rest, heads, _, read⟩ := interface?_found found
  constructor
  · rintro again ⟨part, closed⟩
    -- What is read ends within the name, but a header goes on beyond it.
    have alone := again []
    rw [List.append_nil] at alone
    obtain ⟨blank', gap', rest', heads', suffix, read'⟩ := interface?_found alone
    rw [heads'.read_within closed] at read'
    obtain rfl := Except.ok.inj read'
    have longer := suffix.length_le
    have shorter := (readBraces_isPrefix closed).length_le
    simp only [headed, List.length_append, List.length_cons] at longer
    omega
  · intro open_ more
    obtain ⟨inner, rfl⟩ := heads.reaches_brace open_ read
    have read' := readBraces_append read more
    simp only [List.append_assoc, List.cons_append] at read' ⊢
    exact heads.interface? read'

end Header

/-! ## Aliases -/

namespace Place

def through? (place : Place) (text : List Char) : Option Place :=
  text.foldlM step place

def Sound : Place → Prop
  | quoted quote => isQuote quote
  | _ => True

variable {place next last : Place} {c : Char} {text more run : List Char}

theorem through?_append :
    place.through? (text ++ more) = (place.through? text).bind fun next => next.through? more :=
  List.foldlM_append

theorem through?_cons :
    place.through? (c :: text) = (place.step c).bind fun next => next.through? text :=
  List.foldlM_cons

inductive Move (c : Char) : Place → Place → Prop where
  | skips {awaiting : Bool} (blank : isBlank c) : Move c (outside awaiting) (outside awaiting)
  | ends (blank : isBlank c) : Move c (token 0) (outside false)
  | joins {place : Place} (visible : isBlank c = false) : Move c place (outside true)
  | opens {place : Place} (visible : isBlank c = false) : Move c place (openOperand c)
  | stays {place next : Place} (unfinished : next.mayEnd = false)
      (same : ∀ quote, next = quoted quote → place = next) : Move c place next
  | closes {place : Place} (mark : isBlank c → place = quoted c) : Move c place (token 0)

theorem step_move (step : place.step c = some next) : Move c place next := by
  have operator (joins : c = '&' ∨ c = '|') : isBlank c = false := by
    rcases joins with rfl | rfl <;> rfl
  cases place with
  | outside awaiting =>
      simp only [Place.step] at step
      by_cases blank : isBlank c
      · simp only [blank, if_true, Option.some.injEq] at step
        exact step ▸ .skips blank
      · have visible : isBlank c = false := by simpa using blank
        split_ifs at step <;> cases step
        · exact .joins visible
        · exact .opens visible
  | token angle =>
      cases angle with
      | zero =>
          simp only [Place.step] at step
          by_cases blank : isBlank c
          · simp only [blank, if_true, Option.some.injEq] at step
            exact step ▸ .ends blank
          · have visible : isBlank c = false := by simpa using blank
            split_ifs at step <;> cases step
            · exact .joins visible
            · exact .opens visible
      | succ angle =>
          simp only [Place.step] at step
          split_ifs at step with opening closing <;> cases step
          · exact .stays rfl (by simp)
          · subst closing
            cases angle with
            | zero => exact .closes (by decide)
            | succ angle => exact .stays rfl (by simp)
          · exact .stays rfl (by simp)
  | quoted quote =>
      simp only [Place.step] at step
      split_ifs at step with closing <;> cases step
      · exact .closes fun _ => by rw [closing]
      · exact .stays rfl fun _ _ => rfl
  | nested opener depth quote =>
      cases quote with
      | some quote =>
          simp only [Place.step] at step
          split_ifs at step <;> cases step <;> exact .stays rfl (by simp)
      | none =>
          simp only [Place.step] at step
          split_ifs at step with opens opening closing <;> cases step
          · exact .stays rfl (by simp)
          · exact .stays rfl (by simp)
          · refine .closes fun blank => ?_
            rw [closing, closer] at blank
            split at blank <;> cases blank
          · exact .stays rfl (by simp)
          · exact .stays rfl (by simp)

theorem openOperand_cases (c : Char) :
    openOperand c = token 0 ∨ (openOperand c).mayEnd = false ∧
      ∀ quote, openOperand c = quoted quote → isQuote quote := by
  unfold openOperand
  split_ifs with nests quotes opens
  · exact .inr ⟨rfl, by simp⟩
  · refine .inr ⟨rfl, fun quote same => ?_⟩
    cases same
    rcases quotes with rfl | rfl <;> rfl
  · exact .inr ⟨rfl, by simp⟩
  · exact .inl rfl

theorem Sound.step (sound : place.Sound) (step : place.step c = some next) : next.Sound := by
  have told (quoted_ : ∀ quote, next = quoted quote → isQuote quote) : next.Sound := by
    cases next with
    | quoted quote => exact quoted_ quote rfl
    | _ => trivial
  cases step_move step with
  | skips | ends | joins | closes => trivial
  | opens =>
      rcases openOperand_cases c with token_ | ⟨_, quoted_⟩
      · rw [token_]
        trivial
      · exact told quoted_
  | stays _ same =>
      refine told fun quote quoted_ => ?_
      rw [same quote quoted_, quoted_] at sound
      exact sound

theorem Sound.mayEnd_of_blank (sound : place.Sound) (blank : isBlank c) (step : place.step c = some next)
    (ends : next.mayEnd) : place.mayEnd := by
  cases step_move step with
  | skips => exact ends
  | ends => rfl
  | joins visible | opens visible => simp [blank] at visible
  | stays unfinished => simp [unfinished] at ends
  | closes mark =>
      rw [mark blank] at sound
      have visible := isBlank_of_isQuote sound
      simp [blank] at visible

theorem eq_token_of_visible (visible : isBlank c = false) (step : place.step c = some next)
    (ends : next.mayEnd) : next = token 0 := by
  cases step_move step with
  | skips blank | ends blank => simp [visible] at blank
  | joins => cases ends
  | opens =>
      rcases openOperand_cases c with token_ | ⟨unfinished, _⟩
      · exact token_
      · simp [unfinished] at ends
  | stays unfinished => simp [unfinished] at ends
  | closes => rfl

theorem Sound.through? (sound : place.Sound) (passed : place.through? text = some last) : last.Sound := by
  induction text generalizing place with
  | nil => exact Option.some.inj passed ▸ sound
  | cons c text ih =>
      rw [through?_cons] at passed
      obtain ⟨next, step, passed⟩ := Option.bind_eq_some_iff.mp passed
      exact ih (sound.step step) passed

theorem Sound.mayEnd_of_blanks (sound : place.Sound) (blank : ∀ c ∈ run, isBlank c)
    (passed : place.through? run = some last) (ends : last.mayEnd) : place.mayEnd := by
  induction run generalizing place with
  | nil => exact Option.some.inj passed ▸ ends
  | cons c run ih =>
      obtain ⟨first, others⟩ := List.forall_mem_cons.mp blank
      rw [through?_cons] at passed
      obtain ⟨next, step, passed⟩ := Option.bind_eq_some_iff.mp passed
      exact sound.mayEnd_of_blank first step (ih (sound.step step) others passed)

theorem start_through? (blank : ∀ c ∈ run, isBlank c) : start.through? run = some start := by
  induction run with
  | nil => rfl
  | cons c run ih =>
      obtain ⟨first, others⟩ := List.forall_mem_cons.mp blank
      have step : start.step c = some start := by simp [start, Place.step, first]
      rw [through?_cons, step]
      exact ih others

end Place

section Body

variable {name text body rest : List Char} {place last : Place}

theorem readBody_through (place : Place) (text : List Char) :
    place.through? (readBody place text).1 = some (readBody place text).2 := by
  induction text generalizing place with
  | nil => rfl
  | cons c text ih =>
      rw [readBody]
      cases step : place.step c with
      | none => rfl
      | some next =>
          rw [Place.through?_cons, step]
          exact ih next

theorem readBody_of_through (passed : place.through? text = some last) (rest : List Char) :
    readBody place (text ++ rest) = (text ++ (readBody last rest).1, (readBody last rest).2) := by
  induction text generalizing place with
  | nil =>
      cases passed
      rfl
  | cons c text ih =>
      rw [Place.through?_cons] at passed
      obtain ⟨next, step, passed⟩ := Option.bind_eq_some_iff.mp passed
      rw [List.cons_append, readBody, step]
      simp only [ih passed]
      rfl

structure Finished (body : List Char) : Prop where
  some_ : body ≠ []
  trimmed : Trimmed body
  passed : Place.start.through? body = some (.token 0)

theorem alias?_some_iff : alias? name text = .ok (some body) ↔
    ∃ rest, firstMatch? (afterAliasHeader? name) none text = some rest ∧
      (readBody .start rest).2.mayEnd ∧ trim (readBody .start rest).1 = body ∧ body ≠ [] := by
  unfold alias?
  cases firstMatch? (afterAliasHeader? name) none text with
  | none => simp
  | some rest =>
      have apart : body ≠ [] ↔ body.isEmpty = false := by simp
      simp only [Option.some.injEq, exists_eq_left', apart]
      split
      next complete =>
        obtain ⟨ends, some_⟩ := Bool.and_eq_true_iff.mp complete
        simp only [Except.ok.injEq, Option.some.injEq, ends, true_and]
        constructor
        · rintro rfl
          exact ⟨rfl, by simpa using some_⟩
        · exact fun found => found.1
      next incomplete =>
        simp only [reduceCtorEq, false_iff]
        rintro ⟨ends, rfl, some_⟩
        simp [ends, some_] at incomplete

theorem alias?_finished (found : alias? name text = .ok (some body)) : Finished body := by
  obtain ⟨rest, _, ends, same, some_⟩ := alias?_some_iff.mp found
  obtain ⟨before, after, blank, parts⟩ := exists_trim (readBody .start rest).1
  have trimmed := trimmed_trim (readBody .start rest).1
  have passed := readBody_through .start rest
  rw [same] at parts trimmed
  have lead := fun c member => blank c (List.mem_append_left _ member)
  have trail := fun c member => blank c (List.mem_append_right _ member)
  rw [parts, List.append_assoc, Place.through?_append, Place.start_through? lead, Option.bind_some,
    Place.through?_append] at passed
  obtain ⟨place, inner, outer⟩ := Option.bind_eq_some_iff.mp passed
  have sound : Place.start.Sound := trivial
  have complete := (sound.through? inner).mayEnd_of_blanks trail outer ends
  refine ⟨some_, trimmed, inner.trans (congrArg some ?_)⟩
  obtain ⟨front, c, rfl⟩ : ∃ front c, body = front ++ [c] :=
    ⟨_, _, (List.dropLast_append_getLast some_).symm⟩
  rw [Place.through?_append] at inner
  obtain ⟨before, _, step⟩ := Option.bind_eq_some_iff.mp inner
  rw [Place.through?_cons] at step
  obtain ⟨next, step, same⟩ := Option.bind_eq_some_iff.mp step
  cases same
  exact Place.eq_token_of_visible (trimmed.ends c (by simp)) step complete

/-- A complete body is read where nothing of it follows. -/
theorem Finished.alias? (finished : Finished body) (named : isName name) (ends : EndsBody [] rest) :
    alias? name (aliasHeader name ++ ' ' :: (body ++ rest)) = .ok (some body) := by
  have none_ : ∀ c ∈ ([] : List Char), isBlank c := by simp
  obtain ⟨place, read, mayEnd⟩ := readBody_ends none_ ends (.inl rfl)
  have lead : ∀ c ∈ [' '], isBlank c := List.forall_mem_singleton.mpr rfl
  have passed : Place.start.through? (' ' :: body) = some (.token 0) := by
    rw [← List.singleton_append, Place.through?_append, Place.start_through? lead]
    exact finished.passed
  have whole := readBody_of_through passed rest
  rw [List.nil_append] at read
  rw [read, List.append_nil] at whole
  refine alias?_some_iff.mpr ⟨_, firstMatch?_header named _, ?_, ?_, finished.some_⟩
  · rw [← List.cons_append, whole]
    exact mayEnd
  · rw [← List.cons_append, whole]
    have pad := finished.trimmed.trim_pad finished.some_ [' '] [] (by simpa using lead)
    rwa [List.append_nil] at pad

end Body

/-! ## Definitions -/

section Definition

variable {name text expr : List Char}

theorem interface?_trimmed (found : interface? name text = .ok (some expr)) : Trimmed expr := by
  obtain ⟨more, parts⟩ := interface?_keyword found
  obtain ⟨inside, last⟩ := (interface?_closes found).last
  constructor
  · intro c head
    rw [← parts] at head
    obtain rfl : 'i' = c := Option.some.inj head
    rfl
  · intro c final
    rw [last, List.getLast?_concat] at final
    cases final
    rfl

theorem find_trimmed (found : find name text = .ok (some expr)) : Trimmed expr := by
  unfold find at found
  split at found
  · exact (alias?_finished found).trimmed
  · exact interface?_trimmed found

end Definition

/-- A declaration is found again where it stands alone. That of an interface is found whatever follows it,
unless its name closes a brace; the body of an alias may be declared under any name, and ends at a
semicolon at the latest. -/
theorem declaration_contained :
    (∀ {name text span : List Char}, interface? name text = .ok (some span) →
      "interface".toList <+: span ∧ ClosesAtEnd span ∧
        ((∀ more, interface? name (span ++ more) = .ok (some span)) ↔ ¬ClosesWithin name)) ∧
    (∀ {name : List Char}, isName name → ¬ClosesWithin name) ∧
    ∀ {name text body : List Char}, alias? name text = .ok (some body) →
      body ≠ [] ∧ Trimmed body ∧ ∀ other, isName other →
        alias? other (aliasHeader other ++ ' ' :: body) = .ok (some body) ∧
        ∀ more, alias? other (aliasHeader other ++ ' ' :: (body ++ ';' :: more)) = .ok (some body) := by
  refine ⟨fun found => ?interface, not_closesWithin_of_isName, fun found => ?body⟩
  case interface =>
    exact ⟨interface?_keyword found, interface?_closes found, interface?_again found⟩
  case body =>
    have finished := alias?_finished found
    have nothing : EndsBody [] [] := fun c head => by cases head
    refine ⟨finished.some_, finished.trimmed, fun other named => ⟨?_, fun more => ?_⟩⟩
    · have alone := finished.alias? named nothing
      rwa [List.append_nil] at alone
    · exact finished.alias? named (endsBody_semicolon [] more)

/-- An interface that holds a brace in a literal, and a union that goes on over two lines. -/
theorem declaration_contained_file :
    let text := "interface A \x7b b: '\x7d' | \x7b\x7d \x7d\ntype C = A\n  | '='\nlet d".toList
    let span := "interface A \x7b b: '\x7d' | \x7b\x7d \x7d".toList
    let body := "A\n  | '='".toList
    interface? "A".toList text = .ok (some span) ∧ alias? "C".toList text = .ok (some body) ∧
      (∀ more, interface? "A".toList (span ++ more) = .ok (some span)) ∧
      ∀ more, alias? "D".toList (aliasHeader "D".toList ++ ' ' :: (body ++ ';' :: more)) = .ok (some body) := by
  intro text span body
  have named : isName "A".toList := by decide
  have interface_ : interface? "A".toList text = .ok (some span) := by decide +kernel
  have alias_ : alias? "C".toList text = .ok (some body) := by decide +kernel
  exact ⟨interface_, alias_, (declaration_contained.1 interface_).2.2.mpr (declaration_contained.2.1 named),
    ((declaration_contained.2.2 alias_).2.2 "D".toList (by decide)).2⟩

/-- A name with braces of its own, which are not those of a body. -/
theorem declaration_uncontained :
    interface? "A\x7b\x7dx".toList "interface A\x7b\x7dx \x7b".toList =
        .ok (some "interface A\x7b\x7d".toList) ∧
      interface? "A\x7b\x7dx".toList "interface A\x7b\x7d".toList = .ok none := by
  decide +kernel

end Conform.Declaration
