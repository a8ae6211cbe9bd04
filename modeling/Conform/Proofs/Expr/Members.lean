import Conform.Proofs.Expr.Literal

/-!
Where one member of a record body ends and the next begins. A field whose type is a literal is a member
of its own between the members before it and those after it, whatever the literal says.
-/

namespace Conform.Expr

open Text

structure MemberScan where
  depth : Int := 0
  quote : Option Char := none
  last : Option Char := none
deriving DecidableEq

namespace MemberScan

def after (scan : MemberScan) (c : Char) (rest : List Char) : MemberScan :=
  if scan.quote.isSome || isQuote c then
    ⟨scan.depth, quoteAfter scan.quote c, if isBlank c then scan.last else some c⟩
  else if endsMember scan.depth scan.last c rest then ⟨scan.depth, none, none⟩
  else ⟨scan.depth + bracketStep c, none, if isBlank c then scan.last else some c⟩

def through (scan : MemberScan) : List Char → MemberScan
  | [] => scan
  | c :: rest => (scan.after c rest).through rest

def pieces (scan : MemberScan) (read text : List Char) : List (List Char) :=
  let (first, others) := cutMembers scan.depth scan.quote scan.last text
  (read ++ first) :: others

def Ends (scan : MemberScan) (c : Char) (rest : List Char) : Prop :=
  (scan.quote.isSome || isQuote c) = false ∧ endsMember scan.depth scan.last c rest

variable {scan : MemberScan} {read text rest : List Char} {c : Char}

@[simp] theorem pieces_nil (scan : MemberScan) (read : List Char) : scan.pieces read [] = [read] := by
  simp [pieces, cutMembers]

theorem pieces_ends (ends : scan.Ends c rest) (read : List Char) :
    scan.pieces read (c :: rest) = read :: (scan.after c rest).pieces [] rest := by
  simp [pieces, cutMembers, after, ends.1, ends.2]

theorem pieces_goes (goes : ¬scan.Ends c rest) (read : List Char) :
    scan.pieces read (c :: rest) = (scan.after c rest).pieces (read ++ [c]) rest := by
  by_cases quoted : (scan.quote.isSome || isQuote c) = true
  · simp [pieces, cutMembers, after, quoted]
  · have unended : endsMember scan.depth scan.last c rest = false := by
      by_contra ends
      exact goes ⟨by simpa using quoted, by simpa using ends⟩
    simp [pieces, cutMembers, after, quoted, unended]

end MemberScan

def BeginsMember (text : List Char) : Prop :=
  ∃ c rest, text = c :: rest ∧ isBlank c = false ∧ isOperator c = false

section Append

variable {text more : List Char} (begins : BeginsMember more)

include begins

theorem continuesAfter_append (last : Option Char) (rest : List Char) :
    continuesAfter last (rest ++ more) = continuesAfter last rest := by
  obtain ⟨c, more, rfl, visible, inner⟩ := begins
  have mark : ¬(c = '|' ∨ c = '&') := by
    intro mark
    simp [isOperator_iff.mpr mark.symm] at inner
  have heads : (trimStart (rest ++ c :: more)).head?.any (· ∈ ['|', '&']) =
      (trimStart rest).head?.any (· ∈ ['|', '&']) := by
    induction rest with
    | nil =>
        rw [List.nil_append, trimStart_cons visible]
        simpa [trimStart] using mark
    | cons d rest ih =>
        by_cases blank : isBlank d
        · simpa [trimStart, blank] using ih
        · simp [trimStart, blank]
  rw [continuesAfter, continuesAfter, heads]

theorem endsMember_append (depth : Int) (last : Option Char) (c : Char) (rest : List Char) :
    endsMember depth last c (rest ++ more) = endsMember depth last c rest := by
  rw [endsMember, endsMember, continuesAfter_append begins]

namespace MemberScan

theorem after_append (scan : MemberScan) (c : Char) (rest : List Char) :
    scan.after c (rest ++ more) = scan.after c rest := by
  rw [after, after, endsMember_append begins]

theorem ends_append {scan : MemberScan} {c : Char} {rest : List Char} :
    scan.Ends c (rest ++ more) ↔ scan.Ends c rest := by
  rw [Ends, Ends, endsMember_append begins]

end MemberScan

end Append

theorem MemberScan.exists_pieces (scan : MemberScan) (read text : List Char)
    (unseen : scan.last = none → ∀ c ∈ read, isBlank c) :
    ∃ init last, scan.pieces read text = init ++ [last] ∧
      ((scan.through text).last = none → ∀ c ∈ last, isBlank c) ∧
      ∀ more, BeginsMember more →
        scan.pieces read (text ++ more) = init ++ (scan.through text).pieces last more := by
  induction text generalizing scan read with
  | nil => exact ⟨[], read, by simp, unseen, fun more _ => rfl⟩
  | cons c text ih =>
      by_cases ends : scan.Ends c text
      · have unseen' : (scan.after c text).last = none → ∀ d ∈ ([] : List Char), isBlank d := by
          simp
        obtain ⟨init, last, parts, blank, later⟩ := ih (scan.after c text) [] unseen'
        refine ⟨read :: init, last, ?_, blank, fun more begins => ?_⟩
        · rw [pieces_ends ends, parts]
          rfl
        · rw [List.cons_append, pieces_ends ((ends_append begins).mpr ends), after_append begins,
            later more begins]
          rfl
      · have unseen' : (scan.after c text).last = none → ∀ d ∈ read ++ [c], isBlank d := by
          have last : (scan.after c text).last = if isBlank c then scan.last else some c := by
            rw [after]
            split
            · rfl
            · rename_i code
              rw [if_neg fun unended => ends ⟨by simpa using code, unended⟩]
          intro none_ d member
          rw [last] at none_
          split at none_
          · rename_i blank
            rcases List.mem_append.mp member with earlier | new
            · exact unseen none_ d earlier
            · rw [List.mem_singleton.mp new]
              exact blank
          · cases none_
        obtain ⟨init, last, parts, blank, later⟩ := ih (scan.after c text) (read ++ [c]) unseen'
        refine ⟨init, last, ?_, blank, fun more begins => ?_⟩
        · rw [pieces_goes ends, parts]
        · rw [List.cons_append, pieces_goes (mt (ends_append begins).mp ends), after_append begins,
            later more begins]
          rfl

def listed (pieces : List (List Char)) : List (List Char) :=
  (pieces.map trim).filter fun member => !member.isEmpty

theorem members_eq (body : List Char) : members body = listed (({} : MemberScan).pieces [] body) := rfl

theorem listed_append (pieces more : List (List Char)) :
    listed (pieces ++ more) = listed pieces ++ listed more := by
  simp [listed]

theorem listed_cons (piece : List Char) (pieces : List (List Char)) :
    listed (piece :: pieces) = listed [piece] ++ listed pieces :=
  listed_append [piece] pieces

theorem listed_blank {run : List Char} (blank : ∀ c ∈ run, isBlank c) : listed [run] = [] := by
  simp [listed, trim_blank blank]

theorem listed_pieces_blank (scan : MemberScan) {run : List Char} (blank : ∀ c ∈ run, isBlank c)
    (text : List Char) : listed (scan.pieces run text) = listed (scan.pieces [] text) := by
  simp only [MemberScan.pieces, listed, List.map_cons, trim_blank_append blank, List.nil_append]

/-- The members of a body in two parts, where a member may begin between them. -/
theorem members_append {text more : List Char} (closed : ({} : MemberScan).through text = {})
    (begins : BeginsMember more) : members (text ++ more) = members text ++ members more := by
  obtain ⟨init, last, parts, blank, later⟩ := ({} : MemberScan).exists_pieces [] text (by simp)
  have blank' := blank (by rw [closed])
  rw [members_eq, members_eq, later more begins, parts, closed, listed_append, listed_append,
    listed_blank blank', listed_pieces_blank _ blank', List.append_nil, members_eq]

theorem bracketStep_blank {c : Char} (blank : isBlank c) : bracketStep c = 0 := by
  by_contra bracket
  unfold bracketStep at bracket
  split at bracket
  · rename_i opening
    simp only [List.mem_cons, List.not_mem_nil, or_false] at opening
    rcases opening with rfl | rfl | rfl | rfl <;> simp [isBlank] at blank
  · split at bracket
    · rename_i closing
      simp only [List.mem_cons, List.not_mem_nil, or_false] at closing
      rcases closing with rfl | rfl | rfl | rfl <;> simp [isBlank] at blank
    · exact bracket rfl

def Passes (scan : MemberScan) (text : List Char) (scan' : MemberScan) : Prop :=
  ∀ read rest, scan.pieces read (text ++ rest) = scan'.pieces (read ++ text) rest

namespace Passes

variable {scan scan' scan'' : MemberScan} {text more : List Char}

theorem append (first : Passes scan text scan') (second : Passes scan' more scan'') :
    Passes scan (text ++ more) scan'' := by
  intro read rest
  rw [List.append_assoc, first, second, List.append_assoc]

theorem nil (scan : MemberScan) : Passes scan [] scan := by
  intro read rest
  simp

theorem char {c : Char} (goes : ∀ rest, ¬scan.Ends c rest ∧ scan.after c rest = scan') :
    Passes scan [c] scan' := by
  intro read rest
  rw [List.singleton_append, MemberScan.pieces_goes (goes rest).1, (goes rest).2]

theorem cons {c : Char} (first : Passes scan [c] scan') (others : Passes scan' text scan'') :
    Passes scan (c :: text) scan'' :=
  first.append others

theorem plain {c : Char} (plain : isQuote c = false ∧ c ≠ ';' ∧ c ≠ ',' ∧ c ≠ '\n')
    (flat : bracketStep c = 0) (last : Option Char) :
    Passes ⟨0, none, last⟩ [c] ⟨0, none, if isBlank c then last else some c⟩ := by
  refine char fun rest => ?_
  have unended : endsMember 0 last c rest = false := by
    simp [endsMember, plain]
  constructor
  · rintro ⟨_, ends⟩
    simp [unended] at ends
  · simp [MemberScan.after, plain, unended, flat]

theorem plains (each : ∀ c ∈ text, (isQuote c = false ∧ c ≠ ';' ∧ c ≠ ',' ∧ c ≠ '\n') ∧ bracketStep c = 0)
    (last : Option Char) : ∃ last', Passes ⟨0, none, last⟩ text ⟨0, none, last'⟩ := by
  induction text generalizing last with
  | nil => exact ⟨last, nil _⟩
  | cons c text ih =>
      obtain ⟨first, others⟩ := List.forall_mem_cons.mp each
      obtain ⟨last', onward⟩ := ih others (if isBlank c then last else some c)
      exact ⟨last', (plain first.1 first.2 last).cons onward⟩

theorem blank {run : List Char} (blank : ∀ c ∈ run, isBlank c) :
    Passes ⟨0, none, some ':'⟩ run ⟨0, none, some ':'⟩ := by
  induction run with
  | nil => exact nil _
  | cons c run ih =>
      obtain ⟨first, others⟩ := List.forall_mem_cons.mp blank
      refine cons (char fun rest => ?_) (ih others)
      have unquoted : isQuote c = false := by
        by_contra opens
        simp [isBlank_of_isQuote (by simpa using opens)] at first
      have flat := bracketStep_blank first
      have separators : c ≠ ';' ∧ c ≠ ',' := by
        constructor <;> rintro rfl <;> simp [isBlank] at first
      -- After a colon a member goes on in the next line.
      have unended : endsMember 0 (some ':') c rest = false := by
        simp [endsMember, separators, continuesAfter]
      constructor
      · rintro ⟨_, ends⟩
        simp [unended] at ends
      · simp [MemberScan.after, unquoted, unended, flat, first]

theorem quoted {quote : Char} (isLiteral : IsLiteral quote text) (last : Option Char) :
    Passes ⟨0, some quote, last⟩ (text ++ [quote]) ⟨0, none, some quote⟩ := by
  have step {c : Char} (last : Option Char) : Passes ⟨0, some quote, last⟩ [c]
      ⟨0, quoteAfter (some quote) c, if isBlank c then last else some c⟩ := by
    refine char fun rest => ⟨fun ends => ?_, by simp [MemberScan.after]⟩
    simp [MemberScan.Ends] at ends
  obtain ⟨opens, open_⟩ := isLiteral
  have visible : isBlank quote = false := isBlank_of_isQuote opens
  induction text generalizing last with
  | nil => simpa [quoteAfter, visible] using step (c := quote) last
  | cons c text ih =>
      have onward := ih (if isBlank c then last else some c) fun d member => open_ d (by simp [member])
      refine cons ?_ onward
      simpa [quoteAfter, (open_ c (by simp)).1] using step (c := c) last

theorem literal {quote : Char} (isLiteral : IsLiteral quote text) (last : Option Char) :
    Passes ⟨0, none, last⟩ (literal quote text) ⟨0, none, some quote⟩ := by
  refine cons (char fun rest => ⟨fun ends => ?_, ?_⟩) (quoted isLiteral (some quote))
  · simp [MemberScan.Ends, isLiteral.opens] at ends
  · simp [MemberScan.after, isLiteral.opens, quoteAfter, isLiteral.visible]

end Passes

inductive IsFieldName : List Char → List Char → Prop where
  | word {name : List Char} (named : isName name) : IsFieldName name name
  | quoted {quote : Char} {text : List Char} (isLiteral : IsLiteral quote text) :
      IsFieldName (literal quote text) text

inductive IsColon : List Char → Bool → Prop where
  | required {gap run : List Char} (sameLine : ∀ c ∈ gap, isBlank c ∧ c ≠ '\n')
      (blank : ∀ c ∈ run, isBlank c) : IsColon (gap ++ ':' :: run) false
  | optional {gap gap' run : List Char} (sameLine : ∀ c ∈ gap ++ gap', isBlank c ∧ c ≠ '\n')
      (blank : ∀ c ∈ run, isBlank c) : IsColon (gap ++ '?' :: (gap' ++ ':' :: run)) true

inductive IsLabel : List Char → List Char → Bool → Prop where
  | plain {named name colon : List Char} {optional : Bool} (isName : IsFieldName named name)
      (isColon : IsColon colon optional) : IsLabel (named ++ colon) name optional
  | readonly {gap named name colon : List Char} {optional : Bool} (some_ : gap ≠ [])
      (sameLine : ∀ c ∈ gap, isBlank c ∧ c ≠ '\n') (isName : IsFieldName named name)
      (isColon : IsColon colon optional) :
      IsLabel ("readonly".toList ++ gap ++ (named ++ colon)) name optional

section Field

variable {quote : Char} {text named name colon label rest : List Char} {optional : Bool} {c : Char}

theorem IsColon.parts (isColon : IsColon colon optional) : ∃ gap mark more,
    colon = gap ++ mark :: more ∧ (∀ c ∈ gap, isBlank c) ∧ (mark = '?' ∨ mark = ':') := by
  cases isColon with
  | required sameLine => exact ⟨_, ':', _, rfl, fun c member => (sameLine c member).1, .inr rfl⟩
  | optional sameLine => exact ⟨_, '?', _, rfl, fun c member => (sameLine c (by simp [member])).1, .inl rfl⟩

theorem IsColon.begins (isColon : IsColon colon optional) :
    ∃ c rest, colon = c :: rest ∧ isNamePart c = false := by
  obtain ⟨gap, mark, more, rfl, blank, mark_⟩ := isColon.parts
  cases gap with
  | nil =>
      refine ⟨mark, more, rfl, ?_⟩
      rcases mark_ with rfl | rfl <;> decide
  | cons d gap =>
      refine ⟨d, gap ++ mark :: more, rfl, ?_⟩
      by_contra part
      have visible := isBlank_of_isNamePart (by simpa using part)
      simp [blank d (by simp)] at visible

theorem IsFieldName.begins (isName : IsFieldName named name) :
    ∃ c rest, named = c :: rest ∧ c ≠ '[' ∧ isBlank c = false ∧ isOperator c = false := by
  cases isName with
  | word isName =>
      cases named with
      | nil => cases isName
      | cons c rest =>
          have part := isNamePart_of_isName isName c (by simp)
          refine ⟨c, rest, rfl, ne_of_isNamePart part (by decide), isBlank_of_isNamePart part, ?_⟩
          by_contra operator
          rcases isOperator_iff.mp (by simpa using operator) with rfl | rfl <;> cases part
  | @quoted quote _ isLiteral =>
      refine ⟨quote, name ++ [quote], rfl, ?_, isLiteral.visible, (inner_of_literal isLiteral).2⟩
      rcases isQuote_cases isLiteral.opens with rfl | rfl <;> decide

theorem fieldName?_append (isName : IsFieldName named name) (isColon : IsColon colon optional)
    (rest : List Char) : fieldName? (named ++ (colon ++ rest)) = some (name, colon ++ rest) := by
  obtain ⟨d, colon, rfl, apart⟩ := isColon.begins
  cases isName with
  | word isName =>
      cases named with
      | nil => cases isName
      | cons c named =>
          have parts := isNamePart_of_isName isName
          have tail : ∀ d ∈ named, isNamePart d := fun d member => parts d (by simp [member])
          simp only [Text.isName, Bool.and_eq_true] at isName
          simp [fieldName?, isName.1, takeWhile_name tail apart, dropWhile_name tail apart]
  | @quoted quote _ isLiteral =>
      have start : isNameStart quote = false := by
        rcases isQuote_cases isLiteral.opens with rfl | rfl <;> decide
      have open_ : ∀ c ∈ name, (c != quote) = true := fun c member => by
        simpa using (isLiteral.open_ c member).1
      have beyond : (name ++ quote :: (d :: (colon ++ rest))).dropWhile (· != quote) =
          quote :: d :: (colon ++ rest) := by
        rw [List.dropWhile_append_of_pos open_]
        simp
      have inside : (name ++ quote :: (d :: (colon ++ rest))).takeWhile (· != quote) = name := by
        rw [List.takeWhile_append_of_pos open_]
        simp
      have whole : literal quote name ++ (d :: colon ++ rest) =
          quote :: (name ++ quote :: (d :: (colon ++ rest))) := by
        simp [literal]
      rw [whole]
      simp [fieldName?, start, isLiteral.opens, beyond, inside]

theorem trimStart_blank_cons {run : List Char} (blank : ∀ c ∈ run, isBlank c) (visible : isBlank c = false)
    (rest : List Char) : trimStart (run ++ c :: rest) = c :: rest := by
  rw [trimStart, List.dropWhile_append_of_pos blank, ← trimStart, trimStart_cons visible]

theorem annotation?_append (isColon : IsColon colon optional) (visible : isBlank c = false)
    (rest : List Char) : annotation? (colon ++ c :: rest) = some (optional, c :: rest) := by
  have question : isBlank '?' = false := by decide
  have mark : isBlank ':' = false := by decide
  cases isColon with
  | @required gap run sameLine blank =>
      have start : trimStart (gap ++ ':' :: run ++ c :: rest) = ':' :: (run ++ c :: rest) := by
        rw [List.append_assoc, List.cons_append]
        exact trimStart_blank_cons (fun c member => (sameLine c member).1) mark _
      simp only [annotation?, start]
      simp [trimStart_cons mark, after?, trimStart_blank_cons blank visible]
  | @optional gap gap' run sameLine blank =>
      have start : trimStart (gap ++ '?' :: (gap' ++ ':' :: run) ++ c :: rest) =
          '?' :: (gap' ++ ':' :: (run ++ c :: rest)) := by
        rw [List.append_assoc, List.cons_append, List.append_assoc, List.cons_append]
        exact trimStart_blank_cons (fun c member => (sameLine c (by simp [member])).1) question _
      have colon : trimStart (gap' ++ ':' :: (run ++ c :: rest)) = ':' :: (run ++ c :: rest) :=
        trimStart_blank_cons (fun c member => (sameLine c (by simp [member])).1) mark _
      simp only [annotation?, start]
      simp [colon, after?, trimStart_blank_cons blank visible]

theorem plainField?_append (isName : IsFieldName named name) (isColon : IsColon colon optional)
    (visible : isBlank c = false) (rest : List Char) :
    plainField? (named ++ (colon ++ c :: rest)) = some (.field name optional (c :: rest)) := by
  simp [plainField?, fieldName?_append isName isColon, annotation?_append isColon visible]

theorem plainIndex?_none (other : c ≠ '[') (rest : List Char) : plainIndex? (c :: rest) = none := by
  simp [plainIndex?, after?, Ne.symm other]

theorem afterReadonly?_append (isName : IsFieldName named name) (isColon : IsColon colon optional)
    (rest : List Char) : afterReadonly? (named ++ (colon ++ rest)) = none ∨
      ∃ c more, afterReadonly? (named ++ (colon ++ rest)) = some (c :: more) ∧ (c = '?' ∨ c = ':') := by
  unfold afterReadonly?
  cases found : after? "readonly".toList (named ++ (colon ++ rest)) with
  | none => exact .inl rfl
  | some left =>
      have parts : ∀ c ∈ named, isNamePart c := by
        cases isName with
        | word isName => exact isNamePart_of_isName isName
        | quoted isLiteral =>
            have same := after?_eq_some.mp found
            rcases isQuote_cases isLiteral.opens with rfl | rfl <;> simp [literal] at same
      -- The word is the whole name, or the name goes on and is no modifier.
      have modifier : named = "readonly".toList ∧ left = colon ++ rest ∨
          ∃ d more, left = d :: more ∧ isBlank d = false := by
        rcases List.append_eq_append_iff.mp (after?_eq_some.mp found) with
          ⟨more, same, rest'⟩ | ⟨more, same, rest'⟩
        · cases more with
          | nil => exact .inl ⟨by simpa using same.symm, by simpa using rest'.symm⟩
          | cons d more =>
              obtain ⟨c, colon, rfl, apart⟩ := isColon.begins
              obtain ⟨rfl, _⟩ := List.cons.inj rest'
              have member : c ∈ "readonly".toList := by simp [same]
              have word : "readonly".toList.all isNamePart := by decide
              simp [List.all_eq_true.mp word c member] at apart
        · cases more with
          | nil => exact .inl ⟨by simpa using same, by simpa using rest'⟩
          | cons d more =>
              refine .inr ⟨d, more ++ (colon ++ rest), rest', ?_⟩
              exact isBlank_of_isNamePart (parts d (by simp [same]))
      rcases modifier with ⟨_, rfl⟩ | ⟨d, more, rfl, visible⟩
      · obtain ⟨gap, mark, more, rfl, blank, mark_⟩ := isColon.parts
        have visible : isBlank mark = false := by
          rcases mark_ with rfl | rfl <;> decide
        cases gap with
        | nil =>
            left
            simp [visible]
        | cons d gap =>
            right
            refine ⟨mark, more ++ rest, ?_, mark_⟩
            have start := trimStart_blank_cons blank visible (more ++ rest)
            simpa [blank d (by simp)] using start
      · left
        simp [visible]

theorem plainField?_none (mark : c = '?' ∨ c = ':') (rest : List Char) : plainField? (c :: rest) = none := by
  rcases mark with rfl | rfl <;> rfl

theorem member?_label (isLabel : IsLabel label name optional) (visible : isBlank c = false)
    (rest : List Char) : member? (label ++ c :: rest) = some (.field name optional (c :: rest)) := by
  cases isLabel with
  | @plain named _ colon _ isName isColon =>
      obtain ⟨d, named', rfl, bracket, _⟩ := isName.begins
      have read := plainField?_append isName isColon visible rest
      rw [List.append_assoc]
      rcases afterReadonly?_append isName isColon (c :: rest) with none_ | ⟨e, more, some_, mark⟩
      · have index : plainIndex? (d :: named' ++ (colon ++ c :: rest)) = none := plainIndex?_none bracket _
        simp only [member?, index?, field?, none_, Option.getD_none, index, Option.bind_none, read]
      · have bracket' : e ≠ '[' := by
          rcases mark with rfl | rfl <;> decide
        simp only [member?, index?, field?, some_, Option.getD_some, plainIndex?_none bracket',
          Option.bind_some, plainField?_none mark, read]
  | @readonly gap named _ colon _ some_ sameLine isName isColon =>
      obtain ⟨d, named', rfl, bracket, visible', _⟩ := isName.begins
      have read := plainField?_append isName isColon visible rest
      have modifier : afterReadonly? ("readonly".toList ++ gap ++ (d :: named' ++ colon) ++ c :: rest) =
          some (d :: named' ++ (colon ++ c :: rest)) := by
        have whole : "readonly".toList ++ gap ++ (d :: named' ++ colon) ++ c :: rest =
            "readonly".toList ++ (gap ++ d :: (named' ++ (colon ++ c :: rest))) := by
          simp
        have start := trimStart_blank_cons (fun c member => (sameLine c member).1) visible'
          (named' ++ (colon ++ c :: rest))
        cases gap with
        | nil => exact absurd rfl some_
        | cons e gap =>
            rw [whole, afterReadonly?, after?_eq_some.mpr rfl]
            simpa [(sameLine e (by simp)).1] using start
      have index : plainIndex? (d :: named' ++ (colon ++ c :: rest)) = none := plainIndex?_none bracket _
      simp only [member?, index?, field?, modifier, Option.getD_some, index, Option.bind_some, read]

theorem IsLabel.begins (isLabel : IsLabel label name optional) :
    ∃ c rest, label = c :: rest ∧ isBlank c = false ∧ isOperator c = false := by
  cases isLabel with
  | plain isName _ =>
      obtain ⟨c, named, rfl, _, visible, inner⟩ := isName.begins
      exact ⟨c, _, rfl, visible, inner⟩
  | readonly => exact ⟨'r', _, rfl, by decide, by decide⟩

theorem passes_gap {gap : List Char} (sameLine : ∀ c ∈ gap, isBlank c ∧ c ≠ '\n') (last : Option Char) :
    Passes ⟨0, none, last⟩ gap ⟨0, none, last⟩ := by
  induction gap with
  | nil => exact .nil _
  | cons c gap ih =>
      obtain ⟨⟨blank, newline⟩, others⟩ := List.forall_mem_cons.mp sameLine
      have unquoted : isQuote c = false := by
        by_contra opens
        simp [isBlank_of_isQuote (by simpa using opens)] at blank
      have separators : c ≠ ';' ∧ c ≠ ',' := by
        constructor <;> rintro rfl <;> simp [isBlank] at blank
      have first := Passes.plain ⟨unquoted, separators.1, separators.2, newline⟩
        (bracketStep_blank blank) last
      rw [if_pos blank] at first
      exact first.cons (ih others)

theorem passes_word {word : List Char} (parts : ∀ c ∈ word, isNamePart c) (last : Option Char) :
    ∃ last', Passes ⟨0, none, last⟩ word ⟨0, none, last'⟩ := by
  refine Passes.plains (fun c member => ⟨⟨?_, ?_, ?_, ?_⟩, ?_⟩) last
  · by_contra opens
    have part := parts c member
    rcases isQuote_cases (by simpa using opens) with rfl | rfl <;> cases part
  · exact ne_of_isNamePart (parts c member) (by decide)
  · exact ne_of_isNamePart (parts c member) (by decide)
  · exact ne_of_isNamePart (parts c member) (by decide)
  · exact bracketStep_plain (isPlain_of_isNamePart (parts c member))

theorem IsColon.passes (isColon : IsColon colon optional) (last : Option Char) :
    Passes ⟨0, none, last⟩ colon ⟨0, none, some ':'⟩ := by
  have mark (last : Option Char) : Passes ⟨0, none, last⟩ [':'] ⟨0, none, some ':'⟩ :=
    .plain (by decide) (by decide) last
  cases isColon with
  | required sameLine blank => exact (passes_gap sameLine last).append ((mark last).cons (.blank blank))
  | @optional gap gap' run sameLine blank =>
      have question : Passes ⟨0, none, last⟩ ['?'] ⟨0, none, some '?'⟩ := .plain (by decide) (by decide) last
      have first := passes_gap (fun c member => sameLine c (List.mem_append_left gap' member)) last
      have second := passes_gap (fun c member => sameLine c (List.mem_append_right gap member)) (some '?')
      exact first.append (question.cons (second.append ((mark _).cons (.blank blank))))

theorem IsFieldName.passes (isName : IsFieldName named name) (last : Option Char) :
    ∃ last', Passes ⟨0, none, last⟩ named ⟨0, none, last'⟩ := by
  cases isName with
  | word isName => exact passes_word (isNamePart_of_isName isName) last
  | quoted isLiteral => exact ⟨_, .literal isLiteral last⟩

theorem IsLabel.passes (isLabel : IsLabel label name optional) :
    Passes {} label ⟨0, none, some ':'⟩ := by
  cases isLabel with
  | plain isName isColon =>
      obtain ⟨last, named⟩ := isName.passes none
      exact named.append (isColon.passes last)
  | readonly some_ sameLine isName isColon =>
      obtain ⟨last, word⟩ := passes_word (List.all_eq_true.mp (show "readonly".toList.all isNamePart by decide)) none
      obtain ⟨last', named⟩ := isName.passes last
      exact (word.append (passes_gap sameLine last)).append (named.append (isColon.passes last'))

def EndsField (tail : List Char) : Prop :=
  ∃ gap rest, tail = gap ++ rest ∧ (∀ c ∈ gap, isBlank c ∧ c ≠ '\n') ∧
    ∀ c more, rest = c :: more → endsMember 0 none c more

theorem members_field (isLabel : IsLabel label name optional) (isLiteral : IsLiteral quote text)
    {tail : List Char} (ends : EndsField tail) :
    members (label ++ literal quote text ++ tail) = (label ++ literal quote text) :: members tail := by
  obtain ⟨gap, rest, rfl, sameLine, ends⟩ := ends
  have blank : ∀ c ∈ gap, isBlank c := fun c member => (sameLine c member).1
  have trimmed : trim (label ++ literal quote text ++ gap) = label ++ literal quote text := by
    obtain ⟨c, label, rfl, visible, _⟩ := isLabel.begins
    have whole : Trimmed (c :: label ++ literal quote text) := by
      constructor
      · intro d head
        cases head
        exact visible
      · intro d last
        rw [List.getLast?_append_of_ne_nil _ (by simp [literal]), getLast?_literal] at last
        cases last
        exact isLiteral.visible
    exact whole.trim_pad (by simp) [] gap (by simpa using blank)
  have own : listed [label ++ literal quote text ++ gap] = [label ++ literal quote text] := by
    have some_ : label ++ literal quote text ≠ [] := by simp [literal]
    rw [listed, List.map_singleton, trimmed]
    simpa using some_
  have passed : Passes {} (label ++ literal quote text ++ gap) ⟨0, none, some quote⟩ :=
    (isLabel.passes.append (.literal isLiteral _)).append (passes_gap sameLine _)
  have start : Passes {} gap {} := passes_gap sameLine none
  rw [members_eq, members_eq, ← List.append_assoc, passed, start, List.nil_append, List.nil_append]
  cases rest with
  | nil => rw [MemberScan.pieces_nil, MemberScan.pieces_nil, own, listed_blank blank]
  | cons c more =>
      have here := ends c more rfl
      have code : isQuote c = false := by
        by_contra opens
        rcases isQuote_cases (by simpa using opens) with rfl | rfl <;> simp [endsMember] at here
      have same : continuesAfter (some quote) more = continuesAfter none more := by
        rcases isQuote_cases isLiteral.opens with rfl | rfl <;> simp [continuesAfter]
      have here' : endsMember 0 (some quote) c more := by
        rw [endsMember, same]
        exact here
      have next : (⟨0, none, some quote⟩ : MemberScan).after c more = {} := by
        simp [MemberScan.after, code, here']
      have next' : ({} : MemberScan).after c more = {} := by
        simp [MemberScan.after, code, here]
      rw [MemberScan.pieces_ends ⟨by simp [code], here'⟩, MemberScan.pieces_ends ⟨by simp [code], here⟩,
        next, next', listed_cons, own, listed_cons gap, listed_blank blank]
      rfl

end Field

end Conform.Expr
