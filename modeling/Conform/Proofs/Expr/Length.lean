import Conform.Proofs.Resolver.Form
import Mathlib.Data.List.Infix

/-!
The parts of an expression are shorter than the expression: reading never makes text longer, and an
operator, a bracket or a keyword always stays behind.
-/

namespace Conform

namespace Text

theorem length_withoutComments (region : Region) (text : List Char) :
    (withoutComments region text).length ≤ text.length := by
  fun_induction withoutComments region text <;> simp_all only [List.length_cons, List.length_nil] <;>
    omega

theorem length_mapRuns {inRun : Char → Bool} {replace : List Char → List Char}
    (shrinks : ∀ run, run ≠ [] → (replace run).length ≤ run.length) (run text : List Char) :
    (mapRuns inRun replace run text).length ≤ run.length + text.length := by
  have closed (run : List Char) : (if run.isEmpty then [] else replace run).length ≤ run.length := by
    cases run with
    | nil => simp
    | cons c rest => simpa using shrinks (c :: rest) (by simp)
  induction text generalizing run with
  | nil => simpa [mapRuns] using closed run
  | cons c rest ih =>
      simp only [mapRuns]
      split
      · have longer := ih (run ++ [c])
        simp only [List.length_append, List.length_cons, List.length_nil] at longer ⊢
        omega
      · have shorter := ih []
        have head := closed run
        simp only [List.length_append, List.length_cons, List.length_nil] at shorter ⊢
        omega

theorem length_squeezeBreaks (text : List Char) : (squeezeBreaks text).length ≤ text.length := by
  have shrinks : ∀ run : List Char, run ≠ [] →
      (if '\n' ∈ run then ['\n'] else run).length ≤ run.length := by
    intro run some_
    split
    · exact List.length_pos_iff.mpr some_
    · exact Nat.le_refl _
  simpa [squeezeBreaks] using length_mapRuns shrinks [] text

theorem length_squeezeSpaces (text : List Char) : (squeezeSpaces text).length ≤ text.length := by
  have shrinks : ∀ run : List Char, run ≠ [] → [' '].length ≤ run.length :=
    fun run some_ => List.length_pos_iff.mpr some_
  simpa [squeezeSpaces] using length_mapRuns shrinks [] text

theorem length_stripComments (text : List Char) : (stripComments text).length ≤ text.length := by
  have code := length_withoutComments .code text
  have filtered := List.length_filter_le (· != '\r') (withoutComments .code text)
  have breaks := length_squeezeBreaks ((withoutComments .code text).filter (· != '\r'))
  have spaces := length_squeezeSpaces (squeezeBreaks ((withoutComments .code text).filter (· != '\r')))
  have trimmed := length_trim
    (squeezeSpaces (squeezeBreaks ((withoutComments .code text).filter (· != '\r'))))
  unfold stripComments
  omega

theorem length_after? {start text rest : List Char} (found : after? start text = some rest) :
    rest.length + start.length = text.length := by
  induction start generalizing text with
  | nil =>
      cases found
      rfl
  | cons c start ih =>
      cases text with
      | nil => simp [after?] at found
      | cons d text =>
          simp only [after?] at found
          split at found
          · have shorter := ih found
            simp only [List.length_cons]
            omega
          · cases found

end Text

namespace Expr

open Text

theorem length_bare (expr : List Char) : (bare expr).length ≤ expr.length := by
  fun_induction bare expr with
  | case1 => simp
  | case2 expr c rest trimmed operator ih =>
      have shorter := length_trimParens expr
      rw [trimmed, List.length_cons] at shorter
      omega
  | case3 expr c rest trimmed other =>
      have shorter := length_trimParens expr
      rwa [trimmed] at shorter

def piecesLength : List (Connective × List Char) → Nat
  | [] => 0
  | (_, text) :: rest => text.length + 1 + piecesLength rest

def Cut.length (cut : Cut) : Nat :=
  cut.first.length + piecesLength cut.rest

theorem Cut.length_extend (c : Char) (cut : Cut) : (cut.extend c).length = cut.length + 1 := by
  simp only [Cut.length, Cut.extend, List.length_cons]
  omega

theorem length_cutFrom? {nesting : Nesting} {quote : Option Char} {text : List Char} {cut : Cut}
    (found : cutFrom? nesting quote text = some cut) : cut.length = text.length := by
  induction text generalizing nesting quote cut with
  | nil =>
      simp only [cutFrom?] at found
      split at found
      · cases found
        rfl
      · cases found
  | cons c rest ih =>
      have extended {nesting : Nesting} {quote : Option Char}
          (found : (cutFrom? nesting quote rest).map (Cut.extend c) = some cut) :
          cut.length = (c :: rest).length := by
        obtain ⟨inner, inside, rfl⟩ := Option.map_eq_some_iff.mp found
        rw [Cut.length_extend, ih inside, List.length_cons]
      simp only [cutFrom?] at found
      split at found
      · exact extended found
      · split at found
        · cases found
        · split at found
          · obtain ⟨inner, inside, rfl⟩ := Option.map_eq_some_iff.mp found
            have whole := ih inside
            simp only [Cut.length, piecesLength, List.length_nil, List.length_cons] at whole ⊢
            omega
          · exact extended found

def Token.length : Token → Nat
  | operand text => text.length
  | operator _ => 1

def tokensLength : List Token → Nat
  | [] => 0
  | token :: rest => token.length + tokensLength rest

theorem tokensLength_append (first second : List Token) :
    tokensLength (first ++ second) = tokensLength first + tokensLength second := by
  induction first with
  | nil => simp [tokensLength]
  | cons token rest ih =>
      simp only [List.cons_append, tokensLength, ih]
      omega

theorem length_flatMap {give : Connective × List Char → List Token}
    (short : ∀ piece, tokensLength (give piece) ≤ piecesLength [piece])
    (pieces : List (Connective × List Char)) :
    tokensLength (pieces.flatMap give) ≤ piecesLength pieces := by
  induction pieces with
  | nil => exact Nat.le_refl 0
  | cons piece rest ih =>
      have first := short piece
      rw [List.flatMap_cons, tokensLength_append]
      simp only [piecesLength] at first ⊢
      omega

theorem length_tokens {expr : List Char} {found : List Token} (read : tokens expr = .ok found) :
    tokensLength found ≤ expr.length := by
  unfold tokens at read
  split at read
  · cases read
  · rename_i cut known
    dsimp only at read
    split at read
    · cases read
    · cases read
      have whole := length_cutFrom? known
      have first := length_trim cut.first
      simp only [tokensLength, Token.length, List.flatMap_map, Cut.length] at whole ⊢
      refine Nat.le_trans (Nat.add_le_add first (length_flatMap ?_ cut.rest)) (Nat.le_of_eq whole)
      intro piece
      have shorter := length_trim piece.2
      simp only [tokensLength, Token.length, piecesLength]
      omega

theorem length_fuseAnds (tokens : List Token) :
    tokensLength (fuseAnds tokens) = tokensLength tokens := by
  fun_induction fuseAnds tokens with
  | case1 left rest right others fused ih =>
      rw [fused] at ih
      simp only [tokensLength, Token.length, List.length_append, List.length_cons] at ih ⊢
      omega
  | case2 left rest noOperand ih =>
      simp only [tokensLength, Token.length] at ih ⊢
      omega
  | case3 token rest other ih =>
      simp only [tokensLength, ih]
  | case4 => rfl

theorem length_mergeAnds (tokens : List Token) :
    tokensLength (mergeAnds tokens) = tokensLength tokens := by
  unfold mergeAnds
  split
  · exact length_fuseAnds tokens
  · rfl

theorem length_operand_le {tokens : List Token} {operand : List Char}
    (member : operand ∈ Resolve.operands tokens) :
    operand.length + (Resolve.operators tokens).length ≤ tokensLength tokens := by
  have operators : ∀ tokens, (Resolve.operators tokens).length ≤ tokensLength tokens := by
    intro tokens
    induction tokens with
    | nil => simp [Resolve.operators]
    | cons token rest ih =>
        cases token <;>
          simp only [Resolve.operators, List.filterMap_cons, tokensLength, Token.length,
            List.length_cons] at ih ⊢ <;> omega
  induction tokens with
  | nil => simp [Resolve.operands] at member
  | cons token rest ih =>
      have others := operators rest
      cases token with
      | operand text =>
          simp only [Resolve.operands, List.filterMap_cons, List.mem_cons] at member
          simp only [Resolve.operators, List.filterMap_cons, tokensLength, Token.length] at ih others ⊢
          rcases member with rfl | member
          · omega
          · have known := ih member
            omega
      | operator connective =>
          have known := ih member
          simp only [Resolve.operators, List.filterMap_cons, tokensLength, Token.length,
            List.length_cons] at known ⊢
          omega

theorem length_element? {expr element : List Char} (found : element? expr = some element) :
    element.length < expr.length := by
  simp only [element?, Option.bind_eq_bind, Option.bind_eq_some_iff] at found
  obtain ⟨inner, read, found⟩ := found
  have trimmed : element.length ≤ inner.length := by
    split at found
    · cases found
    · cases found
      exact length_trim inner
  have shorter : inner.length < expr.length := by
    rcases Option.or_eq_some_iff.mp read with suffixed | ⟨_, generic⟩
    · unfold suffixedElement? at suffixed
      split at suffixed
      · rename_i rest reversed
        cases suffixed
        have whole := congrArg List.length reversed
        simp only [List.length_reverse, List.length_cons] at whole ⊢
        omega
      · cases suffixed
    · simp only [genericElement?, Option.bind_eq_bind, Option.bind_eq_some_iff] at generic
      obtain ⟨afterArray, read, afterOpen, read', found⟩ := generic
      have first := length_after? read
      have second := length_after? read'
      have start := length_trimStart afterArray
      split at found
      · cases found
        simp only [List.length_dropLast, List.length_cons] at first second ⊢
        omega
      · cases found
  omega

theorem length_partialTarget? {expr name : List Char} (found : partialTarget? expr = some name) :
    name.length < expr.length := by
  simp only [partialTarget?, Option.bind_eq_bind, Option.bind_eq_some_iff] at found
  obtain ⟨afterPartial, read, afterOpen, read', found⟩ := found
  have first := length_after? read
  have second := length_after? read'
  have start := length_trimStart afterPartial
  have inner := length_trimStart afterOpen
  have named : name.length ≤ (trimStart afterOpen).length := by
    split at found
    · cases found
    · split at found
      · cases found
        exact (List.takeWhile_prefix _).length_le
      · cases found
  simp only [List.length_cons] at second
  omega

theorem length_bracedBody? {text body : List Char} (found : bracedBody? text = some body) :
    body.length < text.length := by
  unfold bracedBody? at found
  split at found
  · split at found
    · cases found
      simp only [List.length_dropLast, List.length_cons]
      omega
    · cases found
  · cases found

theorem length_extension? {text parent body : List Char}
    (found : extension? text = some (parent, body)) :
    parent.length + body.length < text.length := by
  simp only [extension?, Option.bind_eq_bind, Option.bind_eq_some_iff] at found
  obtain ⟨afterExtends, read, first, _, found⟩ := found
  have start := length_after? read
  have inner := length_trimStart afterExtends
  split at found
  · cases found
  · split at found
    · cases found
    · obtain ⟨rest, read', found⟩ := Option.bind_eq_some_iff.mp found
      cases found
      have braced := length_bracedBody? read'
      have trimmed := length_trimStart
        ((trimStart afterExtends).dropWhile fun c => isNamePart c || c == '.')
      have whole := congrArg List.length (List.takeWhile_append_dropWhile
        (p := fun c => isNamePart c || c == '.') (l := trimStart afterExtends))
      rw [List.length_append] at whole
      omega

def RecordParts.Below (parts : RecordParts) (length : Nat) : Prop :=
  parts.body.length < length ∧ ∀ parent ∈ parts.parent, parent.length < length

theorem RecordParts.Below.mono {parts : RecordParts} {length length' : Nat}
    (below : parts.Below length) (longer : length ≤ length') : parts.Below length' :=
  ⟨Nat.lt_of_lt_of_le below.1 longer, fun parent known =>
    Nat.lt_of_lt_of_le (below.2 parent known) longer⟩

theorem below_extension? {text parent body : List Char} {name : Option (List Char)}
    (found : extension? text = some (parent, body)) :
    RecordParts.Below ⟨name, some parent, body⟩ text.length := by
  have shorter := length_extension? found
  refine ⟨Nat.lt_of_le_of_lt (Nat.le_add_left _ _) shorter, fun parent known => ?_⟩
  cases known
  exact Nat.lt_of_le_of_lt (Nat.le_add_right _ _) shorter

theorem below_bracedBody? {text body : List Char} {name : Option (List Char)}
    (found : bracedBody? text = some body) : RecordParts.Below ⟨name, none, body⟩ text.length :=
  ⟨length_bracedBody? found, by simp⟩

theorem below_joinedExtension? {run rest : List Char} {parts : RecordParts}
    (found : joinedExtension? run rest = some parts) : parts.Below (run.length + rest.length) := by
  simp only [joinedExtension?, Option.bind_eq_bind] at found
  split at found
  · cases found
  · obtain ⟨⟨parent, body⟩, read, found⟩ := Option.bind_eq_some_iff.mp found
    cases found
    refine (below_extension? read).mono ?_
    simp only [List.length_append, List.length_drop]
    omega

theorem below_interfaceParts? {text : List Char} {parts : RecordParts}
    (found : interfaceParts? text = some parts) : parts.Below text.length := by
  simp only [interfaceParts?, Option.bind_eq_bind, Option.bind_eq_some_iff] at found
  obtain ⟨first, _, found⟩ := found
  have start := length_trimStart text
  have inner := length_trimStart ((trimStart text).dropWhile isNamePart)
  have whole := congrArg List.length
    (List.takeWhile_append_dropWhile (p := isNamePart) (l := trimStart text))
  rw [List.length_append] at whole
  split at found
  · cases found
  · split at found
    · cases found
    · split at found
      · rename_i parent body read
        cases found
        exact (below_extension? read).mono (by omega)
      · split at found
        · rename_i body read
          cases found
          exact (below_bracedBody? read).mono (by omega)
        · exact (below_joinedExtension? found).mono (by omega)

theorem below_recordParts? {expr : List Char} {parts : RecordParts}
    (found : recordParts? expr = some parts) : parts.Below expr.length := by
  unfold recordParts? at found
  split at found
  · rename_i known read
    cases found
    obtain ⟨rest, read', read''⟩ := Option.bind_eq_some_iff.mp read
    have shorter := length_after? read'
    exact (below_interfaceParts? read'').mono (by omega)
  · obtain ⟨body, read, rfl⟩ := Option.map_eq_some_iff.mp found
    exact below_bracedBody? read

theorem length_cutMembers (depth : Int) (quote last : Option Char) (text : List Char) :
    ∀ member ∈ (cutMembers depth quote last text).1 :: (cutMembers depth quote last text).2,
      member.length ≤ text.length := by
  induction text generalizing depth quote last with
  | nil => simp [cutMembers]
  | cons c rest ih =>
      simp only [List.forall_mem_cons] at ih
      simp only [cutMembers]
      split
      · obtain ⟨first, others⟩ := ih depth (quoteAfter quote c) (if isBlank c then last else some c)
        refine List.forall_mem_cons.mpr ⟨Nat.succ_le_succ first, fun member among => ?_⟩
        exact Nat.le_succ_of_le (others member among)
      · split
        · obtain ⟨first, others⟩ := ih depth none none
          refine List.forall_mem_cons.mpr ⟨by simp, List.forall_mem_cons.mpr
            ⟨Nat.le_succ_of_le first, fun member among => Nat.le_succ_of_le (others member among)⟩⟩
        · obtain ⟨first, others⟩ := ih (depth + bracketStep c) none
            (if isBlank c then last else some c)
          refine List.forall_mem_cons.mpr ⟨Nat.succ_le_succ first, fun member among => ?_⟩
          exact Nat.le_succ_of_le (others member among)

theorem length_member {body member : List Char} (among : member ∈ members body) :
    member.length ≤ body.length := by
  obtain ⟨cut, known, rfl⟩ := List.mem_map.mp (List.mem_filter.mp among).1
  exact Nat.le_trans (length_trim cut) (length_cutMembers 0 none none body cut known)

theorem length_annotation? {text type : List Char} {optional : Bool}
    (found : annotation? text = some (optional, type)) : type.length ≤ text.length := by
  simp only [annotation?, Option.bind_eq_bind, Option.bind_eq_some_iff] at found
  obtain ⟨rest, read, found⟩ := found
  split at found
  · cases found
  · cases found
    have shorter := length_after? read
    have start := length_trimStart text
    have inner := length_trimStart rest
    have middle := length_trimStart
      (if (trimStart text).head? == some '?' then (trimStart text).drop 1 else trimStart text)
    have marked : (if (trimStart text).head? == some '?' then (trimStart text).drop 1
        else trimStart text).length ≤ (trimStart text).length := by
      split <;> simp
    simp only [List.length_cons] at shorter
    omega

theorem length_fieldName? {text name rest : List Char} (found : fieldName? text = some (name, rest)) :
    rest.length ≤ text.length := by
  unfold fieldName? at found
  split at found
  · cases found
  · rename_i c tail
    split at found
    · cases found
      exact Nat.le_succ_of_le (List.dropWhile_suffix _).length_le
    · split at found
      · split at found
        · rename_i d rest' dropped
          cases found
          have shorter := (List.dropWhile_suffix (· != c) (l := tail)).length_le
          rw [dropped, List.length_cons] at shorter
          simp only [List.length_cons]
          omega
        · cases found
      · cases found

theorem length_plainField? {member : List Char} {found : Member}
    (read : plainField? member = some found) : found.type.length ≤ member.length := by
  simp only [plainField?, Option.bind_eq_bind, Option.bind_eq_some_iff] at read
  obtain ⟨⟨name, rest⟩, named, ⟨optional, type⟩, annotated, made⟩ := read
  cases made
  exact Nat.le_trans (length_annotation? annotated) (length_fieldName? named)

theorem length_afterReadonly? {member rest : List Char} (found : afterReadonly? member = some rest) :
    rest.length ≤ member.length := by
  simp only [afterReadonly?, Option.bind_eq_bind, Option.bind_eq_some_iff] at found
  obtain ⟨inner, read, first, _, found⟩ := found
  split at found
  · cases found
    have shorter := length_after? read
    have trimmed := length_trimStart inner
    omega
  · cases found

theorem length_plainIndex? {member : List Char} {found : Member}
    (read : plainIndex? member = some found) : found.type.length ≤ member.length := by
  simp only [plainIndex?, Option.bind_eq_bind, Option.bind_eq_some_iff] at read
  obtain ⟨inside, opened, read⟩ := read
  split at read
  · cases read
  · obtain ⟨key, colon, read⟩ := Option.bind_eq_some_iff.mp read
    split at read
    · cases read
    · obtain ⟨rest, closed, read⟩ := Option.bind_eq_some_iff.mp read
      obtain ⟨⟨optional, type⟩, annotated, made⟩ := Option.bind_eq_some_iff.mp read
      cases made
      have first := length_after? opened
      have second := length_after? colon
      have third := length_after? closed
      have start := length_trimStart inside
      have middle := length_trimStart ((trimStart inside).dropWhile isNamePart)
      have names := (List.dropWhile_suffix isNamePart (l := trimStart inside)).length_le
      have keys := (List.dropWhile_suffix (· != ']') (l := key)).length_le
      have last := length_annotation? annotated
      simp only [Member.type]
      omega

theorem length_member? {member : List Char} {found : Member} (read : member? member = some found) :
    found.type.length ≤ member.length := by
  unfold member? at read
  split at read
  · rename_i index known
    cases read
    refine Nat.le_trans (length_plainIndex? known) ?_
    cases readonly : afterReadonly? member with
    | none => exact Nat.le_refl _
    | some rest => exact length_afterReadonly? readonly
  · unfold field? at read
    split at read
    · rename_i field known
      cases read
      obtain ⟨rest, readonly, plain⟩ := Option.bind_eq_some_iff.mp known
      exact Nat.le_trans (length_plainField? plain) (length_afterReadonly? readonly)
    · exact length_plainField? read

theorem shape_ok {expr : List Char} {found : Shape} (read : shape expr = .ok found) :
    (∀ element, found = .array element → element? expr = some element) ∧
      ∀ name, found = .partialOf name → partialTarget? expr = some name := by
  unfold shape at read
  repeat' split at read
  all_goals cases read
  all_goals simp_all

theorem length_ofTokens {expr operand : List Char} {tokens : List Token} {connective : Connective}
    {operands : List (List Char)} (form : Form.ofTokens expr tokens = .ok (.group connective operands))
    (member : operand ∈ operands) : operand.length < tokensLength tokens := by
  unfold Form.ofTokens at form
  split at form
  · cases form
  · rename_i first others known
    split at form
    · cases form
      have shorter := length_operand_le member
      rw [known, List.length_cons] at shorter
      omega
    · cases form

end Expr

namespace Form

open Conform.Expr

def Below (length : Nat) : Form → Prop
  | group _ operands => ∀ operand ∈ operands, operand.length < length
  | array element => element.length < length
  | partialOf name => name.length < length
  | record parts => parts.Below length
  | _ => True

theorem below_ofBare {expr : List Char} {form : Form} (read : ofBare expr = .ok form) :
    form.Below expr.length := by
  unfold ofBare at read
  cases shaped : shape expr with
  | error fault =>
      rw [shaped] at read
      cases read
  | ok found =>
      rw [shaped] at read
      change ofShape expr found = .ok form at read
      obtain ⟨element, target⟩ := shape_ok shaped
      cases found with
      | group =>
          simp only [ofShape] at read
          cases known : tokens expr with
          | error fault =>
              rw [known] at read
              cases read
          | ok found =>
              rw [known] at read
              change ofTokens expr (mergeAnds found) = .ok form at read
              have whole := length_tokens known
              rw [← length_mergeAnds] at whole
              cases form with
              | group connective operands =>
                  intro operand member
                  exact Nat.lt_of_lt_of_le (length_ofTokens read member) whole
              | _ =>
                  unfold ofTokens at read
                  split at read
                  · cases read
                  · split at read <;> cases read
      | array inner =>
          cases read
          exact length_element? (element inner rfl)
      | primitive kind =>
          cases read
          trivial
      | partialOf name =>
          cases read
          exact length_partialTarget? (target name rfl)
      | record =>
          simp only [ofShape] at read
          split at read
          · cases read
          · rename_i parts known
            cases read
            exact below_recordParts? known
      | reference =>
          cases read
          trivial

end Form

/-- What is resolved for an expression is shorter. -/
theorem Piece.length_lt {use : Use} {expr part : List Char} (piece : Piece use expr part) :
    part.length < expr.length := by
  have whole : (Expr.bare (Text.stripComments expr)).length ≤ expr.length :=
    Nat.le_trans (Expr.length_bare _) (Text.length_stripComments expr)
  refine Nat.lt_of_lt_of_le ?_ whole
  cases piece with
  | operand form member => exact Form.below_ofBare form _ member
  | element form => exact Form.below_ofBare form
  | member form among read =>
      have shorter := Form.below_ofBare form
      exact Nat.lt_of_le_of_lt (Nat.le_trans (Expr.length_member? read) (Expr.length_member among))
        shorter.1
  | target form => exact Form.below_ofBare form
  | parent form extends_ => exact (Form.below_ofBare form).2 _ extends_

end Conform
