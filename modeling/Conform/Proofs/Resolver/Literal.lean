import Conform.Proofs.Declaration.Header
import Conform.Proofs.Resolver.Alias
import Conform.Proofs.Resolver.Spot

/-!
What a literal is resolved to, in an expression or in a declaration. At each spot it is the type that
accepts what comment removal leaves of its text, and that is the text itself unless white space in it is
squeezed.
-/

namespace Conform

open Text Conform.Expr Declaration

structure IsClean (before after : List Char) : Prop where
  closed : regionAfter .code before = .code
  commentless : Commentless none before
  commentless' : Commentless none after

inductive Declares (name : List Char) (quote : Char) (text : List Char) : List Char → Spot → Prop where
  /-- The search finds the header that the text before the literal ends with, whatever the body. -/
  | inInterface {left right earlier header front label field tail later : List Char}
      {own parent : Option (List Char)} {optional : Bool} (closed : regionAfter .code left = .code)
      (left_ : cleanBefore left = earlier ++ (header ++ '{' :: (front ++ label)))
      (right_ : cleanAfter right = tail ++ ['}'] ++ later)
      (isClean : IsClean (header ++ '{' :: (front ++ label)) (tail ++ ['}']))
      (isHeader : IsHeader header own parent) (isField : IsField front label field optional tail)
      (other : '{' ∉ name)
      (found : firstMatch? (interfaceHeader? name) none (earlier ++ (header ++ ['{', '}'])) =
        some (header ++ ['{', '}'])) :
      Declares name quote text (left ++ literal quote text ++ right)
        (.field own parent front label field optional tail)
  /-- The search finds the `=` that the definition follows, and the scanner of bodies tells that from the
  text beyond it. -/
  | inAlias {left right earlier gap before after gap' later : List Char} {spot : Spot}
      (closed : regionAfter .code left = .code)
      (left_ : cleanBefore left = earlier ++ '=' :: (gap ++ before))
      (right_ : cleanAfter right = after ++ (gap' ++ later)) (isClean : IsClean before after)
      (between : spot.Between before after) (other : '=' ∉ name)
      (found : firstMatch? (afterAliasHeader? name) none (earlier ++ ['=']) = some [])
      (noInterface : interface? name (stripComments (left ++ literal quote text ++ right)) = .ok none)
      (delimited : Delimited (before ++ literal quote (kept text) ++ after))
      (blank : ∀ c ∈ gap ++ gap', isBlank c) (ends : EndsBody gap' later) :
      Declares name quote text (left ++ literal quote text ++ right) spot

section Declares

variable {quote : Char} {text left right earlier later before after : List Char} {spot : Spot}

theorem IsClean.read (isClean : IsClean before after) (isLiteral : IsLiteral quote text)
    (between : spot.Between before after) (left_ : cleanBefore left = earlier ++ before)
    (right_ : cleanAfter right = after ++ later) :
    stripComments (before ++ literal quote (kept text) ++ after) =
        before ++ literal quote (kept text) ++ after ∧
      Form.read (before ++ literal quote (kept text) ++ after) = .ok (spot.form quote (kept text)) := by
  have same := cleanBefore_part isClean.commentless left_ between.starts
  have same' := cleanAfter_part isClean.commentless' right_ between.ends
  constructor
  · rw [stripComments_literal isLiteral.kept isClean.closed, same, same', kept_kept]
  · have around : spot.Between (cleanBefore before) (cleanAfter after) := by
      rwa [same, same']
    have read := Spot.read_around isLiteral.kept isClean.closed around
    rwa [kept_kept] at read

theorem Declares.read {name content : List Char} (declares : Declares name quote text content spot)
    (isLiteral : IsLiteral quote text) : ∃ before after definition, spot.Between before after ∧
      find name (stripComments content) = .ok (some definition) ∧
      Form.read definition = .ok (spot.form quote (kept text)) := by
  cases declares with
  | @inInterface left right earlier header front label _ tail later _ _ _ closed left_ right_ isClean isHeader
      isField other found =>
      have between := Spot.Between.field isHeader isField
      refine ⟨_, _, _, between, ?_, (isClean.read isLiteral between left_ right_).2⟩
      have whole : stripComments (left ++ literal quote text ++ right) = earlier ++ (header ++
          '{' :: (front ++ label ++ literal quote (kept text) ++ tail ++ '}' :: later)) := by
        rw [stripComments_literal isLiteral closed, left_, right_]
        simp
      have declared : interface? name (stripComments (left ++ literal quote text ++ right)) = .ok (some
          (header ++ '{' :: (front ++ label ++ literal quote (kept text) ++ tail ++ ['}']))) := by
        rw [whole]
        exact interface?_of_header other found isHeader.inert (isField.isOutside isLiteral.kept)
      rw [find, declared]
      simp
  | @inAlias left right earlier gap before after gap' later _ closed left_ right_ isClean between other found
      noInterface delimited blank ends =>
      have left' : cleanBefore left = (earlier ++ '=' :: gap) ++ before := by
        rw [left_]
        simp
      obtain ⟨same, read⟩ := isClean.read isLiteral between left' right_
      refine ⟨before, after, _, between, ?_, read⟩
      have whole : stripComments (left ++ literal quote text ++ right) = earlier ++ '=' :: (gap ++
          (before ++ literal quote (kept text) ++ after ++ (gap' ++ later))) := by
        rw [stripComments_literal isLiteral closed, left_, right_]
        simp
      have inner := Form.isOperator_of_read read
      have trimmed := trimmed_trim (clean (before ++ literal quote (kept text) ++ after))
      rw [← stripComments_eq_trim, same] at trimmed
      rw [same] at inner
      rw [find, noInterface, whole]
      exact alias?_of_header other found delimited trimmed inner (by simp [literal]) blank ends

end Declares

/-- The answer for an expression has the type at the spot, and there is one if all is sound around it.
Names around the spot are looked up in `file`. -/
structure Resolver.Yields (resolver : Resolver) (expr : String) (hint file : Option FilePath) (spot : Spot)
    (type : Validator) : Prop where
  has : ∀ validator after, resolver.resolve expr hint = (some (.ok validator), after) →
    spot.Has resolver.options.strict type validator
  answers : resolver.sources.SoundAround resolver.options.strict file spot →
    ∃ validator after, resolver.resolve expr hint = (some (.ok validator), after)

theorem Primitive.judge_literal {text : String} {value : Option Json} :
    (literal text).judge value = .success ↔ value = some (.string text) := by
  constructor
  · intro accepted
    unfold judge at accepted
    split at accepted <;> simp_all [Outcome.success]
  · rintro rfl
    simp [judge]

section Yields

variable {sources : Sources} {strict : Bool} {file : Option FilePath} {quote : Char}
  {text before after : List Char} {spot : Spot}

theorem describes_literal (isLiteral : IsLiteral quote text) {validator : Validator}
    (describes : sources.Describes strict file (literal quote (kept text)) validator) :
    validator = literalType (kept text) := by
  have read := Spot.read_literal isLiteral.kept
  rw [kept_kept] at read
  have makes := describes.makes read (by simp)
  cases makes
  rfl

theorem describes_spot (isLiteral : IsLiteral quote text) (between : spot.Between before after)
    {expr : List Char} {validator : Validator}
    (read : Form.read expr = .ok (spot.form quote (kept text)))
    (describes : sources.Describes strict file expr validator) :
    spot.Has strict (literalType (kept text)) validator :=
  Spot.has_of_makes between isLiteral.kept (describes.makes read (Spot.form_ne_reference spot quote _))
    fun _ => describes_literal isLiteral

namespace Resolver

open Validator

variable {resolver : Resolver}

theorem exists_of_sound (state : Denoted resolver.sources resolver.options.strict resolver) {expr : String}
    {hint : Option FilePath}
    (sound : resolver.sources.Sound resolver.options.strict hint expr.toList) :
    ∃ validator after, resolver.resolve expr hint = (some (.ok validator), after) := by
  rcases resolve_denotes state expr hint sound.straight with ⟨validator, after, ended, _⟩ | ⟨_, _, _, fails⟩
  · exact ⟨validator, after, ended⟩
  · exact absurd fails sound.faultless

section History

variable {options : Options} {files : FileTable} {returned : List Validator}
  (history : History (fresh options files) resolver returned) (isLiteral : IsLiteral quote text)

include history isLiteral

theorem yields_expression {left right : List Char} (closed : regionAfter .code left = .code)
    (between : spot.Between (cleanBefore left) (cleanAfter right)) (hint : Option FilePath) :
    resolver.Yields (String.ofList (left ++ literal quote text ++ right)) hint hint spot
      (literalType (kept text)) where
  has validator after ended := by
    have read := Spot.read_around isLiteral closed between
    have described := (resolve_described (history_described history)
      (String.ofList (left ++ literal quote text ++ right)) hint).2 validator (by rw [ended])
    rw [String.toList_ofList] at described
    exact describes_spot isLiteral between read described.1
  answers around := by
    have state := history_denoted history
    rw [← state.sources_eq] at state
    refine exists_of_sound state ?_
    rw [String.toList_ofList]
    exact around.sound between isLiteral.kept (Spot.read_around isLiteral closed between)

theorem yields_declaration {name : String} {target : List Char} {hint : Option FilePath} {key : DeclKey}
    {content : String} (read : Form.read name.toList = .ok (.reference target))
    (means : resolver.sources.Means hint target key)
    (found : resolver.files.find? key.file = some (.text content))
    (declares : Declares key.name.toList quote text content.toList spot) :
    resolver.Yields name hint (some key.file) spot (literalType (kept text)) := by
  obtain ⟨before, after, definition, between, defined, read'⟩ := declares.read isLiteral
  have known : resolver.sources.definition key = .ok definition := by
    refine Sources.definition_ok_iff.mpr ⟨stripComments content.toList, ?_, defined⟩
    rw [Sources.text, sources, found]
  constructor
  · intro validator _ ended
    have state := history_described history
    rw [← state.sources_eq] at state
    have described := (resolve_described state name hint).2 validator (by rw [ended])
    -- Nothing is being built here, so the answer is no reference but what the definition says.
    obtain ⟨definition', known', describes⟩ := described.2 target key read means
    cases known.symm.trans known'
    exact describes_spot isLiteral between read' describes
  · intro around
    have state := history_denoted history
    rw [← state.sources_eq] at state
    have sound := around.sound between isLiteral.kept read'
    exact exists_of_sound state (Sources.sound_of_definition read means known sound)

end History

/-- Whatever happened to a resolver, a literal stands for the type that accepts what comment removal
leaves of its text, alone and as element, operand or field, in an expression or in a declaration. That is
the text itself unless it has carriage returns, tabs or two spaces in a row. -/
theorem literal_kept {options : Options} {files : FileTable} {returned : List Validator}
    (history : History (fresh options files) resolver returned) (isLiteral : IsLiteral quote text) :
    (kept text = text ↔ '\r' ∉ text ∧ '\t' ∉ text ∧ text.IsChain fun c d => ¬(c = ' ' ∧ d = ' ')) ∧
    (∀ references bound scope value,
      validateWithin references (bound + 1) scope (literalType (kept text)) value = some .success ↔
        value = some (.string (String.ofList (kept text)))) ∧
    (∀ left right spot hint, regionAfter .code left = .code →
      Spot.Between (cleanBefore left) (cleanAfter right) spot →
        resolver.Yields (String.ofList (left ++ literal quote text ++ right)) hint hint spot
          (literalType (kept text))) ∧
    ∀ name hint target key content spot, Form.read name.toList = .ok (.reference target) →
      resolver.sources.Means hint target key → resolver.files.find? key.file = some (.text content) →
        Declares key.name.toList quote text content.toList spot →
          resolver.Yields name hint (some key.file) spot (literalType (kept text)) := by
  refine ⟨isLiteral.kept_eq_iff, ?_, ?_, ?_⟩
  · intro references bound scope value
    simp only [validateWithin, Validator.judge, literalType, Option.some.injEq, Primitive.judge_literal]
  · intro left right spot hint closed between
    exact yields_expression history isLiteral closed between hint
  · intro name hint target key content spot read means found declares
    exact yields_declaration history isLiteral read means found declares

def figuresFile : FilePath := ⟨"/figures.ts"⟩

def figures : String :=
  "type Kind = 'a dot' | 'a line'; interface Dot \x7b at: Kind; kind: 'a dot' \x7d"

def figureFiles : FileTable :=
  .ofList [(figuresFile, .text figures)]

def dot : Spot :=
  .field (some "Dot".toList) none " at: Kind; ".toList "kind: ".toList "kind".toList false " ".toList

theorem isLiteral_dot : IsLiteral '\'' "a dot".toList := by decide +kernel

theorem declares_kind :
    Declares "Kind".toList '\'' "a dot".toList figures.toList (.operand [] ["'a line'".toList]) := by
  have blank : ∀ c ∈ [' '], isBlank c := List.forall_mem_singleton.mpr rfl
  have union : IsUnion " 'a line'".toList ["'a line'".toList] :=
    ⟨[.operand "'a line'".toList], by decide +kernel, by decide +kernel⟩
  have ends : ∀ c ∈ " 'a line'".toList.getLast?, isBlank c = false := by
    intro c last
    obtain rfl : '\'' = c := by simpa using last
    rfl
  have following : Following " | 'a line'".toList ["'a line'".toList] :=
    @Following.operands [' '] " 'a line'".toList _ blank union ends
  have parts : figures.toList = "type Kind = ".toList ++ literal '\'' "a dot".toList ++
      " | 'a line'; interface Dot \x7b at: Kind; kind: 'a dot' \x7d".toList := by decide +kernel
  rw [parts]
  refine @Declares.inAlias _ _ _ _ _ "type Kind ".toList [' '] [] " | 'a line'".toList []
    "; interface Dot \x7b at: Kind; kind: 'a dot' \x7d".toList _ ?_ ?_ ?_ ?_
    (.operand .nothing following (by decide)) ?_ ?_ ?_ ?_ blank (endsBody_semicolon _ _)
  · decide +kernel
  · decide +kernel
  · decide +kernel
  · exact ⟨by decide +kernel, by decide +kernel, by decide +kernel⟩
  · decide +kernel
  · decide +kernel
  · decide +kernel
  · decide +kernel

theorem declares_dot : Declares "Dot".toList '\'' "a dot".toList figures.toList dot := by
  have blank : ∀ c ∈ [' '], isBlank c := List.forall_mem_singleton.mpr rfl
  have blank' : ∀ c ∈ [' '] ++ [' '], isBlank c := List.forall_mem_append.mpr ⟨blank, blank⟩
  have letters : ∀ c ∈ "Dot".toList, isNamePart c := List.all_eq_true.mp (by decide)
  have isHeader : IsHeader "interface Dot ".toList (some "Dot".toList) none :=
    @IsHeader.interface [' '] "Dot".toList [' '] (by decide) blank' (by decide) letters
  have isLabel : IsLabel "kind: ".toList "kind".toList false :=
    @IsLabel.plain "kind".toList "kind".toList ": ".toList false (.word rfl)
      (@IsColon.required [] [' '] (List.forall_mem_nil _) blank)
  have ends : EndsField " ".toList :=
    ⟨[' '], [], rfl, List.forall_mem_singleton.mpr ⟨rfl, by decide⟩, by simp⟩
  have isField : IsField " at: Kind; ".toList "kind: ".toList "kind".toList false " ".toList :=
    ⟨by decide, by decide, isLabel, ends, by decide⟩
  have parts : figures.toList = "type Kind = 'a dot' | 'a line'; interface Dot \x7b at: Kind; kind: ".toList ++
      literal '\'' "a dot".toList ++ " \x7d".toList := by decide +kernel
  rw [parts]
  refine @Declares.inInterface _ _ _ _ _ "type Kind = 'a dot' | 'a line'; ".toList "interface Dot ".toList
    _ _ _ _ [] _ _ _ ?_ ?_ ?_ ?_ isHeader isField ?_ ?_
  · decide +kernel
  · decide +kernel
  · decide +kernel
  · exact ⟨by decide +kernel, by decide +kernel, by decide +kernel⟩
  · decide +kernel
  · decide +kernel

/-- Literals without runs of white space keep their text. -/
theorem literal_kept_figures :
    kept "a dot".toList = "a dot".toList ∧
    (∃ after, (fresh {} figureFiles).resolve "'a dot'" none =
      (some (.ok (literalType "a dot".toList)), after)) ∧
    (∃ own ancestors after, (fresh {} figureFiles).resolve "Dot" (some figuresFile) =
        (some (.ok (.record own ancestors)), after) ∧
      ⟨"kind", true, false, literalType "a dot".toList⟩ ∈ own.fields) ∧
    ∃ node others after, (fresh {} figureFiles).resolve "Kind" (some figuresFile) =
      (some (.ok (.group node .or (literalType "a dot".toList :: others))), after) := by
  obtain ⟨same, _, expression, declaration⟩ :=
    literal_kept (@History.start (fresh {} figureFiles)) isLiteral_dot
  have kept_ : kept "a dot".toList = "a dot".toList := same.mpr (by decide)
  rw [kept_] at expression declaration
  have found : figureFiles.find? figuresFile = some (.text figures) := by decide +kernel
  refine ⟨kept_, ?_, ?_, ?_⟩
  · obtain ⟨has, answers⟩ := expression [] [] .alone none rfl .alone
    obtain ⟨validator, after, ended⟩ := answers .alone
    cases has validator after ended
    exact ⟨after, ended⟩
  · have yields := declaration "Dot" (some figuresFile) "Dot".toList ⟨"Dot", figuresFile⟩ figures dot
      (read_of_bareName? (by decide +kernel)) ⟨figuresFile, rfl, ok_of_toOption (by decide +kernel)⟩ found
      declares_dot
    have passed : ((fresh {} figureFiles).resolve "Dot" (some figuresFile)).1.any (·.isOk) := by
      decide +kernel
    obtain ⟨validator, answer⟩ := exists_of_isOk passed
    have ended := Prod.fst_eq_iff.mp answer
    cases yields.has validator _ ended with
    | field among => exact ⟨_, _, _, ended, among⟩
  · have yields := declaration "Kind" (some figuresFile) "Kind".toList ⟨"Kind", figuresFile⟩ figures
      (.operand [] ["'a line'".toList]) (read_of_bareName? (by decide +kernel))
      ⟨figuresFile, rfl, ok_of_toOption (by decide +kernel)⟩ found declares_kind
    have passed : ((fresh {} figureFiles).resolve "Kind" (some figuresFile)).1.any (·.isOk) := by
      decide +kernel
    obtain ⟨validator, answer⟩ := exists_of_isOk passed
    have ended := Prod.fst_eq_iff.mp answer
    cases yields.has validator _ ended with
    | @operand _ _ before others node count =>
        obtain rfl := List.eq_nil_of_length_eq_zero count.1
        exact ⟨node, others, _, ended⟩

/-- Two spaces in a literal become one: the type rejects the text that was written. -/
theorem literal_squeezed :
    ∃ validator after, (fresh {} {}).resolve "'a  b'" none = (some (.ok validator), after) ∧
      validator = literalType "a b".toList ∧
      validateWithin after.references 1 [] validator (some (.string "a  b")) =
        some (.leaf .invalidStrLiteral) := by
  have isLiteral : IsLiteral '\'' "a  b".toList := by decide +kernel
  have closed : regionAfter .code [] = .code := rfl
  have between : Spot.Between (cleanBefore []) (cleanAfter []) .alone := .alone
  have squeezed : kept "a  b".toList = "a b".toList := by decide +kernel
  obtain ⟨has, answers⟩ := yields_expression (@History.start (fresh {} {})) isLiteral closed between none
  rw [squeezed] at has
  obtain ⟨validator, after, ended⟩ := answers .alone
  cases has validator after ended
  exact ⟨_, after, ended, rfl, rfl⟩

end Resolver

end Yields

end Conform
