import Conform.Declaration.Import
import Conform.Proofs.Declaration.Sequence
import Conform.Proofs.Expr.Precedence
import Mathlib.Data.Bool.AllAny

/-!
Imports as they are written, and what a clause of one answers. A clause answers to the names that it binds, as
the default or in braces, and to no others.
-/

namespace Conform

namespace Text

/-! ## Words -/

section Words

variable {word run rest : List Char}

theorem words_append_cons {c : Char} (blank : isBlank c) (text rest : List Char) :
    words (text ++ c :: rest) = words text ++ words rest := by
  rw [words, List.splitOnP_append_cons text rest blank, List.filter_append]
  rfl

theorem words_blank_append (blank : ∀ c ∈ run, isBlank c) (rest : List Char) :
    words (run ++ rest) = words rest := by
  induction run with
  | nil => rfl
  | cons c run ih =>
      obtain ⟨first, others⟩ := List.forall_mem_cons.mp blank
      exact (words_append_cons first [] (run ++ rest)).trans (ih others)

theorem words_alone (some_ : word ≠ []) (visible : ∀ c ∈ word, isBlank c = false) :
    words word = [word] := by
  simp [words, List.splitOnP_eq_singleton visible, some_]

theorem words_gap (some_ : word ≠ []) (visible : ∀ c ∈ word, isBlank c = false) (spaced : run ≠ [])
    (blank : ∀ c ∈ run, isBlank c) (rest : List Char) :
    words (word ++ (run ++ rest)) = word :: words rest := by
  obtain ⟨c, run, rfl⟩ := List.exists_cons_of_ne_nil spaced
  obtain ⟨first, others⟩ := List.forall_mem_cons.mp blank
  rw [List.cons_append, words_append_cons first, words_alone some_ visible, words_blank_append others]
  rfl

end Words

theorem Trimmed.join {front back : List Char} (starts : ∀ c ∈ front.head?, isBlank c = false)
    (ends : ∀ c ∈ back.getLast?, isBlank c = false) (some_ : front ≠ []) (some_' : back ≠ []) :
    Trimmed (front ++ back) where
  starts c head := starts c (by rwa [List.head?_append_of_ne_nil _ some_] at head)
  ends c last := ends c (by rwa [List.getLast?_append_of_ne_nil _ some_'] at last)

end Text

namespace Declaration

open Text Conform.Expr

/-! ## Imports as they are written -/

structure Space where
  run : List Char
  blank : run.all isBlank

structure Gap extends Space where
  some_ : run ≠ []

def importWords : List (List Char) :=
  ["type".toList, "as".toList, "from".toList, "import".toList]

def isIdentifier (name : List Char) : Bool :=
  !name.isEmpty && name.all isNamePart

structure ImportName where
  text : List Char
  identifier : isIdentifier text
  free : text ∉ importWords

structure ImportItem where
  lead : Space
  /-- The white space after `type` and the blank behind it. -/
  mark : Option Space
  exported : ImportName
  renamed : Option (Gap × Gap × ImportName)
  trail : Space

namespace ImportItem

def named (item : ImportItem) : List Char :=
  item.exported.text ++
    item.renamed.elim [] fun (gap, gap', name) => gap.run ++ ("as".toList ++ (gap'.run ++ name.text))

def core (item : ImportItem) : List Char :=
  (item.mark.elim [] fun space => "type ".toList ++ space.run) ++ item.named

def text (item : ImportItem) : List Char :=
  item.lead.run ++ item.core ++ item.trail.run

def binding (item : ImportItem) : List Char × List Char :=
  (item.renamed.elim item.exported.text fun (_, _, name) => name.text, item.exported.text)

end ImportItem

def bracesText (items : List ImportItem) : List Char :=
  '{' :: ([','].intercalate (items.map ImportItem.text) ++ ['}'])

inductive ImportClause where
  | default (name : ImportName) (gap : Gap)
  | braces (items : List ImportItem) (space : Space)
  | both (name : ImportName) (before after : Space) (items : List ImportItem) (space : Space)

namespace ImportClause

def core : ImportClause → List Char
  | default name _ => name.text
  | braces items _ => bracesText items
  | both name before after items _ =>
    name.text ++ (before.run ++ ',' :: (after.run ++ bracesText items))

def space : ImportClause → Space
  | default _ gap => gap.toSpace
  | braces _ space => space
  | both _ _ _ _ space => space

def bindings : ImportClause → List (List Char × List Char)
  | default name _ => [(name.text, name.text)]
  | braces items _ => items.map ImportItem.binding
  | both name _ _ items _ => (name.text, name.text) :: items.map ImportItem.binding

end ImportClause

structure ModuleName where
  quote : Char
  specifier : List Char
  isQuote_ : isQuote quote
  unquoted : specifier.all fun c => !isQuote c

def ModuleName.text (module : ModuleName) : List Char :=
  module.quote :: (module.specifier ++ [module.quote])

inductive Import where
  /-- `import clause from 'module'`, with or without `type` before the clause. -/
  | binding (gap : Gap) (mark : Option Gap) (clause : ImportClause) (space : Space) (module : ModuleName)
  /-- `import 'module'`, for its effects only. -/
  | effect (space : Space) (module : ModuleName)

namespace Import

def text : Import → List Char
  | binding gap mark clause space module =>
    "import".toList ++ (gap.run ++ ((mark.elim [] fun gap => "type".toList ++ gap.run) ++
      (clause.core ++ (clause.space.run ++ ("from".toList ++ (space.run ++ module.text))))))
  | effect space module => "import".toList ++ (space.run ++ module.text)

theorem text_binding (gap : Gap) (mark : Option Gap) (clause : ImportClause) (space : Space) (module : ModuleName) :
    (binding gap mark clause space module).text =
      "import".toList ++ (gap.run ++ ((mark.elim [] fun gap => "type".toList ++ gap.run) ++
        (clause.core ++ (clause.space.run ++ ("from".toList ++ (space.run ++ module.text)))))) :=
  rfl

theorem text_effect (space : Space) (module : ModuleName) :
    (effect space module).text = "import".toList ++ (space.run ++ module.text) :=
  rfl

def module : Import → ModuleName
  | binding _ _ _ _ module => module
  | effect _ module => module

def ref? (name : List Char) : Import → Option ImportRef
  | binding _ _ clause _ module =>
    (clause.bindings.lookup name).map fun exported => ⟨module.specifier, exported⟩
  | effect _ _ => none

end Import

/-- An import and what ends it: a semicolon or a line break, with any white space around them. -/
structure EndedImport where
  statement : Import
  ending : List Char
  ends : ending.all fun c => isBlank c || c == ';'

def EndedImport.text (ended : EndedImport) : List Char :=
  ended.statement.text ++ ended.ending

def holdsImport (specifier : List Char) : Bool :=
  specifier.tails.any fun start =>
    (after? "import".toList start).any fun rest =>
      rest.head?.any isBlank && !rest.contains ';' && "from".toList.isSuffixOf (trimEnd rest)

/-- A module name that keeps an import readable: it is not empty where it is needed, and where nothing is
bound it holds no import of its own. -/
def Import.readable : Import → Bool
  | .binding _ _ _ _ module => !module.specifier.isEmpty
  | .effect _ module => !holdsImport module.specifier

def lacksWord (word : List Char) (before : Option Char) : List Char → Bool
  | [] => true
  | c :: rest =>
    !((after? word (c :: rest)).any fun after => !before.any isWord && !after.head?.any isWord) &&
      lacksWord word (some c) rest

/-! ## Items and clauses -/

theorem ImportName.parts (name : ImportName) : ∀ c ∈ name.text, isNamePart c :=
  List.all_eq_true.mp (Bool.and_eq_true_iff.mp name.identifier).2

theorem ImportName.some_ (name : ImportName) : name.text ≠ [] := by
  simpa using (Bool.and_eq_true_iff.mp name.identifier).1

theorem ImportName.visible (name : ImportName) : ∀ c ∈ name.text, isBlank c = false :=
  fun c member => isBlank_of_isNamePart (name.parts c member)

theorem ImportName.trimmed (name : ImportName) : Trimmed name.text :=
  (Tidy.of_visible (by simpa using name.visible)).trimmed

theorem Gap.blanks (gap : Gap) : ∀ c ∈ gap.run, isBlank c :=
  List.all_eq_true.mp gap.blank

theorem ImportName.apart (name : ImportName) {keyword tail rest : List Char} (word : keyword ∈ importWords)
    (stops : ∀ c ∈ tail.head?, isNamePart c = false) (stops' : ∀ c ∈ rest.head?, isNamePart c = false) :
    name.text ++ tail ≠ keyword ++ rest := by
  intro same
  have letters : ∀ keyword ∈ importWords, ∀ c ∈ keyword, isNamePart c := by
    have all : importWords.all fun keyword => keyword.all isNamePart := by decide
    exact fun keyword member => List.all_eq_true.mp (List.all_eq_true.mp all keyword member)
  have own := (span_append name.parts stops).1
  rw [same, (span_append (letters keyword word) stops').1] at own
  exact name.free (own ▸ word)

theorem Gap.head? (gap : Gap) (rest : List Char) : ∃ c, (gap.run ++ rest).head? = some c ∧ isBlank c :=
  head?_run_of_ne_nil gap.some_ gap.blanks rest

theorem Gap.stops (gap : Gap) (rest : List Char) : ∀ c ∈ (gap.run ++ rest).head?, isNamePart c = false := by
  obtain ⟨c, head, blank⟩ := gap.head? rest
  intro d first
  rw [head] at first
  cases first
  exact not_isNamePart_of_isBlank blank

namespace ImportItem

variable (item : ImportItem)

theorem words_named : words item.named =
    item.exported.text :: item.renamed.elim [] fun (_, _, name) => ["as".toList, name.text] := by
  have keyword : ∀ c ∈ "as".toList, isBlank c = false := List.all_iff_forall_prop.mp (by decide)
  unfold named
  cases item.renamed with
  | none =>
      rw [Option.elim_none, List.append_nil]
      exact words_alone item.exported.some_ item.exported.visible
  | some renamed =>
      obtain ⟨gap, gap', name⟩ := renamed
      simp only [Option.elim_some]
      rw [words_gap item.exported.some_ item.exported.visible gap.some_ gap.blanks,
        words_gap (by decide) keyword gap'.some_ gap'.blanks, words_alone name.some_ name.visible]

theorem named_ne_nil : item.named ≠ [] :=
  List.append_ne_nil_of_left_ne_nil item.exported.some_ _

theorem trimmed_named : Trimmed item.named := by
  have exported := item.exported.trimmed
  unfold named
  cases item.renamed with
  | none => rwa [Option.elim_none, List.append_nil]
  | some renamed =>
      obtain ⟨gap, gap', name⟩ := renamed
      simp only [Option.elim_some, ← List.append_assoc]
      refine .join ?_ name.trimmed.ends (by simp [item.exported.some_]) name.some_
      simpa [List.head?_append_of_ne_nil _ item.exported.some_] using exported.starts

theorem trimmed_core : Trimmed item.core := by
  unfold core
  cases item.mark with
  | none => exact item.trimmed_named
  | some space =>
      have first : ∀ c ∈ ("type ".toList ++ space.run).head?, isBlank c = false := by
        rintro c ⟨⟩
        decide
      exact .join first item.trimmed_named.ends (by simp) item.named_ne_nil

theorem core_ne_nil : item.core ≠ [] :=
  List.append_ne_nil_of_right_ne_nil _ item.named_ne_nil

theorem trim_text : trim item.text = item.core := by
  refine item.trimmed_core.trim_pad item.core_ne_nil _ _ fun c member => ?_
  rcases List.mem_append.mp member with inside | inside
  · exact List.all_eq_true.mp item.lead.blank c inside
  · exact List.all_eq_true.mp item.trail.blank c inside

theorem after?_named : after? "type ".toList item.named = none := by
  refine Option.eq_none_iff_forall_ne_some.mpr fun rest found => ?_
  have stops : ∀ c ∈ (item.renamed.elim [] fun (gap, gap', name) =>
      gap.run ++ ("as".toList ++ (gap'.run ++ name.text))).head?, isNamePart c = false := by
    cases item.renamed with
    | none => simp
    | some renamed => exact renamed.1.stops _
  have stops' : ∀ c ∈ (' ' :: rest).head?, isNamePart c = false := by
    rintro c ⟨⟩
    decide
  have word : "type".toList ∈ importWords := by decide
  have same := after?_eq_some.mp found
  exact item.exported.apart word stops stops' same

theorem unmarked : ((after? "type ".toList item.core).map trim).getD item.core = item.named := by
  unfold core
  cases item.mark with
  | none => rw [Option.elim_none, List.nil_append, item.after?_named, Option.map_none, Option.getD_none]
  | some space =>
      rw [Option.elim_some, List.append_assoc, after?_eq_some.mpr rfl, Option.map_some, Option.getD_some,
        trim_blank_append (List.all_eq_true.mp space.blank), item.trimmed_named.trim_eq]

theorem itemExport?_text (name : List Char) :
    itemExport? name item.text = if item.binding.1 = name then some item.binding.2 else none := by
  have read := item.words_named
  unfold itemExport? binding
  simp only [item.trim_text, item.unmarked]
  cases renamed : item.renamed with
  | none =>
      simp only [renamed, Option.elim_none] at read ⊢
      by_cases same : item.exported.text = name
      · simp [read, same]
      · simp [read, same]
  | some renamed' =>
      simp only [renamed, Option.elim_some] at read ⊢
      by_cases same : renamed'.2.2.text = name
      · simp [read, same]
      · simp [read, same]

theorem findSome?_itemExport? (name : List Char) (items : List ImportItem) :
    (items.map text).findSome? (itemExport? name) = (items.map binding).lookup name := by
  induction items with
  | nil => rfl
  | cons item items ih =>
      rw [List.map_cons, List.findSome?_cons, item.itemExport?_text, ih, List.map_cons]
      obtain ⟨bound, exported⟩ := item.binding
      by_cases same : bound = name
      · simp [same]
      · simp [List.lookup_cons, same, beq_false_of_ne (Ne.symm same)]

theorem parts_text : ∀ c ∈ item.text, isBlank c ∨ isNamePart c := by
  have blank (space : Space) : ∀ c ∈ space.run, isBlank c ∨ isNamePart c :=
    fun c member => .inl (List.all_eq_true.mp space.blank c member)
  have part (name : ImportName) : ∀ c ∈ name.text, isBlank c ∨ isNamePart c :=
    fun c member => .inr (name.parts c member)
  have words : ∀ c ∈ "type ".toList ++ "as".toList, isBlank c ∨ isNamePart c :=
    List.all_iff_forall_prop.mp (by decide)
  obtain ⟨keyword, as_⟩ := List.forall_mem_append.mp words
  unfold text core named
  simp only [List.forall_mem_append]
  refine ⟨⟨blank item.lead, ?mark, part item.exported, ?renamed⟩, blank item.trail⟩
  case mark =>
    cases item.mark with
    | none => simp
    | some space => exact List.forall_mem_append.mpr ⟨keyword, blank space⟩
  case renamed =>
    cases item.renamed with
    | none => simp
    | some renamed =>
        obtain ⟨gap, gap', name⟩ := renamed
        simp only [Option.elim_some, List.forall_mem_append]
        exact ⟨blank gap.toSpace, as_, blank gap'.toSpace, part name⟩

end ImportItem

theorem not_mem_of_parts {text : List Char} (parts : ∀ c ∈ text, isBlank c ∨ isNamePart c) {mark : Char}
    (visible : isBlank mark = false) (other : isNamePart mark = false) : mark ∉ text := by
  intro member
  rcases parts mark member with blank | part
  · simp [visible] at blank
  · simp [other] at part

theorem items_bracesText (name : List Char) (items : List ImportItem) :
    (([','].intercalate (items.map ImportItem.text)).splitOn ',').findSome? (itemExport? name) =
      (items.map ImportItem.binding).lookup name := by
  rw [← ImportItem.findSome?_itemExport?]
  by_cases none_ : items = []
  · subst none_
    rfl
  · rw [List.splitOn_intercalate ',' ?_ (by simpa using none_)]
    intro text member
    obtain ⟨item, _, rfl⟩ := List.mem_map.mp member
    exact not_mem_of_parts item.parts_text (by decide) (by decide)

theorem clauseParts_braces {front : List Char} (plain : '{' ∉ front) (items : List ImportItem) :
    clauseParts (front ++ bracesText items) = (front, some ([','].intercalate (items.map ImportItem.text))) := by
  have passes : ∀ c ∈ front, (c != '{') = true := by
    rintro c member
    exact bne_iff_ne.mpr fun same => plain (same ▸ member)
  unfold clauseParts bracesText
  rw [List.dropWhile_append_of_pos passes, List.takeWhile_append_of_pos passes]
  simp

theorem clauseParts_plain {front : List Char} (plain : '{' ∉ front) : clauseParts front = (front, none) := by
  have passes : ∀ c ∈ front, (c != '{') = true := by
    rintro c member
    exact bne_iff_ne.mpr fun same => plain (same ▸ member)
  simp [clauseParts, List.dropWhile_eq_nil_iff.mpr passes]

theorem dropWhile_comma {text : List Char} (plain : ',' ∉ text) :
    text.reverse.dropWhile (· == ',') = text.reverse := by
  cases parts : text.reverse with
  | nil => rfl
  | cons c rest =>
      have other : c ≠ ',' := fun same => plain (List.mem_reverse.mp (by simp [parts, same]))
      exact List.dropWhile_cons_of_neg (by simpa using other)

theorem clauseExport?_eq {name clause front : List Char} {named : Option (List Char)} (bound : List Char)
    (parts : clauseParts clause = (front, named))
    (default : trim ((trim front).reverse.dropWhile (· == ',')).reverse = bound) :
    clauseExport? name clause = if bound = name then some name
      else ((named.map (·.splitOn ',')).getD []).findSome? (itemExport? name) := by
  simp only [clauseExport?, parts, default]

theorem ImportClause.clauseExport?_core {name : List Char} (identifier : isIdentifier name)
    (clause : ImportClause) : clauseExport? name clause.core = clause.bindings.lookup name := by
  have parts (bound : ImportName) : ∀ c ∈ bound.text, isBlank c ∨ isNamePart c :=
    fun c member => .inr (bound.parts c member)
  have plain (bound : ImportName) : '{' ∉ bound.text := not_mem_of_parts (parts bound) rfl rfl
  have uncut (bound : ImportName) : bound.text.reverse.dropWhile (· == ',') = bound.text.reverse :=
    dropWhile_comma (not_mem_of_parts (parts bound) rfl rfl)
  cases clause with
  | default bound gap =>
      rw [core, clauseExport?_eq bound.text (clauseParts_plain (plain bound))]
      · by_cases same : bound.text = name
        · simp [bindings, same]
        · simp [bindings, List.lookup_cons, same, beq_false_of_ne (Ne.symm same)]
      · rw [bound.trimmed.trim_eq, uncut, List.reverse_reverse, bound.trimmed.trim_eq]
  | braces items space =>
      have some_ : [] ≠ name := Ne.symm (by simpa using (Bool.and_eq_true_iff.mp identifier).1)
      have whole := clauseParts_braces (List.not_mem_nil (a := '{')) items
      rw [List.nil_append] at whole
      rw [core, clauseExport?_eq [] whole rfl, if_neg some_]
      exact items_bracesText name items
  | both bound before after items space =>
      have blank := List.all_eq_true.mp before.blank
      have blank' := List.all_eq_true.mp after.blank
      have front : ∀ c ∈ bound.text ++ before.run, isBlank c ∨ isNamePart c :=
        List.forall_mem_append.mpr ⟨parts bound, fun c member => .inl (blank c member)⟩
      have starts : ∀ c ∈ (bound.text ++ before.run).head?, isBlank c = false := by
        simpa [List.head?_append_of_ne_nil _ bound.some_] using bound.trimmed.starts
      have comma : Trimmed (bound.text ++ before.run ++ [',']) :=
        .join starts (by simp [isBlank]) (by simp [bound.some_]) (by simp)
      have text : core (.both bound before after items space) =
          bound.text ++ before.run ++ [','] ++ after.run ++ bracesText items := by simp [core]
      have unbraced : '{' ∉ bound.text ++ before.run ++ [','] ++ after.run := by
        have inside : '{' ∉ bound.text ++ before.run := not_mem_of_parts front rfl rfl
        have behind : '{' ∉ after.run := fun member => by simpa [isBlank] using blank' _ member
        simp only [List.mem_append] at inside ⊢
        simp [inside, behind]
      rw [text, clauseExport?_eq bound.text (clauseParts_braces unbraced items)]
      · by_cases same : bound.text = name
        · simp [bindings, same]
        · simpa [bindings, List.lookup_cons, same, beq_false_of_ne (Ne.symm same)] using
            items_bracesText name items
      · rw [trim_append_blank blank', comma.trim_eq, List.reverse_append, List.reverse_singleton,
          List.singleton_append, List.dropWhile_cons_of_pos (by simp),
          dropWhile_comma (not_mem_of_parts front rfl rfl), List.reverse_reverse, trim_append_blank blank,
          bound.trimmed.trim_eq]

end Declaration

end Conform
