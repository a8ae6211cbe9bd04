import Conform.Proofs.Declaration.ImportClause
import Mathlib.Data.List.Infix

/-!
What a name is imported as, in a text that begins with imports. An import that binds names is read as a
whole, so nothing in it is taken for another one. One that binds none is passed over, and the search goes
on inside its module name: only where that name holds an import of its own, up to `from`, is what follows
read as part of it.
-/

namespace Conform.Declaration

open Text Conform.Expr

/-! ## What is read of an import -/

section Splits

variable {run body : List Char}

theorem blankSplits_run (blank : ∀ c ∈ run, isBlank c) (starts : ∀ c ∈ body.head?, isBlank c = false) :
    ∃ others, blankSplits (run ++ body) = body :: others := by
  induction run with
  | nil =>
      cases body with
      | nil => exact ⟨[], rfl⟩
      | cons c body => exact ⟨[], by simp [blankSplits, starts c rfl]⟩
  | cons c run ih =>
      obtain ⟨first, rest⟩ := List.forall_mem_cons.mp blank
      obtain ⟨others, same⟩ := ih rest
      exact ⟨others ++ [c :: (run ++ body)], by simp [blankSplits, first, same]⟩

theorem blankSplitsSome_gap (gap : Gap) (starts : ∀ c ∈ body.head?, isBlank c = false) :
    ∃ others, blankSplitsSome (gap.run ++ body) = body :: others := by
  have blank := gap.blanks
  obtain ⟨c, run, same⟩ := List.exists_cons_of_ne_nil gap.some_
  rw [same] at blank ⊢
  obtain ⟨first, rest⟩ := List.forall_mem_cons.mp blank
  obtain ⟨others, splits⟩ := blankSplits_run rest starts
  exact ⟨others, by simp [blankSplitsSome, first, splits]⟩

end Splits

theorem readClause?_from {core before space specifier : List Char} {quote quote' : Char}
    (plain : ∀ c ∈ core ++ before, isQuote c = false ∧ c ≠ ';')
    (some_ : core ≠ []) (ends : ∀ c ∈ core.getLast?, isBlank c = false) (blank : ∀ c ∈ before, isBlank c)
    (apart : (core ++ before).getLast?.any isWord = false) (blank' : ∀ c ∈ space, isBlank c)
    (opens : isQuote quote) (some_' : specifier ≠ []) (unquoted : ∀ c ∈ specifier, isQuote c = false)
    (closes : isQuote quote') (left : List Char) :
    readClause? (core ++ (before ++ ("from".toList ++ (space ++ quote :: (specifier ++ quote' :: left))))) =
      some (⟨core, specifier⟩, left) := by
  have clause : ∀ c ∈ core ++ before ++ "from".toList ++ space, (!(isQuote c || c == ';')) = true := by
    have word : ∀ c ∈ "from".toList, (!(isQuote c || c == ';')) = true := List.all_eq_true.mp (by decide)
    simp only [List.forall_mem_append] at plain ⊢
    refine ⟨⟨⟨fun c member => ?_, fun c member => ?_⟩, word⟩, fun c member => ?_⟩
    · simp [plain.1 c member]
    · simp [plain.2 c member]
    · obtain ⟨unquoted, other, -⟩ := inert_of_isBlank (blank' c member)
      have semicolon : c ≠ ';' := by
        rintro rfl
        simpa [isBlank] using blank' _ member
      simp [unquoted, semicolon]
  have text : core ++ (before ++ ("from".toList ++ (space ++ quote :: (specifier ++ quote' :: left)))) =
      core ++ before ++ "from".toList ++ space ++ quote :: (specifier ++ quote' :: left) := by simp
  have stop : ∀ c ∈ (quote :: (specifier ++ quote' :: left)).head?, (!(isQuote c || c == ';')) = false := by
    rintro c ⟨⟩
    simp [opens]
  obtain ⟨inside, beyond⟩ := span_append clause stop
  have named : ∀ c ∈ specifier, (!isQuote c) = true := fun c member => by simp [unquoted c member]
  have closed : ∀ c ∈ (quote' :: left).head?, (!isQuote c) = false := by
    rintro c ⟨⟩
    simp [closes]
  obtain ⟨inside', beyond'⟩ := span_append named closed
  have trimmed : trimEnd (core ++ before ++ "from".toList ++ space) = core ++ before ++ "from".toList := by
    rw [trimEnd_append blank']
    refine trimEnd_eq fun c last => ?_
    rw [List.getLast?_append_of_ne_nil _ (by simp)] at last
    cases last
    decide
  have whole : trimEnd (core ++ before) = core := by rw [trimEnd_append blank, trimEnd_eq ends]
  have found : after? "from".toList.reverse (core ++ before ++ "from".toList).reverse =
      some (core ++ before).reverse := after?_eq_some.mpr (List.reverse_append ..)
  have head : (core ++ before).isEmpty = false := by simp [some_]
  have boundary : isBoundary (core ++ before).getLast? (some 'f') = true := by
    rw [isBoundary, apart]
    rfl
  unfold readClause?
  simp only [text, inside, beyond, trimmed, found, inside', beyond', Option.bind_eq_bind, Option.bind_some,
    List.reverse_reverse, head, boundary, whole, opens]
  simp [some_, some_']

namespace ImportClause

variable (clause : ImportClause)

theorem plain : ∀ c ∈ clause.core ++ clause.space.run, isQuote c = false ∧ c ≠ ';' := by
  have marks : ∀ c ∈ ['{', '}', ','], isQuote c = false ∧ c ≠ ';' := List.all_iff_forall_prop.mp (by decide)
  have unmarked {c : Char} (part : isBlank c ∨ isNamePart c) : isQuote c = false ∧ c ≠ ';' := by
    rcases part with blank | part
    · refine ⟨(inert_of_isBlank blank).1, ?_⟩
      rintro rfl
      simp [isBlank] at blank
    · exact ⟨(inert_of_isNamePart part).1, ne_of_isNamePart part rfl⟩
  have spaces (space : Space) : ∀ c ∈ space.run, isQuote c = false ∧ c ≠ ';' := fun c member =>
    unmarked (.inl (List.all_eq_true.mp space.blank c member))
  have letters (name : ImportName) : ∀ c ∈ name.text, isQuote c = false ∧ c ≠ ';' := fun c member =>
    unmarked (.inr (name.parts c member))
  have braces (items : List ImportItem) : ∀ c ∈ bracesText items, isQuote c = false ∧ c ≠ ';' := by
    have inside : ∀ c ∈ [','].intercalate (items.map ImportItem.text), isQuote c = false ∧ c ≠ ';' := by
      intro c member
      obtain ⟨piece, among, inside⟩ := List.mem_flatten.mp member
      rcases mem_intersperse among with rfl | own
      · exact marks c (by simp_all)
      · obtain ⟨item, _, rfl⟩ := List.mem_map.mp own
        exact unmarked (item.parts_text c inside)
    simp only [bracesText, List.forall_mem_cons, List.forall_mem_append]
    exact ⟨by decide, inside, by decide, fun _ none_ => absurd none_ List.not_mem_nil⟩
  refine List.forall_mem_append.mpr ⟨?_, spaces clause.space⟩
  cases clause with
  | default name gap => exact letters name
  | braces items space => exact braces items
  | both name before after items space =>
      simp only [core, List.forall_mem_append, List.forall_mem_cons]
      exact ⟨letters name, spaces before, by decide, spaces after, braces items⟩

theorem core_ne_nil : clause.core ≠ [] := by
  cases clause with
  | default name gap => exact name.some_
  | braces items space => exact List.cons_ne_nil _ _
  | both name before after items space => exact List.append_ne_nil_of_left_ne_nil name.some_ _

theorem getLast?_core :
    clause.core.getLast? = some '}' ∨ clause.space.run ≠ [] ∧ ∀ c ∈ clause.core, isNamePart c := by
  have braces (items : List ImportItem) : (bracesText items).getLast? = some '}' := by
    rw [bracesText, ← List.cons_append, List.getLast?_append_of_ne_nil _ (by simp)]
    rfl
  have some_ (items : List ImportItem) : bracesText items ≠ [] := List.cons_ne_nil _ _
  cases clause with
  | default name gap => exact .inr ⟨gap.some_, name.parts⟩
  | braces items space => exact .inl (braces items)
  | both name before after items space =>
      refine .inl ?_
      rw [core, List.getLast?_append_of_ne_nil _ (by simp), ← List.cons_append, ← List.append_assoc,
        List.getLast?_append_of_ne_nil _ (some_ items), braces]

theorem ends_core : ∀ c ∈ clause.core.getLast?, isBlank c = false := by
  rcases clause.getLast?_core with brace | ⟨-, parts⟩
  · rw [brace]
    rintro c ⟨⟩
    rfl
  · exact fun c last => isBlank_of_isNamePart (parts c (List.mem_of_mem_getLast? last))

theorem apart_core : (clause.core ++ clause.space.run).getLast?.any isWord = false := by
  have blank := List.all_eq_true.mp clause.space.blank
  by_cases some_ : clause.space.run = []
  · rcases clause.getLast?_core with brace | ⟨other, -⟩
    · rw [some_, List.append_nil, brace]
      rfl
    · exact absurd some_ other
  · rw [List.getLast?_append_of_ne_nil _ some_]
    cases last : clause.space.run.getLast? with
    | none => rfl
    | some c => exact isWord_of_isBlank (blank c (List.mem_of_mem_getLast? last))

theorem unmarked (rest : List Char) :
    ((after? "type".toList (clause.core ++ (clause.space.run ++ rest))).map blankSplitsSome).getD [] = [] := by
  have named (name : ImportName) (tail : List Char) (stops : ∀ c ∈ tail.head?, isNamePart c = false) :
      ((after? "type".toList (name.text ++ tail)).map blankSplitsSome).getD [] = [] := by
    cases found : after? "type".toList (name.text ++ tail) with
    | none => rfl
    | some left =>
        rw [Option.map_some, Option.getD_some]
        cases left with
        | nil => rfl
        | cons c left =>
            have visible : isBlank c = false := by
              by_contra blank
              have stop := not_isNamePart_of_isBlank (eq_true_of_ne_false blank)
              exact name.apart (by decide) stops (by rintro d ⟨⟩; exact stop) (after?_eq_some.mp found)
            simp [blankSplitsSome, visible]
  cases clause with
  | default name gap => exact named name _ (gap.stops rest)
  | braces items space => rfl
  | both name before after items space =>
      have blank := List.all_eq_true.mp before.blank
      simp only [core, List.append_assoc, List.cons_append]
      refine named name _ (head?_run (fun c member => not_isNamePart_of_isBlank (blank c member)) ?_)
      rintro c ⟨⟩
      rfl

theorem starts (rest : List Char) : ∀ c ∈ (clause.core ++ rest).head?, isBlank c = false := by
  intro c head
  rw [List.head?_append_of_ne_nil _ clause.core_ne_nil] at head
  cases clause with
  | default name gap => exact name.trimmed.starts c head
  | braces items space =>
      cases head
      rfl
  | both name before after items space =>
      rw [core, List.head?_append_of_ne_nil _ name.some_] at head
      exact name.trimmed.starts c head

end ImportClause

theorem findSome?_clauseStarts {body : List Char} {found : ImportStatement × List Char} (gap : Gap)
    (starts : ∀ c ∈ body.head?, isBlank c = false)
    (read : (((after? "type".toList body).map blankSplitsSome).getD [] ++ [body]).findSome? readClause? =
      some found) : (clauseStarts (gap.run ++ body)).findSome? readClause? = some found := by
  obtain ⟨others, first⟩ := blankSplitsSome_gap gap starts
  rw [clauseStarts, first, List.flatMap_cons, List.findSome?_append, read, Option.some_or]

theorem ModuleName.text_append (module : ModuleName) (rest : List Char) :
    module.text ++ rest = module.quote :: (module.specifier ++ module.quote :: rest) := by
  simp [ModuleName.text]

/-- An import that binds names is read as a whole. -/
theorem importStatement?_binding {before : Option Char} (outside : before.any isWord = false) (gap : Gap)
    (mark : Option Gap) (clause : ImportClause) (space : Space) (module : ModuleName)
    (some_ : module.specifier ≠ []) (rest : List Char) :
    importStatement? before ((Import.binding gap mark clause space module).text ++ rest) =
      some (⟨clause.core, module.specifier⟩, rest) := by
  have unquoted : ∀ c ∈ module.specifier, isQuote c = false := by simpa using List.all_eq_true.mp module.unquoted
  have read := readClause?_from clause.plain clause.core_ne_nil clause.ends_core
    (List.all_eq_true.mp clause.space.blank) clause.apart_core (List.all_eq_true.mp space.blank)
    module.isQuote_ some_ unquoted module.isQuote_ rest
  generalize tail_ : "from".toList ++ (space.run ++ module.quote :: (module.specifier ++ module.quote :: rest)) =
    tail at read
  have starts := clause.starts (clause.space.run ++ tail)
  have found : (clauseStarts (gap.run ++ ((mark.elim [] fun gap => "type".toList ++ gap.run) ++
      (clause.core ++ (clause.space.run ++ tail))))).findSome? readClause? =
        some (⟨clause.core, module.specifier⟩, rest) := by
    cases mark with
    | none =>
        rw [Option.elim_none, List.nil_append]
        refine findSome?_clauseStarts gap starts ?_
        rw [clause.unmarked, List.nil_append, List.findSome?_singleton, read]
    | some gap' =>
        obtain ⟨others, first⟩ := blankSplitsSome_gap gap' starts
        rw [Option.elim_some, List.append_assoc]
        refine findSome?_clauseStarts gap (by rintro c ⟨⟩; decide) ?_
        rw [after?_eq_some.mpr rfl, Option.map_some, Option.getD_some, first, List.cons_append,
          List.findSome?_cons_of_isSome (by rw [read]; rfl), read]
  have boundary : isBoundary before (some 'i') = true := by
    rw [isBoundary, outside]
    rfl
  have text : (Import.binding gap mark clause space module).text ++ rest = "import".toList ++ (gap.run ++
      ((mark.elim [] fun gap => "type".toList ++ gap.run) ++ (clause.core ++ (clause.space.run ++ tail)))) := by
    subst tail_
    rw [Import.text_binding]
    repeat rw [List.append_assoc]
    rw [module.text_append]
  rw [text]
  unfold importStatement?
  rw [after?_eq_some.mpr rfl]
  simp only [Option.bind_eq_bind, Option.bind_some, found]
  exact if_neg (by simpa using boundary)

/-! ## What is passed over -/

section Passed

variable {text rest : List Char} {quote : Char}

theorem allMatches_pass {α : Type} {read : Option Char → List Char → Option (α × List Char)}
    (silent : ∀ c back, c :: back <:+ text → ∀ before, read before (c :: (back ++ rest)) = none)
    (before : Option Char) : allMatches read before (text ++ rest) = allMatches read (text.getLast?.or before) rest := by
  induction text generalizing before with
  | nil => rfl
  | cons c text ih =>
      have here := silent c text (List.suffix_refl _) before
      have others := ih (fun d back suffix => silent d back (suffix.trans (List.suffix_cons c text))) (some c)
      rw [List.cons_append, allMatches]
      simp only [here]
      rw [others, List.getLast?_cons, Option.some_or]
      cases text.getLast? <;> rfl

theorem allMatches_found {α : Type} {read : Option Char → List Char → Option (α × List Char)}
    {before : Option Char} {found : α} (some_ : text ≠ []) (here : read before (text ++ rest) = some (found, rest)) :
    allMatches read before (text ++ rest) = found :: allMatches read text.getLast? rest := by
  obtain ⟨c, text, rfl⟩ := List.exists_cons_of_ne_nil some_
  rw [List.cons_append] at here ⊢
  rw [allMatches]
  have shorter : rest.length ≤ (text ++ rest).length := by simp
  have length : (text ++ rest).length + 1 - rest.length = (c :: text).length := by
    simp only [List.length_append, List.length_cons]
    omega
  have front : (c :: (text ++ rest)).take (c :: text).length = c :: text := by
    rw [← List.cons_append, List.take_left]
  simp only [here, shorter, dif_pos, length, front]

theorem mem_clauseStarts {start : List Char} (member : start ∈ clauseStarts text) :
    ∃ run, text = run ++ start ∧ run.head?.any isBlank ∧ ∀ c ∈ run, isBlank c ∨ isNamePart c := by
  obtain ⟨first, among, inside⟩ := List.mem_flatMap.mp member
  obtain ⟨run, some_, blank, rfl⟩ := mem_blankSplitsSome.mp among
  obtain ⟨c, run, rfl⟩ := List.exists_cons_of_ne_nil some_
  have head : (c :: run).head?.any isBlank := by simpa using blank c List.mem_cons_self
  have parts : ∀ d ∈ c :: run, isBlank d ∨ isNamePart d := fun d member => .inl (blank d member)
  rcases List.mem_append.mp inside with marked | plain
  · cases found : after? "type".toList first with
    | none =>
        rw [found] at marked
        cases marked
    | some left =>
        rw [found, Option.map_some, Option.getD_some] at marked
        obtain ⟨run', _, blank', rfl⟩ := mem_blankSplitsSome.mp marked
        have word : ∀ d ∈ "type".toList, isBlank d ∨ isNamePart d := List.all_iff_forall_prop.mp (by decide)
        refine ⟨c :: run ++ ("type".toList ++ run'), ?_, by simpa using head, ?_⟩
        · rw [after?_eq_some.mp found, List.append_assoc, List.append_assoc]
        · simp only [List.forall_mem_append]
          exact ⟨parts, word, fun d member => .inl (blank' d member)⟩
  · cases List.mem_singleton.mp plain
    exact ⟨c :: run, rfl, head, parts⟩

theorem trimEnd_suffix {start : List Char} (suffix : start <:+ text) {word : List Char} (some_ : word ≠ [])
    (ends : word <:+ trimEnd start) : word <:+ trimEnd text := by
  obtain ⟨front, rfl⟩ := suffix
  obtain ⟨after, blank, parts⟩ := exists_trimEnd start
  have kept : trimEnd start ≠ [] := by
    rintro none_
    rw [none_] at ends
    exact some_ (List.suffix_nil.mp ends)
  have whole : trimEnd (front ++ start) = front ++ trimEnd start := by
    conv_lhs => rw [parts, ← List.append_assoc, trimEnd_append blank]
    refine trimEnd_eq fun c last => trimEnd_last start c ?_
    rwa [List.getLast?_append_of_ne_nil _ kept] at last
  rw [whole]
  exact ends.trans (List.suffix_append front _)

theorem ends_of_holdsImport (holds : holdsImport text) : "from".toList <:+ trimEnd text := by
  obtain ⟨start, member, inside⟩ := List.any_eq_true.mp holds
  obtain ⟨left, found, ends⟩ := (Option.any_eq_true _ _).mp inside
  simp only [Bool.and_eq_true, List.isSuffixOf_iff_suffix] at ends
  have suffix := (after?_suffix found).trans ((List.mem_tails ..).mp member)
  exact trimEnd_suffix suffix (by decide) ends.2

theorem readClause?_some {found : ImportStatement × List Char} (read : readClause? text = some found) :
    "from".toList <:+ trimEnd (text.takeWhile fun c => !(isQuote c || c == ';')) ∧
      (text.dropWhile fun c => !(isQuote c || c == ';')).head?.any isQuote := by
  unfold readClause? at read
  simp only [Option.bind_eq_bind] at read
  obtain ⟨head, front, read⟩ := Option.bind_eq_some_iff.mp read
  refine ⟨⟨head.reverse, ?_⟩, ?_⟩
  · have parts := congrArg List.reverse (after?_eq_some.mp front)
    rw [List.reverse_reverse, List.reverse_append, List.reverse_reverse] at parts
    exact parts.symm
  · cases next : text.dropWhile fun c => !(isQuote c || c == ';') with
    | nil => simp only [next, Option.bind_none, ite_self, reduceCtorEq] at read
    | cons c rest =>
        by_contra other
        have unquoted : isQuote c = false := by simpa using other
        simp only [next, unquoted, Bool.not_false, if_true, Option.bind_none, ite_self, reduceCtorEq] at read

section Module

variable (opens : isQuote quote)

include opens

theorem clauseStarts_quote (rest : List Char) :
    clauseStarts (text ++ quote :: rest) = (clauseStarts text).map (· ++ quote :: rest) := by
  have visible : isBlank quote = false := isBlank_of_isQuote opens
  have other : quote ∉ "type".toList := by
    rcases isQuote_cases opens with rfl | rfl
    · decide
    · decide
  rw [clauseStarts, blankSplitsSome_mark visible, List.flatMap_map, clauseStarts, List.map_flatMap]
  refine List.flatMap_congr fun start member => ?_
  rw [after?_mark other]
  cases after? "type".toList start with
  | none => rfl
  | some left => simp [blankSplitsSome_mark visible]

variable (unquoted : ∀ c ∈ text, isQuote c = false)

include unquoted

theorem readClause?_quote (rest : List Char)
    (silent : ';' ∈ text ∨ ¬"from".toList <:+ trimEnd text) : readClause? (text ++ quote :: rest) = none := by
  refine Option.eq_none_iff_forall_ne_some.mpr fun found read => ?_
  obtain ⟨ends, next⟩ := readClause?_some read
  by_cases cut : ';' ∈ text
  · obtain ⟨front, back, rfl, first⟩ := List.eq_append_cons_of_mem cut
    have plain : ∀ c ∈ front, (!(isQuote c || c == ';')) = true := by
      intro c member
      have other : c ≠ ';' := fun same => first (same ▸ member)
      simp [unquoted c (by simp [member]), other]
    rw [List.append_assoc, List.dropWhile_append_of_pos plain] at next
    simp [isQuote] at next
  · have plain : ∀ c ∈ text, (!(isQuote c || c == ';')) = true := by
      intro c member
      have other : c ≠ ';' := fun same => cut (same ▸ member)
      simp [unquoted c member, other]
    rw [(span_append plain (by rintro c ⟨⟩; simp [opens])).1] at ends
    exact silent.elim cut fun other => other ends

theorem importStatement?_quote (rest : List Char) (before : Option Char)
    (silent : ∀ left, after? "import".toList text = some left →
      ¬(left.head?.any isBlank ∧ ';' ∉ left ∧ "from".toList <:+ trimEnd left)) :
    importStatement? before (text ++ quote :: rest) = none := by
  have other : quote ∉ "import".toList := by
    rcases isQuote_cases opens with rfl | rfl
    · decide
    · decide
  have nothing : ∀ left, after? "import".toList text = some left →
      (clauseStarts (left ++ quote :: rest)).findSome? readClause? = none := by
    intro left keyword
    rw [clauseStarts_quote opens, List.findSome?_eq_none_iff]
    intro start member
    obtain ⟨inner, among, rfl⟩ := List.mem_map.mp member
    obtain ⟨run, parts, spaced, plain⟩ := mem_clauseStarts among
    have suffix : inner <:+ left := ⟨run, parts.symm⟩
    refine readClause?_quote opens (fun c among => ?_) rest ?_
    · exact unquoted c ((suffix.trans (after?_suffix keyword)).mem among)
    · by_contra neither
      obtain ⟨uncut, ends⟩ := not_or.mp neither
      refine silent left keyword ⟨?_, ?_, trimEnd_suffix suffix (by decide) (not_not.mp ends)⟩
      · obtain ⟨c, head, blank⟩ := (Option.any_eq_true _ _).mp spaced
        rw [parts, List.head?_append, head]
        exact blank
      · rw [parts, List.mem_append, not_or]
        exact ⟨not_mem_of_parts plain rfl rfl, uncut⟩
  unfold importStatement?
  rw [after?_mark other]
  cases found : after? "import".toList text with
  | none => simp
  | some left => simp [nothing left found]

/-- The search goes on behind a quote where no import ends. -/
theorem importStatements_pass (silent : holdsImport text = false) (rest : List Char) (before : Option Char) :
    allMatches importStatement? before (text ++ quote :: rest) =
      allMatches importStatement? (some quote) rest := by
  have passed : ∀ c back, c :: back <:+ text → ∀ before,
      importStatement? before (c :: (back ++ quote :: rest)) = none := by
    intro c back suffix before
    have unquoted' : ∀ d ∈ c :: back, isQuote d = false := fun d member => unquoted d (suffix.mem member)
    refine importStatement?_quote opens unquoted' rest before fun left keyword ⟨blank, uncut, ends⟩ => ?_
    have holds : left.contains ';' = false := by simpa using uncut
    have none_ := List.any_eq_false.mp silent (c :: back) ((List.mem_tails ..).mpr suffix)
    rw [keyword, Option.any_some, blank, holds, List.isSuffixOf_iff_suffix.mpr ends] at none_
    exact none_ rfl
  rw [allMatches_pass passed]
  have none_ : ∀ c ∈ ([] : List Char), isQuote c = false := by simp
  have here := importStatement?_quote opens none_ rest (text.getLast?.or before) (by rintro left ⟨⟩)
  rw [allMatches]
  simp only [List.nil_append] at here
  simp only [here]

end Module

end Passed

/-! ## What a name is imported as -/

theorem ModuleName.unquoted' (module : ModuleName) : ∀ c ∈ module.specifier, isQuote c = false := by
  simpa using List.all_eq_true.mp module.unquoted

theorem importStatement?_other {c : Char} (other : c ≠ 'i') (rest : List Char) (before : Option Char) :
    importStatement? before (c :: rest) = none := by
  have keyword : after? "import".toList (c :: rest) = none := by simp [after?, Ne.symm other]
  unfold importStatement?
  rw [keyword]
  simp

theorem importStatements_effect (space : Space) (module : ModuleName) (silent : holdsImport module.specifier = false)
    (rest : List Char) (before : Option Char) :
    allMatches importStatement? before ((Import.effect space module).text ++ rest) =
      allMatches importStatement? (some module.quote) rest := by
  have blank := List.all_eq_true.mp space.blank
  have unquoted : ∀ c ∈ "import".toList ++ space.run, isQuote c = false := by
    simp only [List.forall_mem_append]
    exact ⟨List.all_iff_forall_prop.mp (by decide), fun c member => (inert_of_isBlank (blank c member)).1⟩
  have keyword : holdsImport ("import".toList ++ space.run) = false := by
    by_contra holds
    have ends := ends_of_holdsImport (eq_true_of_ne_false holds)
    rw [trimEnd_append blank] at ends
    revert ends
    decide
  have text : (Import.effect space module).text ++ rest = "import".toList ++ space.run ++
      module.quote :: (module.specifier ++ module.quote :: rest) := by
    rw [Import.text_effect, ModuleName.text]
    simp only [List.append_assoc, List.cons_append, List.nil_append]
  rw [text, importStatements_pass module.isQuote_ unquoted keyword,
    importStatements_pass module.isQuote_ module.unquoted' silent]

section Run

variable {run : List Char} (ends : ∀ c ∈ run, isBlank c || c == ';')

include ends

theorem importStatements_run (rest : List Char) (before : Option Char) :
    allMatches importStatement? before (run ++ rest) =
      allMatches importStatement? (run.getLast?.or before) rest := by
  refine allMatches_pass (fun c back suffix before => importStatement?_other ?_ (back ++ rest) before) before
  rintro rfl
  have letter := ends 'i' (suffix.mem List.mem_cons_self)
  revert letter
  decide

theorem outside_run {before : Option Char} (outside : before.any isWord = false) :
    (run.getLast?.or before).any isWord = false := by
  cases last : run.getLast? with
  | none => exact outside
  | some c =>
      rcases (Bool.or_eq_true _ _).mp (ends c (List.mem_of_mem_getLast? last)) with blank | semicolon
      · exact isWord_of_isBlank blank
      · rw [beq_iff_eq.mp semicolon]
        rfl

end Run

theorem lacksWord_congr {word text : List Char} {before before' : Option Char}
    (same : before.any isWord = before'.any isWord) : lacksWord word before text = lacksWord word before' text := by
  cases text with
  | nil => rfl
  | cons c text => simp only [lacksWord, same]

theorem importStatement?_lacking {text : List Char} {before : Option Char}
    (silent : ((after? "import".toList text).any fun after => !before.any isWord && !after.head?.any isWord) = false) :
    importStatement? before text = none := by
  refine Option.eq_none_iff_forall_ne_some.mpr fun found read => ?_
  unfold importStatement? at read
  simp only [Option.bind_eq_bind] at read
  by_cases boundary : isBoundary before text.head?
  · rw [boundary, Bool.not_true, if_neg Bool.false_ne_true] at read
    obtain ⟨left, keyword, read⟩ := Option.bind_eq_some_iff.mp read
    have outside := (isBoundary_keyword (by decide) keyword).mp boundary
    obtain ⟨start, member, -⟩ := List.exists_of_findSome?_eq_some read
    obtain ⟨run, rfl, spaced, -⟩ := mem_clauseStarts member
    obtain ⟨c, head, blank⟩ := (Option.any_eq_true _ _).mp spaced
    have next : (run ++ start).head?.any isWord = false := by
      rw [List.head?_append, head]
      exact isWord_of_isBlank blank
    rw [keyword, Option.any_some, outside, next] at silent
    cases silent
  · simp [boundary] at read

theorem importStatements_rest {rest : List Char} {before : Option Char}
    (silent : lacksWord "import".toList before rest) : allMatches importStatement? before rest = [] := by
  induction rest generalizing before with
  | nil => rw [allMatches]
  | cons c rest ih =>
      obtain ⟨here, others⟩ := Bool.and_eq_true_iff.mp silent
      rw [allMatches, importStatement?_lacking (Bool.not_eq_true' _ ▸ here)]
      exact ih others

theorem Import.getLast?_text (statement : Import) : ∃ quote, isWord quote = false ∧
    statement.text.getLast? = some quote ∧ statement.module.quote = quote := by
  have last (front : List Char) (module : ModuleName) : (front ++ module.text).getLast? = some module.quote := by
    rw [ModuleName.text, ← List.cons_append, ← List.append_assoc, List.getLast?_concat]
  have unworded : isWord statement.module.quote = false := by
    rcases isQuote_cases statement.module.isQuote_ with same | same
    · rw [same]
      rfl
    · rw [same]
      rfl
  refine ⟨statement.module.quote, unworded, ?_, rfl⟩
  cases statement with
  | binding gap mark clause space module => simp only [text_binding, ← List.append_assoc, last, Import.module]
  | effect space module => simp only [text_effect, ← List.append_assoc, last, Import.module]

def ImportStatement.ref? (name : List Char) (statement : ImportStatement) : Option ImportRef :=
  (clauseExport? name statement.clause).map fun exported => ⟨statement.specifier, exported⟩

section Find

variable {name rest : List Char} {imports : List EndedImport} (identifier : isIdentifier name)
  (silent : lacksWord "import".toList none rest) (readable : ∀ ended ∈ imports, ended.statement.readable)

include identifier silent readable

theorem findSome?_imports {before : Option Char} (outside : before.any isWord = false) :
    (allMatches importStatement? before (imports.flatMap EndedImport.text ++ rest)).findSome?
      (ImportStatement.ref? name) = imports.findSome? (·.statement.ref? name) := by
  induction imports generalizing before with
  | nil =>
      rw [List.flatMap_nil, List.nil_append, importStatements_rest]
      · rfl
      · have same : before.any isWord = (none : Option Char).any isWord := outside
        rwa [lacksWord_congr same]
  | cons ended imports ih =>
      obtain ⟨here, others⟩ := List.forall_mem_cons.mp readable
      have ends := List.all_eq_true.mp ended.ends
      obtain ⟨quote, unworded, last, same⟩ := ended.statement.getLast?_text
      have quoted : (some quote).any isWord = false := unworded
      have onward := ih others (outside_run ends quoted)
      rw [List.flatMap_cons, EndedImport.text, List.append_assoc, List.append_assoc, List.findSome?_cons]
      cases statement : ended.statement with
      | binding gap mark clause space module =>
          rw [statement] at here last
          have some_ : module.specifier ≠ [] := by simpa [Import.readable] using here
          have read := importStatement?_binding outside gap mark clause space module some_
            (ended.ending ++ (imports.flatMap EndedImport.text ++ rest))
          rw [allMatches_found (by simp [Import.text_binding]) read, last, importStatements_run ends, List.findSome?_cons,
            onward, ImportStatement.ref?, clause.clauseExport?_core identifier]
          rfl
      | effect space module =>
          rw [statement] at here same
          have silent' : holdsImport module.specifier = false := by simpa [Import.readable] using here
          rw [importStatements_effect space module silent', show module.quote = quote from same,
            importStatements_run ends, onward]
          rfl

/-- A name is imported from the first import that binds it, as what that import says, and from none where
none binds it. -/
theorem imported_from_first (lead : Space) : import? name
    (lead.run ++ (imports.flatMap EndedImport.text ++ rest)) = imports.findSome? (·.statement.ref? name) := by
  have ends : ∀ c ∈ lead.run, isBlank c || c == ';' := fun c member => by
    simp [List.all_eq_true.mp lead.blank c member]
  rw [import?, importStatements, importStatements_run ends]
  exact findSome?_imports identifier silent readable (outside_run ends rfl)

end Find

/-- A renamed item of the first import in braces hides the item of that name in the second one, and what the
module calls it is no name of this text. -/
theorem imported_from_first_renamed :
    let text := ("import './polyfill';\nimport from$,\x7b type A as B,\n  C \x7d from \"./a\"\n" ++
      "import type \x7b B \x7d from './b' ;\ninterface important \x7b b: B \x7d").toList
    let found := fun name : String => import? name.toList text
    found "B" = some ⟨"./a".toList, "A".toList⟩ ∧ found "A" = none := by
  intro text found
  let gap : Gap := ⟨⟨[' '], by decide⟩, by decide⟩
  let none_ : Space := ⟨[], by decide⟩
  let a : ImportName := ⟨"A".toList, by decide, by decide⟩
  let b : ImportName := ⟨"B".toList, by decide, by decide⟩
  let c : ImportName := ⟨"C".toList, by decide, by decide⟩
  let default : ImportName := ⟨"from$".toList, by decide, by decide⟩
  let first : Import := .effect gap.toSpace ⟨'\'', "./polyfill".toList, by decide, by decide⟩
  let second : Import := .binding gap none
    (.both default none_ none_ [⟨gap.toSpace, some none_, a, some (gap, gap, b), none_⟩,
      ⟨⟨"\n  ".toList, by decide⟩, none, c, none, gap.toSpace⟩] gap.toSpace)
    gap.toSpace ⟨'"', "./a".toList, by decide, by decide⟩
  let third : Import := .binding gap (some gap)
    (.braces [⟨gap.toSpace, none, b, none, gap.toSpace⟩] gap.toSpace) gap.toSpace
    ⟨'\'', "./b".toList, by decide, by decide⟩
  let imports : List EndedImport :=
    [⟨first, ";\n".toList, by decide⟩, ⟨second, "\n".toList, by decide⟩, ⟨third, " ;\n".toList, by decide⟩]
  have parts : text = none_.run ++ (imports.flatMap EndedImport.text ++
      "interface important \x7b b: B \x7d".toList) := by decide +kernel
  have silent : lacksWord "import".toList none "interface important \x7b b: B \x7d".toList := by decide +kernel
  have readable : ∀ ended ∈ imports, ended.statement.readable := by decide +kernel
  have own (name : String) (identifier : isIdentifier name.toList) :
      found name = imports.findSome? (·.statement.ref? name.toList) := by
    rw [show found name = import? name.toList text from rfl, parts]
    exact imported_from_first identifier silent readable none_
  exact ⟨own "B" (by decide), own "A" (by decide)⟩

/-- An import that binds nothing is read together with the next one when its module name holds an import up to
`from`; and a name imported from an empty module name is not found. -/
theorem imported_from_none :
    let gap : Gap := ⟨⟨[' '], by decide⟩, by decide⟩
    let a : ImportName := ⟨"A".toList, by decide, by decide⟩
    let binding (specifier : List Char) (unquoted : specifier.all fun c => !isQuote c) : Import :=
      .binding gap none (.default a gap) gap.toSpace ⟨'\'', specifier, by decide, unquoted⟩
    let first : Import := .effect gap.toSpace ⟨'\'', "./my import all from".toList, by decide, by decide⟩
    let imports : List EndedImport :=
      [⟨first, ";\n".toList, by decide⟩, ⟨binding "./a".toList (by decide), [';'], by decide⟩]
    let unnamed := binding [] (by decide)
    (import? "A".toList (imports.flatMap EndedImport.text) = none ∧
      imports.findSome? (·.statement.ref? "A".toList) = some ⟨"./a".toList, "A".toList⟩) ∧
      (import? "A".toList unnamed.text = none ∧ unnamed.ref? "A".toList = some ⟨[], "A".toList⟩) := by
  decide +kernel

end Conform.Declaration
