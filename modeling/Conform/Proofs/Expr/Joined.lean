import Conform.Proofs.Expr.Members

/-!
Members and what joins them. A text that is a member by itself is one in the midst of others as well, so
members come back from a text in which they are joined; and what was found as a member is one by itself.
-/

namespace Conform.Expr

open Text

namespace MemberScan

def past (scan : MemberScan) (c : Char) : MemberScan where
  depth := if scan.quote.isSome || isQuote c then scan.depth else scan.depth + bracketStep c
  quote := quoteAfter scan.quote c
  last := if isBlank c then scan.last else some c

def passing (scan : MemberScan) (text : List Char) : MemberScan :=
  text.foldl past scan

def Whole (scan : MemberScan) : List Char → List Char → Prop
  | [], _ => True
  | c :: text, rest => ¬scan.Ends c (text ++ rest) ∧ (scan.past c).Whole text rest

variable {scan : MemberScan} {read text more rest rest' : List Char} {c : Char}

theorem after_goes (goes : ¬scan.Ends c rest) : scan.after c rest = scan.past c := by
  by_cases quoted : (scan.quote.isSome || isQuote c) = true
  · simp [after, past, quoted]
  · obtain ⟨open_, unquoted⟩ : scan.quote = none ∧ isQuote c = false := by simpa using quoted
    have unended : endsMember scan.depth scan.last c rest = false := by
      by_contra ends
      exact goes ⟨by simpa using quoted, by simpa using ends⟩
    simp [after, past, open_, unquoted, unended, quoteAfter]

theorem after_ends (ends : scan.Ends c rest) : scan.after c rest = {} := by
  obtain ⟨code, ends⟩ := ends
  have flat : scan.depth = 0 := by
    simp only [endsMember, Bool.and_eq_true, beq_iff_eq] at ends
    exact ends.1
  rw [after, if_neg (by simp [code]), if_pos ends, flat]

theorem pieces_whole (whole : scan.Whole text rest) (read : List Char) :
    scan.pieces read (text ++ rest) = (scan.passing text).pieces (read ++ text) rest := by
  induction text generalizing scan read with
  | nil => simp [passing]
  | cons c text ih =>
      obtain ⟨goes, whole⟩ := whole
      rw [List.cons_append, pieces_goes goes, after_goes goes, ih whole, List.append_assoc]
      rfl

theorem whole_append : scan.Whole (text ++ more) rest ↔
    scan.Whole text (more ++ rest) ∧ (scan.passing text).Whole more rest := by
  induction text generalizing scan with
  | nil => simp [Whole, passing]
  | cons c text ih =>
      simp only [List.cons_append, Whole, ih, List.append_assoc, and_assoc]
      rfl

theorem pieces_cases (scan : MemberScan) (read text : List Char) :
    (scan.Whole text [] ∧ scan.pieces read text = [read ++ text]) ∨
      ∃ part c rest, text = part ++ c :: rest ∧ scan.Whole part (c :: rest) ∧
        scan.pieces read text = (read ++ part) :: ({} : MemberScan).pieces [] rest := by
  induction text generalizing scan read with
  | nil => exact .inl ⟨trivial, by simp⟩
  | cons c text ih =>
      by_cases ends : scan.Ends c text
      · exact .inr ⟨[], c, text, rfl, trivial, by rw [pieces_ends ends, after_ends ends, List.append_nil]⟩
      · rw [pieces_goes ends, after_goes ends]
        rcases ih (scan.past c) (read ++ [c]) with ⟨whole, parts⟩ | ⟨part, d, rest, rfl, whole, parts⟩
        · exact .inl ⟨⟨by simpa using ends, whole⟩, by simpa using parts⟩
        · exact .inr ⟨c :: part, d, rest, rfl, ⟨ends, whole⟩, by simpa using parts⟩

theorem whole_of_piece (text : List Char) :
    ∀ piece ∈ ({} : MemberScan).pieces [] text, ∃ rest, ({} : MemberScan).Whole piece rest := by
  induction size : text.length using Nat.strongRecOn generalizing text with
  | ind size ih =>
      subst size
      rcases pieces_cases {} [] text with ⟨whole, parts⟩ | ⟨part, c, rest, rfl, whole, parts⟩
      · simpa [parts] using ⟨[], whole⟩
      · rw [parts]
        refine List.forall_mem_cons.mpr ⟨⟨_, whole⟩, ih rest.length ?_ rest rfl⟩
        simp only [List.length_append, List.length_cons]
        omega

section Visible

theorem head?_trimStart_append (seen : ∃ c ∈ text, isBlank c = false) (rest : List Char) :
    (trimStart (text ++ rest)).head? = (trimStart text).head? := by
  have some_ : text.dropWhile isBlank ≠ [] := by
    rw [ne_eq, List.dropWhile_eq_nil_iff]
    obtain ⟨c, member, visible⟩ := seen
    exact fun blank => by simp [blank c member] at visible
  rw [trimStart, trimStart, List.dropWhile_append, if_neg (by simpa using some_),
    List.head?_append_of_ne_nil _ some_]

theorem ends_congr (ends : ∀ d ∈ (c :: text).getLast?, isBlank d = false) :
    scan.Ends c (text ++ rest) ↔ scan.Ends c (text ++ rest') := by
  have same : endsMember scan.depth scan.last c (text ++ rest) =
      endsMember scan.depth scan.last c (text ++ rest') := by
    by_cases newline : c = '\n'
    · have seen : ∃ d ∈ text, isBlank d = false := by
        cases text using List.reverseRecOn with
        | nil => simp [newline, isBlank] at ends
        | append_singleton text d =>
            refine ⟨d, by simp, ends d ?_⟩
            rw [← List.cons_append, List.getLast?_concat]
            rfl
      simp only [endsMember, continuesAfter, head?_trimStart_append seen]
    · have other : (c == '\n') = false := by simpa using newline
      simp [endsMember, other]
  rw [Ends, Ends, same]

theorem whole_congr (ends : ∀ d ∈ text.getLast?, isBlank d = false) :
    scan.Whole text rest ↔ scan.Whole text rest' := by
  induction text generalizing scan with
  | nil => exact Iff.rfl
  | cons c text ih =>
      have ends' : ∀ d ∈ text.getLast?, isBlank d = false := by
        intro d last
        cases text with
        | nil => cases last
        | cons e text => exact ends d (by simpa using last)
      rw [Whole, Whole, ends_congr ends, ih ends']

end Visible

section Blank

theorem past_blank (closed : scan.quote = none) (blank : isBlank c) : scan.past c = scan := by
  have unquoted : isQuote c = false := by
    by_contra opens
    simp [isBlank_of_isQuote (by simpa using opens)] at blank
  obtain ⟨depth, quote, last⟩ := scan
  obtain rfl : quote = none := closed
  simp [past, unquoted, blank, quoteAfter, bracketStep_blank blank]

theorem passing_blank (closed : scan.quote = none) {run : List Char} (blank : ∀ c ∈ run, isBlank c) :
    scan.passing run = scan := by
  induction run with
  | nil => rfl
  | cons c run ih =>
      obtain ⟨first, others⟩ := List.forall_mem_cons.mp blank
      exact (congrArg (List.foldl past · run) (past_blank closed first)).trans (ih others)

end Blank

end MemberScan

open MemberScan

theorem members_blank_append {run : List Char} (blank : ∀ c ∈ run, isBlank c) (text : List Char) :
    members (run ++ text) = members text := by
  induction run with
  | nil => rfl
  | cons c run ih =>
      obtain ⟨first, others⟩ := List.forall_mem_cons.mp blank
      have single : ∀ d ∈ [c], isBlank d := by simpa using first
      rw [← ih others, members_eq, members_eq, List.cons_append]
      by_cases ends : ({} : MemberScan).Ends c (run ++ text)
      · rw [pieces_ends ends, after_ends ends, listed_cons, listed_blank (by simp), List.nil_append]
      · rw [pieces_goes ends, after_goes ends, past_blank rfl first, List.nil_append,
          listed_pieces_blank _ single]

theorem members_member {body member : List Char} (among : member ∈ members body) :
    members member = [member] := by
  rw [members_eq] at among
  obtain ⟨trimmed, some_⟩ := List.mem_filter.mp among
  obtain ⟨piece, found, rfl⟩ := List.mem_map.mp trimmed
  obtain ⟨rest, whole⟩ := whole_of_piece body piece found
  obtain ⟨before, after, blank, parts⟩ := exists_trim piece
  have lead : ∀ c ∈ before, isBlank c := fun c member => blank c (List.mem_append_left _ member)
  rw [parts, List.append_assoc, whole_append, passing_blank rfl lead, whole_append] at whole
  have alone : ({} : MemberScan).Whole (trim piece) [] :=
    (whole_congr (trimmed_trim piece).ends).mp whole.2.1
  have single : ({} : MemberScan).pieces [] (trim piece) = [trim piece] := by
    have passed := pieces_whole alone []
    rw [List.append_nil, pieces_nil] at passed
    exact passed
  rw [members_eq, single, listed, List.map_singleton, (trimmed_trim piece).trim_eq]
  simpa using some_

/-- A text that is a member by itself. -/
structure IsMember (text : List Char) : Prop where
  some_ : text ≠ []
  trimmed : trim text = text
  unquoted : (({} : MemberScan).passing text).quote = none
  unnested : (({} : MemberScan).passing text).depth = 0
  single : members text = [text]

theorem isMember_iff {text : List Char} : IsMember text ↔ text ≠ [] ∧ trim text = text ∧
    (({} : MemberScan).passing text).quote = none ∧ (({} : MemberScan).passing text).depth = 0 ∧
    members text = [text] :=
  ⟨fun ⟨some_, trimmed, unquoted, unnested, single⟩ => ⟨some_, trimmed, unquoted, unnested, single⟩,
    fun ⟨some_, trimmed, unquoted, unnested, single⟩ => ⟨some_, trimmed, unquoted, unnested, single⟩⟩

instance (text : List Char) : Decidable (IsMember text) :=
  decidable_of_iff' _ isMember_iff

inductive Joint (first second : List Char) : List Char → Prop where
  | mark {gap gap' : List Char} {c : Char} (blank : ∀ d ∈ gap ++ gap', isBlank d)
      (separates : c = ';' ∨ c = ',') : Joint first second (gap ++ c :: gap')
  | lineBreak {gap : List Char} (blank : ∀ d ∈ gap, isBlank d) (breaks : '\n' ∈ gap)
      (complete : ∀ c ∈ first.getLast?, c ∉ [':', '|', '&'])
      (begins : ∀ c ∈ second.head?, c ∉ ['|', '&']) : Joint first second gap

/-- The members one after the other, with a joint between each two. -/
inductive Joined : List (List Char) → List Char → Prop where
  | none : Joined [] []
  | last (member : List Char) : Joined [member] member
  | next {first second joint text : List Char} {rest : List (List Char)}
      (between : Joint first second joint) (joined : Joined (second :: rest) text) :
      Joined (first :: second :: rest) (first ++ joint ++ text)

section Own

variable {text : List Char}

theorem IsMember.isTrimmed (own : IsMember text) : Trimmed text := by
  rw [← own.trimmed]
  exact trimmed_trim text

theorem IsMember.listed (own : IsMember text) {read : List Char} (same : trim read = text) :
    listed [read] = [text] := by
  simpa [Expr.listed, same] using own.some_

theorem IsMember.whole (own : IsMember text) (rest : List Char) : ({} : MemberScan).Whole text rest := by
  rcases pieces_cases {} [] text with ⟨whole, _⟩ | ⟨part, c, later, parts, _, pieces⟩
  · exact (whole_congr own.isTrimmed.ends).mp whole
  · -- Were it cut, all that is found in it would be shorter.
    have size := congrArg List.length parts
    simp only [List.length_append, List.length_cons] at size
    have among : text ∈ members text := by simp [own.single]
    rw [members_eq, pieces, List.nil_append, listed_cons, ← members_eq] at among
    rcases List.mem_append.mp among with here | beyond
    · have same : trim part = text := by
        obtain ⟨trimmed, _⟩ := List.mem_filter.mp here
        simpa [eq_comm] using trimmed
      have shorter := length_trim part
      rw [same] at shorter
      omega
    · have shorter := length_member beyond
      omega

theorem IsMember.passing (own : IsMember text) :
    ({} : MemberScan).passing text = ⟨0, none, text.getLast?⟩ := by
  have last : (({} : MemberScan).passing text).last = text.getLast? := by
    have visible := own.isTrimmed.ends
    cases text using List.reverseRecOn with
    | nil => rfl
    | append_singleton text c =>
        have seen := visible c (by simp)
        simp [MemberScan.passing, past, seen]
  have unquoted := own.unquoted
  have unnested := own.unnested
  generalize ({} : MemberScan).passing text = scan at last unquoted unnested
  obtain ⟨depth, quote, seen⟩ := scan
  obtain rfl : depth = 0 := unnested
  obtain rfl : quote = none := unquoted
  obtain rfl : seen = text.getLast? := last
  rfl

theorem IsMember.begins (own : IsMember text) (inner : ∀ c ∈ text.head?, c ∉ ['|', '&'])
    (more : List Char) : BeginsMember (text ++ more) := by
  obtain ⟨c, rest, rfl⟩ := List.exists_cons_of_ne_nil own.some_
  refine ⟨c, rest ++ more, rfl, own.isTrimmed.starts c rfl, ?_⟩
  by_contra operator
  have mark := isOperator_iff.mp (by simpa using operator)
  exact inner c rfl (by simpa [or_comm] using mark)

end Own

section Gap

variable {scan : MemberScan} {gap rest : List Char} {c : Char}

theorem listed_pad (blank : ∀ c ∈ gap, isBlank c) (read : List Char) :
    listed [read ++ gap] = listed [read] := by
  rw [listed, listed, List.map_singleton, List.map_singleton, trim_append_blank blank]

theorem listed_gap (closed : scan.quote = none) (blank : ∀ c ∈ gap, isBlank c)
    (cut : ¬scan.Whole gap rest) (read : List Char) :
    listed (scan.pieces read (gap ++ rest)) = listed [read] ++ members rest := by
  induction gap generalizing read with
  | nil => exact absurd trivial cut
  | cons c gap ih =>
      obtain ⟨first, others⟩ := List.forall_mem_cons.mp blank
      rw [List.cons_append]
      by_cases ends : scan.Ends c (gap ++ rest)
      · rw [pieces_ends ends, after_ends ends, listed_cons, ← members_eq, members_blank_append others]
      · rw [Whole, past_blank closed first] at cut
        rw [pieces_goes ends, after_goes ends, past_blank closed first,
          ih others (fun whole => cut ⟨ends, whole⟩), listed_pad (by simpa using first)]

theorem members_eq_nil_of_blank (blank : ∀ c ∈ gap, isBlank c) : members gap = [] := by
  have found := members_blank_append blank []
  rw [List.append_nil] at found
  exact found

theorem ends_mark (flat : scan.depth = 0) (closed : scan.quote = none) (separates : c = ';' ∨ c = ',')
    (rest : List Char) : scan.Ends c rest := by
  rcases separates with rfl | rfl <;> exact ⟨by simp [closed, isQuote], by simp [endsMember, flat]⟩

theorem members_mark (separates : c = ';' ∨ c = ',') (text : List Char) :
    members (c :: text) = members text := by
  have ends : ({} : MemberScan).Ends c text := ends_mark rfl rfl separates text
  rw [members_eq, pieces_ends ends, after_ends ends, listed_cons, listed_blank (by simp), List.nil_append,
    ← members_eq]

/-- After a member, all is found that follows where it ends. -/
theorem IsMember.members_gap {text : List Char} (own : IsMember text) (blank : ∀ c ∈ gap, isBlank c)
    (ends : (⟨0, none, text.getLast?⟩ : MemberScan).Whole gap rest →
      rest = [] ∨ ∃ c more, rest = c :: more ∧ (c = ';' ∨ c = ',')) :
    members (text ++ (gap ++ rest)) = text :: members rest := by
  have passed := pieces_whole (own.whole (gap ++ rest)) []
  rw [own.passing, List.nil_append] at passed
  rw [members_eq, passed]
  by_cases whole : (⟨0, none, text.getLast?⟩ : MemberScan).Whole gap rest
  · rw [pieces_whole whole, passing_blank rfl blank]
    rcases ends whole with rfl | ⟨c, more, rfl, separates⟩
    · rw [pieces_nil, listed_pad blank, own.listed own.trimmed]
      rfl
    · have here : (⟨0, none, text.getLast?⟩ : MemberScan).Ends c more := ends_mark rfl rfl separates more
      rw [pieces_ends here, after_ends here, listed_cons, listed_pad blank, own.listed own.trimmed,
        ← members_eq, members_mark separates]
      rfl
  · rw [listed_gap rfl blank whole, own.listed own.trimmed]
    rfl

end Gap

section Joint

variable {first second joint more : List Char}

theorem Joint.members (between : Joint first second joint) (own : IsMember first) (own' : IsMember second) :
    members (first ++ (joint ++ (second ++ more))) = first :: members (second ++ more) := by
  cases between with
  | @mark gap gap' c blank separates =>
      obtain ⟨before, after⟩ : (∀ d ∈ gap, isBlank d) ∧ ∀ d ∈ gap', isBlank d := by
        simpa [or_imp, forall_and] using blank
      rw [List.append_assoc, List.cons_append,
        own.members_gap before fun _ => .inr ⟨c, _, rfl, separates⟩, members_mark separates,
        members_blank_append after]
  | lineBreak blank breaks complete begins =>
      refine own.members_gap blank fun whole => ?_
      -- The member is complete at the first line break, and the next one does not go on with it.
      obtain ⟨gap, gap', rfl⟩ := List.append_of_mem breaks
      have before : ∀ d ∈ gap, isBlank d := fun d member => blank d (by simp [member])
      have after : ∀ d ∈ gap', isBlank d := fun d member => blank d (by simp [member])
      have onward : BeginsMember (second ++ more) := own'.begins begins more
      have complete' : first.getLast?.any (· ∈ [':', '|', '&']) = false := by
        cases last : first.getLast? with
        | none => rfl
        | some c => simpa using complete c last
      rw [whole_append, passing_blank rfl before] at whole
      refine absurd ⟨rfl, ?_⟩ whole.2.1
      rw [endsMember, continuesAfter_append onward, continuesAfter, complete', trimStart,
        List.dropWhile_eq_nil_iff.mpr after]
      rfl

end Joint

theorem Joined.begins {first : List Char} {rest : List (List Char)} {text : List Char}
    (joined : Joined (first :: rest) text) : ∃ more, text = first ++ more := by
  cases joined with
  | last => exact ⟨[], by simp⟩
  | next => exact ⟨_, List.append_assoc _ _ _⟩

theorem Joined.members {list : List (List Char)} {text after : List Char} (joined : Joined list text)
    (own : ∀ member ∈ list, IsMember member) (blank : ∀ c ∈ after, isBlank c) :
    members (text ++ after) = list := by
  induction joined with
  | none => exact members_eq_nil_of_blank blank
  | last member =>
      have found := (own member (by simp)).members_gap blank fun _ => Or.inl (Eq.refl [])
      rwa [List.append_nil] at found
  | @next first second joint text rest between joined ih =>
      obtain ⟨first', others⟩ := List.forall_mem_cons.mp own
      obtain ⟨more, rfl⟩ := joined.begins
      have found := ih others
      rw [List.append_assoc] at found
      rw [List.append_assoc, List.append_assoc, List.append_assoc,
        between.members first' (others second (by simp)), found]

/-- Splitting is the inverse of joining, and what it finds it leaves as it is. -/
theorem members_rejoined :
    (∀ {list : List (List Char)} {text before after : List Char}, (∀ member ∈ list, IsMember member) →
      Joined list text → (∀ c ∈ before ++ after, isBlank c) → members (before ++ text ++ after) = list) ∧
    ∀ body : List Char, ∀ member ∈ members body, members member = [member] := by
  refine ⟨fun own joined blank => ?_, fun body member among => members_member among⟩
  have lead := fun c member => blank c (List.mem_append_left _ member)
  have trail := fun c member => blank c (List.mem_append_right _ member)
  rw [List.append_assoc, members_blank_append lead, joined.members own trail]

/-- A union over three lines, and brackets and separators in literals. -/
theorem members_rejoined_mixed :
    members ("\n  ".toList ++ ("kind:\n  | ';'\n  | '\x7b'".toList ++ "\n\n ".toList ++
        ("[key: string]: Array<\x7b a, b \x7d>".toList ++ " ;\n".toList ++ "'x-y'?: T".toList)) ++ "\n ".toList) =
      ["kind:\n  | ';'\n  | '\x7b'".toList, "[key: string]: Array<\x7b a, b \x7d>".toList, "'x-y'?: T".toList] ∧
    ∀ member ∈ members "a: '\x7b', b\n: (".toList, members member = [member] := by
  have complete : ∀ c ∈ "kind:\n  | ';'\n  | '\x7b'".toList.getLast?, c ∉ [':', '|', '&'] := by
    rintro c ⟨⟩
    decide
  have begins : ∀ c ∈ "[key: string]: Array<\x7b a, b \x7d>".toList.head?, c ∉ ['|', '&'] := by
    rintro c ⟨⟩
    decide
  have lineBreak : Joint _ _ "\n\n ".toList := .lineBreak (List.all_eq_true.mp rfl) (by decide) complete begins
  have semicolon (first second : List Char) : Joint first second (" ".toList ++ ';' :: "\n".toList) :=
    .mark (List.all_eq_true.mp rfl) (.inl rfl)
  have around : ∀ c ∈ "\n  ".toList ++ "\n ".toList, isBlank c := List.all_eq_true.mp rfl
  exact ⟨members_rejoined.1 (by decide) (.next lineBreak (.next (semicolon _ _) (.last _))) around,
    members_rejoined.2 _⟩

end Conform.Expr
