import Conform.Proofs.Expr.Enclosed

/-!
Texts that are read as unions. They can be joined with `|`, and a leading operator does not count.
-/

namespace Conform

open Conform.Text Conform.Expr

namespace Expr

section Unions

open Resolve (operands operators)

def alternatives (tokens : List Token) : List (List Char) :=
  (runs tokens).map fun run => ['&'].intercalate (operands run)

def IsUnion (text : List Char) (texts : List (List Char)) : Prop :=
  ∃ found, tokens text = .ok found ∧ alternatives found = texts

variable {text text' : List Char} {texts texts' : List (List Char)}

theorem IsUnion.join (union : IsUnion text texts) (union' : IsUnion text' texts') :
    IsUnion (text ++ '|' :: text') (texts ++ texts') := by
  obtain ⟨found, split, rfl⟩ := union
  obtain ⟨found', split', rfl⟩ := union'
  refine ⟨_, tokens_join .or split split', ?_⟩
  simp [alternatives, runs, List.splitOn_append_cons_self]

theorem IsUnion.single (segment : Segment text) (some_ : trim text ≠ []) : IsUnion text [trim text] := by
  have split : tokens text = .ok (interleaved (trim text) []) :=
    tokens_eq_ok.mpr ⟨⟨text, []⟩, segment.cut?, some_, by simp, rfl⟩
  refine ⟨_, split, ?_⟩
  rw [alternatives, runs_single]
  simp [operands_conjunction]

theorem alternatives_operands (first : List Char) {rest : List (Connective × List Char)}
    (ors : ∀ part ∈ rest, part.1 = .or) :
    alternatives (interleaved first rest) = operands (interleaved first rest) := by
  induction rest generalizing first with
  | nil =>
      rw [alternatives, runs_single]
      simp only [List.map_cons, List.map_nil, operands_conjunction, List.intercalate_singleton]
      rfl
  | cons part rest ih =>
      obtain ⟨connective, second⟩ := part
      obtain ⟨rfl, others⟩ := List.forall_mem_cons.mp ors
      have onward := ih second others
      rw [alternatives] at onward ⊢
      rw [runs_or, List.map_cons, onward, operands_conjunction]
      simp [interleaved_cons]

theorem operands_intersperse (connective : Connective) (texts : List (List Char)) :
    operands ((texts.map Token.operand).intersperse (.operator connective)) = texts := by
  induction texts with
  | nil => rfl
  | cons first texts ih =>
      cases texts with
      | nil => rfl
      | cons second texts => simpa using ih

theorem ofTokens_uniform {tokens : List Token} {connective : Connective}
    (among : .operator connective ∈ tokens)
    (uniform : ∀ other, .operator other ∈ tokens → other = connective) :
    Form.ofTokens text tokens = .ok (.group connective (operands tokens)) := by
  have each : ∀ other ∈ operators tokens, other = connective := by
    intro other member
    obtain ⟨token, inside, same⟩ := List.mem_filterMap.mp member
    cases token with
    | operand text => cases same
    | operator other => exact uniform _ (Option.some.inj same ▸ inside)
  have member : connective ∈ operators tokens := List.mem_filterMap.mpr ⟨_, among, rfl⟩
  unfold Form.ofTokens
  cases known : operators tokens with
  | nil => simp [known] at member
  | cons first others =>
      rw [known] at each
      obtain ⟨rfl, others'⟩ := List.forall_mem_cons.mp each
      dsimp only
      rw [if_pos (List.all_eq_true.mpr fun other inside => by simp [others' other inside])]

theorem ofTokens_intersperse {connective : Connective} (several : 2 ≤ texts.length) :
    Form.ofTokens text ((texts.map Token.operand).intersperse (.operator connective)) =
      .ok (.group connective texts) := by
  have among : .operator connective ∈ (texts.map Token.operand).intersperse (.operator connective) := by
    cases texts with
    | nil => simp at several
    | cons first texts =>
        cases texts with
        | nil => simp at several
        | cons second rest => simp
  have uniform : ∀ other, .operator other ∈ (texts.map Token.operand).intersperse (.operator connective) →
      other = connective := by
    intro other member
    rcases mem_intersperse member with same | inside
    · exact Token.operator.inj same
    · simp at inside
  rw [ofTokens_uniform among uniform, operands_intersperse]

theorem mem_of_several {found : List Token} (several : 2 ≤ (alternatives found).length) :
    .operator .or ∈ found := by
  by_contra none_
  rw [alternatives, runs, List.splitOn_eq_singleton none_] at several
  simp at several

theorem ofTokens_mergeAnds (first : List Char) (rest : List (Connective × List Char))
    (several : 2 ≤ (alternatives (interleaved first rest)).length) :
    Form.ofTokens text (mergeAnds (interleaved first rest)) =
      .ok (.group .or (alternatives (interleaved first rest))) := by
  have ors := mem_of_several several
  -- Only where both operators occur are the `&` joined; otherwise each run is one operand already.
  by_cases ands : .operator .and ∈ interleaved first rest
  · have merged : mergeAnds (interleaved first rest) =
        ((alternatives (interleaved first rest)).map Token.operand).intersperse (.operator .or) := by
      rw [mergeAnds_interleaved_both ⟨ands, ors⟩, alternatives, List.map_map]
      rfl
    rw [merged, ofTokens_intersperse several]
  · have merged : mergeAnds (interleaved first rest) = interleaved first rest :=
      if_neg fun both => ands both.1
    have uniform : ∀ other, .operator other ∈ interleaved first rest → other = .or := by
      intro other member
      cases other with
      | and => exact absurd member ands
      | or => rfl
    rw [merged, ofTokens_uniform ors uniform, alternatives_operands]
    intro part member
    exact uniform part.1 (mem_interleaved_operator.mpr ⟨part, member, rfl⟩)

/-- A union of two operands or more is read as one. -/
theorem IsUnion.ofBare (union : IsUnion text texts) (several : 2 ≤ texts.length) :
    Form.ofBare text = .ok (.group .or texts) := by
  obtain ⟨found, split, rfl⟩ := union
  obtain ⟨cut, cutting, some_, _, rfl⟩ := tokens_eq_ok.mp split
  have operators : cut.rest ≠ [] := by
    intro none_
    rw [none_] at several
    have ors := mem_of_several several
    simp [interleaved] at ors
  have visible : text.isEmpty = false := by
    obtain ⟨rfl, _⟩ := cut?_eq_some.mp cutting
    obtain ⟨part, rest, joined⟩ := List.exists_cons_of_ne_nil operators
    simp [Cut.source, joined]
  have shape : shape text = .ok .group := by
    simp [Expr.shape, visible, cutting, operators]
  rw [Form.ofBare, shape]
  change (tokens text).bind _ = _
  rw [split]
  exact ofTokens_mergeAnds _ _ several

theorem IsUnion.ne_nil {texts : List (List Char)} (union : IsUnion text texts) : texts ≠ [] := by
  obtain ⟨found, _, rfl⟩ := union
  simp [alternatives, runs, List.splitOn_ne_nil]

theorem IsUnion.leads {texts : List (List Char)} (union : IsUnion text texts) :
    ∀ c ∈ text.head?, isOperator c = false := by
  obtain ⟨found, split, _⟩ := union
  obtain ⟨cut, cutting, some_, _⟩ := tokens_eq_ok.mp split
  obtain ⟨rfl, segment, _⟩ := cut?_eq_some.mp cutting
  intro c head
  cases first : cut.first with
  | nil => exact absurd (by rw [first]; rfl) some_
  | cons d rest =>
      have same : d = c := by simpa [Cut.source, first] using head
      subst same
      exact segment.uncut [] d rest first rfl

theorem IsUnion.ofBare_bare {texts : List (List Char)} (union : IsUnion text texts)
    (several : 2 ≤ texts.length) (trimmed : Trimmed text) :
    Form.ofBare (bare text) = .ok (.group .or texts) := by
  obtain ⟨found, split, same⟩ := union
  obtain ⟨cut, cutting, _, _, rfl⟩ := tokens_eq_ok.mp split
  have operators : cut.rest ≠ [] := by
    intro none_
    rw [← same, none_] at several
    have ors := mem_of_several several
    simp [interleaved] at ors
  have union : IsUnion text texts := ⟨_, split, same⟩
  rw [bare_eq trimmed.trim_eq (wrapped?_none cutting operators) union.leads]
  exact union.ofBare several

end Unions

end Expr

end Conform
