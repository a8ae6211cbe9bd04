import Conform.Proofs.Resolver.Transparent

/-!
Two validators that portray one expression, with references of their own. Where references hide nothing
that counts, they agree on every value for which both give an outcome.
-/

namespace Conform

open Relation Validator

theorem forall₂_of_common {α β γ : Type} {first : α → β → Prop} {second : α → γ → Prop}
    {items : List α} {left : List β} {right : List γ} (firsts : List.Forall₂ first items left)
    (seconds : List.Forall₂ second items right) :
    List.Forall₂ (fun one other => ∃ item ∈ items, first item one ∧ second item other) left right := by
  induction firsts generalizing right with
  | nil =>
      cases seconds
      exact .nil
  | cons head _ ih =>
      cases seconds with
      | cons head' others =>
          refine .cons ⟨_, List.mem_cons_self, head, head'⟩ ((ih others).imp ?_)
          rintro one other ⟨item, member, known⟩
          exact ⟨item, List.mem_cons_of_mem _ member, known⟩

namespace Sources

section

variable (sources : Sources) (strict : Bool) (grounded grounded' : CellId → Place → Prop)
  (references references' : References)

def AgreeFor (bound bound' : Nat) : Prop :=
  ∀ passage validator validator', sources.Transparent passage →
    sources.Portrays strict grounded passage validator →
    sources.Portrays strict grounded' passage validator' →
    AgreeWithin references references' bound bound' (sources.Minds passage) validator validator'

structure Relates (rel : Validator → Validator → Prop) : Prop where
  each {passage : Passage} {validator validator' : Validator} (transparent : sources.Transparent passage)
    (first : sources.Portrays strict grounded passage validator)
    (second : sources.Portrays strict grounded' passage validator') : rel validator validator'
  union {passages : List Passage} {operands operands' : List Validator} (node node' : NodeId)
    (transparent : ∀ passage ∈ passages, sources.Transparent passage)
    (compatible : sources.Compatible passages)
    (first : List.Forall₂ (sources.Portrays strict grounded) passages operands)
    (second : List.Forall₂ (sources.Portrays strict grounded') passages operands') :
    rel (.group node .or operands) (.group node' .or operands')
  undefined : rel (.primitive .undefined) (.primitive .undefined)

end

variable {sources : Sources} {strict : Bool} {grounded grounded' : CellId → Place → Prop}
  {references references' : References} {passage : Passage} {validator validator' : Validator}

section Operands

variable {passages : List Passage} {operands operands' : List Validator}

theorem literals_eq (first : List.Forall₂ (sources.Portrays strict grounded) passages operands)
    (second : List.Forall₂ (sources.Portrays strict grounded') passages operands') :
    operands'.all isLiteral = operands.all isLiteral := by
  induction first generalizing operands' with
  | nil =>
      cases second
      rfl
  | cons head _ ih =>
      cases second with
      | cons head' others => simp only [List.all_cons, head.isLiteral_eq head', ih others]

theorem withoutUndefined (first : List.Forall₂ (sources.Portrays strict grounded) passages operands)
    (second : List.Forall₂ (sources.Portrays strict grounded') passages operands') :
    operands'.any isUndefined = operands.any isUndefined ∧ ∃ rest, (∀ passage ∈ rest, passage ∈ passages) ∧
      List.Forall₂ (sources.Portrays strict grounded) rest
        (operands.filter fun operand => !operand.isUndefined) ∧
      List.Forall₂ (sources.Portrays strict grounded') rest
        (operands'.filter fun operand => !operand.isUndefined) := by
  induction first generalizing operands' with
  | nil =>
      cases second
      exact ⟨rfl, [], by simp, .nil, .nil⟩
  | @cons here operand passages operands head _ ih =>
      cases second with
      | @cons _ operand' _ operands' head' others =>
          have same := head.isUndefined_eq head'
          obtain ⟨any, rest, among, first, second⟩ := ih others
          refine ⟨by simp only [List.any_cons, same, any], ?_⟩
          by_cases absent : operand.isUndefined
          · rw [absent] at same
            refine ⟨rest, fun passage member => List.mem_cons_of_mem _ (among passage member), ?_⟩
            simpa only [List.filter_cons, same, absent, Bool.not_true, Bool.false_eq_true, if_false]
              using ⟨first, second⟩
          · rw [Bool.not_eq_true] at absent
            rw [absent] at same
            refine ⟨here :: rest, ?_, ?_⟩
            · exact List.forall_mem_cons.mpr ⟨List.mem_cons_self,
                fun passage member => List.mem_cons_of_mem _ (among passage member)⟩
            · simp only [List.filter_cons, same, absent, Bool.not_false, if_true]
              exact ⟨.cons head first, .cons head' second⟩

theorem groupNames_agree (compatible : sources.Compatible passages)
    (first : List.Forall₂ (sources.Portrays strict grounded) passages operands)
    (second : List.Forall₂ (sources.Portrays strict grounded') passages operands')
    (member : passage ∈ passages) {key : String} (minds : sources.Minds passage key)
    {scope scope' : Scope}
    (same : (∀ other ∈ passages, ¬sources.Offers key other) →
      Scope.contains scope key = Scope.contains scope' key) :
    Scope.contains (groupNames operands :: scope) key =
      Scope.contains (groupNames operands' :: scope') key := by
  rw [contains_cons, contains_cons]
  by_cases offered : ∃ other ∈ passages, sources.Offers key other
  · obtain ⟨other, among, offers⟩ := offered
    have visible : ¬sources.HidesNames other := fun hides => minds.2 <| by
      rwa [compatible other among passage member hides minds.1]
    have shown {grounded : CellId → Place → Prop} {operands : List Validator}
        (portrayed : List.Forall₂ (sources.Portrays strict grounded) passages operands) :
        key ∈ groupNames operands := by
      obtain ⟨operand, inside, portrays⟩ := exists_of_forall₂ portrayed among
      exact mem_groupNames.mpr ⟨operand, inside, portrays.offered (.inr visible) offers⟩
    simp [shown first, shown second]
  · have hidden {grounded : CellId → Place → Prop} {operands : List Validator}
        (portrayed : List.Forall₂ (sources.Portrays strict grounded) passages operands) :
        key ∉ groupNames operands := by
      intro inside
      obtain ⟨operand, among, shown⟩ := mem_groupNames.mp inside
      obtain ⟨other, member, portrays⟩ := exists_of_forall₂ portrayed.flip among
      exact offered ⟨other, member, portrays.offers shown⟩
    simp only [List.contains_eq_mem, hidden first, hidden second, decide_false, Bool.false_or]
    exact same fun other among offers => offered ⟨other, among, offers⟩

theorem agree_group {bound bound' : Nat}
    (agree : sources.AgreeFor strict grounded grounded' references references' bound bound')
    (transparent : ∀ passage ∈ passages, sources.Transparent passage)
    (compatible : sources.Compatible passages)
    (first : List.Forall₂ (sources.Portrays strict grounded) passages operands)
    (second : List.Forall₂ (sources.Portrays strict grounded') passages operands')
    (node node' : NodeId) (connective : Connective) :
    AgreeWithin references references' (bound + 1) (bound' + 1)
      (fun key => (∃ passage ∈ passages, sources.HeedsNames passage) ∧
        ∀ passage ∈ passages, ¬sources.Offers key passage)
      (.group node connective operands) (.group node' connective operands') := by
  refine .group node node' connective (literals_eq first second) fun scope scope' same => ?_
  refine (forall₂_of_common first second).imp ?_
  rintro operand operand' ⟨passage, member, portrays, portrays'⟩ value
  refine agree passage operand operand' (transparent passage member) portrays portrays' _ _ value ?_
  intro key minds
  exact groupNames_agree compatible first second member minds fun unoffered =>
    same key ⟨⟨passage, member, minds.1⟩, unoffered⟩

end Operands

section Records

variable {rel : Validator → Validator → Prop}

theorem Portrays.withoutUndefined?_eq
    (first : sources.Portrays strict grounded passage validator)
    (second : sources.Portrays strict grounded' passage validator')
    (visible : ¬sources.HidesUndefined passage) (transparent : sources.Transparent passage) :
    (validator.withoutUndefined? = none ∧ validator'.withoutUndefined? = none) ∨
      ∃ passages operands operands', (∀ passage ∈ passages, sources.Transparent passage) ∧
        sources.Compatible passages ∧
        List.Forall₂ (sources.Portrays strict grounded) passages operands ∧
        List.Forall₂ (sources.Portrays strict grounded') passages operands' ∧
        validator.withoutUndefined? = some operands ∧ validator'.withoutUndefined? = some operands' := by
  induction first generalizing validator' with
  | @made passage form validator uses read parts makes _ =>
      cases makes with
      | @group connective exprs operands node used =>
          have makes' := second.makes read (by simp)
          cases makes' with
          | group node' used' =>
              cases connective with
              | and => exact .inl ⟨rfl, rfl⟩
              | or =>
                  have first := List.forall₂_map_left_iff.mpr (used.imp parts)
                  have second := List.forall₂_map_left_iff.mpr used'
                  obtain ⟨any, rest, among, first, second⟩ := withoutUndefined first second
                  simp only [withoutUndefined?, any]
                  split
                  · refine .inr ⟨rest, _, _, fun passage member => ?_, ?_, first, second, rfl, rfl⟩
                    · obtain ⟨operand, inside, rfl⟩ := List.mem_map.mp (among passage member)
                      exact transparent.piece (.operand read inside)
                    · exact ((transparent _ .refl).groups .or _ read).subset among
                  · exact .inl ⟨rfl, rfl⟩
      | primitive | array | partialOf | record =>
          have makes' := second.makes read (by simp)
          cases makes'
          exact .inl ⟨rfl, rfl⟩
  | definition named defined _ ih =>
      rcases second.of_name named with ⟨_, defined', stands'⟩ | ⟨home, _, _, inside, back, _⟩
      · cases defined.symm.trans defined'
        refine ih stands' (fun hides => visible (hides.step (.definition named defined))) ?_
        exact transparent.step (.definition named defined)
      · exact absurd (.here ⟨_, home, named, inside, back⟩) visible
  | reference cell named inside back => exact absurd (.here ⟨_, _, named, inside, back⟩) visible

theorem Relates.make (relates : sources.Relates strict grounded grounded' rel)
    (first : sources.Portrays strict grounded passage validator)
    (second : sources.Portrays strict grounded' passage validator')
    (transparent : sources.Transparent passage)
    (shown : sources.HidesUndefined passage → ¬sources.OffersUndefined passage.file passage.expr)
    (node node' : NodeId) (name : String) (optional : Bool) :
    Field.Alike rel (Field.make node name optional strict validator)
      (Field.make node' name optional strict validator') := by
  have whole := relates.each transparent first second
  have undefined := first.isUndefined_eq second
  have plain (bare : validator.withoutUndefined? = none) (bare' : validator'.withoutUndefined? = none) :
      Field.Alike rel (Field.make node name optional strict validator)
        (Field.make node' name optional strict validator') := by
    simp only [Field.make, bare, bare', undefined]
    exact ⟨rfl, rfl, rfl, whole⟩
  by_cases hides : sources.HidesUndefined passage
  · have neither {grounded : CellId → Place → Prop} {validator : Validator}
        (portrays : sources.Portrays strict grounded passage validator) :
        validator.withoutUndefined? = none := by
      refine Option.not_isSome_iff_eq_none.mp fun union => ?_
      exact shown hides (portrays.describes.offers (.inr union))
    exact plain (neither first) (neither second)
  · rcases first.withoutUndefined?_eq second hides transparent with ⟨bare, bare'⟩ |
      ⟨passages, operands, operands', each, compatible, left, right, union, union'⟩
    · exact plain bare bare'
    · simp only [Field.make, union, union']
      cases left with
      | nil =>
          cases right
          exact ⟨rfl, rfl, rfl, relates.undefined⟩
      | cons head rest =>
          cases right with
          | cons head' rest' =>
              cases rest with
              | nil =>
                  cases rest'
                  exact ⟨rfl, rfl, rfl, relates.each (each _ List.mem_cons_self) head head'⟩
              | cons next rest =>
                  cases rest' with
                  | cons next' rest' =>
                      exact ⟨rfl, rfl, rfl, relates.union node node' each compatible
                        (.cons head (.cons next rest)) (.cons head' (.cons next' rest'))⟩

theorem Relates.levels (relates : sources.Relates strict grounded grounded' rel)
    {own own' : Level Validator} {ancestors ancestors' : List (Level Validator)}
    (first : sources.Portrays strict grounded passage (.record own ancestors))
    (second : sources.Portrays strict grounded' passage (.record own' ancestors'))
    (transparent : sources.Transparent passage) :
    List.Forall₂ (Level.Alike rel) (own :: ancestors) (own' :: ancestors') := by
  generalize same : Validator.record own ancestors = validator at first
  induction first generalizing own own' ancestors ancestors' with
  | @made passage form validator uses read parts makes ih =>
      cases makes with
      | primitive | group | array => cases same
      | partialOf node used =>
          cases same
          cases second.makes read (by simp) with
          | partialOf node' used' =>
              cases ih _ _ used used' (transparent.piece (.target read)) rfl with
              | cons own ancestors => exact .cons (own.relaxed node node') ancestors
      | @record text _ fields index node parent members =>
          cases same
          cases second.makes read (by simp) with
          | record node' parent' members' =>
              obtain ⟨fields, index⟩ : List.Forall₂ (Field.Alike rel) _ _ ∧ Option.Rel rel _ _ :=
                members.alike
                (fun member among name optional type known node node' found found' used used' =>
                  relates.make (parts type found used) used'
                    (transparent.piece (.member read among known))
                    ((transparent _ .refl).fields text read member among name optional type known)
                    node node' _ optional)
                (fun member among type known found found' used used' =>
                  relates.each (transparent.piece (.member read among known)) (parts type found used)
                    used')
                members'
              refine .cons ⟨fields, index⟩ ?_
              generalize extends_ : text.parent = from_ at parent parent'
              cases parent with
              | none =>
                  cases parent'
                  exact .nil
              | some used =>
                  cases parent' with
                  | some used' =>
                      exact ih _ _ used used' (transparent.piece (.parent read extends_)) rfl
  | definition named defined _ ih =>
      rcases second.of_name named with ⟨_, defined', stands'⟩ | ⟨_, _, never, _⟩
      · cases defined.symm.trans defined'
        exact ih stands' (transparent.step (.definition named defined)) same
      · cases never
  | reference => cases same

end Records

section Agree

variable {bound bound' : Nat}

theorem relates_inside (agree : ∀ less ≤ bound, ∀ less' ≤ bound',
      sources.AgreeFor strict grounded grounded' references references' less less') :
    sources.Relates strict grounded grounded' (AgreeInside references references' bound bound') where
  each transparent first second :=
    (agree bound (Nat.le_refl _) bound' (Nat.le_refl _) _ _ _ transparent first second).inside
  union node node' transparent compatible first second := by
    cases bound with
    | zero => exact (.exhausted_left : AgreeWithin _ _ 0 _ (fun _ => True) _ _).inside
    | succ bound =>
        cases bound' with
        | zero => exact (.exhausted_right : AgreeWithin _ _ _ 0 (fun _ => True) _ _).inside
        | succ bound' =>
            have operands := agree bound (Nat.le_succ _) bound' (Nat.le_succ _)
            exact (agree_group operands transparent compatible first second node node' .or).inside
  undefined := (.primitive .undefined : AgreeWithin _ _ _ _ (fun _ => True) _ _).inside

theorem agree_made (agree : ∀ less ≤ bound, ∀ less' ≤ bound',
      sources.AgreeFor strict grounded grounded' references references' less less')
    (transparent : sources.Transparent passage) {form : Form}
    (read : Form.read passage.expr = .ok form) (other : ∀ name, form ≠ .reference name)
    (first : sources.Portrays strict grounded passage validator)
    (second : sources.Portrays strict grounded' passage validator') :
    AgreeWithin references references' (bound + 1) (bound' + 1) (sources.Minds passage) validator
      validator' := by
  have relates := relates_inside agree
  have record {own own' : Level Validator} {ancestors ancestors' : List (Level Validator)}
      (is : passage.IsRecord) (first : sources.Portrays strict grounded passage (.record own ancestors))
      (second : sources.Portrays strict grounded' passage (.record own' ancestors')) :
      AgreeWithin references references' (bound + 1) (bound' + 1) (sources.Minds passage)
        (.record own ancestors) (.record own' ancestors') := by
    refine .record (relates.levels first second transparent) fun key unminded => ?_
    refine first.offered (.inl ⟨_, _, rfl⟩) ?_
    by_contra unoffered
    exact unminded ⟨.here is, unoffered⟩
  cases first.makes read other with
  | primitive kind =>
      cases second.makes read other
      exact .primitive kind
  | @group connective exprs operands node used =>
      cases second.makes read other with
      | group node' used' =>
          have left := List.forall₂_map_left_iff.mpr used
          have right := List.forall₂_map_left_iff.mpr used'
          have operands := agree bound (Nat.le_refl _) bound' (Nat.le_refl _)
          refine (agree_group operands ?_ ((transparent _ .refl).groups _ _ read) left right node node'
            connective).mono ?_
          · intro part member
            obtain ⟨operand, inside, rfl⟩ := List.mem_map.mp member
            exact transparent.piece (.operand read inside)
          · rintro key ⟨⟨part, member, heeds⟩, unoffered⟩
            obtain ⟨operand, inside, rfl⟩ := List.mem_map.mp member
            refine ⟨heeds.step (.piece rfl (.operand read inside)), fun offers => ?_⟩
            obtain ⟨_, _, _, piece, offers⟩ :=
              (offers.of_form read other).resolve_left (Passage.not_declares read (by simp))
            exact unoffered _ (List.mem_map_of_mem (piece.of_group read).2) offers
  | array node used =>
      cases second.makes read other with
      | array node' used' =>
          exact .array node node' (relates.each (transparent.piece (.element read)) used used')
  | partialOf node used =>
      cases second.makes read other with
      | partialOf node' used' => exact record (.inr ⟨_, read⟩) first second
  | record node parent members =>
      cases second.makes read other with
      | record node' parent' members' => exact record (.inl ⟨_, read⟩) first second

end Agree

/-- Where references hide nothing that counts, validators for one expression agree. The induction is on
how deep both judgements may nest; where neither follows a reference, on how the first validator came
about. -/
theorem agreeFor (backed : sources.Backed strict grounded references)
    (backed' : sources.Backed strict grounded' references') (bound bound' : Nat) :
    sources.AgreeFor strict grounded grounded' references references' bound bound' := by
  generalize total : bound + bound' = sum
  induction sum using Nat.strong_induction_on generalizing bound bound' with
  | _ sum ih =>
      intro passage validator validator' transparent first second
      have less (n n' : Nat) (fewer : n + n' < bound + bound') :
          sources.AgreeFor strict grounded grounded' references references' n n' :=
        ih _ (total ▸ fewer) n n' rfl
      induction first generalizing validator' with
      | @made passage form validator uses read parts makes _ =>
          cases bound with
          | zero => exact .exhausted_left
          | succ bound =>
              cases bound' with
              | zero => exact .exhausted_right
              | succ bound' =>
                  refine agree_made (fun n _ n' _ => less n n' (by omega)) transparent read
                    makes.not_reference (.made read parts makes) second
      | @definition passage key definition validator named defined stands ih' =>
          have inner := transparent.step (.definition named defined)
          have minds (name : String) (minds : sources.Minds (key.passage definition) name) :=
            minds.of_definition named defined
          obtain ⟨_, defined', stands' | ⟨_, cell, target, rfl, filled, stands'⟩⟩ :=
            second.name backed' named
          · cases defined.symm.trans defined'
            exact (ih' _ inner stands').mono minds
          · cases defined.symm.trans defined'
            cases bound' with
            | zero => exact .exhausted_right
            | succ bound' =>
                have agree := less bound bound' (by omega) _ _ _ inner stands stands'
                exact .deferred_right filled (agree.mono minds)
      | @reference passage key home cell named inside back circle known =>
          cases bound with
          | zero => exact .exhausted_left
          | succ bound =>
              obtain ⟨other, target, same, filled, stated⟩ := backed _ _ known
              obtain ⟨definition, defined, stands⟩ := stated.congr same
              have inner := transparent.step (.definition named defined)
              have minds (name : String) (minds : sources.Minds (key.passage definition) name) :=
                minds.of_definition named defined
              refine .deferred_left filled ?_
              obtain ⟨_, defined', stands' | ⟨_, cell', target', rfl, filled', stands'⟩⟩ :=
                second.name backed' named
              · cases defined.symm.trans defined'
                exact (less bound bound' (by omega) _ _ _ inner stands stands').mono minds
              · cases defined.symm.trans defined'
                cases bound' with
                | zero => exact .exhausted_right
                | succ bound' =>
                    have agree := less bound bound' (by omega) _ _ _ inner stands stands'
                    exact .deferred_right filled' (agree.mono minds)

theorem Portrays.agree (backed : sources.Backed strict grounded references)
    (backed' : sources.Backed strict grounded' references') (transparent : sources.Transparent passage)
    (first : sources.Portrays strict grounded passage validator)
    (second : sources.Portrays strict grounded' passage validator') :
    Agree references references' validator validator' :=
  fun bound bound' scope value => agreeFor backed backed' bound bound' passage validator validator'
    transparent first second scope scope value fun _ _ => rfl

end Sources

end Conform
