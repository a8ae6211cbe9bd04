import Conform.Proofs.Expr.Length
import Conform.Proofs.Resolver.Ending
import Conform.Proofs.Resolver.Rendered
import Mathlib.Data.Prod.Basic

/-!
Expressions that resolve without a file. They name nothing, so a resolution of them needs nothing that a
resolver knows or could read, leaves all of that as it is, and comes to the same validator everywhere,
the numbers of its nodes apart.
-/

namespace Conform

namespace Resolve

variable {α β γ δ : Type} {strict : Bool} {plain : α → β} {plain' : γ → δ}

def Detached (strict : Bool) (plain : α → β) (result : β) (action : Resolve α) : Prop :=
  ∀ start, ∃ value next, plain value = result ∧ ∀ before : Resolver, before.options.strict = strict →
    before.nextId = start → Gives action before value { before with nextId := next }

def Repeats (strict : Bool) (plain : α → β) (action action' : Resolve α) : Prop :=
  ∀ before : Resolver, before.options.strict = strict → Meets action before
    (fun value after => after.options.strict = strict ∧ Detached strict plain (plain value) action')
    fun stop _ => stop.needs = none

theorem Detached.pure (value : α) : Detached strict plain (plain value) (pure value) := by
  refine fun start => ⟨value, start, rfl, ?_⟩
  rintro before _ rfl
  rfl

theorem Detached.bind {action : Resolve α} {next : α → Resolve γ} {result : β} {result' : δ}
    (first : Detached strict plain result action)
    (later : ∀ value, plain value = result → Detached strict plain' result' (next value)) :
    Detached strict plain' result' (action >>= next) := by
  intro start
  obtain ⟨value, middle, looks, gave⟩ := first start
  obtain ⟨value', last, looks', gave'⟩ := later value looks middle
  refine ⟨value', last, looks', fun before setting free => ?_⟩
  have ended := gave' { before with nextId := middle } setting rfl
  rw [Gives, outcome_bind, show action.outcome before = _ from gave before setting free]
  exact ended

namespace Repeats

theorem pure {value value' : α} (same : plain value' = plain value) :
    Repeats strict plain (pure value) (pure value') :=
  fun _ setting => ⟨setting, same ▸ Detached.pure value'⟩

theorem throw {stop : Stop} (free : stop.needs = none) (action : Resolve α) :
    Repeats strict plain (throw stop) action :=
  fun _ _ => free

theorem fail (fault : Fault) (action : Resolve α) : Repeats strict plain (fail fault) action :=
  throw rfl action

theorem freshId : Repeats strict (fun _ => ()) freshId freshId := by
  refine fun before setting => ⟨setting, fun start => ⟨start, start + 1, rfl, ?_⟩⟩
  rintro other _ rfl
  rfl

theorem bind {action action' : Resolve α} {next next' : α → Resolve γ}
    (first : Repeats strict plain action action')
    (later : ∀ value value', plain value' = plain value → Repeats strict plain' (next value) (next' value')) :
    Repeats strict plain' (action >>= next) (action' >>= next') := by
  intro before setting
  rw [meets_bind]
  refine (first before setting).mono ?_ fun _ _ free => free
  rintro value middle ⟨setting', detached⟩
  refine ((later value value rfl middle setting').and (meets_gives _ _)).mono ?_ fun _ _ free => free.1
  rintro result after ⟨⟨setting'', _⟩, gave⟩
  refine ⟨setting'', detached.bind fun value' same => ?_⟩
  exact (gave.of_meets (later value value' same middle setting')).2

theorem get {next next' : Resolver → Resolve α}
    (fixed : ∀ resolver other, resolver.options.strict = other.options.strict → next' resolver = next' other)
    (later : ∀ resolver, resolver.options.strict = strict →
      Repeats strict plain (next resolver) (next' resolver)) :
    Repeats strict plain (get >>= next) (get >>= next') := by
  intro before setting
  rw [meets_bind, meets_get]
  refine (later before setting before setting).mono ?_ fun _ _ free => free
  rintro value after ⟨setting', detached⟩
  refine ⟨setting', fun start => ?_⟩
  obtain ⟨value', last, looks, gave⟩ := detached start
  refine ⟨value', last, looks, fun other known free => ?_⟩
  rw [Gives, outcome_bind, outcome_get]
  dsimp only
  rw [fixed other before (known.trans setting.symm)]
  exact gave other known free

end Repeats

section Steps

variable {below below' : Below} {site site' : Site}

def RepeatsBelow (strict : Bool) (below below' : Below) (site site' : Site) (part : List Char) : Prop :=
  Repeats strict Validator.unnumbered (below site part) (below' site' part)

theorem resolveEach_repeats {exprs : List (List Char)}
    (each : ∀ expr ∈ exprs, RepeatsBelow strict below below' site site' expr) :
    Repeats strict (List.map Validator.unnumbered) (resolveEach below site exprs)
      (resolveEach below' site' exprs) := by
  induction exprs with
  | nil => exact .pure rfl
  | cons first rest ih =>
      obtain ⟨here, others⟩ := List.forall_mem_cons.mp each
      refine .bind here fun validator validator' same => .bind (ih others) fun more more' same' => ?_
      exact .pure (by simp only [List.map_cons, same, same'])

theorem resolveBuilt_repeats {name : List Char} (top : site.building = [])
    (part : RepeatsBelow strict below below' site site' name) :
    Repeats strict Validator.unnumbered (resolveBuilt below site name) (resolveBuilt below' site' name) := by
  refine .bind part fun validator validator' same => ?_
  cases validator with
  | deferred name cell => exact .throw (by simp [Stop.needs, prerequisite?, top]) _
  | primitive | array | group | record =>
      cases validator' <;> simp only [Validator.unnumbered, reduceCtorEq] at same
      all_goals exact .pure (by simpa only [Validator.unnumbered] using same)

theorem exists_record {validator : Validator} {own : Level Validator} {ancestors : List (Level Validator)}
    (same : validator.unnumbered = (Validator.record own ancestors).unnumbered) :
    ∃ own' ancestors', validator = .record own' ancestors' ∧
      Validator.unnumberedLevel own' = Validator.unnumberedLevel own ∧
      Validator.unnumberedLevels ancestors' = Validator.unnumberedLevels ancestors := by
  cases validator with
  | record own' ancestors' =>
      simp only [Validator.unnumbered, Validator.record.injEq] at same
      exact ⟨own', ancestors', rfl, same⟩
  | _ => simp [Validator.unnumbered] at same

theorem resolvePartial_repeats {name : List Char} (top : site.building = [])
    (part : RepeatsBelow strict below below' site site' name) :
    Repeats strict Validator.unnumbered (resolvePartial below site name)
      (resolvePartial below' site' name) := by
  refine .bind (resolveBuilt_repeats top part) fun validator validator' same => ?_
  cases validator with
  | record own ancestors =>
      obtain ⟨own', ancestors', rfl, sameOwn, sameAncestors⟩ := exists_record same
      refine .bind .freshId fun node node' _ => .pure ?_
      simp only [Validator.unnumbered, Validator.unnumberedLevel_relaxed, sameOwn, sameAncestors]
  | _ => exact .fail _ _

theorem resolveParent_repeats {parts : Expr.RecordParts} (top : site.building = [])
    (parent : ∀ name, parts.parent = some name → RepeatsBelow strict below below' site site' name) :
    Repeats strict Validator.unnumberedLevels (resolveParent below site parts)
      (resolveParent below' site' parts) := by
  unfold resolveParent
  cases known : parts.parent with
  | none => exact .pure rfl
  | some name =>
      refine .bind (resolveBuilt_repeats top (parent name known)) fun validator validator' same => ?_
      cases validator with
      | record own ancestors =>
          obtain ⟨own', ancestors', rfl, sameOwn, sameAncestors⟩ := exists_record same
          exact .pure (by simp only [Validator.unnumberedLevels, sameOwn, sameAncestors])
      | _ => exact .fail _ _

theorem resolveMembers_repeats {members : List (List Char)}
    (each : ∀ member ∈ members, ∀ found, Expr.member? member = some found →
      RepeatsBelow strict (resolveNested below) (resolveNested below') site site' found.type) :
    Repeats strict (fun found => (Validator.unnumberedFields found.1, Validator.unnumberedIndex found.2))
      (resolveMembers below site members) (resolveMembers below' site' members) := by
  induction members with
  | nil => exact .pure rfl
  | cons member rest ih =>
      obtain ⟨here, others⟩ := List.forall_mem_cons.mp each
      unfold resolveMembers
      cases read : Expr.member? member with
      | none => exact .fail _ _
      | some found =>
          cases found with
          | index type =>
              refine .bind (here _ read) fun index index' same => .bind (ih others) ?_
              rintro ⟨fields, later⟩ ⟨fields', later'⟩ same'
              obtain ⟨sameFields, sameLater⟩ := Prod.mk.inj same'
              refine .pure (Prod.mk.injEq .. ▸ ⟨sameFields, ?_⟩)
              have last (index : Validator) (later : Option Validator) :
                  Validator.unnumberedIndex (later.or (some index)) =
                    (Validator.unnumberedIndex later).or (some index.unnumbered) := by
                cases later <;> rfl
              rw [last, last, same, sameLater]
          | field name optional type =>
              refine .bind (here _ read) fun validator validator' same => .get ?_ fun resolver _ => ?_
              · intro resolver other setting
                simp only [setting]
              refine .bind .freshId fun node node' _ => .bind (ih others) ?_
              rintro ⟨fields, later⟩ ⟨fields', later'⟩ same'
              obtain ⟨sameFields, sameLater⟩ := Prod.mk.inj same'
              refine .pure (Prod.mk.injEq .. ▸ ⟨?_, sameLater⟩)
              simp only [Validator.unnumberedFields, Validator.unnumberedField_make, same, sameFields]

theorem resolveForm_repeats {expr : List Char} {form : Form} (read : Form.read expr = .ok form)
    (fileless : site.file = none) (top : site.building = [])
    (parts : ∀ use part, Piece use expr part →
      RepeatsBelow strict below below' (site.toward use) (site'.toward use) part) :
    Repeats strict Validator.unnumbered (resolveForm below site form) (resolveForm below' site' form) := by
  cases form with
  | group connective operands =>
      have each (operand : List Char) (among : operand ∈ operands) := parts _ _ (.operand read among)
      refine .bind (resolveEach_repeats each) fun validators validators' same => ?_
      refine .bind .freshId fun node node' _ => .pure ?_
      simp only [Validator.unnumbered, Validator.unnumberedEach_eq, same]
  | array element =>
      refine .bind .freshId fun node node' _ => ?_
      refine .bind (parts _ _ (.element read)) fun validator validator' same => .pure ?_
      simp only [Validator.unnumbered, same]
  | primitive kind => exact .pure rfl
  | partialOf name => exact resolvePartial_repeats top (parts _ _ (.target read))
  | record record =>
      refine .bind (resolveParent_repeats top fun name extends_ => parts _ _ (.parent read extends_)) ?_
      intro ancestors ancestors' same
      refine .bind (resolveMembers_repeats fun member among found read' => parts _ _ (.member read among read')) ?_
      rintro ⟨fields, index⟩ ⟨fields', index'⟩ same'
      obtain ⟨sameFields, sameIndex⟩ := Prod.mk.inj same'
      refine .bind .freshId fun node node' _ => .pure ?_
      simp only [Validator.unnumbered, Validator.unnumberedLevel, same, sameFields, sameIndex]
  | reference name =>
      unfold resolveForm resolveName
      simp only [fileless]
      exact .fail _ _

end Steps

/-- By induction on the bound of the first resolution; that of the second one is enough, because the
parts of an expression are shorter. -/
theorem resolveWithin_repeats (bound : Nat) {bound' : Nat} {site : Site} (site' : Site) {expr : List Char}
    (enough : expr.length < bound') (fileless : site.file = none) (top : site.building = []) :
    Repeats strict Validator.unnumbered (resolveWithin bound site expr)
      (resolveWithin bound' site' expr) := by
  induction bound generalizing bound' site site' expr with
  | zero => exact .throw rfl _
  | succ bound ih =>
      obtain ⟨room, rfl⟩ : ∃ room, bound' = room + 1 := ⟨bound' - 1, by omega⟩
      simp only [resolveWithin, resolveStep_eq]
      cases read : Form.read expr with
      | error fault => exact .fail fault _
      | ok form =>
          simp only [ofExcept_ok_bind]
          refine resolveForm_repeats read fileless top fun use part piece => ?_
          have shorter := piece.length_lt
          have outside : (site.toward use).file = none ∧ (site.toward use).building = [] := by
            cases use <;> exact ⟨fileless, top⟩
          exact ih _ (by omega) outside.1 outside.2

theorem Gives.onward {action action' : Resolve α} {before after : Resolver} {value : α}
    (gave : Gives action before value after) (onward : Onward action action') :
    Gives action' before value after := by
  refine ((onward before).resolve_left ?_).trans gave
  rintro ⟨_, unfinished⟩
  cases gave.symm.trans unfinished

end Resolve

namespace Resolver

/-- Every resolver that is as strict and has the same numbers free gives this answer, whatever it has
built and read before and whatever files there are, and it only has other numbers free afterwards. -/
def AnswersAlike (strict : Bool) (expr : String) (hint : Option FilePath) (start : NodeId)
    (validator : Validator) (next : NodeId) : Prop :=
  ∀ resolver : Resolver, resolver.options.strict = strict → resolver.nextId = start →
    resolver.resolve expr hint = (some (.ok validator), { resolver with nextId := next })

theorem resolve_of_gives {resolver after : Resolver} {expr : String} {file : Option FilePath}
    {validator : Validator}
    (gave : Resolve.Gives (Resolve.resolveWithin (resolver.nestingLimit expr.toList) { file := file }
      expr.toList) resolver validator after) :
    resolver.resolve expr file = (some (.ok validator), after) := by
  have ended : (resolver.resolution expr file).outcome resolver = (.ok (validator, []), after) := by
    unfold resolution Resolve.inOrder
    rw [Resolve.outcome_tryCatch, Resolve.outcome_bind, show Resolve.outcome _ _ = _ from gave]
    rfl
  rw [resolve_eq, ended]

/-- What resolves outside all files does so at the first attempt, and its parts name nothing. -/
theorem resolution_detached (resolver : Resolver) (expr : String) (site : Site) {bound : Nat}
    (enough : expr.toList.length < bound) :
    Resolve.Meets (resolver.resolution expr none) resolver
      (fun found _ => Resolve.Detached resolver.options.strict Validator.unnumbered found.1.unnumbered
        (Resolve.resolveWithin bound site expr.toList)) fun _ _ => True := by
  unfold resolution Resolve.inOrder
  simp only [Resolve.meets_tryCatch, Resolve.meets_bind, Resolve.meets_pure]
  refine (Resolve.resolveWithin_repeats _ site enough rfl rfl resolver rfl).mono
    (fun _ _ gives => gives.2) fun stop after free => ?_
  cases stop with
  | unfinished => trivial
  | fault fault needs =>
      obtain rfl : needs = none := free
      trivial

/-- An expression that resolves without a file resolves everywhere, whatever file its names would be
looked up in, and to the same validator, the numbers of its nodes apart. Neither call heeds a file or
what is known of one, or changes more of the resolver than the numbers that are free. -/
theorem resolve_detached {resolver after : Resolver} {expr : String} {validator : Validator}
    (inline : resolver.resolve expr none = (some (.ok validator), after)) :
    AnswersAlike resolver.options.strict expr none resolver.nextId validator after.nextId ∧
      ∀ (hint : Option FilePath) (start : NodeId), ∃ found next,
        found.unnumbered = validator.unnumbered ∧
        AnswersAlike resolver.options.strict expr hint start found next := by
  have anywhere (hint : Option FilePath) (start : NodeId) : ∃ found next,
      found.unnumbered = validator.unnumbered ∧
      AnswersAlike resolver.options.strict expr hint start found next := by
    have detached : Resolve.Detached resolver.options.strict Validator.unnumbered validator.unnumbered
        (Resolve.resolveWithin (expr.toList.length + 1) { file := hint } expr.toList) := by
      have meets := resolution_detached resolver expr { file := hint } (Nat.lt_succ_self _)
      rcases resolve_of_meets meets with ⟨_, _, _, ended, detached⟩ | ⟨_, _, _, ended, _⟩ |
        ⟨_, ended, _⟩
      · cases inline.symm.trans ended
        exact detached
      · cases inline.symm.trans ended
      · cases inline.symm.trans ended
    obtain ⟨found, next, same, gave⟩ := detached start
    refine ⟨found, next, same, fun other setting free => resolve_of_gives ?_⟩
    exact (gave other setting free).onward <|
      Resolve.resolveWithin_onward (other.length_lt_nestingLimit _) _ _
  refine ⟨?_, anywhere⟩
  obtain ⟨found, next, _, alike⟩ := anywhere none resolver.nextId
  cases inline.symm.trans (alike resolver rfl rfl)
  exact alike

/-- A resolver that has followed two files in a circle, and is asked in a file that there is not. -/
theorem resolve_detached_circle :
    let resolver := ((fresh {} circle).resolve "A" (some ⟨"/a.ts"⟩)).2
    ∃ validator found next after,
      (fresh {} {}).resolve "\x7b a?: 'B'[] \x7d | null" none = (some (.ok validator), after) ∧
      resolver.resolve "\x7b a?: 'B'[] \x7d | null" (some ⟨"/missing.ts"⟩) =
        (some (.ok found), { resolver with nextId := next }) ∧
      found.unnumbered = validator.unnumbered := by
  intro resolver
  have passed : ((fresh {} {}).resolve "\x7b a?: 'B'[] \x7d | null" none).1.any (·.isOk) := by
    decide +kernel
  obtain ⟨validator, answer⟩ := exists_of_isOk passed
  have inline := Prod.fst_eq_iff.mp answer
  have later : Later (fresh {} circle) resolver :=
    ((Standing.start {} circle).resolve "A" (some ⟨"/a.ts"⟩)).2.1
  have strict : resolver.options.strict = false := by
    rw [later.options]
    rfl
  obtain ⟨found, next, same, alike⟩ :=
    (resolve_detached inline).2 (some ⟨"/missing.ts"⟩) resolver.nextId
  exact ⟨validator, found, next, _, inline, alike resolver strict rfl, same⟩

end Resolver

end Conform
