import Conform.Proofs.Expr.Precedence
import Conform.Proofs.Resolver.Form

/-!
Operators of both kinds never meet in one group, so no resolution fails over that.
-/

namespace Conform

open Conform.Expr

theorem Expr.operators_uniform {expr : List Char} {found : List Token} (split : tokens expr = .ok found)
    {connective : Connective} {others : List Connective}
    (operators : Resolve.operators (mergeAnds found) = connective :: others) :
    others.all (· == connective) := by
  obtain ⟨cut, _, _, _, rfl⟩ := exists_cut split
  obtain ⟨kind, uniform⟩ := mergeAnds_uniform (Text.trim cut.first)
    (cut.rest.map fun part => (part.1, Text.trim part.2))
  have each : ∀ other ∈ connective :: others, other = kind := by
    intro other member
    rw [← operators] at member
    obtain ⟨token, among, same⟩ := List.mem_filterMap.mp member
    cases token with
    | operand text => cases same
    | operator other => exact uniform _ (Option.some.inj same ▸ among)
  obtain ⟨first, rest⟩ := List.forall_mem_cons.mp each
  refine List.all_eq_true.mpr fun other member => ?_
  rw [first, rest other member]
  exact beq_self_eq_true kind

theorem Form.read_ne_mixed {expr : List Char} (text : String) :
    Form.read expr ≠ .error (.mixedConnectives text) := by
  intro error
  unfold read ofBare at error
  generalize bare (Text.stripComments expr) = expr at error
  cases shape : shape expr with
  | error fault =>
      rw [shape] at error
      cases error
      unfold Expr.shape at shape
      repeat' split at shape
      all_goals cases shape
  | ok found =>
      rw [shape] at error
      change ofShape expr found = _ at error
      cases found with
      | group =>
          change (tokens expr).bind _ = _ at error
          cases split : tokens expr with
          | error fault =>
              rw [split] at error
              cases error
              unfold tokens at split
              dsimp only at split
              repeat' split at split
              all_goals cases split
          | ok known =>
              rw [split] at error
              change ofTokens expr (mergeAnds known) = _ at error
              unfold ofTokens at error
              split at error
              · cases error
              · rename_i connective others operators
                rw [if_pos (operators_uniform split operators)] at error
                cases error
      | record =>
          simp only [ofShape] at error
          split at error <;> cases error
      | _ => cases error

namespace Resolve

variable {α β : Type}

def Unmixed (action : Resolve α) : Prop :=
  ∀ before, Meets action before (fun _ _ => True) fun stop _ =>
    ∀ text needs, stop ≠ .fault (.mixedConnectives text) needs

namespace Unmixed

theorem bind {action : Resolve α} {next : α → Resolve β} (unmixed : Unmixed action)
    (later : ∀ value, Unmixed (next value)) : Unmixed (action >>= next) := by
  intro before
  rw [meets_bind]
  exact (unmixed before).mono (fun value middle _ => later value middle) fun _ _ known => known

theorem pure (value : α) : Unmixed (pure value) := fun _ => trivial

theorem throw {stop : Stop} (other : ∀ text needs, stop ≠ .fault (.mixedConnectives text) needs) :
    Unmixed (throw stop : Resolve α) := fun _ => other

theorem fail {fault : Fault} (other : ∀ text, fault ≠ .mixedConnectives text) :
    Unmixed (fail fault : Resolve α) :=
  .throw fun text _ same => other text (Stop.fault.inj same).1

theorem get : Unmixed get := fun _ => trivial

theorem modify (change : Resolver → Resolver) : Unmixed (modify change) := fun _ => trivial

theorem freshId : Unmixed freshId := fun _ => trivial

theorem ofExcept {result : Except Fault α} (other : ∀ text, result ≠ .error (.mixedConnectives text)) :
    Unmixed (ofExcept result) := by
  cases result with
  | ok value => exact .pure value
  | error fault => exact .fail fun text same => other text (congrArg Except.error same)

theorem tryCatch {action : Resolve α} {handle : Stop → Resolve α} (unmixed : Unmixed action)
    (later : ∀ stop, (∀ text needs, stop ≠ .fault (.mixedConnectives text) needs) →
      Unmixed (handle stop)) : Unmixed (tryCatch action handle) := by
  intro before
  rw [meets_tryCatch]
  exact (unmixed before).mono (fun _ _ _ => trivial) fun stop middle known => later stop known middle

theorem keepingCache {action : Resolve α} (unmixed : Unmixed action) : Unmixed (keepingCache action) :=
  .bind .get fun _ => .tryCatch unmixed fun _ known => .bind (.modify _) fun _ => .throw known

theorem fileText (file : FilePath) : Unmixed (fileText file) := by
  refine .bind .get fun resolver => ?_
  cases resolver.knownText? file with
  | some text => exact .pure _
  | none =>
      cases resolver.files.find? file with
      | none => exact .fail (by simp)
      | some content =>
          cases content with
          | unreadable reason => exact .fail (by simp)
          | text content => exact .bind (.modify _) fun _ => .pure _

theorem locate (name : List Char) (file : FilePath) : Unmixed (locate name file) := by
  refine .bind (.fileText file) fun text => ?_
  cases Declaration.import? name text with
  | none => exact .pure _
  | some found =>
      refine .bind .get fun _ => .bind (.ofExcept fun text => ?_) fun _ => .pure _
      unfold Declaration.moduleFile
      dsimp only
      split <;> simp

theorem declared (key : DeclKey) : Unmixed (declared key) := by
  have read (found : Except Declaration.ScanFault (Option (List Char))) :
      Unmixed (Resolve.ofExcept (found.mapError (scanFault key))) := by
    refine .ofExcept fun text => ?_
    rcases found with (_ | _) | found <;> simp [Except.mapError, scanFault]
  refine .bind (.fileText key.file) fun text => .bind (read _) fun found => ?_
  cases found with
  | some expr => exact .pure _
  | none =>
      refine .bind (read _) fun found => ?_
      cases found with
      | some expr => exact .pure _
      | none => exact .fail (by simp)

end Unmixed

section Below

variable {below : Below} (parts : ∀ site expr, Unmixed (below site expr))

include parts

theorem build_unmixed (site : Site) (key : DeclKey) : Unmixed (build below site key) :=
  .keepingCache <| .bind (fun _ => trivial) fun _ => .bind (.declared key) fun _ =>
    .bind (parts _ _) fun _ => .bind (.modify _) fun _ => .pure _

theorem resolveKey_unmixed (site : Site) (key : DeclKey) : Unmixed (resolveKey below site key) := by
  refine .bind .get fun resolver => ?_
  cases resolver.cached? key with
  | some validator => exact .pure _
  | none =>
      cases site.building.find? fun entry => entry.key.sameAs key with
      | none => exact build_unmixed parts site key
      | some entry =>
          by_cases near : site.depth ≤ entry.depth
          · simpa only [near, if_true] using .fail (by simp)
          · simpa only [near, if_false] using .pure _

theorem resolveName_unmixed (site : Site) (name : List Char) :
    Unmixed (resolveName below site name) := by
  unfold resolveName
  cases site.file with
  | none => exact .fail (by simp)
  | some file => exact .bind (.locate name _) fun key => resolveKey_unmixed parts site key

theorem resolveBuilt_unmixed (site : Site) (name : List Char) :
    Unmixed (resolveBuilt below site name) := by
  refine .bind (parts site name) fun validator => ?_
  cases validator with
  | deferred name cell => exact .throw (by simp)
  | _ => exact .pure _

theorem resolveEach_unmixed (site : Site) (exprs : List (List Char)) :
    Unmixed (resolveEach below site exprs) := by
  induction exprs with
  | nil => exact .pure _
  | cons expr rest ih => exact .bind (parts site expr) fun _ => .bind ih fun _ => .pure _

theorem resolveMembers_unmixed (site : Site) (members : List (List Char)) :
    Unmixed (resolveMembers below site members) := by
  induction members with
  | nil => exact .pure _
  | cons member rest ih =>
      simp only [resolveMembers]
      cases Expr.member? member with
      | none => exact .fail (by simp)
      | some found =>
          cases found with
          | index type => exact .bind (parts _ type) fun _ => .bind ih fun _ => .pure _
          | field name optional type =>
              refine .bind (parts _ type) fun _ => .bind .get fun _ => .bind .freshId fun _ => ?_
              exact .bind ih fun _ => .pure _

theorem resolveForm_unmixed (site : Site) (form : Form) : Unmixed (resolveForm below site form) := by
  cases form with
  | group connective operands =>
      exact .bind (resolveEach_unmixed parts site operands) fun _ => .bind .freshId fun _ => .pure _
  | array element => exact .bind .freshId fun _ => .bind (parts _ element) fun _ => .pure _
  | primitive kind => exact .pure _
  | partialOf name =>
      refine .bind (resolveBuilt_unmixed parts site name) fun validator => ?_
      cases validator with
      | record own ancestors => exact .bind .freshId fun _ => .pure _
      | _ => exact .fail (by simp)
  | record record =>
      refine .bind ?_ fun ancestors => .bind (resolveMembers_unmixed parts site _) fun _ =>
        .bind .freshId fun _ => .pure _
      unfold resolveParent
      cases record.parent with
      | none => exact .pure _
      | some parent =>
          refine .bind (resolveBuilt_unmixed parts site parent) fun validator => ?_
          cases validator with
          | record own ancestors => exact .pure _
          | _ => exact .fail (by simp)
  | reference name => exact resolveName_unmixed parts site name

end Below

theorem resolveWithin_unmixed (bound : Nat) (site : Site) (expr : List Char) :
    Unmixed (resolveWithin bound site expr) := by
  induction bound generalizing site expr with
  | zero => exact .throw (by simp)
  | succ bound ih =>
      simp only [resolveWithin, resolveStep_eq]
      exact .bind (.ofExcept Form.read_ne_mixed) fun form => resolveForm_unmixed ih site form

theorem inOrder_unmixed (bound : Nat) {action : Resolve Validator} (unmixed : Unmixed action)
    (retries : Nat) (tried : List DeclKey) :
    Unmixed (inOrder (resolveWithin bound) action retries tried) := by
  induction retries generalizing action tried with
  | zero => exact .throw (by simp)
  | succ retries ih =>
      refine .tryCatch (.bind unmixed fun _ => .pure _) fun stop known => ?_
      split
      · rename_i fault key
        split
        · exact .fail fun text same => known text _ (by rw [same])
        · have first := resolveKey_unmixed (resolveWithin_unmixed bound) { file := none } key
          exact .bind (ih first _) fun found => ih unmixed _
      · exact .throw known

end Resolve

namespace Resolver

theorem resolve_ne_mixed (resolver : Resolver) (expr : String) (file : Option FilePath) (text : String) :
    (resolver.resolve expr file).1 ≠ some (.error (.mixedConnectives text)) := by
  have action := Resolve.resolveWithin_unmixed (resolver.nestingLimit expr.toList) { file := file }
    expr.toList
  have known := Resolve.inOrder_unmixed (resolver.nestingLimit expr.toList) action
    (resolver.declarationLimit expr.toList + 1) [] resolver
  unfold Resolve.Meets at known
  unfold resolve
  dsimp only
  split
  · simp
  · rename_i fault needs after ended
    rw [show Resolve.outcome _ resolver = _ from ended] at known
    intro same
    cases same
    exact known text needs rfl
  · simp

open Resolve (operands)

/-- What splitting an expression and joining its `&` again leaves of it: its operands without the white
space around them. When both operators occur, the operands of the union are the runs of `&`, and each
of them splits into the operands that it was joined from. -/
theorem precedence {expr : List Char} {found : List Token} (split : tokens expr = .ok found) :
    (∃ first rest, found = interleaved first rest) ∧
    (∀ text, .operand text ∈ found →
      text ≠ [] ∧ Text.trim text = text ∧ IsOutside text ∧ Uncut {} text) ∧
    found.flatMap Token.text = tight expr ∧
    (∃ connective, ∀ other, .operator other ∈ mergeAnds found → other = connective) ∧
    (.operator .and ∈ found → .operator .or ∈ found →
      mergeAnds found =
        ((found.splitOn (.operator .or)).map fun run =>
          Token.operand (['&'].intercalate (operands run))).intersperse (.operator .or) ∧
      ∀ run ∈ found.splitOn (.operator .or), tokens (['&'].intercalate (operands run)) = .ok run) ∧
    ∀ (resolver : Resolver) (other : String) (file : Option FilePath) (text : String),
      (resolver.resolve other file).1 ≠ some (.error (.mixedConnectives text)) := by
  obtain ⟨cut, cutting, operand, others, rfl⟩ := exists_cut split
  obtain ⟨source, segment, segments⟩ := cut?_eq_some.mp cutting
  have operand' : ∀ text ∈ Text.trim cut.first :: (cut.rest.map fun part => (part.1, Text.trim part.2)).map
      Prod.snd, IsOperand text := by
    simp only [List.map_map, List.mem_cons, List.mem_map, forall_eq_or_imp]
    refine ⟨operand, ?_⟩
    rintro _ ⟨part, member, rfl⟩
    exact others part member
  refine ⟨⟨_, _, rfl⟩, fun text member => ?_, ?_, mergeAnds_uniform _ _, ?_, resolve_ne_mixed⟩
  · have known := operand' text (mem_interleaved.mp member)
    exact ⟨known.some_, known.trimmed, known.balanced, known.uncut⟩
  · rw [← source, tight]
    exact (tightAfter_source segment segments (.inl rfl) rfl).symm
  · intro ands ors
    refine ⟨mergeAnds_interleaved_both ⟨ands, ors⟩, fun run among => ?_⟩
    obtain ⟨first, others, rfl, each⟩ := exists_of_mem_runs among
    rw [operands_conjunction]
    exact tokens_fused others fun text member => operand' text (each text member)

theorem precedence_mixed :
    let expr := " a &  b|\x7b p: 'x|y' \x7d & (c | d)".toList
    let found := [Token.operand ['a'], .operator .and, .operand ['b'], .operator .or,
      .operand "\x7b p: 'x|y' \x7d".toList, .operator .and, .operand "(c | d)".toList]
    tokens expr = .ok found ∧ tight expr = "a&b|\x7b p: 'x|y' \x7d&(c | d)".toList ∧
      mergeAnds found = [.operand "a&b".toList, .operator .or,
        .operand "\x7b p: 'x|y' \x7d&(c | d)".toList] ∧
      tokens "\x7b p: 'x|y' \x7d&(c | d)".toList =
        .ok [.operand "\x7b p: 'x|y' \x7d".toList, .operator .and, .operand "(c | d)".toList] := by
  intro expr found
  have split : tokens expr = .ok found := by rfl
  obtain ⟨_, _, same, _, merged, _⟩ := precedence split
  obtain ⟨runs, each⟩ := merged (by simp [found]) (by simp [found])
  refine ⟨split, ?_, ?_, ?_⟩
  · rw [← same]
    decide
  · rw [runs]
    decide
  · have among : [Token.operand "\x7b p: 'x|y' \x7d".toList, .operator .and, .operand "(c | d)".toList] ∈
        found.splitOn (.operator .or) := by decide
    exact each _ among

end Resolver

end Conform
