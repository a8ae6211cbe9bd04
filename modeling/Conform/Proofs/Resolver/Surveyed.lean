import Conform.Proofs.Resolver.Edges
import Conform.Proofs.Resolver.Transparent

/-!
What a resolution comes to, computed, and with it that references hide nothing that counts. The test may
fail to see that, but does not see it where it is not so.
-/

namespace Conform

open Relation

namespace Passage

def isRecord (passage : Passage) : Bool :=
  match Form.read passage.expr with
  | .ok (.record _) => true
  | .ok (.partialOf _) => true
  | _ => false

def isInnerName (passage : Passage) : Bool :=
  passage.home.isSome && (bareName? passage.expr).isSome

def isUndefined (passage : Passage) : Bool :=
  match Form.read passage.expr with
  | .ok (.primitive .undefined) => true
  | _ => false

theorem IsRecord.computed {passage : Passage} (is : passage.IsRecord) : passage.isRecord := by
  rcases is with ⟨parts, read⟩ | ⟨name, read⟩ <;> simp [isRecord, read]

end Passage

namespace Sources

section

variable (sources : Sources)

def nexts (uses : Use → Bool) (passage : Passage) : List Passage :=
  match Form.read passage.expr with
  | .error _ => []
  | .ok form =>
    ((form.pieces.filter fun piece => uses piece.1).map fun piece => passage.part piece.2) ++
      (form.name?.bind fun name => passage.file.bind fun file =>
        (sources.locate name file.normalize).toOption.bind fun key =>
          (sources.definition key).toOption.map key.passage).toList

def mayFind (uses : Use → Bool) (kind : Passage → Bool) : Nat → Passage → Bool
  | 0, _ => true
  | bound + 1, passage =>
    kind passage || (sources.nexts uses passage).any (mayFind uses kind bound)

def survey : Nat → List Passage → List Passage → List Passage
  | 0, known, _ => known
  | bound + 1, known, new =>
    let next := (new.flatMap (sources.nexts fun _ => true)).filter fun passage => !known.contains passage
    survey bound (known ++ next.eraseDups) next.eraseDups

def transparentAt (bound : Nat) (passage : Passage) : Bool :=
  match Form.read passage.expr with
  | .ok (.group _ operands) =>
    operands.all fun hider => operands.all fun heeder =>
      heeder == hider ||
        !(sources.mayFind (· == .operand) Passage.isInnerName bound (passage.part hider) &&
          sources.mayFind (· == .operand) Passage.isRecord bound (passage.part heeder))
  | .ok (.record parts) =>
    (fieldsOf (Expr.members parts.body)).all fun (_, _, type) =>
      !(sources.mayFind (fun _ => false) Passage.isInnerName bound (passage.part type) &&
        sources.mayFind (· == .operand) Passage.isUndefined bound (passage.part type))
  | _ => true

def transparentAll (bound : Nat) (passages : List Passage) : Bool :=
  passages.all fun passage => sources.transparentAt bound passage &&
    (sources.nexts (fun _ => true) passage).all fun next => passages.contains next

end

variable {sources : Sources} {uses : Use → Prop} {test : Use → Bool} {kind : Passage → Prop}
  {isKind : Passage → Bool} {passage found : Passage} {bound : Nat}

theorem Step.mem_nexts (allowed : ∀ use, uses use → test use) (step : sources.Step uses passage found) :
    found ∈ sources.nexts test passage := by
  cases step with
  | @piece use part among piece =>
      obtain ⟨form, read⟩ : ∃ form, Form.read passage.expr = .ok form := by
        cases piece with
        | operand form | element form | member form | target form | parent form => exact ⟨_, form⟩
      have member : (use, part) ∈ form.pieces.filter fun piece => test piece.1 :=
        List.mem_filter.mpr ⟨Form.mem_pieces read piece, allowed use among⟩
      simp only [nexts, read]
      exact List.mem_append_left _ (List.mem_map.mpr ⟨_, member, rfl⟩)
  | definition named defined =>
      obtain ⟨name, read, file, known, located⟩ := named
      simp [nexts, read, Form.name?, known, located, defined, Except.toOption]

theorem Finds.computed (allowed : ∀ use, uses use → test use)
    (shown : ∀ passage, kind passage → isKind passage)
    (finds : sources.Finds uses kind passage) : sources.mayFind test isKind bound passage := by
  induction bound generalizing passage with
  | zero => rfl
  | succ bound ih =>
      rw [Sources.mayFind, Bool.or_eq_true]
      rcases finds.cases_head with is | ⟨next, step, finds⟩
      · exact .inl (shown _ is)
      · exact .inr (List.any_eq_true.mpr ⟨next, step.mem_nexts allowed, ih finds⟩)

theorem MayDefer.computed (defers : sources.MayDefer passage) : passage.isInnerName := by
  obtain ⟨_, _, ⟨name, read, _⟩, inside, _⟩ := defers
  simp [Passage.isInnerName, inside, bareName?, read, Except.toOption, Form.name?]

theorem OffersUndefined.leads_to_keyword {file : Option FilePath} {expr : List Char}
    (offers : sources.OffersUndefined file expr) (home : Option Place) :
    sources.Finds (· = .operand) (fun passage => Form.read passage.expr = .ok (.primitive .undefined))
      ⟨home, file, expr⟩ := by
  have keyword {file : Option FilePath} {expr : List Char} (isUndefined : sources.IsUndefined file expr)
      (home : Option Place) : sources.Finds (· = .operand)
        (fun passage => Form.read passage.expr = .ok (.primitive .undefined)) ⟨home, file, expr⟩ := by
    induction isUndefined generalizing home with
    | keyword read => exact .here read
    | alias_ read means defined _ ih => exact (ih _).step (.definition ⟨_, read, means⟩ defined)
  induction offers generalizing home with
  | bare isUndefined => exact keyword isUndefined home
  | operand read member isUndefined =>
      exact (keyword isUndefined home).step (.piece rfl (.operand read member))
  | alias_ read means defined _ ih => exact (ih _).step (.definition ⟨_, read, means⟩ defined)

theorem transparentAt_of_test (passed : sources.transparentAt bound passage) :
    sources.TransparentAt passage := by
  have operand (use : Use) (same : use = .operand) : use == .operand := by simp [same]
  refine ⟨fun connective operands read => ?_, fun parts read member among name optional type known => ?_⟩
  · simp only [Sources.transparentAt, read, List.all_eq_true, Bool.or_eq_true, Bool.not_eq_true',
      Bool.and_eq_false_iff] at passed
    rintro _ inside _ inside' hides heeds
    obtain ⟨hider, member, rfl⟩ := List.mem_map.mp inside
    obtain ⟨heeder, among, rfl⟩ := List.mem_map.mp inside'
    rcases passed hider member heeder among with same | none | none
    · rw [eq_of_beq same]
    · rw [hides.computed operand fun _ => MayDefer.computed] at none
      cases none
    · rw [heeds.computed operand fun _ => Passage.IsRecord.computed] at none
      cases none
  · intro hides offers
    have field : (name, optional, type) ∈ fieldsOf (Expr.members parts.body) :=
      List.mem_filterMap.mpr ⟨member, among, by simp [known]⟩
    simp only [Sources.transparentAt, read, List.all_eq_true] at passed
    have never := passed _ field
    have hidden : sources.mayFind (fun _ => false) Passage.isInnerName bound (passage.part type) :=
      hides.computed (by simp) fun _ => MayDefer.computed
    have offered : sources.mayFind (· == .operand) Passage.isUndefined bound (passage.part type) :=
      (offers.leads_to_keyword passage.home).computed operand
        fun passage read => by simp [Passage.isUndefined, read]
    simp [hidden, offered] at never

theorem mem_survey {known new : List Passage} (member : passage ∈ known) :
    passage ∈ sources.survey bound known new := by
  induction bound generalizing known new with
  | zero => exact member
  | succ bound ih => exact ih (List.mem_append_left _ member)

theorem transparent_of_test {passages : List Passage} (passed : sources.transparentAll bound passages)
    (member : passage ∈ passages) : sources.Transparent passage := by
  simp only [transparentAll, List.all_eq_true, Bool.and_eq_true, List.contains_iff_mem] at passed
  intro found covers
  have inside : found ∈ passages := by
    induction covers with
    | refl => exact member
    | tail _ step ih => exact (passed _ ih).2 _ (step.mem_nexts fun _ _ => rfl)
  exact transparentAt_of_test (passed _ inside).1

end Sources

end Conform
