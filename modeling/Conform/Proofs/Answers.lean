import Mathlib.Data.List.Forall2

/-! Computations that can fail, or not end, one after another and over lists. -/

namespace Conform

variable {α β γ ε : Type}

theorem bind_eq_ok {answer : Except ε α} {next : α → Except ε β} {result : β} :
    (answer >>= next) = .ok result ↔ ∃ value, answer = .ok value ∧ next value = .ok result := by
  cases answer with
  | error fault => simp [bind, Except.bind]
  | ok value => simp [bind, Except.bind]

theorem map_eq_ok {answer : Except ε α} {change : α → β} {result : β} :
    answer.map change = .ok result ↔ ∃ value, answer = .ok value ∧ change value = result := by
  cases answer with
  | error fault => simp [Except.map]
  | ok value => simp [Except.map]

theorem run_bind_eq_ok {answer : ExceptT ε Option α} {next : α → ExceptT ε Option β} {result : β} :
    (answer >>= next).run = some (.ok result) ↔
      ∃ value, answer.run = some (.ok value) ∧ (next value).run = some (.ok result) := by
  rw [ExceptT.run_bind]
  rcases answer.run with _ | _ | value
  · simp
  · simp
  · simp

theorem run_bind_eq_none {answer : ExceptT ε Option α} {next : α → ExceptT ε Option β} :
    (answer >>= next).run = none ↔
      answer.run = none ∨ ∃ value, answer.run = some (.ok value) ∧ (next value).run = none := by
  rw [ExceptT.run_bind]
  rcases answer.run with _ | _ | value
  · simp
  · simp
  · simp

theorem run_liftM (answer : Except ε α) : (liftM answer : ExceptT ε Option α).run = some answer := rfl

theorem run_lift (answer : Option α) : (ExceptT.lift answer : ExceptT ε Option α).run = answer.map .ok := rfl

theorem exists_eq_ok {answer : Except ε α} (ok : answer.isOk) : ∃ value, answer = .ok value := by
  cases answer with
  | error fault => cases ok
  | ok value => exact ⟨value, rfl⟩

theorem exists_run_eq_ok {answer : ExceptT ε Option α} (ok : answer.run.any (·.isOk)) :
    ∃ value, answer.run = some (.ok value) := by
  generalize answer.run = ended at ok
  rcases ended with _ | _ | value
  · cases ok
  · cases ok
  · exact ⟨value, rfl⟩

theorem mapM_eq_ok {compute : α → Except ε β} {items : List α} {results : List β} :
    items.mapM compute = .ok results ↔ List.Forall₂ (fun item result => compute item = .ok result) items results := by
  induction items generalizing results with
  | nil => simp [pure, Except.pure, eq_comm]
  | cons item items ih =>
      simp only [List.mapM_cons, bind_eq_ok, ih, List.forall₂_cons_left_iff, pure, Except.pure, Except.ok.injEq]
      constructor
      · rintro ⟨result, computed, results, others, rfl⟩
        exact ⟨result, results, computed, others, rfl⟩
      · rintro ⟨result, results, computed, others, rfl⟩
        exact ⟨result, computed, results, others, rfl⟩

theorem mapM_eq_some {compute : α → Option β} {items : List α} {results : List β} :
    items.mapM compute = some results ↔ List.Forall₂ (fun item result => compute item = some result) items results := by
  induction items generalizing results with
  | nil => simp [eq_comm]
  | cons item items ih =>
      simp only [List.mapM_cons, Option.bind_eq_bind, Option.bind_eq_some_iff, ih, List.forall₂_cons_left_iff,
        Option.pure_def, Option.some.injEq]
      constructor
      · rintro ⟨result, computed, results, others, rfl⟩
        exact ⟨result, results, computed, others, rfl⟩
      · rintro ⟨result, results, computed, others, rfl⟩
        exact ⟨result, computed, results, others, rfl⟩

theorem exists_of_mapM {compute : α → Option β} {items : List α} {found : List β}
    (computed : items.mapM compute = some found) :
    ∀ item ∈ items, ∃ value ∈ found, compute item = some value := by
  rw [mapM_eq_some] at computed
  induction computed with
  | nil => simp
  | cons head _ ih =>
      refine List.forall_mem_cons.mpr ⟨⟨_, List.mem_cons_self, head⟩, fun item member => ?_⟩
      obtain ⟨value, among, same⟩ := ih item member
      exact ⟨value, List.mem_cons_of_mem _ among, same⟩

theorem mapM_eq_none {compute : α → Option β} {items : List α} :
    items.mapM compute = none ↔ ∃ item ∈ items, compute item = none := by
  induction items with
  | nil => simp
  | cons item items ih =>
      cases computed : compute item with
      | none => simp [computed]
      | some value =>
          have rest : (item :: items).mapM compute = none ↔ items.mapM compute = none := by
            rw [List.mapM_cons, computed]
            cases items.mapM compute with
            | none => simp
            | some values => simp
          rw [rest, ih, List.exists_mem_cons_iff, computed, or_iff_right (by simp)]

theorem forall₂_append_left_iff {related : α → β → Prop} {front back : List α} {results : List β} :
    List.Forall₂ related (front ++ back) results ↔ ∃ firsts others, List.Forall₂ related front firsts ∧
      List.Forall₂ related back others ∧ results = firsts ++ others := by
  constructor
  · intro all
    induction front generalizing results with
    | nil => exact ⟨[], results, .nil, all, rfl⟩
    | cons item front ih =>
        obtain ⟨result, results, first, rest, rfl⟩ := List.forall₂_cons_left_iff.mp all
        obtain ⟨firsts, others, left, right, rfl⟩ := ih rest
        exact ⟨result :: firsts, others, .cons first left, right, rfl⟩
  · rintro ⟨firsts, others, left, right, rfl⟩
    exact List.rel_append left right

theorem forall₂_comp_iff {first : α → β → Prop} {second : β → γ → Prop} {items : List α} {results : List γ} :
    List.Forall₂ (fun item result => ∃ between, first item between ∧ second between result) items results ↔
      ∃ middle, List.Forall₂ first items middle ∧ List.Forall₂ second middle results := by
  constructor
  · intro all
    induction all with
    | nil => exact ⟨[], .nil, .nil⟩
    | cons related _ ih =>
        obtain ⟨between, left, right⟩ := related
        obtain ⟨middle, lefts, rights⟩ := ih
        exact ⟨between :: middle, .cons left lefts, .cons right rights⟩
  · rintro ⟨middle, lefts, rights⟩
    induction lefts generalizing results with
    | nil =>
        cases rights
        exact .nil
    | cons left _ ih =>
        cases rights with
        | cons right rights => exact .cons ⟨_, left, right⟩ (ih rights)

theorem exists_forall₂ {related : α → β → Prop} {items : List α}
    (each : ∀ item ∈ items, ∃ other, related item other) : ∃ others, List.Forall₂ related items others := by
  induction items with
  | nil => exact ⟨[], .nil⟩
  | cons item items ih =>
      obtain ⟨first, rest⟩ := List.forall_mem_cons.mp each
      obtain ⟨other, here⟩ := first
      obtain ⟨others, all⟩ := ih rest
      exact ⟨other :: others, .cons here all⟩

end Conform
