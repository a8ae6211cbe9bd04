import Conform.Resolver.Resolve

/-!
How the actions of a resolution run. An action either gives a value or stops, and leaves a resolver
behind in both cases; `Meets` says what is known about the two ways it can end.
-/

namespace Conform

def Stop.needs : Stop → Option DeclKey
  | .fault _ needs => needs
  | .unfinished => none

namespace Resolve

variable {α β : Type} {before after : Resolver}

def outcome (action : Resolve α) (before : Resolver) : Except Stop α × Resolver :=
  action.run before

def Gives (action : Resolve α) (before : Resolver) (value : α) (after : Resolver) : Prop :=
  action.outcome before = (.ok value, after)

def Meets (action : Resolve α) (before : Resolver) (gives : α → Resolver → Prop)
    (stops : Stop → Resolver → Prop) : Prop :=
  match action.outcome before with
  | (.ok value, after) => gives value after
  | (.error stop, after) => stops stop after

theorem Meets.mono {action : Resolve α} {gives gives' : α → Resolver → Prop}
    {stops stops' : Stop → Resolver → Prop} (meets : Meets action before gives stops)
    (weaker : ∀ value after, gives value after → gives' value after)
    (weakerStop : ∀ stop after, stops stop after → stops' stop after) :
    Meets action before gives' stops' := by
  unfold Meets at meets ⊢
  split at meets
  · exact weaker _ _ meets
  · exact weakerStop _ _ meets

theorem Meets.and {action : Resolve α} {gives gives' : α → Resolver → Prop}
    {stops stops' : Stop → Resolver → Prop} (first : Meets action before gives stops)
    (second : Meets action before gives' stops') :
    Meets action before (fun value after => gives value after ∧ gives' value after)
      fun stop after => stops stop after ∧ stops' stop after := by
  unfold Meets at first second ⊢
  split at first <;> simp_all

theorem meets_gives (action : Resolve α) (before : Resolver) :
    Meets action before (Gives action before) fun _ _ => True := by
  unfold Meets Gives
  split <;> simp_all

theorem Gives.of_meets {action : Resolve α} {value : α} {gives : α → Resolver → Prop}
    {stops : Stop → Resolver → Prop} (gave : Gives action before value after)
    (meets : Meets action before gives stops) : gives value after := by
  simpa only [Meets, show action.outcome before = _ from gave] using meets

theorem outcome_bind (action : Resolve α) (next : α → Resolve β) (before : Resolver) :
    (action >>= next).outcome before =
      match action.outcome before with
      | (.ok value, middle) => (next value).outcome middle
      | (.error stop, middle) => (.error stop, middle) := by
  change ExceptT.bindCont next (action.outcome before).1 (action.outcome before).2 = _
  rcases action.outcome before with ⟨_ | value, middle⟩ <;> rfl

@[simp] theorem outcome_pure (value : α) (before : Resolver) :
    (pure value : Resolve α).outcome before = (.ok value, before) := rfl

@[simp] theorem outcome_get (before : Resolver) :
    (get : Resolve Resolver).outcome before = (.ok before, before) := rfl

@[simp] theorem outcome_modify (change : Resolver → Resolver) (before : Resolver) :
    (modify change : Resolve PUnit).outcome before = (.ok ⟨⟩, change before) := rfl

@[simp] theorem outcome_fail (fault : Fault) (before : Resolver) :
    (fail fault : Resolve α).outcome before = (.error (.fault fault none), before) := rfl

@[simp] theorem outcome_ofExcept (result : Except Fault α) (before : Resolver) :
    (ofExcept result).outcome before = (result.mapError fun fault => .fault fault none, before) := by
  cases result <;> rfl

theorem ofExcept_ok_bind (value : α) (next : α → Resolve β) :
    ofExcept (.ok value) >>= next = next value := rfl

theorem outcome_tryCatch (action : Resolve α) (handle : Stop → Resolve α) (before : Resolver) :
    (tryCatch action handle).outcome before =
      match action.outcome before with
      | (.ok value, after) => (.ok value, after)
      | (.error stop, after) => (handle stop).outcome after := by
  simp only [outcome, tryCatch, tryCatchThe, MonadExceptOf.tryCatch, ExceptT.tryCatch, ExceptT.run,
    ExceptT.mk, bind, StateT.bind]
  generalize action before = found
  rcases found with ⟨_ | value, middle⟩ <;> rfl

section Rules

variable {gives : α → Resolver → Prop} {stops : Stop → Resolver → Prop}

@[simp] theorem meets_bind {action : Resolve β} {next : β → Resolve α} :
    Meets (action >>= next) before gives stops ↔
      Meets action before (fun value middle => Meets (next value) middle gives stops) stops := by
  unfold Meets
  rw [outcome_bind]
  rcases action.outcome before with ⟨_ | value, middle⟩ <;> rfl

@[simp] theorem meets_pure {value : α} :
    Meets (pure value) before gives stops ↔ gives value before := Iff.rfl

@[simp] theorem meets_throw {stop : Stop} :
    Meets (throw stop) before gives stops ↔ stops stop before := Iff.rfl

@[simp] theorem meets_fail {fault : Fault} :
    Meets (fail fault) before gives stops ↔ stops (.fault fault none) before := Iff.rfl

@[simp] theorem meets_get {gives : Resolver → Resolver → Prop} :
    Meets get before gives stops ↔ gives before before := Iff.rfl

@[simp] theorem meets_modify {change : Resolver → Resolver} {gives : PUnit → Resolver → Prop} :
    Meets (modify change) before gives stops ↔ gives ⟨⟩ (change before) := Iff.rfl

@[simp] theorem meets_freshId {gives : Nat → Resolver → Prop} :
    Meets freshId before gives stops ↔
      gives before.nextId { before with nextId := before.nextId + 1 } := Iff.rfl

@[simp] theorem meets_newReference {key : DeclKey} {gives : CellId → Resolver → Prop} :
    Meets (newReference key) before gives stops ↔
      gives before.references.length
        { before with references := before.references ++ [{ key := key }] } := Iff.rfl

theorem meets_tryCatch {action : Resolve α} {handle : Stop → Resolve α} :
    Meets (tryCatch action handle) before gives stops ↔
      Meets action before gives fun stop middle => Meets (handle stop) middle gives stops := by
  unfold Meets
  rw [outcome_tryCatch]
  rcases action.outcome before with ⟨_ | value, middle⟩ <;> rfl

theorem meets_keepingCache {action : Resolve α} :
    Meets (keepingCache action) before gives stops ↔
      Meets action before gives fun stop after =>
        stops stop { after with cache := before.cache } := by
  simp only [keepingCache, meets_bind, meets_get, meets_tryCatch, meets_modify, meets_throw]

end Rules

end Resolve

end Conform
