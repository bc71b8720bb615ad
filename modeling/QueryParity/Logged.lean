/-!
# Computations with a log

A logged computation is a value together with the events that led to it, in order. The events never
influence the value.
-/

namespace QueryParity

/-- A value and the events that led to it. -/
structure Logged (ε α : Type) where
  /-- The result. -/
  value : α
  /-- What happened on the way, in order. -/
  events : List ε
  deriving Repr

namespace Logged

variable {ε α β : Type}

instance : Monad (Logged ε) where
  pure a := ⟨a, []⟩
  bind x f :=
    let y := f x.value
    ⟨y.value, x.events ++ y.events⟩

/-- Record an event. -/
def emit (event : ε) : Logged ε Unit := ⟨(), [event]⟩

/-- Record an event on success. -/
def ofExcept {γ : Type} (x : Except γ α) (event : α → ε) : Logged ε (Except γ α) :=
  match x with
  | .ok a => ⟨.ok a, [event a]⟩
  | .error e => ⟨.error e, []⟩

@[simp] theorem value_pure (a : α) : (pure a : Logged ε α).value = a := rfl

@[simp] theorem events_pure (a : α) : (pure a : Logged ε α).events = [] := rfl

@[simp] theorem value_bind (x : Logged ε α) (f : α → Logged ε β) :
    (x >>= f).value = (f x.value).value := rfl

@[simp] theorem events_bind (x : Logged ε α) (f : α → Logged ε β) :
    (x >>= f).events = x.events ++ (f x.value).events := rfl

@[simp] theorem value_emit (event : ε) : (emit event).value = () := rfl

@[simp] theorem events_emit (event : ε) : (emit event).events = [event] := rfl

@[simp] theorem value_ofExcept {γ : Type} (x : Except γ α) (event : α → ε) :
    (ofExcept x event).value = x := by
  cases x <;> rfl

/-- Two logged computations with the same value and events are the same. -/
@[ext] theorem ext {x y : Logged ε α} (hv : x.value = y.value) (he : x.events = y.events) :
    x = y := by
  cases x
  cases y
  simp_all

instance : LawfulMonad (Logged ε) :=
  LawfulMonad.mk' (Logged ε)
    (fun x => ext rfl (by simp [Functor.map]))
    (fun a f => ext rfl (by simp))
    (fun x f g => ext rfl (by simp))
    (by intros; rfl) (by intros; rfl) (by intros; rfl) (by intros; rfl)

end Logged

end QueryParity
