import SlotPlan.Error
import SlotPlan.Event

/-!
# Computations that report events

A traced computation has a result, which may be an error, and the events that were reported until
then. Done one after the other, computations report their events one after the other, and nothing is
reported after an error (`events_bind_error`).
-/

set_option autoImplicit false

namespace SlotPlan

/-- A result, with the events that were reported on the way to it. -/
structure Traced (α : Type) where
  /-- The events, first to last. -/
  events : List Event
  /-- The result. -/
  result : Except Error α

namespace Traced

variable {α β : Type}

/-- Goes on with the result of a computation, unless it is an error. -/
def andThen (x : Traced α) (f : α → Traced β) : Traced β :=
  match x.result with
  | .ok a => ⟨x.events ++ (f a).events, (f a).result⟩
  | .error e => ⟨x.events, .error e⟩

instance : Monad Traced where
  pure a := ⟨[], .ok a⟩
  bind := andThen

/-- Reports events. -/
def report (events : List Event) : Traced Unit :=
  ⟨events, .ok ()⟩

/-- A computation that reports nothing. -/
def silently (result : Except Error α) : Traced α :=
  ⟨[], result⟩

/-- The result of two computations is that of the second on the result of the first. -/
@[simp]
theorem result_bind (x : Traced α) (f : α → Traced β) :
    (x >>= f).result = (x.result >>= fun a => (f a).result) := by
  rcases x with ⟨events, _ | a⟩ <;> rfl

theorem events_bind_ok {x : Traced α} {a : α} (f : α → Traced β) (h : x.result = .ok a) :
    (x >>= f).events = x.events ++ (f a).events := by
  rcases x with ⟨events, _ | b⟩
  · cases h
  · cases h
    rfl

theorem events_bind_error {x : Traced α} {e : Error} (f : α → Traced β) (h : x.result = .error e) :
    (x >>= f).events = x.events := by
  rcases x with ⟨events, _ | b⟩
  · rfl
  · cases h

@[simp]
theorem result_report (events : List Event) : (report events).result = .ok () :=
  rfl

@[simp]
theorem result_silently (result : Except Error α) : (silently result).result = result :=
  rfl

end Traced

end SlotPlan
