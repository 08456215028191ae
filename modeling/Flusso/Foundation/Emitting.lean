import Mathlib.Data.List.Basic

/-! # Fallible programs that emit

A program emits a list of events and comes to an outcome. An error ends it; what
was emitted before it stays emitted.
-/

/-- What a program emits and what it comes to. -/
structure Emitting (ω ε α : Type) where
  emitted : List ω
  outcome : Except ε α

namespace Emitting

variable {ω ε α β : Type}

def emit (event : ω) : Emitting ω ε Unit := ⟨[event], .ok ()⟩

def fail (e : ε) : Emitting ω ε α := ⟨[], .error e⟩

instance : Monad (Emitting ω ε) where
  pure a := ⟨[], .ok a⟩
  bind x f :=
    match x.outcome with
    | .ok a => ⟨x.emitted ++ (f a).emitted, (f a).outcome⟩
    | .error e => ⟨x.emitted, .error e⟩

variable {x : Emitting ω ε α} {f : α → Emitting ω ε β} {a : α} {e : ε}

@[simp] theorem emitted_pure : (pure a : Emitting ω ε α).emitted = [] := rfl
@[simp] theorem outcome_pure : (pure a : Emitting ω ε α).outcome = .ok a := rfl
@[simp] theorem emitted_fail : (fail e : Emitting ω ε α).emitted = [] := rfl
@[simp] theorem outcome_fail : (fail e : Emitting ω ε α).outcome = .error e := rfl

theorem bind_of_ok (h : x.outcome = .ok a) :
    x >>= f = ⟨x.emitted ++ (f a).emitted, (f a).outcome⟩ := by
  change (match x.outcome with | .ok a => _ | .error e => _) = _
  rw [h]

theorem bind_of_error (h : x.outcome = .error e) : x >>= f = ⟨x.emitted, .error e⟩ := by
  change (match x.outcome with | .ok a => _ | .error e => _) = _
  rw [h]

theorem outcome_bind_eq_ok {b : β} :
    (x >>= f).outcome = .ok b ↔ ∃ a, x.outcome = .ok a ∧ (f a).outcome = .ok b := by
  cases h : x.outcome with
  | error e =>
    rw [bind_of_error h]
    exact ⟨nofun, nofun⟩
  | ok a =>
    rw [bind_of_ok h]
    exact ⟨fun hb => ⟨a, rfl, hb⟩, fun ⟨_, ha, hb⟩ => Except.ok.inj ha ▸ hb⟩

@[simp] theorem emitted_bind_pure {g : α → β} :
    (x >>= fun a => (pure (g a) : Emitting ω ε β)).emitted = x.emitted := by
  cases h : x.outcome with
  | error e => rw [bind_of_error h]
  | ok a => simp [bind_of_ok h]

@[simp] theorem emit_bind {event : ω} {g : Unit → Emitting ω ε β} :
    emit event >>= g = ⟨event :: (g ()).emitted, (g ()).outcome⟩ := rfl

end Emitting
