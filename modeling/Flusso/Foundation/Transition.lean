import Mathlib.Data.List.Basic
import Mathlib.Data.Option.Basic

/-! # Guarded transition machines

A machine steps by a partial function: a run is a list of actions, and a state
is reachable when some run leads to it. The rules turn a step lemma into a
statement about every reachable state, or about every state one run visits.
-/

namespace Transition

universe u v

/-- A state machine whose actions may be refused. -/
structure Machine (S : Type u) (A : Type v) where
  init : S → Prop
  step : S → A → Option S

namespace Machine

variable {S : Type u} {A : Type v} (m : Machine S A)

/-- The states reached by steps that all meet a condition. -/
inductive ReachableWith (ok : S → A → Prop) : S → Prop where
  | init {s : S} : m.init s → ReachableWith ok s
  | step {s s' : S} {a : A} :
      ReachableWith ok s → ok s a → m.step s a = some s' → ReachableWith ok s'

/-- The states reached by any steps. -/
def Reachable : S → Prop := m.ReachableWith fun _ _ => True

variable {m}

section Invariants

variable {ok ok' : S → A → Prop} {P : S → Prop} {s : S}

theorem ReachableWith.mono (hok : ∀ s a, ok s a → ok' s a) (h : m.ReachableWith ok s) :
    m.ReachableWith ok' s := by
  induction h with
  | init hs => exact .init hs
  | step _ ha hs ih => exact .step ih (hok _ _ ha) hs

theorem ReachableWith.reachable (h : m.ReachableWith ok s) : m.Reachable s :=
  h.mono fun _ _ _ => trivial

/-- A property of the initial states that every admitted step keeps holds throughout. -/
theorem ReachableWith.invariant (hinit : ∀ s, m.init s → P s)
    (hstep : ∀ s a s', m.ReachableWith ok s → P s → ok s a → m.step s a = some s' → P s')
    (h : m.ReachableWith ok s) : P s := by
  induction h with
  | init hs => exact hinit _ hs
  | step hr ha hs ih => exact hstep _ _ _ hr ih ha hs

theorem Reachable.invariant (hinit : ∀ s, m.init s → P s)
    (hstep : ∀ s a s', m.Reachable s → P s → m.step s a = some s' → P s')
    (h : m.Reachable s) : P s :=
  ReachableWith.invariant hinit (fun s a s' hr hp _ hs => hstep s a s' hr hp hs) h

theorem Reachable.step {s' : S} {a : A} (h : m.Reachable s) (hs : m.step s a = some s') :
    m.Reachable s' :=
  ReachableWith.step h trivial hs

end Invariants

section Runs

variable (m)

/-- The state a list of actions leads to. -/
def run : S → List A → Option S
  | s, [] => some s
  | s, a :: as => (m.step s a).bind fun s' => run s' as

/-- Every state visited by a run satisfies the property. -/
def Always (P : S → Prop) : S → List A → Prop
  | s, [] => P s
  | s, a :: as => P s ∧ ∀ s', m.step s a = some s' → Always P s' as

/-- Every step taken by a run meets the condition. -/
def Each (ok : S → A → Prop) : S → List A → Prop
  | _, [] => True
  | s, a :: as => ∀ s', m.step s a = some s' → ok s a ∧ Each ok s' as

variable {m} {ok : S → A → Prop} {B P : S → Prop} {s s' : S} {as : List A}

@[simp] theorem run_nil : m.run s [] = some s := rfl

theorem run_cons {a : A} : m.run s (a :: as) = (m.step s a).bind fun s' => m.run s' as := rfl

theorem Always.head (h : m.Always P s as) : P s := by
  cases as with
  | nil => exact h
  | cons a as => exact h.1

theorem Always.last (h : m.Always P s as) (hr : m.run s as = some s') : P s' := by
  induction as generalizing s with
  | nil => exact (Option.some.inj hr) ▸ h
  | cons a as ih =>
    rw [run_cons] at hr
    obtain ⟨t, ht, hr⟩ := Option.bind_eq_some_iff.mp hr
    exact ih (h.2 t ht) hr

theorem Reachable.run (h : m.Reachable s) (hr : m.run s as = some s') : m.Reachable s' := by
  induction as generalizing s with
  | nil => exact (Option.some.inj hr) ▸ h
  | cons a as ih =>
    rw [run_cons] at hr
    obtain ⟨t, ht, hr⟩ := Option.bind_eq_some_iff.mp hr
    exact ih (h.step ht) hr

theorem ReachableWith.run (h : m.ReachableWith ok s) (he : m.Each ok s as)
    (hr : m.run s as = some s') : m.ReachableWith ok s' := by
  induction as generalizing s with
  | nil => exact (Option.some.inj hr) ▸ h
  | cons a as ih =>
    rw [run_cons] at hr
    obtain ⟨t, ht, hr⟩ := Option.bind_eq_some_iff.mp hr
    exact ih (h.step (he t ht).1 ht) (he t ht).2 hr

instance decidableEach [∀ s a, Decidable (ok s a)] :
    (s : S) → (as : List A) → Decidable (m.Each ok s as)
  | _, [] => .isTrue trivial
  | s, a :: as =>
    match hstep : m.step s a with
    | none => .isTrue fun s' hs => by rw [hstep] at hs; cases hs
    | some s' =>
      have := decidableEach s' as
      decidable_of_iff (ok s a ∧ m.Each ok s' as)
        ⟨fun h t ht => by rw [hstep] at ht; cases ht; exact h, fun h => h s' hstep⟩

/-- A decidable property of a run's last state, by evaluating the run. -/
theorem exists_of_run {t : List A} {p : S → Prop} [DecidablePred p]
    (h : (m.run s t).any (fun s' => decide (p s')) = true) :
    ∃ s', m.run s t = some s' ∧ p s' := by
  obtain ⟨s', hs, hp⟩ := (Option.any_eq_true _ _).mp h
  exact ⟨s', hs, of_decide_eq_true hp⟩

/-- When a step keeps the property exactly if it meets the condition, a run keeps it
throughout exactly if all its steps do. -/
theorem always_iff_each (hB : ∀ s a s', B s → m.step s a = some s' → B s')
    (hP : ∀ s a s', B s → P s → m.step s a = some s' → (P s' ↔ ok s a))
    (hs : B s) (hp : P s) : m.Always P s as ↔ m.Each ok s as := by
  induction as generalizing s with
  | nil => exact ⟨fun _ => trivial, fun _ => hp⟩
  | cons a as ih =>
    constructor
    · rintro ⟨-, h⟩ s' hstep
      have hp' := (h s' hstep).head
      exact ⟨(hP s a s' hs hp hstep).mp hp', (ih (hB s a s' hs hstep) hp').mp (h s' hstep)⟩
    · intro h
      refine ⟨hp, fun s' hstep => ?_⟩
      obtain ⟨hok, hrest⟩ := h s' hstep
      have hp' := (hP s a s' hs hp hstep).mpr hok
      exact (ih (hB s a s' hs hstep) hp').mpr hrest

end Runs

end Machine

end Transition
