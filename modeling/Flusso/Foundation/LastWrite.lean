import Mathlib.Data.List.Basic

/-! # The last write to a key

A log of writes determines each key by the last write to it: appending a log
overrides the keys it writes, and replaying writes that the log contains anyway
changes nothing.
-/

namespace LastWrite

universe u v

variable {W : Type u} {K : Type v} [DecidableEq K] (key : W → K)

/-- The last write of a log to a key. -/
def last (k : K) (ws : List W) : Option W := (ws.filter fun w => key w = k).getLast?

variable {key} {k : K} {w : W} {ws vs : List W}

@[simp] theorem last_nil : last key k [] = none := rfl

theorem last_append : last key k (ws ++ vs) = (last key k vs).or (last key k ws) := by
  rw [last, List.filter_append, List.getLast?_append]
  rfl

theorem last_eq_none : last key k ws = none ↔ ∀ w ∈ ws, key w ≠ k := by
  simp [last]

theorem mem_of_last_eq_some (h : last key k ws = some w) : w ∈ ws ∧ key w = k := by
  simpa using List.mem_filter.mp (List.mem_of_getLast? h)

/-- Writes replayed before a log that contains them do not show. -/
theorem last_append_of_subset (h : ∀ w ∈ vs, w ∈ ws) :
    last key k (vs ++ ws) = last key k ws := by
  rw [last_append]
  cases hws : last key k ws with
  | some w => rfl
  | none =>
    have hvs : last key k vs = none :=
      last_eq_none.mpr fun w hw => last_eq_none.mp hws w (h w hw)
    rw [hvs, Option.or_none]

theorem last_flatMap_congr {R : Type*} {rs : List R} {f g : R → List W}
    (h : ∀ r ∈ rs, last key k (f r) = last key k (g r)) :
    last key k (rs.flatMap f) = last key k (rs.flatMap g) := by
  induction rs with
  | nil => rfl
  | cons r rs ih =>
    rw [List.flatMap_cons, List.flatMap_cons, last_append, last_append, h r List.mem_cons_self,
      ih fun r hr => h r (List.mem_cons_of_mem _ hr)]

end LastWrite
