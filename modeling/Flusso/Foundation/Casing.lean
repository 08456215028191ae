import Mathlib

/-! # Changing the case of letters

Only letters change, and they change to letters. The lemmas on the case of ASCII
letters come with the whole library only.
-/

namespace Casing

variable {c d : Char}

theorem toUpper_eq_self (h : c.isAlpha = false) : c.toUpper = c := by
  apply Char.toUpper_eq_of_not_isLower
  intro hlower
  simp [Char.isAlpha, hlower] at h

theorem toLower_eq_self (h : c.isAlpha = false) : c.toLower = c := by
  apply Char.toLower_eq_of_not_isUpper
  intro hupper
  simp [Char.isAlpha, hupper] at h

theorem toUpper_eq_iff (hd : d.isAlpha = false) : c.toUpper = d ↔ c = d := by
  constructor
  · intro h
    rw [← h, Char.isAlpha_toUpper_eq_isAlpha] at hd
    rw [← h, toUpper_eq_self hd]
  · rintro rfl
    exact toUpper_eq_self hd

theorem toLower_eq_iff (hd : d.isAlpha = false) : c.toLower = d ↔ c = d := by
  constructor
  · intro h
    rw [← h, Char.isAlpha_toLower_eq_isAlpha] at hd
    rw [← h, toLower_eq_self hd]
  · rintro rfl
    exact toLower_eq_self hd

end Casing
