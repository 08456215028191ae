import Flusso.Foundation.Rounding
import Flusso.Kernel.Display

/-! # Shortest digits read back

Among seventeen digits there are always some that round to the number they are
the digits of, and so the shortest such digits tell finite numbers apart.
-/

namespace BinaryFloat

section Parts

/-- A number of a format by its significand and the place above the last one. -/
structure Parts (f : Format) (bits s k : ℕ) : Prop where
  bits_eq : bits = k * 2 ^ (f.precision - 1) + s
  significand_lt : s < 2 ^ f.precision
  normal : k = 0 ∨ 2 ^ (f.precision - 1) ≤ s
  ratio_eq : ratio f bits =
    (s * 2 ^ (f.lastPlace + k).toNat, 2 ^ (-(f.lastPlace + k)).toNat)

variable {f : Format} {bits s k : ℕ}

theorem exists_parts (hp : 0 < f.precision) (bits : ℕ) : ∃ s k, Parts f bits s k := by
  have hsplit : 2 ^ f.precision = 2 * 2 ^ (f.precision - 1) := by
    rw [← Nat.pow_succ', Nat.succ_eq_add_one, Nat.sub_add_cancel hp]
  have hpos : 0 < 2 ^ (f.precision - 1) := by positivity
  have hbits := Nat.div_add_mod bits (2 ^ (f.precision - 1))
  have hmod := Nat.mod_lt bits hpos
  rcases Nat.eq_zero_or_pos (bits / 2 ^ (f.precision - 1)) with hzero | hfield
  · refine ⟨bits % 2 ^ (f.precision - 1), 0, ?_, by omega, Or.inl rfl, ?_⟩
    · rw [hzero] at hbits
      omega
    · simp [ratio, hzero]
  · refine ⟨bits % 2 ^ (f.precision - 1) + 2 ^ (f.precision - 1), bits / 2 ^ (f.precision - 1) - 1,
      ?_, by omega, Or.inr (by omega), ?_⟩
    · obtain ⟨j, hj⟩ := Nat.exists_eq_succ_of_ne_zero hfield.ne'
      rw [hj, Nat.succ_eq_add_one, Nat.mul_add, Nat.mul_one, Nat.mul_comm] at hbits
      rw [hj, Nat.succ_sub_one]
      omega
    · simp [ratio, hfield.ne']

theorem Parts.value (h : Parts f bits s k) :
    ((ratio f bits).1 : ℚ) / (ratio f bits).2 = s * 2 ^ (k + f.lastPlace) := by
  have hpow := @zpow_eq_div 2 (by decide) (f.lastPlace + k)
  push_cast at hpow
  rw [h.ratio_eq, add_comm (k : ℤ), hpow]
  push_cast
  rw [mul_div_assoc]

/-- What is closer to a number than half of seventeen digits' precision is rounded to it. -/
theorem Parts.ofRatio_eq (h : Parts f bits s k) (hp : 0 < f.precision)
    (hten : 2 ^ f.precision < 10 ^ 16) (hs : 0 < s) (hfinite : bits ≤ f.infinity) {n d : ℕ}
    (hd : 0 < d)
    (hnear : |(n : ℚ) / d - s * 2 ^ (k + f.lastPlace)| ≤
      s * 2 ^ (k + f.lastPlace) / (2 * 10 ^ 16)) :
    ofRatio f n d = bits := by
  have hunit : (0 : ℚ) < 2 ^ (k + f.lastPlace) := by positivity
  have hs' : (s : ℚ) < 10 ^ 16 := by exact_mod_cast h.significand_lt.trans hten
  have hhalf : (s : ℚ) * 2 ^ (k + f.lastPlace) / (2 * 10 ^ 16) < 1 / 2 * 2 ^ (k + f.lastPlace) := by
    rw [div_lt_iff₀ (by norm_num)]
    nlinarith
  obtain ⟨hlow, hup⟩ := abs_le.mp hnear
  rw [ofRatio_of_near hp hd h.significand_lt h.normal, ← h.bits_eq, Nat.min_eq_left hfinite]
  · linarith
  · intro hpower
    have hquarter : (s : ℚ) * 2 ^ (k + f.lastPlace) / (2 * 10 ^ 16) <
        1 / 4 * 2 ^ (k + f.lastPlace) := by
      have hsplit : 2 ^ f.precision = 2 * 2 ^ (f.precision - 1) := by
        rw [← Nat.pow_succ', Nat.succ_eq_add_one, Nat.sub_add_cancel hp]
      have hs₂ : (2 * s : ℚ) < 10 ^ 16 := by
        exact_mod_cast (by omega : 2 * s < 10 ^ 16)
      rw [div_lt_iff₀ (by norm_num)]
      nlinarith
    linarith
  · linarith

end Parts

section Digits

variable {f : Format} {bits n d places : ℕ}

theorem floorLog10_eq_log (hn : 0 < n) (hd : 0 < d) :
    floorLog10 n d = Int.log 10 ((n : ℚ) / d) := (log_div (by decide) hn hd rfl).symm

/-- Digits with the power of ten of their last place read back as the bits. -/
def ReadsBack (f : Format) (bits : ℕ) (digits : ℕ × ℤ) : Prop :=
  ofRatio f (digits.1 * 10 ^ digits.2.toNat) (10 ^ (-digits.2).toNat) = bits

theorem readsBack_of_digitsTo {digits : ℕ × ℤ} (h : digitsTo f bits n d places = some digits) :
    ReadsBack f bits digits := by
  unfold digitsTo at h
  dsimp only at h
  split at h
  · next hdown hup =>
    split at h
    · obtain rfl := Option.some.inj h
      have hdown := of_decide_eq_true hdown
      exact hdown
    · obtain rfl := Option.some.inj h
      have hup := of_decide_eq_true hup
      exact hup
  · next hdown hup =>
    obtain rfl := Option.some.inj h
    have hdown := of_decide_eq_true hdown
    exact hdown
  · next hdown hup =>
    obtain rfl := Option.some.inj h
    have hup := of_decide_eq_true hup
    exact hup
  · cases h

/-- Some seventeen digits read back. -/
theorem exists_digitsTo (hp : 0 < f.precision) (hten : 2 ^ f.precision < 10 ^ 16)
    (hbits : 0 < bits) (hfinite : bits ≤ f.infinity) :
    ∃ digits, digitsTo f bits (ratio f bits).1 (ratio f bits).2 17 = some digits := by
  obtain ⟨s, k, hparts⟩ := exists_parts hp bits
  have hvalue := hparts.value
  have hs : 0 < s := by
    rcases Nat.eq_zero_or_pos s with rfl | hs
    · have := hparts.normal
      have : 0 < 2 ^ (f.precision - 1) := by positivity
      have hk : k = 0 := by omega
      have := hparts.bits_eq
      simp [hk] at this
      omega
    · exact hs
  have hn : 0 < (ratio f bits).1 := by
    rw [hparts.ratio_eq]
    positivity
  have hd : 0 < (ratio f bits).2 := by
    rw [hparts.ratio_eq]
    positivity
  generalize (ratio f bits).1 = n at hvalue hn
  generalize (ratio f bits).2 = d at hvalue hd
  have hpos : (0 : ℚ) < n / d := by positivity
  set power := floorLog10 n d - 16 with hpower
  have hstep : (10 : ℚ) ^ power * 10 ^ 16 ≤ n / d := by
    have hself := @Int.zpow_log_le_self ℚ _ _ _ _ 10 _ (by decide) hpos
    rw [← floorLog10_eq_log hn hd] at hself
    rw [← zpow_natCast, ← zpow_add₀ (by norm_num)]
    simpa [hpower] using hself
  have hstep_pos : (0 : ℚ) < 10 ^ power := by positivity
  have hunit : 0 < d * 10 ^ power.toNat := by positivity
  have hscaled : ((n * 10 ^ (-power).toNat : ℕ) : ℚ) / (d * 10 ^ power.toNat : ℕ) =
      n / d / 10 ^ power := by
    have hpow := @zpow_eq_div 10 (by decide) power
    push_cast at hpow ⊢
    rw [hpow]
    field_simp
  set down := n * 10 ^ (-power).toNat / (d * 10 ^ power.toNat) with hdown
  have hcandidate (digits : ℕ)
      (h : |(digits : ℚ) * 10 ^ power - n / d| ≤ 10 ^ power / 2) :
      ofRatio f (digits * 10 ^ power.toNat) (10 ^ (-power).toNat) = bits := by
    apply hparts.ofRatio_eq hp hten hs hfinite (by positivity)
    have hpow := @zpow_eq_div 10 (by decide) power
    push_cast at hpow ⊢
    rw [mul_div_assoc, ← hpow, ← hvalue]
    apply h.trans
    rw [div_le_div_iff₀ (by norm_num) (by norm_num)]
    linarith
  have hle : (down : ℚ) * 10 ^ power ≤ n / d := by
    rw [← le_div_iff₀ hstep_pos, ← hscaled, le_div_iff₀ (by exact_mod_cast hunit)]
    exact_mod_cast Nat.div_mul_le_self _ _
  have hlt : (n : ℚ) / d < (down + 1) * 10 ^ power := by
    rw [← div_lt_iff₀ hstep_pos, ← hscaled, div_lt_iff₀ (by exact_mod_cast hunit)]
    have hsucc := Nat.lt_mul_div_succ (n * 10 ^ (-power).toNat) hunit
    rw [← hdown, Nat.mul_comm (d * 10 ^ power.toNat)] at hsucc
    exact_mod_cast hsucc
  have hreads : ofRatio f (down * 10 ^ power.toNat) (10 ^ (-power).toNat) = bits ∨
      ofRatio f ((down + 1) * 10 ^ power.toNat) (10 ^ (-power).toNat) = bits := by
    rcases le_total ((n : ℚ) / d - down * 10 ^ power) (10 ^ power / 2) with hnear | hfar
    · left
      apply hcandidate
      rw [abs_le]
      constructor <;> linarith
    · right
      apply hcandidate
      push_cast
      rw [abs_le]
      constructor <;> linarith
  unfold digitsTo
  simp only [show floorLog10 n d - ((17 - 1 : ℕ) : ℤ) = power from rfl, ← hdown]
  split
  · exact ⟨_, rfl⟩
  · exact ⟨_, rfl⟩
  · exact ⟨_, rfl⟩
  · next hdown' hup' =>
    rcases hreads with h | h
    · exact absurd h (of_decide_eq_false hdown')
    · exact absurd h (of_decide_eq_false hup')

theorem readsBack_shortestDigits (hp : 0 < f.precision) (hten : 2 ^ f.precision < 10 ^ 16)
    (hbits : 0 < bits) (hfinite : bits ≤ f.infinity) : ReadsBack f bits (shortestDigits f bits) := by
  obtain ⟨digits, hdigits⟩ := exists_digitsTo hp hten hbits hfinite
  have hsome : ((List.range 17).findSome? fun i =>
      digitsTo f bits (ratio f bits).1 (ratio f bits).2 (i + 1)).isSome = true := by
    rw [List.findSome?_isSome_iff]
    exact ⟨16, by simp, by rw [hdigits]; rfl⟩
  obtain ⟨found, hfound⟩ := Option.isSome_iff_exists.mp hsome
  have hshortest : shortestDigits f bits = found := by
    simp [shortestDigits, hfound]
  obtain ⟨i, -, hi⟩ := List.exists_of_findSome?_eq_some hfound
  rw [hshortest]
  exact readsBack_of_digitsTo hi

end Digits

end BinaryFloat
