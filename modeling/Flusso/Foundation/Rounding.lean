import Flusso.Foundation.BinaryFloat
import Mathlib.Algebra.Order.Field.Power
import Mathlib.Algebra.Order.Field.Rat
import Mathlib.Data.Int.Log
import Mathlib.Data.Rat.Floor
import Mathlib.Tactic.FieldSimp
import Mathlib.Tactic.Linarith
import Mathlib.Tactic.Positivity
import Mathlib.Tactic.Ring

/-! # What rounding to binary floating point depends on

Rounding sees the rational alone, not how it is written as a fraction, and
takes whatever is close enough to a number of the format to that number.
-/

namespace BinaryFloat

section Powers

variable {b : ℕ}

theorem zpow_eq_div (hb : 0 < b) (k : ℤ) : (b : ℚ) ^ k = b ^ k.toNat / b ^ (-k).toNat := by
  have hne : (b : ℚ) ≠ 0 := by exact_mod_cast hb.ne'
  rcases le_total 0 k with hk | hk
  · obtain ⟨n, rfl⟩ := Int.eq_ofNat_of_zero_le hk
    simp
  · obtain ⟨n, hn⟩ := Int.eq_ofNat_of_zero_le (neg_nonneg.mpr hk)
    obtain rfl : k = -n := by omega
    simp

theorem mul_pow_le_iff (hb : 0 < b) {n d : ℕ} (hd : 0 < d) (k : ℤ) :
    d * b ^ k.toNat ≤ n * b ^ (-k).toNat ↔ (b : ℚ) ^ k ≤ n / d := by
  have hpos : (0 : ℚ) < d := by exact_mod_cast hd
  have hpow : (0 : ℚ) < (b : ℚ) ^ (-k).toNat := by positivity
  rw [zpow_eq_div hb, div_le_div_iff₀ hpow hpos, mul_comm ((b : ℚ) ^ k.toNat)]
  exact_mod_cast Iff.rfl

theorem log_div (hb : 1 < b) {n d : ℕ} {k : ℤ} (hn : 0 < n) (hd : 0 < d)
    (hk : k = Nat.log b n - Nat.log b d) :
    Int.log b ((n : ℚ) / d) = if d * b ^ k.toNat ≤ n * b ^ (-k).toNat then k else k - 1 := by
  have hpos : (0 : ℚ) < n / d := by positivity
  have hb0 : (b : ℚ) ≠ 0 := by exact_mod_cast (by omega : b ≠ 0)
  have hbpos : (0 : ℚ) < b := by exact_mod_cast (by omega : 0 < b)
  have hnlow : (b : ℚ) ^ (Nat.log b n : ℤ) ≤ n := by exact_mod_cast Nat.pow_log_le_self b hn.ne'
  have hnhigh : (n : ℚ) < (b : ℚ) ^ ((Nat.log b n : ℤ) + 1) := by
    exact_mod_cast Nat.lt_pow_succ_log_self hb n
  have hdlow : (b : ℚ) ^ (Nat.log b d : ℤ) ≤ d := by exact_mod_cast Nat.pow_log_le_self b hd.ne'
  have hdhigh : (d : ℚ) < (b : ℚ) ^ ((Nat.log b d : ℤ) + 1) := by
    exact_mod_cast Nat.lt_pow_succ_log_self hb d
  have hlow : k - 1 ≤ Int.log b ((n : ℚ) / d) := by
    rw [← Int.zpow_le_iff_le_log hb hpos, le_div_iff₀ (by exact_mod_cast hd)]
    calc (b : ℚ) ^ (k - 1) * d ≤ (b : ℚ) ^ (k - 1) * (b : ℚ) ^ ((Nat.log b d : ℤ) + 1) := by
          gcongr
      _ = (b : ℚ) ^ (Nat.log b n : ℤ) := by
          rw [← zpow_add₀ hb0]
          congr 1
          omega
      _ ≤ n := hnlow
  have hhigh : Int.log b ((n : ℚ) / d) < k + 1 := by
    rw [← Int.lt_zpow_iff_log_lt hb hpos, div_lt_iff₀ (by exact_mod_cast hd)]
    calc (n : ℚ) < (b : ℚ) ^ ((Nat.log b n : ℤ) + 1) := hnhigh
      _ = (b : ℚ) ^ (k + 1) * (b : ℚ) ^ (Nat.log b d : ℤ) := by
          rw [← zpow_add₀ hb0]
          congr 1
          omega
      _ ≤ (b : ℚ) ^ (k + 1) * d := by gcongr
  split
  · next h =>
    have := (Int.zpow_le_iff_le_log hb hpos).mp ((mul_pow_le_iff (by omega) hd k).mp h)
    omega
  · next h =>
    have : ¬ k ≤ Int.log b ((n : ℚ) / d) := fun hle =>
      h ((mul_pow_le_iff (by omega) hd k).mpr ((Int.zpow_le_iff_le_log hb hpos).mpr hle))
    omega

theorem floorLog_eq_log {n d : ℕ} (hn : 0 < n) (hd : 0 < d) :
    floorLog n d = Int.log 2 ((n : ℚ) / d) := (log_div (by decide) hn hd rfl).symm

end Powers

section Rounding

theorem roundHalfEven_eq {n d m : ℕ} (h : 2 * n < (2 * m + 1) * d) (h' : 2 * m * d < 2 * n + d) :
    roundHalfEven n d = m := by
  have hdiv : d * (n / d) + n % d = n := Nat.div_add_mod n d
  have hd : 0 < d := by
    by_contra hzero
    obtain rfl : d = 0 := by omega
    omega
  have hmod : n % d < d := Nat.mod_lt n hd
  generalize hq : n / d = q at hdiv
  generalize hr : n % d = r at hdiv hmod
  have hle : q ≤ m := by
    by_contra hlt
    have : (m + 1) * d ≤ q * d := Nat.mul_le_mul_right d (by omega)
    nlinarith
  have hge : m ≤ q + 1 := by
    by_contra hlt
    have : (q + 2) * d ≤ m * d := Nat.mul_le_mul_right d (by omega)
    nlinarith
  unfold roundHalfEven
  simp only [hq, hr]
  rcases Nat.lt_or_ge q m with hlt | hge'
  · obtain rfl : m = q + 1 := by omega
    have : d < 2 * r := by nlinarith
    rw [if_neg (by omega), if_pos this]
  · obtain rfl : m = q := by omega
    have : 2 * r < d := by nlinarith
    rw [if_pos this]

theorem roundHalfEven_mul {n d c : ℕ} (hc : 0 < c) :
    roundHalfEven (n * c) (d * c) = roundHalfEven n d := by
  unfold roundHalfEven
  have hlt : ∀ a b : ℕ, a * c < b * c ↔ a < b := fun a b => Nat.mul_lt_mul_right hc
  simp only [Nat.mul_div_mul_right n d hc, Nat.mul_mod_mul_right, ← Nat.mul_assoc, hlt]

theorem ofRatio_mul {f : Format} {n d c : ℕ} (hd : 0 < d) (hc : 0 < c) :
    ofRatio f (n * c) (d * c) = ofRatio f n d := by
  rcases Nat.eq_zero_or_pos n with rfl | hn
  · simp [ofRatio]
  have hlog : floorLog (n * c) (d * c) = floorLog n d := by
    have hc' : (c : ℚ) ≠ 0 := by exact_mod_cast hc.ne'
    rw [floorLog_eq_log (Nat.mul_pos hn hc) (Nat.mul_pos hd hc), floorLog_eq_log hn hd]
    push_cast
    rw [mul_div_mul_right _ _ hc']
  unfold ofRatio
  simp only [hlog, if_neg hn.ne', if_neg (Nat.mul_pos hn hc).ne']
  rw [Nat.mul_right_comm n c, Nat.mul_right_comm d c, roundHalfEven_mul hc]

theorem ofRatio_congr {f : Format} {n d n' d' : ℕ} (hd : 0 < d) (hd' : 0 < d')
    (h : (n : ℚ) / d = n' / d') : ofRatio f n d = ofRatio f n' d' := by
  have hcross : n * d' = n' * d := by
    have hne : (d : ℚ) ≠ 0 := by exact_mod_cast hd.ne'
    have hne' : (d' : ℚ) ≠ 0 := by exact_mod_cast hd'.ne'
    rw [div_eq_div_iff hne hne'] at h
    exact_mod_cast h
  rw [← @ofRatio_mul f n d d' hd hd', hcross, Nat.mul_comm d d', ofRatio_mul hd' hd]

theorem div_zpow (n d : ℕ) (place : ℤ) :
    ((n * 2 ^ (-place).toNat : ℕ) : ℚ) / (d * 2 ^ place.toNat : ℕ) = n / d / 2 ^ place := by
  have hpow := @zpow_eq_div 2 (by decide) place
  push_cast at hpow ⊢
  rw [hpow]
  field_simp

theorem roundHalfEven_place {n d m : ℕ} {place : ℤ} (hd : 0 < d)
    (hlow : ((m : ℚ) - 1 / 2) * 2 ^ place < n / d) (hup : (n : ℚ) / d < (m + 1 / 2) * 2 ^ place) :
    roundHalfEven (n * 2 ^ (-place).toNat) (d * 2 ^ place.toNat) = m := by
  have hpos : (0 : ℚ) < 2 ^ place := by positivity
  have hunit : (0 : ℚ) < (d * 2 ^ place.toNat : ℕ) := by positivity
  rw [← lt_div_iff₀ hpos, ← div_zpow, lt_div_iff₀ hunit] at hlow
  rw [← div_lt_iff₀ hpos, ← div_zpow, div_lt_iff₀ hunit] at hup
  generalize n * 2 ^ (-place).toNat = a at *
  generalize d * 2 ^ place.toNat = b at *
  apply roundHalfEven_eq
  · have : (2 * a : ℚ) < (2 * m + 1) * b := by linarith
    exact_mod_cast this
  · have : (2 * m * b : ℚ) < 2 * a + b := by linarith
    exact_mod_cast this

theorem roundHalfEven_le {n d m : ℕ} (h : n < m * d) : roundHalfEven n d ≤ m := by
  have hq : n / d < m := Nat.div_lt_of_lt_mul (by rwa [Nat.mul_comm])
  unfold roundHalfEven
  dsimp only
  split
  · omega
  · split <;> omega

theorem ofRatio_le_of_lt {f : Format} {n d k : ℕ} (hp : 0 < f.precision) (hd : 0 < d)
    (h : (n : ℚ) / d < 2 ^ (f.precision + k + f.lastPlace)) :
    ofRatio f n d ≤ (k + 2) * 2 ^ (f.precision - 1) := by
  rcases Nat.eq_zero_or_pos n with rfl | hn
  · simp [ofRatio]
  have hpos : (0 : ℚ) < n / d := by positivity
  have hlog : Int.log 2 ((n : ℚ) / d) < f.precision + k + f.lastPlace :=
    (Int.lt_zpow_iff_log_lt (by decide) hpos).mp (by exact_mod_cast h)
  have hself := @Int.lt_zpow_succ_log_self ℚ _ _ _ _ 2 (by decide) ((n : ℚ) / d)
  unfold ofRatio
  rw [if_neg hn.ne', floorLog_eq_log hn hd]
  generalize Int.log 2 ((n : ℚ) / d) = log at hlog hself
  generalize hplace : max (log - (f.precision - 1)) f.lastPlace = place
  have hround : roundHalfEven (n * 2 ^ (-place).toNat) (d * 2 ^ place.toNat) ≤ 2 ^ f.precision := by
    apply roundHalfEven_le
    have hunit : (0 : ℚ) < (d * 2 ^ place.toNat : ℕ) := by positivity
    have hratio : (n : ℚ) / d / 2 ^ place < 2 ^ f.precision := by
      rw [div_lt_iff₀ (by positivity), ← zpow_natCast, ← zpow_add₀ (by norm_num)]
      apply lt_of_lt_of_le hself
      push_cast
      exact zpow_le_zpow_right₀ (by norm_num) (by omega)
    rw [← div_zpow, div_lt_iff₀ hunit] at hratio
    exact_mod_cast hratio
  have hsplit : 2 ^ f.precision = 2 * 2 ^ (f.precision - 1) := by
    rw [← Nat.pow_succ', Nat.succ_eq_add_one, Nat.sub_add_cancel hp]
  have hscale : (place - f.lastPlace).toNat ≤ k := by omega
  calc min _ f.infinity ≤ (place - f.lastPlace).toNat * 2 ^ (f.precision - 1) + 2 ^ f.precision :=
        (Nat.min_le_left _ _).trans (Nat.add_le_add_left hround _)
    _ ≤ k * 2 ^ (f.precision - 1) + 2 * 2 ^ (f.precision - 1) := by
        rw [hsplit]
        gcongr
    _ = (k + 2) * 2 ^ (f.precision - 1) := by ring

end Rounding

section Nearness

variable {f : Format} {n d k s : ℕ}

theorem ofRatio_of_place {m : ℕ} {place : ℤ} (hn : 0 < n) (hd : 0 < d)
    (hplace : max (Int.log 2 ((n : ℚ) / d) - (f.precision - 1)) f.lastPlace = place)
    (hlow : ((m : ℚ) - 1 / 2) * 2 ^ place < n / d) (hup : (n : ℚ) / d < (m + 1 / 2) * 2 ^ place) :
    ofRatio f n d =
      min ((place - f.lastPlace).toNat * 2 ^ (f.precision - 1) + m) f.infinity := by
  unfold ofRatio
  simp only [if_neg hn.ne', floorLog_eq_log hn hd, hplace, roundHalfEven_place hd hlow hup]

/-- A rational within half a last place of a number of the format is rounded to it; below a power
of two the places are half as far apart. -/
theorem ofRatio_of_near (hp : 0 < f.precision) (hd : 0 < d) (hs : s < 2 ^ f.precision)
    (hk : k = 0 ∨ 2 ^ (f.precision - 1) ≤ s)
    (hlow : ((s : ℚ) - 1 / 2) * 2 ^ (k + f.lastPlace) < n / d)
    (hlow' : s = 2 ^ (f.precision - 1) → ((s : ℚ) - 1 / 4) * 2 ^ (k + f.lastPlace) < n / d)
    (hup : (n : ℚ) / d < (s + 1 / 2) * 2 ^ (k + f.lastPlace)) :
    ofRatio f n d = min (k * 2 ^ (f.precision - 1) + s) f.infinity := by
  have hunit : (0 : ℚ) < 2 ^ (k + f.lastPlace) := by positivity
  rcases Nat.eq_zero_or_pos n with rfl | hn
  · have hsmall : (s : ℚ) < 1 := by
      have : ((s : ℚ) - 1 / 2) < 0 := by
        by_contra hge
        have := mul_nonneg (not_lt.mp hge) hunit.le
        simp at hlow
        linarith
      linarith
    have hs0 : s = 0 := by
      have : s < 1 := by exact_mod_cast hsmall
      omega
    have hk0 : k = 0 := hk.resolve_right (by
      have : 0 < 2 ^ (f.precision - 1) := by positivity
      omega)
    simp [ofRatio, hs0, hk0]
  have hpos : (0 : ℚ) < n / d := by positivity
  have hsplit : (2 : ℚ) ^ f.precision = 2 * 2 ^ (f.precision - 1) := by
    rw [← pow_succ', Nat.sub_add_cancel hp]
  have hs' : (s : ℚ) + 1 ≤ 2 * 2 ^ (f.precision - 1) := by
    rw [← hsplit]
    exact_mod_cast hs
  -- The rational is below the next power of two.
  have hlt : Int.log 2 ((n : ℚ) / d) < f.precision + k + f.lastPlace := by
    apply (Int.lt_zpow_iff_log_lt (by decide) hpos).mp
    calc (n : ℚ) / d < (s + 1 / 2) * 2 ^ (k + f.lastPlace) := hup
      _ ≤ 2 ^ f.precision * 2 ^ (k + f.lastPlace) := by
          apply mul_le_mul_of_nonneg_right _ hunit.le
          rw [hsplit]
          linarith
      _ = ((2 : ℕ) : ℚ) ^ (f.precision + k + f.lastPlace) := by
          push_cast
          rw [← zpow_natCast, ← zpow_add₀ (by norm_num), add_assoc]
  have hle_iff (e : ℤ) : e ≤ Int.log 2 ((n : ℚ) / d) ↔ (2 : ℚ) ^ e ≤ n / d := by
    rw [← Int.zpow_le_iff_le_log (by decide) hpos]
    norm_num
  by_cases hbinade : k = 0 ∨ (2 : ℚ) ^ (f.precision - 1 + k + f.lastPlace : ℤ) ≤ n / d
  · have hplace : max (Int.log 2 ((n : ℚ) / d) - (f.precision - 1)) f.lastPlace =
        k + f.lastPlace := by
      rcases hbinade with rfl | hle
      · omega
      · have := (hle_iff _).mpr hle
        omega
    have hscale : (k + f.lastPlace - f.lastPlace : ℤ).toNat = k := by omega
    rw [ofRatio_of_place hn hd hplace hlow hup, hscale]
  · obtain ⟨hk0, hbelow⟩ := not_or.mp hbinade
    have hpower : (2 : ℚ) ^ (f.precision - 1 + k + f.lastPlace : ℤ) =
        2 ^ (f.precision - 1) * 2 ^ (k + f.lastPlace) := by
      rw [← zpow_natCast, ← zpow_add₀ (by norm_num)]
      congr 1
      omega
    rw [hpower, not_le] at hbelow
    have hle := hk.resolve_left hk0
    -- Only the power of two itself has numbers below it that are rounded to it.
    have heq : s = 2 ^ (f.precision - 1) := by
      by_contra hne
      have hlt' : (2 : ℚ) ^ (f.precision - 1) + 1 ≤ s := by
        exact_mod_cast (by omega : 2 ^ (f.precision - 1) + 1 ≤ s)
      have hmul := mul_le_mul_of_nonneg_right (by linarith :
        (2 : ℚ) ^ (f.precision - 1) ≤ (s : ℚ) - 1 / 2) hunit.le
      linarith
    have hlow := hlow' heq
    have hcast : (s : ℚ) = 2 ^ (f.precision - 1) := by rw [heq]; push_cast; rfl
    have hone : (1 : ℚ) ≤ 2 ^ (f.precision - 1) := one_le_pow₀ (by norm_num)
    have hhalf : (2 : ℚ) ^ (k + f.lastPlace) = 2 * 2 ^ (k - 1 + f.lastPlace : ℤ) := by
      rw [← zpow_one_add₀ (by norm_num)]
      congr 1
      omega
    have hunit' : (0 : ℚ) < 2 ^ (k - 1 + f.lastPlace : ℤ) := by positivity
    rw [hcast, hhalf] at hlow
    rw [hhalf] at hbelow
    have hlow₂ : (((2 * 2 ^ (f.precision - 1) : ℕ) : ℚ) - 1 / 2) * 2 ^ (k - 1 + f.lastPlace : ℤ) <
        n / d := by
      push_cast
      linarith
    have hup₂ : (n : ℚ) / d <
        (((2 * 2 ^ (f.precision - 1) : ℕ) : ℚ) + 1 / 2) * 2 ^ (k - 1 + f.lastPlace : ℤ) := by
      push_cast
      linarith
    have hge : (f.precision - 1 + (k - 1) + f.lastPlace : ℤ) ≤ Int.log 2 ((n : ℚ) / d) := by
      rw [hle_iff, show (f.precision - 1 + (k - 1) + f.lastPlace : ℤ) =
        ((f.precision - 1 : ℕ) : ℤ) + (k - 1 + f.lastPlace) by omega, zpow_add₀ (by norm_num),
        zpow_natCast]
      apply le_of_lt (lt_of_le_of_lt _ hlow₂)
      apply mul_le_mul_of_nonneg_right _ hunit'.le
      push_cast
      linarith
    have hlt₂ : Int.log 2 ((n : ℚ) / d) < f.precision - 1 + k + f.lastPlace := by
      rw [← not_le, hle_iff, hpower, not_le, hhalf]
      exact hbelow
    have hplace : max (Int.log 2 ((n : ℚ) / d) - (f.precision - 1)) f.lastPlace =
        k - 1 + f.lastPlace := by omega
    have hscale : ((k - 1 + f.lastPlace : ℤ) - f.lastPlace).toNat = k - 1 := by omega
    have hcarry : (k - 1) * 2 ^ (f.precision - 1) + 2 * 2 ^ (f.precision - 1) =
        k * 2 ^ (f.precision - 1) + 2 ^ (f.precision - 1) := by
      obtain ⟨j, rfl⟩ := Nat.exists_eq_succ_of_ne_zero hk0
      rw [Nat.succ_sub_one, show j.succ = j + 1 from rfl, Nat.add_mul, Nat.one_mul]
      omega
    rw [ofRatio_of_place hn hd hplace hlow₂ hup₂, heq, hscale, hcarry]

end Nearness

end BinaryFloat
