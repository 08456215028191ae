import Flusso.Foundation.Separators
import Flusso.Kernel.Numerals
import Flusso.Kernel.ShortestDigits
import Std.Data.String.ToInt

/-! # Texts tell values apart

Within each kind of scalar, values with one text are equal, and every text has
the same number of colons.
-/

namespace Flusso

section Numbers

theorem fixedValue_of_fixedText {m n : ℕ} {j k : ℤ} (h : fixedText m j = fixedText n k) :
    fixedValue m j = fixedValue n k := by
  have hm := numeral_fixedText false m j
  have hn := numeral_fixedText false n k
  rw [h, hn] at hm
  simpa [signedValue] using hm.symm

theorem readsBack_inj {f : BinaryFloat.Format} {a b : ℕ} {p q : ℕ × ℤ}
    (ha : BinaryFloat.ReadsBack f a p) (hb : BinaryFloat.ReadsBack f b q)
    (h : fixedValue p.1 p.2 = fixedValue q.1 q.2) : a = b := by
  rw [← ha, ← hb]
  apply BinaryFloat.ofRatio_congr (by positivity) (by positivity)
  push_cast
  exact h

/-- The digits a finite magnitude is written with. -/
def magnitudeDigits (f : BinaryFloat.Format) (magnitude : ℕ) : ℕ × ℤ :=
  if magnitude = 0 then (0, 0) else BinaryFloat.shortestDigits f magnitude

theorem floatText_eq {f : BinaryFloat.Format} {signBit bits : ℕ}
    (h : bits % signBit ≤ f.infinity) : floatText f signBit bits =
      (if signBit ≤ bits then "-" else "") ++
        if bits % signBit = f.infinity then "inf"
        else fixedText (magnitudeDigits f (bits % signBit)).1
          (magnitudeDigits f (bits % signBit)).2 := by
  unfold floatText magnitudeDigits
  simp only [if_neg (not_lt.mpr h)]
  split
  · rfl
  · split
    · rfl
    · rfl

theorem readsBack_magnitudeDigits {f : BinaryFloat.Format} (hp : 0 < f.precision)
    (hten : 2 ^ f.precision < 10 ^ 16) {magnitude : ℕ} (h : magnitude ≤ f.infinity) :
    BinaryFloat.ReadsBack f magnitude (magnitudeDigits f magnitude) := by
  unfold magnitudeDigits
  split
  · next hzero => simp [BinaryFloat.ReadsBack, BinaryFloat.ofRatio, hzero]
  · next hzero =>
    exact BinaryFloat.readsBack_shortestDigits hp hten (Nat.pos_of_ne_zero hzero) h

theorem head_fixedText (digits : ℕ) (power : ℤ) :
    ∃ c text, (fixedText digits power).toList = c :: text ∧ c.isDigit = true := by
  have hhead := isDigit_head_fixedText digits power
  obtain ⟨n, scale, hparse, -⟩ := parseFixed_fixedText digits power
  cases htext : (fixedText digits power).toList with
  | nil =>
    rw [htext] at hparse
    simp [parseFixed, guard] at hparse
  | cons c text => exact ⟨c, text, rfl, hhead c (by rw [htext]; rfl)⟩

theorem head_magnitude (f : BinaryFloat.Format) (magnitude : ℕ) (digits : ℕ × ℤ) :
    ∃ c text, (if magnitude = f.infinity then "inf" else fixedText digits.1 digits.2).toList =
      c :: text ∧ c ≠ '-' ∧ c ≠ 'N' := by
  split
  · exact ⟨'i', ['n', 'f'], rfl, by decide, by decide⟩
  · obtain ⟨c, text, htext, hdigit⟩ := head_fixedText digits.1 digits.2
    refine ⟨c, text, htext, ?_, ?_⟩
    · rintro rfl
      exact absurd hdigit (by decide)
    · rintro rfl
      exact absurd hdigit (by decide)

theorem sign_append_inj {p q : Prop} [Decidable p] [Decidable q] {a b : String}
    (ha : ∃ c text, a.toList = c :: text ∧ c ≠ '-' ∧ c ≠ 'N')
    (hb : ∃ c text, b.toList = c :: text ∧ c ≠ '-' ∧ c ≠ 'N')
    (h : (if p then "-" else "") ++ a = (if q then "-" else "") ++ b) : (p ↔ q) ∧ a = b := by
  obtain ⟨c, cs, hc, hc', -⟩ := ha
  obtain ⟨d, ds, hd, hd', -⟩ := hb
  have hlist := congrArg String.toList h
  rw [String.toList_append, String.toList_append, hc, hd] at hlist
  by_cases hp : p <;> by_cases hq : q <;> simp only [hp, hq, if_true, if_false] at hlist h
  · refine ⟨by simp [hp, hq], ?_⟩
    exact String.toList_inj.mp (by rw [hc, hd]; simpa using hlist)
  · simp at hlist
    exact absurd hlist.1.symm hd'
  · simp at hlist
    exact absurd hlist.1 hc'
  · refine ⟨by simp [hp, hq], ?_⟩
    exact String.toList_inj.mp (by rw [hc, hd]; simpa using hlist)

theorem eq_of_mod_eq {a b m : ℕ} (ha : a < 2 * m) (hb : b < 2 * m) (hmod : a % m = b % m)
    (hsign : m ≤ a ↔ m ≤ b) : a = b := by
  rcases Nat.lt_or_ge a m with hlt | hge
  · have hlt' : b < m := by omega
    rwa [Nat.mod_eq_of_lt hlt, Nat.mod_eq_of_lt hlt'] at hmod
  · have hge' : m ≤ b := hsign.mp hge
    rw [Nat.mod_eq_sub_mod hge, Nat.mod_eq_sub_mod hge', Nat.mod_eq_of_lt (by omega),
      Nat.mod_eq_of_lt (by omega)] at hmod
    omega

theorem floatText_inj {f : BinaryFloat.Format} {signBit a b : ℕ} (hp : 0 < f.precision)
    (hten : 2 ^ f.precision < 10 ^ 16) (ha : a < 2 * signBit) (hb : b < 2 * signBit)
    (ha' : a % signBit ≤ f.infinity) (hb' : b % signBit ≤ f.infinity)
    (h : floatText f signBit a = floatText f signBit b) : a = b := by
  rw [floatText_eq ha', floatText_eq hb'] at h
  obtain ⟨hsign, htext⟩ := sign_append_inj (head_magnitude _ _ _) (head_magnitude _ _ _) h
  apply eq_of_mod_eq ha hb _ hsign
  split at htext
  · next hinf =>
    split at htext
    · next hinf' => rw [hinf, hinf']
    · obtain ⟨c, text, hdigits, hdigit⟩ := head_fixedText (magnitudeDigits f (b % signBit)).1
        (magnitudeDigits f (b % signBit)).2
      rw [← htext] at hdigits
      injection hdigits with hc
      exact absurd (hc ▸ hdigit) (by decide)
  · split at htext
    · obtain ⟨c, text, hdigits, hdigit⟩ := head_fixedText (magnitudeDigits f (a % signBit)).1
        (magnitudeDigits f (a % signBit)).2
      rw [htext] at hdigits
      injection hdigits with hc
      exact absurd (hc ▸ hdigit) (by decide)
    · exact readsBack_inj (readsBack_magnitudeDigits hp hten ha')
        (readsBack_magnitudeDigits hp hten hb') (fixedValue_of_fixedText htext)

theorem floatText_ne_nan {f : BinaryFloat.Format} {signBit a : ℕ} (h : a % signBit ≤ f.infinity) :
    floatText f signBit a ≠ "NaN" := by
  intro heq
  obtain ⟨c, text, hc, -, hN⟩ := head_magnitude f (a % signBit) (magnitudeDigits f (a % signBit))
  rw [floatText_eq h] at heq
  have hlist := congrArg String.toList heq
  rw [String.toList_append, hc] at hlist
  split at hlist
  · simp at hlist
  · simp at hlist
    exact hN hlist.1

theorem floatText_inj_nan {f : BinaryFloat.Format} {signBit nan a b : ℕ} (hp : 0 < f.precision)
    (hten : 2 ^ f.precision < 10 ^ 16) (hnan : f.infinity < nan % signBit)
    (ha : a < 2 * signBit) (hb : b < 2 * signBit)
    (ha' : a % signBit ≤ f.infinity ∨ a = nan) (hb' : b % signBit ≤ f.infinity ∨ b = nan)
    (h : floatText f signBit a = floatText f signBit b) : a = b := by
  have htext : floatText f signBit nan = "NaN" := by simp [floatText, hnan]
  rcases ha' with ha' | rfl
  · rcases hb' with hb' | rfl
    · exact floatText_inj hp hten ha hb ha' hb' h
    · exact absurd (h.trans htext) (floatText_ne_nan ha')
  · rcases hb' with hb' | rfl
    · exact absurd (h.symm.trans htext) (floatText_ne_nan hb')
    · rfl

theorem Decimal.units_eq_value (d : Decimal) : (d.units : ℚ) = d.value * 10 ^ 28 := by
  have hpow : (10 : ℚ) ^ 28 = 10 ^ (28 - d.scale) * 10 ^ d.scale := by
    rw [← pow_add, Nat.sub_add_cancel d.scale_le]
  have hscale : (-(-(d.scale : ℤ))).toNat = d.scale := by simp
  unfold Decimal.units Decimal.value signedValue fixedValue
  rw [hscale, hpow]
  cases d.negative <;> simp <;> field_simp

theorem Decimal.units_of_text {d e : Decimal} (h : d.text = e.text) : d.units = e.units := by
  have hd := numeral_text d
  have he := numeral_text e
  rw [h, he] at hd
  have hvalue : (d.units : ℚ) = e.units := by
    rw [d.units_eq_value, e.units_eq_value, Option.some.inj hd]
  exact_mod_cast hvalue

end Numbers

section Layouts

theorem padded_inj {width m n : ℕ} (h : (padded width m).toList = (padded width n).toList) :
    m = n := by
  rw [← ofDigitChars_padded width m, ← ofDigitChars_padded width n, h]

theorem parseInt_of_signed {text : String} {negative : Bool} {digits : List Char}
    (hsigned : signed text.toList = (negative, digits)) (hne : digits ≠ [])
    (hdigits : ∀ c ∈ digits, c.isDigit = true) :
    parseInt text = some (withSign negative (Nat.ofDigitChars 10 digits 0)) := by
  obtain ⟨values, hvalues, hvalue⟩ := mapM_digit hdigits
  simp [parseInt, hsigned, hne, hvalues, ofDigits, hvalue, guard]

theorem padded_ne_nil (width n : ℕ) : (padded width n).toList ≠ [] := by
  rw [toList_padded]
  exact List.append_ne_nil_of_right_ne_nil _ (toString_ne_nil n)

theorem parseInt_year (year : ℤ) :
    parseInt (if 0 ≤ year ∧ year ≤ 9999 then padded 4 year.toNat
      else (if year < 0 then "-" else "+") ++ padded 4 year.natAbs) = some year := by
  have hdigit (n : ℕ) : ∀ c ∈ (padded 4 n).toList, c.isDigit = true :=
    fun c => isDigit_of_mem_padded
  split
  · next hrange =>
    rw [parseInt_of_signed (signed_of_isDigit fun c hc => hdigit _ c (List.mem_of_mem_head? hc))
      (padded_ne_nil _ _) (hdigit _), ofDigitChars_padded, withSign]
    simp
    omega
  · next hrange =>
    split
    · next hneg =>
      have hsigned : signed ("-" ++ padded 4 year.natAbs).toList =
          (true, (padded 4 year.natAbs).toList) := by
        simp [signed]
      rw [parseInt_of_signed hsigned (padded_ne_nil _ _) (hdigit _), ofDigitChars_padded, withSign]
      simp [abs_of_neg hneg]
    · next hneg =>
      have hsigned : signed ("+" ++ padded 4 year.natAbs).toList =
          (false, (padded 4 year.natAbs).toList) := by
        simp [signed]
      rw [parseInt_of_signed hsigned (padded_ne_nil _ _) (hdigit _), ofDigitChars_padded, withSign]
      simp
      omega

theorem NaiveDate.text_inj {d e : NaiveDate} (h : d.text = e.text) : d = e := by
  have hlist := congrArg String.toList h
  have hlength {width n : ℕ} (hwidth : 0 < width) (hn : n < 10 ^ width) := length_padded hwidth hn
  have hmonth (d : NaiveDate) : (padded 2 d.month).toList.length = 2 :=
    length_padded (by decide) (by have := d.month_mem; omega)
  have hday (d : NaiveDate) : (padded 2 d.day).toList.length = 2 := by
    apply length_padded (by decide)
    have hle : daysInMonth d.year d.month ≤ 31 := by
      unfold daysInMonth
      split
      · split <;> omega
      · split <;> omega
    have := d.day_mem
    omega
  simp only [NaiveDate.text, String.toList_append] at hlist
  obtain ⟨hlist, hdays⟩ := List.append_inj' hlist (by rw [hday, hday])
  obtain ⟨hlist, -⟩ := List.append_inj' hlist rfl
  obtain ⟨hlist, hmonths⟩ := List.append_inj' hlist (by rw [hmonth, hmonth])
  obtain ⟨hyears, -⟩ := List.append_inj' hlist rfl
  have hyear := parseInt_year d.year
  rw [String.toList_inj.mp hyears, parseInt_year] at hyear
  cases d
  cases e
  simp only [mk.injEq]
  exact ⟨(Option.some.inj hyear).symm, padded_inj hmonths, padded_inj hdays⟩

/-- The fraction of a second, with as many digits as it needs. -/
def fractionText (nanos : ℕ) : String :=
  if nanos = 0 then ""
  else if nanos % 1000000 = 0 then "." ++ padded 3 (nanos / 1000000)
  else if nanos % 1000 = 0 then "." ++ padded 6 (nanos / 1000)
  else "." ++ padded 9 nanos

/-- The nanoseconds that a fraction's digits stand for. -/
def fractionNanos (text : List Char) : ℕ :=
  Nat.ofDigitChars 10 text.tail 0 * 10 ^ (10 - text.length)

theorem fractionNanos_fractionText {nanos : ℕ} (h : nanos < 10 ^ 9) :
    fractionNanos (fractionText nanos).toList = nanos := by
  have hpoint (width n : ℕ) (hwidth : 0 < width) (hn : n < 10 ^ width) :
      fractionNanos ("." ++ padded width n).toList = n * 10 ^ (9 - width) := by
    have hlength := length_padded hwidth hn
    rw [fractionNanos, String.toList_append]
    have htail : (".".toList ++ (padded width n).toList).tail = (padded width n).toList := rfl
    have hone : ".".toList.length = 1 := rfl
    have hpower : 10 - (1 + width) = 9 - width := by omega
    rw [htail, ofDigitChars_padded, List.length_append, hlength, hone, hpower]
  unfold fractionText
  split
  · next hzero => simp [fractionNanos, hzero]
  · split
    · next hmillis =>
      rw [hpoint 3 _ (by decide) (by omega)]
      omega
    · split
      · next hmicros =>
        rw [hpoint 6 _ (by decide) (by omega)]
        omega
      · rw [hpoint 9 _ (by decide) h]
        omega

theorem NaiveTime.text_eq {t : NaiveTime} (h : t.nanos < 10 ^ 9) :
    t.text = padded 2 (t.seconds / 3600) ++ ":" ++ padded 2 (t.seconds / 60 % 60) ++ ":" ++
      padded 2 (t.seconds % 60) ++ fractionText t.nanos := by
  have hdiv : t.nanos / 1000000000 = 0 := Nat.div_eq_of_lt (by omega)
  have hmod : t.nanos % 1000000000 = t.nanos := Nat.mod_eq_of_lt (by omega)
  simp only [NaiveTime.text, fractionText, hdiv, hmod, Nat.add_zero]

theorem NaiveTime.text_inj {t u : NaiveTime} (ht : t.nanos < 10 ^ 9) (hu : u.nanos < 10 ^ 9)
    (h : t.text = u.text) : t = u := by
  rw [text_eq ht, text_eq hu] at h
  have hlist := congrArg String.toList h
  have hhour (t : NaiveTime) : (padded 2 (t.seconds / 3600)).toList.length = 2 :=
    length_padded (by decide) (by have := t.seconds_lt; omega)
  have hminute (t : NaiveTime) : (padded 2 (t.seconds / 60 % 60)).toList.length = 2 :=
    length_padded (by decide) (by omega)
  have hsecond (t : NaiveTime) : (padded 2 (t.seconds % 60)).toList.length = 2 :=
    length_padded (by decide) (by omega)
  simp only [String.toList_append, List.append_assoc] at hlist
  obtain ⟨hhours, hlist⟩ := List.append_inj hlist (by rw [hhour, hhour])
  obtain ⟨-, hlist⟩ := List.append_inj hlist rfl
  obtain ⟨hminutes, hlist⟩ := List.append_inj hlist (by rw [hminute, hminute])
  obtain ⟨-, hlist⟩ := List.append_inj hlist rfl
  obtain ⟨hseconds, hfractions⟩ := List.append_inj hlist (by rw [hsecond, hsecond])
  have hnanos : t.nanos = u.nanos := by
    rw [← fractionNanos_fractionText ht, ← fractionNanos_fractionText hu, hfractions]
  have hhours := padded_inj hhours
  have hminutes := padded_inj hminutes
  have hseconds := padded_inj hseconds
  cases t
  cases u
  simp only [mk.injEq]
  exact ⟨by simp only at *; omega, hnanos⟩

end Layouts

section Counts

variable {c : Char}

theorem count_eq_zero_of_isDigit {text : List Char} (h : ∀ d ∈ text, d.isDigit = true)
    (hc : c.isDigit = false) : text.count c = 0 := by
  rw [List.count_eq_zero]
  intro hmem
  rw [h c hmem] at hc
  cases hc

theorem count_toString (hc : c.isDigit = false) (n : ℕ) : (toString n).toList.count c = 0 :=
  count_eq_zero_of_isDigit (fun _ => isDigit_of_mem_toString) hc

theorem count_padded (hc : c.isDigit = false) (width n : ℕ) :
    (padded width n).toList.count c = 0 :=
  count_eq_zero_of_isDigit (fun _ => isDigit_of_mem_padded) hc

theorem count_fixedText (hc : c.isDigit = false) (hpoint : c ≠ '.') (digits : ℕ) (power : ℤ) :
    (fixedText digits power).toList.count c = 0 := by
  unfold fixedText
  split
  · exact count_toString hc _
  · simp only [String.toList_append, List.count_append, count_toString hc, count_padded hc]
    simp [hpoint.symm]

theorem NaiveDate.count_text (hc : c.isDigit = false) (hsign : c ∉ ['-', '+']) (d : NaiveDate) :
    d.text.toList.count c = 0 := by
  have hminus : c ≠ '-' := fun h => hsign (by simp [h])
  have hplus : c ≠ '+' := fun h => hsign (by simp [h])
  have hyear : (if 0 ≤ d.year ∧ d.year ≤ 9999 then padded 4 d.year.toNat
      else (if d.year < 0 then "-" else "+") ++ padded 4 d.year.natAbs).toList.count c = 0 := by
    split
    · exact count_padded hc _ _
    · split <;> simp [count_padded hc, hminus.symm, hplus.symm]
  simp only [NaiveDate.text, String.toList_append, List.count_append, hyear, count_padded hc]
  simp [hminus.symm]

theorem count_fractionText (hc : c.isDigit = false) (hpoint : c ≠ '.') (nanos : ℕ) :
    (fractionText nanos).toList.count c = 0 := by
  unfold fractionText
  split
  · rfl
  · split
    · simp [count_padded hc, hpoint.symm]
    · split <;> simp [count_padded hc, hpoint.symm]

theorem NaiveTime.count_text {t : NaiveTime} (h : t.nanos < 10 ^ 9) :
    t.text.toList.count ':' = 2 := by
  have hc : (':').isDigit = false := by decide
  rw [text_eq h]
  simp only [String.toList_append, List.count_append, count_padded hc,
    count_fractionText hc (by decide : ':' ≠ '.')]
  rfl

theorem NaiveDateTime.toList_text (t : NaiveDateTime) :
    t.text.toList = t.date.text.toList ++ ' ' :: t.time.text.toList := by
  simp [NaiveDateTime.text]

theorem NaiveDateTime.toList_rfc3339 (t : NaiveDateTime) :
    t.rfc3339.toList = t.date.text.toList ++ 'T' :: (t.time.text.toList ++ "+00:00".toList) := by
  simp [NaiveDateTime.rfc3339]

theorem NaiveDateTime.text_inj {t u : NaiveDateTime} (ht : t.time.nanos < 10 ^ 9)
    (hu : u.time.nanos < 10 ^ 9) (h : t.text = u.text) : t = u := by
  have hcount (d : NaiveDate) : d.text.toList.count ' ' = 0 := d.count_text (by decide) (by decide)
  have hlist := congrArg String.toList h
  rw [toList_text, toList_text] at hlist
  obtain ⟨hdate, htime⟩ := Separators.append_cons_inj (by rw [hcount, hcount]) hlist
  have hdate := NaiveDate.text_inj (String.toList_inj.mp hdate)
  have htime := NaiveTime.text_inj ht hu (String.toList_inj.mp htime)
  cases t
  cases u
  simp only [mk.injEq]
  exact ⟨hdate, htime⟩

theorem NaiveDateTime.rfc3339_inj {t u : NaiveDateTime} (ht : t.time.nanos < 10 ^ 9)
    (hu : u.time.nanos < 10 ^ 9) (h : t.rfc3339 = u.rfc3339) : t = u := by
  have hcount (d : NaiveDate) : d.text.toList.count 'T' = 0 := d.count_text (by decide) (by decide)
  have hlist := congrArg String.toList h
  rw [toList_rfc3339, toList_rfc3339] at hlist
  obtain ⟨hdate, htime⟩ := Separators.append_cons_inj (by rw [hcount, hcount]) hlist
  have htime := List.append_cancel_right htime
  have hdate := NaiveDate.text_inj (String.toList_inj.mp hdate)
  have htime := NaiveTime.text_inj ht hu (String.toList_inj.mp htime)
  cases t
  cases u
  simp only [mk.injEq]
  exact ⟨hdate, htime⟩

end Counts

section Hexadecimal

theorem digitChar_inj {a b : ℕ} (ha : a < 16) (hb : b < 16)
    (h : Nat.digitChar a = Nat.digitChar b) : a = b := by
  have hall : ∀ a < 16, ∀ b < 16, Nat.digitChar a = Nat.digitChar b → a = b := by decide
  exact hall a ha b hb h

theorem digitChar_mem (n : ℕ) : Nat.digitChar n ∈ "0123456789abcdef*".toList := by
  rcases Nat.lt_or_ge n 16 with hlt | hge
  · have hall : ∀ n < 16, Nat.digitChar n ∈ "0123456789abcdef*".toList := by decide
    exact hall n hlt
  · have hstar : Nat.digitChar n = '*' := by simpa using hge
    rw [hstar]
    decide

theorem digitChar_ne {c : Char} (h : c ∉ "0123456789abcdef*".toList) (n : ℕ) :
    Nat.digitChar n ≠ c := fun heq => h (heq ▸ digitChar_mem n)

theorem eq_of_places {k m n : ℕ} (hm : m < 16 ^ k) (hn : n < 16 ^ k)
    (h : ∀ i < k, m / 16 ^ i % 16 = n / 16 ^ i % 16) : m = n := by
  induction k generalizing m n with
  | zero => omega
  | succ k ih =>
    have hlow := h 0 (by omega)
    have hhigh : m / 16 = n / 16 := by
      apply ih (by omega) (by omega)
      intro i hi
      have hplace := h (i + 1) (by omega)
      rwa [Nat.pow_succ', ← Nat.div_div_eq_div_mul, ← Nat.div_div_eq_div_mul] at hplace
    simp only [Nat.pow_zero, Nat.div_one] at hlow
    omega

theorem filter_intercalate {parts : List (List Char)} (h : ∀ part ∈ parts, '-' ∉ part) :
    (['-'].intercalate parts).filter (· ≠ '-') = parts.flatten := by
  induction parts with
  | nil => rfl
  | cons part parts ih =>
    have hpart : part.filter (· ≠ '-') = part := by
      rw [List.filter_eq_self]
      intro c hc
      have hne : c ≠ '-' := fun heq => h part List.mem_cons_self (heq ▸ hc)
      simpa using hne
    cases parts with
    | nil => simpa using hpart
    | cons next parts =>
      rw [List.intercalate_cons_cons, List.filter_append, List.filter_append, hpart,
        ih fun part hmem => h part (List.mem_cons_of_mem _ hmem)]
      simp

/-- The hexadecimal digits of an identifier, highest first. -/
def uuidDigits (u : BitVec 128) : List Char :=
  (List.range 32).map fun i => Nat.digitChar (u.toNat / 16 ^ (31 - i) % 16)

theorem filter_uuidText (u : BitVec 128) :
    (uuidText u).toList.filter (· ≠ '-') = uuidDigits u := by
  have hplain : '-' ∉ uuidDigits u := by
    intro hmem
    obtain ⟨i, -, hi⟩ := List.mem_map.mp hmem
    exact digitChar_ne (by decide) _ hi
  have hgroup (start length : ℕ) : '-' ∉ ((uuidDigits u).drop start).take length :=
    fun hmem => hplain (List.mem_of_mem_drop (List.mem_of_mem_take hmem))
  have hlength : (uuidDigits u).length = 32 := by simp [uuidDigits]
  have htext : (uuidText u).toList = ['-'].intercalate
      ([(0, 8), (8, 4), (12, 4), (16, 4), (20, 12)].map fun group : ℕ × ℕ =>
        ((uuidDigits u).drop group.1).take group.2) := by
    simp [uuidText, uuidDigits]
  rw [htext, filter_intercalate]
  · simp only [List.map_cons, List.map_nil, List.flatten_cons, List.flatten_nil]
    have hlast : ((uuidDigits u).drop 20).take 12 = (uuidDigits u).drop 20 :=
      List.take_of_length_le (by rw [List.length_drop, hlength])
    have hjoin (start length : ℕ) : ((uuidDigits u).drop start).take length ++
        (uuidDigits u).drop (start + length) = (uuidDigits u).drop start := by
      rw [← List.drop_drop, List.take_append_drop]
    rw [hlast, List.append_nil, hjoin 16 4, hjoin 12 4, hjoin 8 4, hjoin 0 8, List.drop_zero]
  · intro part hpart
    obtain ⟨group, -, rfl⟩ := List.mem_map.mp hpart
    exact hgroup _ _

theorem uuidText_inj {u v : BitVec 128} (h : uuidText u = uuidText v) : u = v := by
  have hdigits : uuidDigits u = uuidDigits v := by rw [← filter_uuidText, h, filter_uuidText]
  have hbound (u : BitVec 128) : u.toNat < 16 ^ 32 := by
    have := u.isLt
    omega
  apply BitVec.eq_of_toNat_eq
  apply eq_of_places (hbound u) (hbound v)
  intro i hi
  have hplace := List.map_inj_left.mp hdigits (31 - i) (List.mem_range.mpr (by omega))
  rw [show 31 - (31 - i) = i by omega] at hplace
  exact digitChar_inj (Nat.mod_lt _ (by decide)) (Nat.mod_lt _ (by decide)) hplace

theorem hexText_inj {a b : List UInt8} (h : hexText a = hexText b) : a = b := by
  have hlist := congrArg String.toList h
  simp only [hexText, String.toList_append, String.toList_ofList] at hlist
  replace hlist := List.append_cancel_left hlist
  clear h
  induction a generalizing b with
  | nil =>
    cases b with
    | nil => rfl
    | cons y b => simp at hlist
  | cons x a ih =>
    cases b with
    | nil => simp at hlist
    | cons y b =>
      simp only [List.flatMap_cons, List.cons_append, List.nil_append, List.cons.injEq] at hlist
      obtain ⟨hhigh, hlow, hrest⟩ := hlist
      have hx := x.toNat_lt
      have hy := y.toNat_lt
      have hhigh := digitChar_inj (by omega) (by omega) hhigh
      have hlow := digitChar_inj (by omega) (by omega) hlow
      have heq : x.toNat = y.toNat := by omega
      rw [UInt8.toNat_inj.mp heq, ih hrest]

end Hexadecimal

end Flusso
