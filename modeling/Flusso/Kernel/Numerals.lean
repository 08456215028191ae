import Flusso.Kernel.Display
import Flusso.Kernel.Parse
import Mathlib.Data.Char
import Mathlib.Data.String.Basic
import Mathlib.Data.Nat.Digits.Defs
import Mathlib.Data.List.TakeDrop
import Mathlib.Data.List.TakeWhile
import Mathlib.Data.Rat.Defs
import Mathlib.Algebra.Order.Field.Rat
import Mathlib.Tactic.FieldSimp
import Mathlib.Tactic.Ring

/-! # Numbers that texts spell

A numeral is a sign, digits and a point among them. Decimals and finite doubles
are written as numerals of their own value.
-/

namespace Flusso

/-- The number a numeral spells. -/
def numeral (text : String) : Option ℚ := do
  let (negative, rest) := signed text.toList
  let (n, scale) ← parseFixed rest
  pure ((withSign negative n : ℚ) / 10 ^ scale)

/-- A number of units of a power of ten. -/
def fixedValue (digits : ℕ) (power : ℤ) : ℚ :=
  (digits * 10 ^ power.toNat : ℚ) / 10 ^ (-power).toNat

def signedValue (negative : Bool) (value : ℚ) : ℚ := if negative then -value else value

def Decimal.value (d : Decimal) : ℚ := signedValue d.negative (fixedValue d.coefficient (-d.scale))

/-- Whether a double's bits are those of a number. -/
def isFinite (bits : UInt64) : Bool := bits.toNat % 2 ^ 63 < BinaryFloat.double.infinity

/-- The number that the shortest digits of a finite double spell. -/
def doubleValue (bits : UInt64) : ℚ :=
  let magnitude := bits.toNat % 2 ^ 63
  if magnitude = 0 then 0
  else
    let (digits, power) := BinaryFloat.shortestDigits BinaryFloat.double magnitude
    signedValue (2 ^ 63 ≤ bits.toNat) (fixedValue digits power)

section Digits

theorem toNat_of_isDigit {c : Char} (h : c.isDigit = true) :
    digit? c = some (c.toNat - '0'.toNat) := by
  have hrange : '0' ≤ c ∧ c ≤ '9' := by
    simpa [Char.isDigit, Char.le_def] using h
  rw [digit?, if_pos hrange]

theorem mapM_digit {text : List Char} (h : ∀ c ∈ text, c.isDigit = true) :
    ∃ digits, text.mapM digit? = some digits ∧
      ∀ n, digits.foldl (fun n d => n * 10 + d) n = Nat.ofDigitChars 10 text n := by
  induction text with
  | nil => exact ⟨[], rfl, fun n => rfl⟩
  | cons c text ih =>
    obtain ⟨digits, hdigits, hvalue⟩ := ih fun d hd => h d (List.mem_cons_of_mem _ hd)
    refine ⟨(c.toNat - '0'.toNat) :: digits, ?_, ?_⟩
    · rw [List.mapM_cons, toNat_of_isDigit (h c List.mem_cons_self), hdigits]
      rfl
    · intro n
      rw [List.foldl_cons, Nat.ofDigitChars_cons, hvalue, Nat.mul_comm]

theorem isDigit_of_mem_toString {c : Char} {n : ℕ} (h : c ∈ (toString n).toList) :
    c.isDigit = true := by
  rw [Nat.toString_eq_ofList_toDigits, String.toList_ofList] at h
  exact Nat.isDigit_of_mem_toDigits (by decide) (by decide) h

theorem ofDigitChars_toString (n : ℕ) : Nat.ofDigitChars 10 (toString n).toList 0 = n := by
  rw [Nat.toString_eq_ofList_toDigits, String.toList_ofList, Nat.ofDigitChars_ten_toDigits]

theorem toString_ne_nil (n : ℕ) : (toString n).toList ≠ [] := by
  rw [Nat.toString_eq_ofList_toDigits, String.toList_ofList]
  exact Nat.toDigits_ne_nil

theorem toList_padded (width n : ℕ) : (padded width n).toList =
    List.replicate (width - (toString n).length) '0' ++ (toString n).toList := by
  simp [padded]

theorem isDigit_of_mem_padded {c : Char} {width n : ℕ} (h : c ∈ (padded width n).toList) :
    c.isDigit = true := by
  rw [toList_padded] at h
  rcases List.mem_append.mp h with h | h
  · rw [List.eq_of_mem_replicate h]
    decide
  · exact isDigit_of_mem_toString h

theorem ofDigitChars_padded (width n : ℕ) :
    Nat.ofDigitChars 10 (padded width n).toList 0 = n := by
  rw [toList_padded, Nat.ofDigitChars_append, Nat.ofDigitChars_replicate_zero, Nat.mul_zero,
    ofDigitChars_toString]

theorem length_padded {width n : ℕ} (hwidth : 0 < width) (h : n < 10 ^ width) :
    (padded width n).toList.length = width := by
  have hlength : (toString n).length ≤ width := by
    rw [Nat.toString_eq_ofList_toDigits, String.length_ofList]
    exact Nat.toDigits_length 10 n width hwidth h
  rw [toList_padded, List.length_append, List.length_replicate, String.length_toList]
  omega

theorem toNat_bounds_of_isDigit {c : Char} (h : c.isDigit = true) :
    '0'.toNat ≤ c.toNat ∧ c.toNat ≤ '9'.toNat := by
  simpa [Char.isDigit, UInt32.le_iff_toNat_le] using h

theorem ofDigitChars_lt {text : List Char} (h : ∀ c ∈ text, c.isDigit = true) :
    Nat.ofDigitChars 10 text 0 < 10 ^ text.length := by
  induction text with
  | nil => simp
  | cons c text ih =>
    have htext := ih fun d hd => h d (List.mem_cons_of_mem _ hd)
    obtain ⟨-, hle⟩ := toNat_bounds_of_isDigit (h c List.mem_cons_self)
    have hdigit : c.toNat - '0'.toNat ≤ 9 := Nat.sub_le_of_le_add hle
    have hhead := Nat.mul_le_mul_left (10 ^ text.length) hdigit
    rw [Nat.ofDigitChars_cons, Nat.ofDigitChars_eq_ofDigitChars_zero, List.length_cons, pow_succ,
      Nat.mul_zero, Nat.zero_add]
    omega

theorem lt_of_ofDigitChars_lt {a b : List Char} (ha : ∀ c ∈ a, c.isDigit = true)
    (hb : ∀ c ∈ b, c.isDigit = true) (hlength : a.length = b.length)
    (h : Nat.ofDigitChars 10 a 0 < Nat.ofDigitChars 10 b 0) : a < b := by
  induction a generalizing b with
  | nil =>
    rw [List.eq_nil_of_length_eq_zero hlength.symm] at h
    exact absurd h (lt_irrefl _)
  | cons c a ih =>
    cases b with
    | nil => cases hlength
    | cons d b =>
      have ha' : ∀ c ∈ a, c.isDigit = true := fun x hx => ha x (List.mem_cons_of_mem _ hx)
      have hb' : ∀ c ∈ b, c.isDigit = true := fun x hx => hb x (List.mem_cons_of_mem _ hx)
      have htail : a.length = b.length := Nat.succ.inj hlength
      rw [List.cons_lt_cons_iff]
      rw [Nat.ofDigitChars_cons, Nat.ofDigitChars_cons, Nat.ofDigitChars_eq_ofDigitChars_zero,
        @Nat.ofDigitChars_eq_ofDigitChars_zero b, Nat.mul_zero, Nat.zero_add, Nat.zero_add,
        htail] at h
      obtain ⟨hc, -⟩ := toNat_bounds_of_isDigit (ha c List.mem_cons_self)
      obtain ⟨hd, -⟩ := toNat_bounds_of_isDigit (hb d List.mem_cons_self)
      rcases lt_trichotomy c d with hlt | rfl | hgt
      · exact .inl hlt
      · exact .inr ⟨rfl, ih ha' hb' htail (Nat.lt_of_add_lt_add_left h)⟩
      · have hnat : d.toNat < c.toNat := hgt
        have hstep : 10 ^ b.length * (d.toNat - '0'.toNat) + 10 ^ b.length ≤
            10 ^ b.length * (c.toNat - '0'.toNat) := by
          rw [← Nat.mul_succ]
          exact Nat.mul_le_mul_left _ (by omega)
        have hbound := ofDigitChars_lt hb'
        omega

/-- Padded to one width, numbers are in the order of their texts. -/
theorem padded_lt_padded {width m n : ℕ} (hwidth : 0 < width) (hlt : m < n)
    (h : n < 10 ^ width) : padded width m < padded width n := by
  rw [String.lt_iff_toList_lt]
  apply lt_of_ofDigitChars_lt (fun _ => isDigit_of_mem_padded) (fun _ => isDigit_of_mem_padded)
  · rw [length_padded hwidth (hlt.trans h), length_padded hwidth h]
  · rwa [ofDigitChars_padded, ofDigitChars_padded]

end Digits

section Numerals

theorem ne_point_of_isDigit {c : Char} (h : c.isDigit = true) : decide (c ≠ '.') = true := by
  simp only [ne_eq, decide_eq_true_eq]
  rintro rfl
  exact absurd h (by decide)

theorem parseFixed_point {whole fraction : List Char} (hwhole : ∀ c ∈ whole, c.isDigit = true)
    (hfraction : ∀ c ∈ fraction, c.isDigit = true) (hne : whole ≠ []) :
    parseFixed (whole ++ '.' :: fraction) =
      some (Nat.ofDigitChars 10 (whole ++ fraction) 0, fraction.length) := by
  have hpoint : ∀ c ∈ whole, decide (c ≠ '.') = true := fun c hc => ne_point_of_isDigit (hwhole c hc)
  obtain ⟨digits, hdigits, hvalue⟩ := @mapM_digit (whole ++ fraction) fun c hc =>
    (List.mem_append.mp hc).elim (hwhole c) (hfraction c)
  have htake : (whole ++ '.' :: fraction).takeWhile (· ≠ '.') = whole := by
    rw [List.takeWhile_append_of_pos hpoint]
    simp
  have hdrop : (whole ++ '.' :: fraction).dropWhile (· ≠ '.') = '.' :: fraction := by
    rw [List.dropWhile_append_of_pos hpoint]
    simp
  rw [parseFixed, htake, hdrop]
  simp [hne, hdigits, ofDigits, hvalue, guard]

theorem parseFixed_whole {whole : List Char} (hwhole : ∀ c ∈ whole, c.isDigit = true)
    (hne : whole ≠ []) :
    parseFixed whole = some (Nat.ofDigitChars 10 whole 0, 0) := by
  have hpoint : ∀ c ∈ whole, decide (c ≠ '.') = true := fun c hc => ne_point_of_isDigit (hwhole c hc)
  obtain ⟨digits, hdigits, hvalue⟩ := mapM_digit hwhole
  have htake : whole.takeWhile (· ≠ '.') = whole := List.takeWhile_eq_self_iff.mpr hpoint
  have hdrop : whole.dropWhile (· ≠ '.') = [] := List.dropWhile_eq_nil_iff.mpr hpoint
  rw [parseFixed, htake, hdrop]
  simp [hne, hdigits, ofDigits, hvalue, guard]

/-- What a number of units is written as reads as that number. -/
theorem parseFixed_fixedText (digits : ℕ) (power : ℤ) :
    ∃ n scale, parseFixed (fixedText digits power).toList = some (n, scale) ∧
      (n : ℚ) / 10 ^ scale = fixedValue digits power := by
  unfold fixedText
  split
  · next hpower =>
    refine ⟨_, 0, parseFixed_whole (fun c => isDigit_of_mem_toString) (toString_ne_nil _), ?_⟩
    rw [ofDigitChars_toString, fixedValue, show (-power).toNat = 0 by omega]
    push_cast
    ring
  · next hpower =>
    obtain ⟨scale, hscale, hpos⟩ : ∃ scale : ℕ, -power = scale ∧ 0 < scale :=
      ⟨(-power).toNat, by omega, by omega⟩
    have hlength : (padded scale (digits % 10 ^ scale)).toList.length = scale :=
      length_padded hpos (Nat.mod_lt _ (by positivity))
    have hread := @parseFixed_point (toString (digits / 10 ^ scale)).toList
      (padded scale (digits % 10 ^ scale)).toList (fun c => isDigit_of_mem_toString)
      (fun c => isDigit_of_mem_padded) (toString_ne_nil _)
    simp only [hscale, Int.toNat_natCast, String.toList_append, List.append_assoc]
    refine ⟨_, _, hread, ?_⟩
    have hnumber : Nat.ofDigitChars 10 ((toString (digits / 10 ^ scale)).toList ++
        (padded scale (digits % 10 ^ scale)).toList) 0 = digits := by
      rw [Nat.ofDigitChars_append, ofDigitChars_toString, Nat.ofDigitChars_eq_ofDigitChars_zero,
        ofDigitChars_padded, hlength, Nat.div_add_mod]
    rw [hnumber, hlength, fixedValue, show power.toNat = 0 by omega, hscale]
    simp

theorem signed_of_isDigit {text : List Char} (h : ∀ c ∈ text.head?, c.isDigit = true) :
    signed text = (false, text) := by
  cases text with
  | nil => rfl
  | cons c text =>
    have hdigit := h c rfl
    unfold signed
    split
    · next heq =>
      injection heq with heq
      exact absurd (heq ▸ hdigit) (by decide)
    · next heq =>
      injection heq with heq
      exact absurd (heq ▸ hdigit) (by decide)
    · rfl

theorem isDigit_head_fixedText (digits : ℕ) (power : ℤ) :
    ∀ c ∈ (fixedText digits power).toList.head?, c.isDigit = true := by
  have hhead (n : ℕ) (rest : List Char) :
      ∀ c ∈ ((toString n).toList ++ rest).head?, c.isDigit = true := by
    intro c hc
    rw [List.head?_append_of_ne_nil _ (toString_ne_nil n)] at hc
    exact isDigit_of_mem_toString (List.mem_of_mem_head? hc)
  unfold fixedText
  split
  · simpa using hhead (digits * 10 ^ power.toNat) []
  · simp only [String.toList_append, List.append_assoc]
    exact hhead _ _

theorem numeral_fixedText (negative : Bool) (digits : ℕ) (power : ℤ) :
    numeral ((if negative then "-" else "") ++ fixedText digits power) =
      some (signedValue negative (fixedValue digits power)) := by
  obtain ⟨n, scale, hparse, hvalue⟩ := parseFixed_fixedText digits power
  cases negative with
  | false =>
    have hsigned := signed_of_isDigit (isDigit_head_fixedText digits power)
    simp [numeral, hsigned, hparse, withSign, signedValue, hvalue]
  | true =>
    simp [numeral, signed, hparse, withSign, signedValue, ← hvalue, neg_div]

theorem numeral_text (d : Decimal) : numeral d.text = some d.value :=
  numeral_fixedText d.negative d.coefficient (-d.scale)

theorem numeral_floatText {bits : UInt64} (h : isFinite bits = true) :
    numeral (floatText BinaryFloat.double (2 ^ 63) bits.toNat) = some (doubleValue bits) := by
  have hfinite : bits.toNat % 2 ^ 63 < BinaryFloat.double.infinity := by simpa [isFinite] using h
  unfold floatText doubleValue
  simp only [if_neg (not_lt.mpr hfinite.le), if_neg hfinite.ne]
  split
  · split
    · decide +kernel
    · decide +kernel
  · have hsign : (if 2 ^ 63 ≤ bits.toNat then "-" else "") =
        if decide (2 ^ 63 ≤ bits.toNat) = true then "-" else "" := by simp
    rw [hsign, numeral_fixedText]

end Numerals

end Flusso
