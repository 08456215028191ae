import Mathlib.Data.List.Basic
import Mathlib.Data.UInt

/-! # Generation names

The data of an index lives in concrete indexes `{hash_alias}_{n}` behind the
alias `{prefix}{logical}_{hash}`. Their numbers are of 64 bits: a longer numeral
names no generation, and the number after the last one wraps around.
-/

namespace Flusso

def withoutPlus : List Char → List Char
  | '+' :: rest => rest
  | text => text

/-- A number in decimal digits, with or without a plus sign. -/
def parseDecimal (text : List Char) : Option ℕ :=
  let digits := withoutPlus text
  if digits ≠ [] ∧ digits.all Char.isDigit then some (Nat.ofDigitChars 10 digits 0) else none

def parseU64 (text : List Char) : Option UInt64 :=
  (parseDecimal text).bind fun n => if n < 2 ^ 64 then some (UInt64.ofNat n) else none

/-- The concrete index name for a generation behind a hash alias. -/
def generationName (hashAlias : String) (generation : UInt64) : String :=
  hashAlias ++ "_" ++ generation.toNat.repr

/-- The generation number in a concrete index name of a hash alias. -/
def parseGeneration (hashAlias index : String) : Option UInt64 :=
  (index.toList.dropPrefix? hashAlias.toList).bind fun rest =>
    (rest.dropPrefix? ['_']).bind parseU64

/-- A text split at its last underscore. -/
def rsplitUnderscore (text : List Char) : Option (List Char × List Char) :=
  match text.reverse.dropWhile (· ≠ '_') with
  | [] => none
  | _ :: front => some (front.reverse, (text.reverse.takeWhile (· ≠ '_')).reverse)

/-- The hash alias a generation belongs to: its name without the number. -/
def hashAliasOf (generation : String) : Option String :=
  (rsplitUnderscore generation.toList).bind fun (front, suffix) =>
    (parseU64 suffix).map fun _ => String.ofList front

/-- One past the highest existing generation, or 1 when there is none. -/
def nextGeneration (existing : List String) (hashAlias : String) : UInt64 :=
  match (existing.filterMap (parseGeneration hashAlias)).max? with
  | some highest => highest + 1
  | none => 1

/-- The last number is in use and so is the one after it. -/
def Wrapped (hashAlias : String) (existing : List String) : Prop :=
  (∃ index ∈ existing, parseGeneration hashAlias index = some 18446744073709551615) ∧
    ∃ index ∈ existing, parseGeneration hashAlias index = some 0

instance (hashAlias : String) (existing : List String) : Decidable (Wrapped hashAlias existing) :=
  inferInstanceAs (Decidable (_ ∧ _))

section Digits

variable {text : List Char}

theorem parseDecimal_repr (n : ℕ) : parseDecimal n.repr.toList = some n := by
  have hdigits : (Nat.toDigits 10 n).all Char.isDigit = true := by
    rw [List.all_eq_true]
    exact fun c hc => Nat.isDigit_of_mem_toDigits (by decide) (by decide) hc
  have hplus : withoutPlus (Nat.toDigits 10 n) = Nat.toDigits 10 n := by
    unfold withoutPlus
    split
    · next rest heq =>
      rw [heq] at hdigits
      simp at hdigits
    · rfl
  rw [Nat.toList_repr, parseDecimal, hplus, if_pos ⟨Nat.toDigits_ne_nil, hdigits⟩,
    Nat.ofDigitChars_ten_toDigits]

theorem parseU64_repr (n : UInt64) : parseU64 n.toNat.repr.toList = some n := by
  rw [parseU64, parseDecimal_repr, Option.bind_some, if_pos n.toNat_lt, UInt64.ofNat_toNat]

theorem underscore_not_mem_of_parseU64 {n : UInt64} (h : parseU64 text = some n) :
    '_' ∉ text := by
  intro hmem
  have hdigits : '_' ∈ withoutPlus text := by
    unfold withoutPlus
    split
    · simpa using hmem
    · exact hmem
  obtain ⟨m, hm, -⟩ := Option.bind_eq_some_iff.mp h
  obtain ⟨⟨-, hall⟩, -⟩ := Option.ite_none_right_eq_some.mp hm
  exact absurd (List.all_eq_true.mp hall _ hdigits) (by decide)

end Digits

instance lawfulOrderMax : Std.LawfulOrderMax UInt64 := by
  apply Std.LawfulOrderMax.of_max_le_iff
  · intro a b c
    change (if a ≤ b then b else a) ≤ c ↔ _
    simp only [UInt64.le_iff_toNat_le]
    split <;> omega
  · intro a b
    change (if a ≤ b then b else a) = a ∨ (if a ≤ b then b else a) = b
    split
    · exact .inr rfl
    · exact .inl rfl

section Names

variable {hashAlias index : String} {existing : List String} {front suffix : List Char}
  {m n : UInt64}

theorem rsplitUnderscore_append (h : '_' ∉ suffix) :
    rsplitUnderscore (front ++ '_' :: suffix) = some (front, suffix) := by
  have hsuffix : ∀ c ∈ suffix.reverse, (decide (c ≠ '_')) = true := by
    intro c hc
    exact decide_eq_true fun heq => h (heq ▸ List.mem_reverse.mp hc)
  have hreverse : (front ++ '_' :: suffix).reverse = suffix.reverse ++ '_' :: front.reverse := by
    simp
  unfold rsplitUnderscore
  rw [hreverse, List.dropWhile_append_of_pos hsuffix, List.takeWhile_append_of_pos hsuffix]
  simp

theorem append_of_rsplitUnderscore {text : List Char}
    (h : rsplitUnderscore text = some (front, suffix)) : text = front ++ '_' :: suffix := by
  have hparts := List.takeWhile_append_dropWhile (p := (· ≠ '_')) (l := text.reverse)
  unfold rsplitUnderscore at h
  split at h
  · cases h
  · next c back hdrop =>
    have hc : c = '_' := by
      have := List.head?_dropWhile_not (fun c : Char => decide (c ≠ '_')) text.reverse
      rw [hdrop] at this
      simpa using this
    cases h
    rw [hdrop, hc] at hparts
    have hreverse := congrArg List.reverse hparts
    simpa using hreverse.symm

theorem toList_of_parseGeneration (h : parseGeneration hashAlias index = some n) :
    ∃ digits, index.toList = hashAlias.toList ++ '_' :: digits ∧ parseU64 digits = some n := by
  obtain ⟨rest, hrest, h⟩ := Option.bind_eq_some_iff.mp h
  obtain ⟨digits, hdigits, h⟩ := Option.bind_eq_some_iff.mp h
  obtain ⟨front, hindex, hfront⟩ := List.dropPrefix?_eq_some_iff.mp hrest
  obtain ⟨bar, hrest, hbar⟩ := List.dropPrefix?_eq_some_iff.mp hdigits
  refine ⟨digits, ?_, h⟩
  rw [hindex, hrest, eq_of_beq hfront, eq_of_beq hbar]
  rfl

theorem hashAliasOf_of_parseGeneration (h : parseGeneration hashAlias index = some n) :
    hashAliasOf index = some hashAlias := by
  obtain ⟨digits, hindex, hdigits⟩ := toList_of_parseGeneration h
  unfold hashAliasOf
  rw [hindex, rsplitUnderscore_append (underscore_not_mem_of_parseU64 hdigits)]
  simp [hdigits]

theorem parseGeneration_generationName (hashAlias : String) (n : UInt64) :
    parseGeneration hashAlias (generationName hashAlias n) = some n := by
  have hname : (generationName hashAlias n).toList =
      hashAlias.toList ++ (['_'] ++ n.toNat.repr.toList) := by
    simp [generationName]
  unfold parseGeneration
  rw [hname, List.dropPrefix?_append_of_beq _ BEq.rfl, Option.bind_some,
    List.dropPrefix?_append_of_beq _ BEq.rfl, Option.bind_some, parseU64_repr]

@[simp] theorem hashAliasOf_generationName (hashAlias : String) (n : UInt64) :
    hashAliasOf (generationName hashAlias n) = some hashAlias :=
  hashAliasOf_of_parseGeneration (parseGeneration_generationName hashAlias n)

@[simp] theorem generationName_inj :
    generationName hashAlias m = generationName hashAlias n ↔ m = n := by
  constructor
  · intro h
    have h := congrArg (parseGeneration hashAlias) h
    rwa [parseGeneration_generationName, parseGeneration_generationName, Option.some.injEq] at h
  · rintro rfl
    rfl

theorem length_of_hashAliasOf (h : hashAliasOf index = some hashAlias) :
    hashAlias.length < index.length := by
  obtain ⟨⟨front, suffix⟩, hsplit, h⟩ := Option.bind_eq_some_iff.mp h
  obtain ⟨n, -, rfl⟩ := Option.map_eq_some_iff.mp h
  have hlength := congrArg List.length (append_of_rsplitUnderscore hsplit)
  simp only [List.length_append, List.length_cons, String.length_toList] at hlength
  simp only [String.length_ofList]
  omega

theorem length_lt_generationName (hashAlias : String) (n : UInt64) :
    hashAlias.length < (generationName hashAlias n).length :=
  length_of_hashAliasOf (hashAliasOf_generationName hashAlias n)

theorem le_highest {highest : UInt64}
    (hmax : (existing.filterMap (parseGeneration hashAlias)).max? = some highest)
    (hindex : index ∈ existing) (h : parseGeneration hashAlias index = some n) : n ≤ highest :=
  (List.max?_eq_some_iff.mp hmax).2 n (List.mem_filterMap.mpr ⟨index, hindex, h⟩)

/-- The next number is no existing generation's, while numbers are left. -/
theorem parseGeneration_ne_nextGeneration (h : index ∈ existing)
    (hroom : ¬Wrapped hashAlias existing) :
    parseGeneration hashAlias index ≠ some (nextGeneration existing hashAlias) := by
  intro hparse
  have hmem : nextGeneration existing hashAlias ∈
      existing.filterMap (parseGeneration hashAlias) := List.mem_filterMap.mpr ⟨index, h, hparse⟩
  cases hmax : (existing.filterMap (parseGeneration hashAlias)).max? with
  | none =>
    rw [List.max?_eq_none_iff] at hmax
    rw [hmax] at hmem
    cases hmem
  | some highest =>
    have hnext : nextGeneration existing hashAlias = highest + 1 := by
      unfold nextGeneration
      rw [hmax]
    rw [hnext] at hparse
    have hle : (highest + 1).toNat ≤ highest.toNat :=
      UInt64.le_iff_toNat_le.mp (le_highest hmax h hparse)
    -- only the last number is not below its successor
    have hlast : highest = 18446744073709551615 := by
      apply UInt64.toNat_inj.mp
      have hone : (1 : UInt64).toNat = 1 := rfl
      have htop : (18446744073709551615 : UInt64).toNat = 2 ^ 64 - 1 := rfl
      have hlt := highest.toNat_lt
      rw [UInt64.toNat_add, hone] at hle
      omega
    obtain ⟨holder, hholder, hparsed⟩ :=
      List.mem_filterMap.mp (List.max?_eq_some_iff.mp hmax).1
    exact hroom ⟨⟨holder, hholder, hlast ▸ hparsed⟩, ⟨index, h, by rw [hparse, hlast]; rfl⟩⟩

theorem lt_nextGeneration
    (hbelow : ∀ index ∈ existing, ∀ n, parseGeneration hashAlias index = some n →
      n.toNat < 2 ^ 64 - 1) (hindex : index ∈ existing)
    (h : parseGeneration hashAlias index = some n) : n < nextGeneration existing hashAlias := by
  unfold nextGeneration
  cases hmax : (existing.filterMap (parseGeneration hashAlias)).max? with
  | none =>
    rw [List.max?_eq_none_iff] at hmax
    have hmem : n ∈ existing.filterMap (parseGeneration hashAlias) :=
      List.mem_filterMap.mpr ⟨index, hindex, h⟩
    rw [hmax] at hmem
    cases hmem
  | some highest =>
    obtain ⟨holder, hholder, hparsed⟩ :=
      List.mem_filterMap.mp (List.max?_eq_some_iff.mp hmax).1
    have hroom := hbelow holder hholder highest hparsed
    have hle : n.toNat ≤ highest.toNat := UInt64.le_iff_toNat_le.mp (le_highest hmax hindex h)
    rw [UInt64.lt_iff_toNat_lt, UInt64.toNat_add]
    have hone : (1 : UInt64).toNat = 1 := rfl
    rw [hone, Nat.mod_eq_of_lt (by omega)]
    omega

/-- A generation's name gives back its number and its alias, and is no generation of another
alias; the next number is above those in use, while these leave room for one. -/
theorem generation_names (hashAlias : String) :
    (∀ n, parseGeneration hashAlias (generationName hashAlias n) = some n ∧
      hashAliasOf (generationName hashAlias n) = some hashAlias) ∧
    (∀ other n, other ≠ hashAlias → parseGeneration hashAlias (generationName other n) = none) ∧
    ∀ existing : List String,
      (∀ index ∈ existing, ∀ n, parseGeneration hashAlias index = some n →
        n.toNat < 2 ^ 64 - 1) →
      ∀ index ∈ existing, ∀ n, parseGeneration hashAlias index = some n →
        n < nextGeneration existing hashAlias := by
  refine ⟨?_, ?_, ?_⟩
  · intro n
    have hname := parseGeneration_generationName hashAlias n
    exact ⟨hname, hashAliasOf_of_parseGeneration hname⟩
  · intro other n hne
    -- The name tells its own alias, and would tell this one.
    cases hparse : parseGeneration hashAlias (generationName other n) with
    | none => rfl
    | some m =>
      have hthis := hashAliasOf_of_parseGeneration hparse
      rw [hashAliasOf_of_parseGeneration (parseGeneration_generationName other n)] at hthis
      exact absurd (Option.some.inj hthis) hne
  · intro existing hbelow index hindex n h
    exact lt_nextGeneration hbelow hindex h

theorem generation_names_users :
    parseGeneration "users_0a1b2c3d" "users_0a1b2c3d_7" = some 7 ∧
      parseGeneration "users" "users_0a1b2c3d_7" = none ∧
      (7 : UInt64) < nextGeneration ["users_0a1b2c3d_7"] "users_0a1b2c3d" := by
  have hown := generation_names "users_0a1b2c3d"
  have hother := (generation_names "users").2.1 "users_0a1b2c3d" 7 (by decide)
  have hnumber : parseGeneration "users_0a1b2c3d" "users_0a1b2c3d_7" = some 7 := (hown.1 7).1
  refine ⟨hnumber, hother, hown.2.2 ["users_0a1b2c3d_7"] ?_ _ List.mem_cons_self 7 hnumber⟩
  intro index hindex n hn
  rw [List.mem_singleton.mp hindex, hnumber] at hn
  cases hn
  decide

end Names

end Flusso
