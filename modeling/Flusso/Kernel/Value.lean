import Mathlib.Algebra.Order.Ring.Nat
import Mathlib.Data.Nat.SuccPred

/-! # Generic values

The value vocabulary between a source and a sink: scalars by their exact width,
times by what they leave out, and the two composites.
-/

namespace Flusso

/-- An exact decimal: a 96-bit coefficient divided by a power of ten. -/
structure Decimal where
  negative : Bool
  coefficient : ℕ
  scale : ℕ
  coefficient_lt : coefficient < 2 ^ 96
  scale_le : scale ≤ 28
  deriving DecidableEq

/-- The value in units of the smallest scale. -/
def Decimal.units (d : Decimal) : ℤ :=
  (if d.negative then -1 else 1) * d.coefficient * 10 ^ (28 - d.scale)

def isLeapYear (year : ℤ) : Bool := year % 4 = 0 && (year % 100 ≠ 0 || year % 400 = 0)

def daysInMonth (year : ℤ) (month : ℕ) : ℕ :=
  if month = 2 then (if isLeapYear year then 29 else 28)
  else if month = 4 || month = 6 || month = 9 || month = 11 then 30
  else 31

/-- A day of the proleptic Gregorian calendar. -/
structure NaiveDate where
  year : ℤ
  month : ℕ
  day : ℕ
  year_mem : -262143 ≤ year ∧ year ≤ 262142
  month_mem : 1 ≤ month ∧ month ≤ 12
  day_mem : 1 ≤ day ∧ day ≤ daysInMonth year month
  deriving DecidableEq

/-- A time of day; a leap second carries a second nanosecond range. -/
structure NaiveTime where
  seconds : ℕ
  nanos : ℕ
  seconds_lt : seconds < 86400
  nanos_lt : nanos < 2000000000
  deriving DecidableEq

structure NaiveDateTime where
  date : NaiveDate
  time : NaiveTime
  deriving DecidableEq

inductive GenericValue where
  | null
  | bool (b : Bool)
  | smallInt (i : Int16)
  | int (i : Int32)
  | bigInt (i : Int64)
  | float (bits : UInt32)
  | double (bits : UInt64)
  | decimal (d : Decimal)
  | string (s : String)
  | uuid (u : BitVec 128)
  | date (d : NaiveDate)
  | time (t : NaiveTime)
  | timestamp (t : NaiveDateTime)
  /-- An instant, in UTC. -/
  | timestampTz (t : NaiveDateTime)
  | bytes (bytes : List UInt8)
  | array (items : List GenericValue)
  | map (fields : List (String × GenericValue))

namespace GenericValue

/-- Whether a value can stand as a parameter, a key or a literal. -/
def isBindableScalar : GenericValue → Bool
  | null | array _ | map _ => false
  | _ => true

def isNull : GenericValue → Bool
  | null => true
  | _ => false

mutual

/-- Equality of values: floats by their bits, decimals whatever their scale. -/
def eq : GenericValue → GenericValue → Bool
  | null, null => true
  | bool a, bool b => a = b
  | smallInt a, smallInt b => a = b
  | int a, int b => a = b
  | bigInt a, bigInt b => a = b
  | float a, float b => a = b
  | double a, double b => a = b
  | decimal a, decimal b => a.units = b.units
  | string a, string b => a = b
  | uuid a, uuid b => a = b
  | date a, date b => a = b
  | time a, time b => a = b
  | timestamp a, timestamp b => a = b
  | timestampTz a, timestampTz b => a = b
  | bytes a, bytes b => a = b
  | array a, array b => eqItems a b
  | map a, map b => eqFields a b
  | _, _ => false

def eqItems : List GenericValue → List GenericValue → Bool
  | [], [] => true
  | a :: as, b :: bs => eq a b && eqItems as bs
  | _, _ => false

def eqFields : List (String × GenericValue) → List (String × GenericValue) → Bool
  | [], [] => true
  | (k, a) :: as, (l, b) :: bs => k = l && eq a b && eqFields as bs
  | _, _ => false

end

instance : BEq GenericValue := ⟨eq⟩

mutual

theorem eq_refl : ∀ v : GenericValue, eq v v = true
  | null | bool _ | smallInt _ | int _ | bigInt _ | float _ | double _ | decimal _ | string _
  | uuid _ | date _ | time _ | timestamp _ | timestampTz _ | bytes _ => by simp [eq]
  | array items => by simpa only [eq] using eqItems_refl items
  | map fields => by simpa only [eq] using eqFields_refl fields

theorem eqItems_refl : ∀ items : List GenericValue, eqItems items items = true
  | [] => rfl
  | v :: items => by simp only [eqItems, eq_refl v, eqItems_refl items, Bool.and_self]

theorem eqFields_refl : ∀ fields : List (String × GenericValue), eqFields fields fields = true
  | [] => rfl
  | (k, v) :: fields => by
    simp only [eqFields, eq_refl v, eqFields_refl fields, decide_true, Bool.and_self]

end

instance : ReflBEq GenericValue := ⟨fun {v} => eq_refl v⟩

mutual

theorem eq_trans : ∀ {a b c : GenericValue}, eq a b = true → eq b c = true → eq a c = true
  | array as, b, c, h, h' => by
    cases b <;> simp only [eq, Bool.false_eq_true] at h
    cases c <;> simp only [eq, Bool.false_eq_true] at h'
    exact eqItems_trans h h'
  | map as, b, c, h, h' => by
    cases b <;> simp only [eq, Bool.false_eq_true] at h
    cases c <;> simp only [eq, Bool.false_eq_true] at h'
    exact eqFields_trans h h'
  | null, b, c, h, h' | bool _, b, c, h, h' | smallInt _, b, c, h, h' | int _, b, c, h, h'
  | bigInt _, b, c, h, h' | float _, b, c, h, h' | double _, b, c, h, h' | decimal _, b, c, h, h'
  | string _, b, c, h, h' | uuid _, b, c, h, h' | date _, b, c, h, h' | time _, b, c, h, h'
  | timestamp _, b, c, h, h' | timestampTz _, b, c, h, h' | bytes _, b, c, h, h' => by
    cases b <;> simp only [eq, Bool.false_eq_true, decide_eq_true_eq] at h
    cases c <;> simp_all only [eq, Bool.false_eq_true, decide_eq_true_eq]

theorem eqItems_trans : ∀ {as bs cs : List GenericValue},
    eqItems as bs = true → eqItems bs cs = true → eqItems as cs = true
  | [], [], [], _, _ => rfl
  | a :: as, b :: bs, c :: cs, h, h' => by
    simp only [eqItems, Bool.and_eq_true] at h h' ⊢
    exact ⟨eq_trans h.1 h'.1, eqItems_trans h.2 h'.2⟩

theorem eqFields_trans : ∀ {as bs cs : List (String × GenericValue)},
    eqFields as bs = true → eqFields bs cs = true → eqFields as cs = true
  | [], [], [], _, _ => rfl
  | (k, a) :: as, (l, b) :: bs, (m, c) :: cs, h, h' => by
    simp only [eqFields, Bool.and_eq_true, decide_eq_true_eq] at h h' ⊢
    exact ⟨⟨h.1.1.trans h'.1.1, eq_trans h.1.2 h'.1.2⟩, eqFields_trans h.2 h'.2⟩

end

mutual

theorem eq_symm : ∀ {a b : GenericValue}, eq a b = true → eq b a = true
  | array as, b, h => by
    cases b <;> simp only [eq, Bool.false_eq_true] at h
    exact eqItems_symm h
  | map as, b, h => by
    cases b <;> simp only [eq, Bool.false_eq_true] at h
    exact eqFields_symm h
  | null, b, h | bool _, b, h | smallInt _, b, h | int _, b, h | bigInt _, b, h | float _, b, h
  | double _, b, h | decimal _, b, h | string _, b, h | uuid _, b, h | date _, b, h | time _, b, h
  | timestamp _, b, h | timestampTz _, b, h | bytes _, b, h => by
    cases b <;> simp_all only [eq, Bool.false_eq_true, decide_eq_true_eq]

theorem eqItems_symm : ∀ {as bs : List GenericValue}, eqItems as bs = true → eqItems bs as = true
  | [], [], _ => rfl
  | a :: as, b :: bs, h => by
    simp only [eqItems, Bool.and_eq_true] at h ⊢
    exact ⟨eq_symm h.1, eqItems_symm h.2⟩

theorem eqFields_symm : ∀ {as bs : List (String × GenericValue)},
    eqFields as bs = true → eqFields bs as = true
  | [], [], _ => rfl
  | (k, a) :: as, (l, b) :: bs, h => by
    simp only [eqFields, Bool.and_eq_true, decide_eq_true_eq] at h ⊢
    exact ⟨⟨h.1.1.symm, eq_symm h.1.2⟩, eqFields_symm h.2⟩

end

instance : EquivBEq GenericValue where
  symm := eq_symm
  trans := eq_trans

theorem beq_trans {a b c : GenericValue} (h : (a == b) = true) (h' : (b == c) = true) :
    (a == c) = true := eq_trans h h'

end GenericValue

end Flusso
