import Flusso.Foundation.Json
import Mathlib.Data.List.Forall2
import Mathlib.Data.Nat.Notation

/-! # YAML values

What a document is read into, and how a deserializer takes such a value apart:
unit variants of an enum are strings, other variants are tagged.
-/

/-- A float is kept by its bits. -/
inductive Yaml.Number where
  | posInt (n : UInt64)
  | negInt (i : Int64)
  | float (bits : UInt64)
  deriving DecidableEq

inductive Yaml where
  | null
  | bool (b : Bool)
  | number (n : Yaml.Number)
  | string (s : String)
  | sequence (items : List Yaml)
  | mapping (entries : List (Yaml × Yaml))
  | tagged (tag : String) (value : Yaml)

namespace Yaml

namespace Number

def asI64 : Number → Option Int64
  | posInt n => if n.toNat < 2 ^ 63 then some (Int64.ofNat n.toNat) else none
  | negInt i => some i
  | float _ => none

def ofI64 (i : Int64) : Number :=
  if i.toInt < 0 then negInt i else posInt (UInt64.ofNat i.toInt.toNat)

theorem asI64_ofI64 (i : Int64) : (ofI64 i).asI64 = some i := by
  unfold ofI64
  split
  · rfl
  · next hnonneg =>
    have hlt : i.toInt < 2 ^ 63 := Int64.toInt_lt i
    have hnat : (UInt64.ofNat i.toInt.toNat).toNat = i.toInt.toNat := by
      rw [UInt64.toNat_ofNat']
      omega
    rw [asI64, hnat, if_pos (by omega)]
    apply congrArg some
    rw [← Int64.toInt_inj, Int64.toInt_ofNat_of_lt (by omega)]
    omega

end Number

section Reading

variable {α : Type}

def asStr : Yaml → Option String
  | string s => some s
  | tagged _ value => value.asStr
  | _ => none

def asBool : Yaml → Option Bool
  | bool b => some b
  | tagged _ value => value.asBool
  | _ => none

def asU64 : Yaml → Option UInt64
  | number (.posInt n) => some n
  | tagged _ value => value.asU64
  | _ => none

def asSequence : Yaml → Option (List Yaml)
  | sequence items => some items
  | null => some []
  | tagged _ value => value.asSequence
  | _ => none

def asMapping : Yaml → Option (List (Yaml × Yaml))
  | mapping entries => some entries
  | null => some []
  | tagged _ value => value.asMapping
  | _ => none

/-- Nothing, or a value. -/
def asOption (read : Yaml → Option α) : Yaml → Option (Option α)
  | null => some none
  | value => (read value).map some

def asList (read : Yaml → Option α) (value : Yaml) : Option (List α) := do
  (← value.asSequence).mapM read

/-- A mapping keyed by strings. -/
def asFields (value : Yaml) : Option (List (String × Yaml)) := do
  (← value.asMapping).mapM fun (key, value) => key.asStr.map (·, value)

/-- The fields of a struct that takes no others. -/
def asRecord (known : List String) (value : Yaml) : Option (List (String × Yaml)) := do
  let fields ← value.asFields
  if fields.all fun field => field.1 ∈ known then pure fields else none

/-- A field a struct must have. -/
def mandatory (fields : List (String × Yaml)) (key : String) (read : Yaml → Option α) : Option α :=
  (Json.get fields key).bind read

/-- A field with a default. -/
def defaulted (fields : List (String × Yaml)) (key : String) (read : Yaml → Option α)
    (default : α) : Option α :=
  match Json.get fields key with
  | some value => read value
  | none => some default

/-- A field that may be absent or null. -/
def optional (fields : List (String × Yaml)) (key : String) (read : Yaml → Option α) :
    Option (Option α) := defaulted fields key (asOption read) none

end Reading

section Writing

/-- A mapping of named fields. -/
def object (fields : List (String × Yaml)) : Yaml :=
  mapping (fields.map fun field => (string field.1, field.2))

/-- A field, if there is a value. -/
def field? (key : String) (value : Option Yaml) : List (String × Yaml) :=
  value.toList.map fun value => (key, value)

variable {known : List String} {key k : String} {value : Option Yaml}
  {a b fields : List (String × Yaml)}

theorem asFields_object : (object fields).asFields = some fields := by
  change (fields.map fun field => (string field.1, field.2)).mapM
    (fun entry => entry.1.asStr.map (·, entry.2)) = some fields
  induction fields with
  | nil => rfl
  | cons field fields ih =>
    rw [List.map_cons, List.mapM_cons, ih]
    rfl

@[simp] theorem get_append : Json.get (a ++ b) key = (Json.get a key).or (Json.get b key) := by
  simp only [Json.get, List.find?_append]
  cases a.find? fun pair => decide (pair.1 = key) <;> rfl

@[simp] theorem get_nil : Json.get ([] : List (String × Yaml)) key = none := rfl

@[simp] theorem get_field? : Json.get (field? k value) key = if k = key then value else none := by
  cases value <;> by_cases h : k = key <;> simp [field?, Json.get, h]

@[simp] theorem mem_field? {v : Yaml} : (k, v) ∈ field? key value ↔ k = key ∧ value = some v := by
  cases value <;> simp [field?, eq_comm]

theorem asRecord_object_eq : (object fields).asRecord known =
    if fields.all (fun field => decide (field.1 ∈ known)) then some fields else none := by
  rw [asRecord, asFields_object]
  rfl

theorem asRecord_object (h : ∀ field ∈ fields, field.1 ∈ known) :
    (object fields).asRecord known = some fields := by
  rw [asRecord_object_eq, if_pos (by simpa using h)]

theorem optional_of_get {α : Type} {read : Yaml → Option α} {value : Option Yaml}
    (h : Json.get fields key = value) :
    optional fields key read = value.elim (some none) (asOption read) := by
  rw [optional, defaulted, h]
  cases value <;> rfl

theorem asList_sequence {α β : Type} {read : Yaml → Option β} {write : α → Yaml}
    {R : β → α → Prop} {as : List α} (h : ∀ a ∈ as, ∃ b, read (write a) = some b ∧ R b a) :
    ∃ bs, asList read (.sequence (as.map write)) = some bs ∧ List.Forall₂ R bs as := by
  change ∃ bs, (as.map write).mapM read = some bs ∧ _
  induction as with
  | nil => exact ⟨[], rfl, .nil⟩
  | cons a as ih =>
    obtain ⟨b, hb, hR⟩ := h a List.mem_cons_self
    obtain ⟨bs, hbs, hall⟩ := ih fun a' ha' => h a' (List.mem_cons_of_mem _ ha')
    refine ⟨b :: bs, ?_, .cons hR hall⟩
    rw [List.map_cons, List.mapM_cons, hb, hbs]
    rfl

theorem asList_asStr (items : List String) :
    asList asStr (.sequence (items.map .string)) = some items := by
  obtain ⟨bs, hbs, hall⟩ := @asList_sequence _ _ asStr .string (· = ·) items fun a _ => ⟨a, rfl, rfl⟩
  rw [List.forall₂_eq_eq_eq] at hall
  rw [hbs, hall]

end Writing

end Yaml
