import Flusso.Kernel.Schema
import Mathlib.Data.List.DropRight

/-! # Names as they are kept

A name that was built once is built again unchanged from its own text.
-/

namespace Flusso

/-- `^[a-zA-Z_][a-zA-Z0-9_]*$`, at most 63 characters. -/
def isFieldIdentifier (text : List Char) : Bool :=
  match text with
  | [] => false
  | c :: rest => isFieldStart c && rest.all isFieldRest && decide (text.length ≤ 63)
where
  isFieldStart (c : Char) : Bool := isIdentifierStart c || ('A' ≤ c && c ≤ 'Z')
  isFieldRest (c : Char) : Bool := isFieldStart c || ('0' ≤ c && c ≤ '9')

def FieldName.tryNew (text : String) : Option FieldName :=
  let kept := trim text.toList
  if isFieldIdentifier kept then some ⟨String.ofList kept⟩ else none

/-- A raw filter: trimmed, and not empty. -/
def rawFilterValue (text : String) : Option String :=
  let kept := trim text.toList
  if kept = [] then none else some (String.ofList kept)

section Kept

variable {text : List Char} {c : Char}

theorem toNat_of_isIdentifierRest (h : isIdentifierRest c = true) :
    (97 ≤ c.toNat ∧ c.toNat ≤ 122) ∨ c.toNat = 95 ∨ (48 ≤ c.toNat ∧ c.toNat ≤ 57) := by
  simp only [isIdentifierRest, isIdentifierStart, Bool.or_eq_true, Bool.and_eq_true,
    decide_eq_true_eq] at h
  rcases h with (h | rfl) | h
  · exact .inl h
  · exact .inr (.inl rfl)
  · exact .inr (.inr h)

theorem trim_of_not_isWhitespace (h : ∀ c ∈ text, isWhitespace c = false) : trim text = text := by
  have hdrop : ∀ text : List Char, (∀ c ∈ text, isWhitespace c = false) →
      text.dropWhile isWhitespace = text := by
    intro text h
    cases text with
    | nil => rfl
    | cons c text => simp [h c List.mem_cons_self]
  rw [trim, hdrop text h, hdrop text.reverse fun c hc => h c (List.mem_reverse.mp hc),
    List.reverse_reverse]

theorem trim_trim (text : List Char) : trim (trim text) = trim text := by
  have htrim : ∀ text, trim text = (text.dropWhile isWhitespace).rdropWhile isWhitespace :=
    fun _ => rfl
  have hhead := List.dropWhile_eq_self_iff.mp (List.dropWhile_idempotent isWhitespace text)
  rw [htrim (trim text), htrim text]
  have hkept : ((text.dropWhile isWhitespace).rdropWhile isWhitespace).dropWhile isWhitespace =
      (text.dropWhile isWhitespace).rdropWhile isWhitespace := by
    apply List.dropWhile_eq_self_iff.mpr
    intro hlength
    have hfront := List.rdropWhile_prefix isWhitespace (text.dropWhile isWhitespace)
    rw [hfront.getElem hlength]
    exact hhead (hlength.trans_le hfront.length_le)
  rw [hkept, List.rdropWhile_idempotent]

theorem isWhitespace_of_isIdentifierRest (h : isIdentifierRest c = true) :
    isWhitespace c = false := by
  have hrange := toNat_of_isIdentifierRest h
  simp only [isWhitespace, Bool.or_eq_false_iff, Bool.and_eq_false_iff, decide_eq_false_iff_not]
  omega

theorem lowercase_of_isIdentifierRest (h : isIdentifierRest c = true) : lowercase c = c := by
  have hrange := toNat_of_isIdentifierRest h
  rw [lowercase, if_neg (by omega)]
  apply dif_neg
  rintro ⟨hge, hle⟩
  have hA : 65 ≤ c.toNat := hge
  have hZ : c.toNat ≤ 90 := hle
  omega

theorem identifier_of_isIdentifier (h : isIdentifier text = true) :
    identifier (String.ofList text) = some (String.ofList text) := by
  have hrest : ∀ c ∈ text, isIdentifierRest c = true := by
    cases text with
    | nil => simp
    | cons c rest =>
      simp only [isIdentifier, Bool.and_eq_true, List.all_eq_true] at h
      obtain ⟨⟨hstart, hall⟩, -⟩ := h
      intro d hd
      rcases List.mem_cons.mp hd with rfl | hd
      · simp [isIdentifierRest, hstart]
      · exact hall d hd
  have htrim : trim text = text :=
    trim_of_not_isWhitespace fun c hc => isWhitespace_of_isIdentifierRest (hrest c hc)
  have hlower : text.map lowercase = text :=
    (List.map_congr_left fun c hc => lowercase_of_isIdentifierRest (hrest c hc)).trans
      (List.map_id text)
  simp [identifier, htrim, hlower, h]

theorem identifier_kept {source kept : String} (h : identifier source = some kept) :
    identifier kept = some kept := by
  simp only [identifier] at h
  split_ifs at h with hidentifier
  cases h
  exact identifier_of_isIdentifier hidentifier

end Kept

/-- The name is built from its own text. -/
def ColumnName.Valid (name : ColumnName) : Prop := ColumnName.tryNew name.name = some name

def TableName.Valid (name : TableName) : Prop := TableName.tryNew name.name = some name

def DatabaseSchema.Valid (name : DatabaseSchema) : Prop :=
  DatabaseSchema.tryNew name.name = some name

def FieldName.Valid (name : FieldName) : Prop := FieldName.tryNew name.name = some name

theorem ColumnName.valid_of_tryNew {text : String} {name : ColumnName}
    (h : ColumnName.tryNew text = some name) : name.Valid := by
  obtain ⟨kept, hkept, rfl⟩ := Option.map_eq_some_iff.mp h
  exact congrArg (Option.map ColumnName.mk) (identifier_kept hkept)

theorem TableName.valid_of_tryNew {text : String} {name : TableName}
    (h : TableName.tryNew text = some name) : name.Valid := by
  obtain ⟨kept, hkept, rfl⟩ := Option.map_eq_some_iff.mp h
  exact congrArg (Option.map TableName.mk) (identifier_kept hkept)

theorem DatabaseSchema.valid_of_tryNew {text : String} {name : DatabaseSchema}
    (h : DatabaseSchema.tryNew text = some name) : name.Valid := by
  obtain ⟨kept, hkept, rfl⟩ := Option.map_eq_some_iff.mp h
  exact congrArg (Option.map DatabaseSchema.mk) (identifier_kept hkept)

theorem FieldName.valid_of_tryNew {text : String} {name : FieldName}
    (h : FieldName.tryNew text = some name) : name.Valid := by
  simp only [FieldName.tryNew] at h
  split_ifs at h with hidentifier
  cases h
  simp [FieldName.Valid, FieldName.tryNew, trim_trim, hidentifier]

theorem rawFilterValue_kept {source kept : String} (h : rawFilterValue source = some kept) :
    rawFilterValue kept = some kept := by
  simp only [rawFilterValue] at h
  split_ifs at h with hempty
  cases h
  simp [rawFilterValue, trim_trim, hempty]

end Flusso
