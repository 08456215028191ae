import Flusso.Kernel.Model
import Flusso.Kernel.Rendering

/-! # Ids of documents

A row's key is written part by part between colons. Where at most one part is
free text the ids of a table tell its rows apart; two such parts do not.
-/

namespace Flusso

/-- What a key column's values are decoded to. -/
inductive KeyKind where
  | bool
  | smallInt
  | int
  | bigInt
  | float
  | double
  | decimal
  | text
  | uuid
  | date
  | time
  | timestamp
  | timestampTz
  | bytes
  /-- Any value. -/
  | json
  deriving DecidableEq

namespace KeyKind

/-- The values of a column: the server has one float that is no number, and no leap seconds. -/
inductive Holds : KeyKind → GenericValue → Prop
  | bool (b : Bool) : Holds .bool (.bool b)
  | smallInt (i : Int16) : Holds .smallInt (.smallInt i)
  | int (i : Int32) : Holds .int (.int i)
  | bigInt (i : Int64) : Holds .bigInt (.bigInt i)
  | float (bits : UInt32)
      (h : bits.toNat % 2 ^ 31 ≤ BinaryFloat.single.infinity ∨ bits = 0x7FC00000) :
      Holds .float (.float bits)
  | double (bits : UInt64)
      (h : bits.toNat % 2 ^ 63 ≤ BinaryFloat.double.infinity ∨ bits = 0x7FF8000000000000) :
      Holds .double (.double bits)
  | decimal (d : Decimal) : Holds .decimal (.decimal d)
  | text (s : String) : Holds .text (.string s)
  | uuid (u : BitVec 128) : Holds .uuid (.uuid u)
  | date (d : NaiveDate) : Holds .date (.date d)
  | time (t : NaiveTime) (h : t.nanos < 10 ^ 9) : Holds .time (.time t)
  | timestamp (t : NaiveDateTime) (h : t.time.nanos < 10 ^ 9) : Holds .timestamp (.timestamp t)
  | timestampTz (t : NaiveDateTime) (h : t.time.nanos < 10 ^ 9) :
      Holds .timestampTz (.timestampTz t)
  | bytes (bytes : List UInt8) : Holds .bytes (.bytes bytes)
  | json (v : GenericValue) : Holds .json v

/-- The colons in the text of a value. -/
def colons : KeyKind → ℕ
  | time | timestamp => 2
  | timestampTz => 3
  | _ => 0

/-- Some value of a column. -/
def sample : KeyKind → GenericValue
  | bool => .bool true
  | smallInt => .smallInt 0
  | int => .int 0
  | bigInt => .bigInt 0
  | float => .float 0
  | double => .double 0
  | decimal => .decimal ⟨false, 0, 0, by decide, by decide⟩
  | text => .string ""
  | uuid => .uuid 0
  | date => .date sampleDate
  | time => .time sampleTime
  | timestamp => .timestamp ⟨sampleDate, sampleTime⟩
  | timestampTz => .timestampTz ⟨sampleDate, sampleTime⟩
  | bytes => .bytes []
  | json => .null
where
  sampleDate : NaiveDate := ⟨1970, 1, 1, by decide, by decide, by decide⟩
  sampleTime : NaiveTime := ⟨0, 0, by decide, by decide⟩

theorem holds_sample (kind : KeyKind) : kind.Holds kind.sample := by
  cases kind with
  | float => exact .float 0 (Or.inl (by decide))
  | double => exact .double 0 (Or.inl (by decide))
  | time => exact .time _ (by decide)
  | timestamp => exact .timestamp _ (by decide)
  | timestampTz => exact .timestampTz _ (by decide)
  | _ => constructor

theorem count_colon_int (i : ℤ) : (toString i).toList.count ':' = 0 := by
  have hnat (n : ℕ) : n.repr.toList.count ':' = 0 := count_toString (by decide) n
  cases i with
  | ofNat n => exact hnat n
  | negSucc n =>
    have htext : (toString (Int.negSucc n)).toList = '-' :: (n + 1).repr.toList := by
      simp [toString, Int.repr]
    rw [htext, List.count_cons, hnat]
    rfl

theorem count_colon_float (f : BinaryFloat.Format) (signBit bits : ℕ) :
    (floatText f signBit bits).toList.count ':' = 0 := by
  unfold floatText
  dsimp only
  split
  · rfl
  · have hsign : (if signBit ≤ bits then "-" else "").toList.count ':' = 0 := by
      split <;> rfl
    split
    · rw [String.toList_append, List.count_append, hsign]
      rfl
    · split
      · rw [String.toList_append, List.count_append, hsign]
        rfl
      · rw [String.toList_append, List.count_append, hsign,
          count_fixedText (by decide) (by decide)]

theorem count_colon_decimal (d : Decimal) : d.text.toList.count ':' = 0 := by
  have hsign : (if d.negative then "-" else "").toList.count ':' = 0 := by
    split <;> rfl
  rw [Decimal.text, String.toList_append, List.count_append, hsign,
    count_fixedText (by decide) (by decide)]

theorem count_colon_uuid (u : BitVec 128) : (uuidText u).toList.count ':' = 0 := by
  rw [List.count_eq_zero]
  intro hmem
  have hdigits : ':' ∈ uuidDigits u := by
    rw [← filter_uuidText]
    exact List.mem_filter.mpr ⟨hmem, by decide⟩
  obtain ⟨i, -, hi⟩ := List.mem_map.mp hdigits
  exact digitChar_ne (by decide) _ hi

theorem count_colon_hex (bytes : List UInt8) : (hexText bytes).toList.count ':' = 0 := by
  rw [List.count_eq_zero]
  intro hmem
  simp only [hexText, String.toList_append, String.toList_ofList, List.mem_append,
    List.mem_flatMap] at hmem
  obtain hmem | ⟨byte, -, hmem⟩ := hmem
  · exact absurd hmem (by decide)
  · rcases List.mem_cons.mp hmem with heq | hmem
    · exact digitChar_ne (by decide) _ heq.symm
    · exact digitChar_ne (by decide) _ (List.mem_singleton.mp hmem).symm

theorem count_colon_valueToString {kind : KeyKind} {v : GenericValue} (h : kind.Holds v)
    (htext : kind ≠ text) (hjson : kind ≠ json) :
    v.valueToString.toList.count ':' = kind.colons := by
  have hdate (d : NaiveDate) : d.text.toList.count ':' = 0 := d.count_text (by decide) (by decide)
  cases h with
  | bool b => cases b <;> rfl
  | smallInt i => exact count_colon_int _
  | int i => exact count_colon_int _
  | bigInt i => exact count_colon_int _
  | float bits => exact count_colon_float _ _ _
  | double bits => exact count_colon_float _ _ _
  | decimal d => exact count_colon_decimal d
  | text s => exact absurd rfl htext
  | uuid u => exact count_colon_uuid u
  | date d => exact hdate d
  | time t h => exact NaiveTime.count_text h
  | timestamp t h =>
    change t.text.toList.count ':' = 2
    rw [NaiveDateTime.toList_text, List.count_append, List.count_cons, hdate,
      NaiveTime.count_text h]
    rfl
  | timestampTz t h =>
    change t.rfc3339.toList.count ':' = 3
    rw [NaiveDateTime.toList_rfc3339, List.count_append, List.count_cons, List.count_append, hdate,
      NaiveTime.count_text h]
    rfl
  | bytes bytes => exact count_colon_hex bytes
  | json v => exact absurd rfl hjson

/-- The texts of a column tell its values apart. -/
theorem eq_of_valueToString {kind : KeyKind} {v w : GenericValue} (hv : kind.Holds v)
    (hw : kind.Holds w) (hjson : kind ≠ json) (h : v.valueToString = w.valueToString) :
    v.eq w = true := by
  cases hv with
  | bool b =>
    cases hw with
    | bool c => cases b <;> cases c <;> first | rfl | exact absurd h (by decide)
  | smallInt i =>
    cases hw with
    | smallInt j =>
      have hint : i.toInt = j.toInt := Int.repr_inj.mp h
      simpa [GenericValue.eq] using Int16.toInt_inj.mp hint
  | int i =>
    cases hw with
    | int j =>
      have hint : i.toInt = j.toInt := Int.repr_inj.mp h
      simpa [GenericValue.eq] using Int32.toInt_inj.mp hint
  | bigInt i =>
    cases hw with
    | bigInt j =>
      have hint : i.toInt = j.toInt := Int.repr_inj.mp h
      simpa [GenericValue.eq] using Int64.toInt_inj.mp hint
  | float a ha =>
    cases hw with
    | float b hb =>
      change floatText BinaryFloat.single (2 ^ 31) a.toNat =
        floatText BinaryFloat.single (2 ^ 31) b.toNat at h
      have hbits (c : UInt32) (h : c.toNat % 2 ^ 31 ≤ BinaryFloat.single.infinity ∨ c = 0x7FC00000) :
          c.toNat % 2 ^ 31 ≤ BinaryFloat.single.infinity ∨ c.toNat = 0x7FC00000 :=
        h.imp_right fun h => by rw [h]; rfl
      have heq := floatText_inj_nan (by decide) (by decide) (by decide) a.toNat_lt b.toNat_lt
        (hbits a ha) (hbits b hb) h
      simpa [GenericValue.eq] using UInt32.toNat_inj.mp heq
  | double a ha =>
    cases hw with
    | double b hb =>
      change floatText BinaryFloat.double (2 ^ 63) a.toNat =
        floatText BinaryFloat.double (2 ^ 63) b.toNat at h
      have hbits (c : UInt64)
          (h : c.toNat % 2 ^ 63 ≤ BinaryFloat.double.infinity ∨ c = 0x7FF8000000000000) :
          c.toNat % 2 ^ 63 ≤ BinaryFloat.double.infinity ∨ c.toNat = 0x7FF8000000000000 :=
        h.imp_right fun h => by rw [h]; rfl
      have heq := floatText_inj_nan (by decide) (by decide) (by decide) a.toNat_lt b.toNat_lt
        (hbits a ha) (hbits b hb) h
      simpa [GenericValue.eq] using UInt64.toNat_inj.mp heq
  | decimal d =>
    cases hw with
    | decimal e =>
      change d.text = e.text at h
      simpa [GenericValue.eq] using Decimal.units_of_text h
  | text s =>
    cases hw with
    | text t =>
      change s = t at h
      simpa [GenericValue.eq] using h
  | uuid u =>
    cases hw with
    | uuid w =>
      change uuidText u = uuidText w at h
      simpa only [GenericValue.eq, decide_eq_true_eq] using uuidText_inj h
  | date d =>
    cases hw with
    | date e =>
      change d.text = e.text at h
      simpa [GenericValue.eq] using NaiveDate.text_inj h
  | time t ht =>
    cases hw with
    | time u hu =>
      change t.text = u.text at h
      simpa [GenericValue.eq] using NaiveTime.text_inj ht hu h
  | timestamp t ht =>
    cases hw with
    | timestamp u hu =>
      change t.text = u.text at h
      simpa [GenericValue.eq] using NaiveDateTime.text_inj ht hu h
  | timestampTz t ht =>
    cases hw with
    | timestampTz u hu =>
      change t.rfc3339 = u.rfc3339 at h
      simpa [GenericValue.eq] using NaiveDateTime.rfc3339_inj ht hu h
  | bytes a =>
    cases hw with
    | bytes b =>
      change hexText a = hexText b at h
      simpa [GenericValue.eq] using hexText_inj h
  | json v => exact absurd rfl hjson

end KeyKind

section Keys

variable {columns : List (ColumnName × KeyKind)} {key key' : RowKey GenericValue}

/-- A key of a table: each key column with a value of its kind. -/
def HoldsKey (columns : List (ColumnName × KeyKind)) (key : RowKey GenericValue) : Prop :=
  List.Forall₂ (fun column entry => column.1 = entry.1 ∧ column.2.Holds entry.2) columns key

/-- The same columns with equal values. -/
def SameKey (key key' : RowKey GenericValue) : Prop :=
  List.Forall₂ (fun a b => a.1 = b.1 ∧ a.2.eq b.2 = true) key key'

/-- The parts of an id. -/
def keyTexts (key : RowKey GenericValue) : List (List Char) :=
  key.map fun entry => entry.2.valueToString.toList

theorem toList_documentId (index : IndexName) (key : RowKey GenericValue) :
    (documentId ⟨index, key⟩).toList = [':'].intercalate (keyTexts key) := by
  have hsep : ":".toList = [':'] := rfl
  rw [documentId, String.toList_intercalate, hsep, List.map_map]
  rfl

theorem documentId_eq_iff {index : IndexName} :
    documentId ⟨index, key⟩ = documentId ⟨index, key'⟩ ↔
      [':'].intercalate (keyTexts key) = [':'].intercalate (keyTexts key') := by
  rw [← toList_documentId index, ← toList_documentId index, String.toList_inj]

theorem HoldsKey.counted (h : HoldsKey columns key) (h' : HoldsKey columns key')
    (htext : ∀ column ∈ columns, column.2 ≠ .text) (hjson : ∀ column ∈ columns, column.2 ≠ .json) :
    Separators.Counted ':' (keyTexts key) (keyTexts key') := by
  induction h generalizing key' with
  | nil =>
    cases h'
    exact .nil
  | @cons column entry columns key hentry _ ih =>
    cases h' with
    | cons hentry' hrest' =>
      apply List.Forall₂.cons
      · rw [KeyKind.count_colon_valueToString hentry.2 (htext _ List.mem_cons_self)
            (hjson _ List.mem_cons_self),
          KeyKind.count_colon_valueToString hentry'.2 (htext _ List.mem_cons_self)
            (hjson _ List.mem_cons_self)]
      · exact ih hrest' (fun column h => htext column (List.mem_cons_of_mem _ h))
          fun column h => hjson column (List.mem_cons_of_mem _ h)

theorem HoldsKey.aligned (h : HoldsKey columns key) (h' : HoldsKey columns key')
    (htext : columns.countP (fun column => column.2 = .text) ≤ 1)
    (hjson : ∀ column ∈ columns, column.2 ≠ .json) :
    Separators.Aligned ':' (keyTexts key) (keyTexts key') := by
  induction h generalizing key' with
  | nil =>
    cases h'
    exact .nil
  | @cons column entry columns key hentry hrest ih =>
    cases h' with
    | cons hentry' hrest' =>
      have hjson' : ∀ column ∈ columns, column.2 ≠ .json :=
        fun column h => hjson column (List.mem_cons_of_mem _ h)
      rw [List.countP_cons] at htext
      by_cases hkind : column.2 = .text
      · apply Separators.Aligned.free
        apply HoldsKey.counted hrest hrest' _ hjson'
        rw [if_pos (by simpa using hkind)] at htext
        have hnone := List.countP_eq_zero.mp (by omega :
          columns.countP (fun column => column.2 = .text) = 0)
        simpa using hnone
      · apply Separators.Aligned.counted
        · rw [KeyKind.count_colon_valueToString hentry.2 hkind (hjson _ List.mem_cons_self),
            KeyKind.count_colon_valueToString hentry'.2 hkind (hjson _ List.mem_cons_self)]
        · exact ih hrest' (by omega) hjson'

theorem HoldsKey.sameKey (h : HoldsKey columns key) (h' : HoldsKey columns key')
    (hjson : ∀ column ∈ columns, column.2 ≠ .json) (htexts : keyTexts key = keyTexts key') :
    SameKey key key' := by
  induction h generalizing key' with
  | nil =>
    cases h'
    exact .nil
  | @cons column entry columns key hentry hrest ih =>
    cases h' with
    | @cons _ entry' _ key' hentry' hrest' =>
      rw [keyTexts, keyTexts, List.map_cons, List.map_cons, List.cons.injEq] at htexts
      apply List.Forall₂.cons
      · refine ⟨hentry.1.symm.trans hentry'.1, ?_⟩
        exact KeyKind.eq_of_valueToString hentry.2 hentry'.2 (hjson _ List.mem_cons_self)
          (String.toList_inj.mp htexts.1)
      · exact ih hrest' (fun column h => hjson column (List.mem_cons_of_mem _ h)) htexts.2

/-- Some key of a table. -/
def sampleKey (columns : List (ColumnName × KeyKind)) : RowKey GenericValue :=
  columns.map fun column => (column.1, column.2.sample)

theorem holdsKey_sampleKey (columns : List (ColumnName × KeyKind)) :
    HoldsKey columns (sampleKey columns) := by
  induction columns with
  | nil => exact .nil
  | cons column columns ih => exact .cons ⟨rfl, column.2.holds_sample⟩ ih

theorem HoldsKey.append {columns' : List (ColumnName × KeyKind)} (h : HoldsKey columns key)
    (h' : HoldsKey columns' key') : HoldsKey (columns ++ columns') (key ++ key') := by
  induction h with
  | nil => exact h'
  | cons hentry _ ih => exact .cons hentry ih

theorem SameKey.middle {before behind behind' : RowKey GenericValue}
    {a b : ColumnName × GenericValue} (h : SameKey (before ++ a :: behind) (before ++ b :: behind')) :
    a.2.eq b.2 = true := by
  induction before with
  | nil =>
    cases h with
    | cons hentry _ => exact hentry.2
  | cons entry before ih =>
    cases h with
    | cons _ hrest => exact ih hrest

theorem exists_two_of_countP {α : Type*} {p : α → Bool} {l : List α} (h : 1 < l.countP p) :
    ∃ before a mid b behind, l = before ++ a :: (mid ++ b :: behind) ∧ p a = true ∧ p b = true := by
  induction l with
  | nil => simp at h
  | cons x l ih =>
    rw [List.countP_cons] at h
    by_cases hx : p x = true
    · rw [if_pos hx] at h
      obtain ⟨b, hmem, hb⟩ := List.countP_pos_iff.mp (by omega : 0 < l.countP p)
      obtain ⟨mid, behind, rfl⟩ := List.append_of_mem hmem
      exact ⟨[], x, mid, b, behind, rfl, hx, hb⟩
    · rw [if_neg hx] at h
      obtain ⟨before, a, mid, b, behind, rfl, ha, hb⟩ := ih h
      exact ⟨x :: before, a, mid, b, behind, rfl, ha, hb⟩

/-- The ids of a table tell its rows apart. -/
def IdsTellApart (index : IndexName) (columns : List (ColumnName × KeyKind)) : Prop :=
  ∀ key key', HoldsKey columns key → HoldsKey columns key' → ¬ SameKey key key' →
    documentId ⟨index, key⟩ ≠ documentId ⟨index, key'⟩

/-- Text of two columns can be moved between them, over what stands in between. -/
theorem not_idsTellApart_of_texts {index : IndexName} {before mid behind : List (ColumnName × KeyKind)}
    {a b : ColumnName} :
    ¬ IdsTellApart index (before ++ (a, .text) :: (mid ++ (b, .text) :: behind)) := by
  intro h
  let moved := String.ofList (Separators.gap ':' (keyTexts (sampleKey mid)))
  let keyOf (s t : String) : RowKey GenericValue :=
    sampleKey before ++ (a, .string s) :: (sampleKey mid ++ (b, .string t) :: sampleKey behind)
  have hholds (s t : String) :
      HoldsKey (before ++ (a, .text) :: (mid ++ (b, .text) :: behind)) (keyOf s t) := by
    apply (holdsKey_sampleKey before).append
    apply List.Forall₂.cons ⟨rfl, .text s⟩
    apply (holdsKey_sampleKey mid).append
    exact List.Forall₂.cons ⟨rfl, .text t⟩ (holdsKey_sampleKey behind)
  have htexts (s t : String) : keyTexts (keyOf s t) = keyTexts (sampleKey before) ++
      s.toList :: (keyTexts (sampleKey mid) ++ t.toList :: keyTexts (sampleKey behind)) := by
    simp only [keyOf, keyTexts, List.map_append, List.map_cons]
    rfl
  have hmoved : moved.toList = Separators.gap ':' (keyTexts (sampleKey mid)) :=
    String.toList_ofList
  apply h (keyOf "" moved) (keyOf moved "") (hholds _ _) (hholds _ _)
  · intro hsame
    have heq := hsame.middle
    simp only [GenericValue.eq, decide_eq_true_eq] at heq
    rw [← heq] at hmoved
    exact Separators.gap_ne_nil _ _ hmoved.symm
  · rw [documentId_eq_iff, htexts, htexts, hmoved]
    exact Separators.intercalate_gap ':' _ _ _

theorem not_idsTellApart_of_json {index : IndexName} {before behind : List (ColumnName × KeyKind)}
    {a : ColumnName} : ¬ IdsTellApart index (before ++ (a, .json) :: behind) := by
  intro h
  let keyOf (items : List GenericValue) : RowKey GenericValue :=
    sampleKey before ++ (a, .array items) :: sampleKey behind
  have hholds (items : List GenericValue) :
      HoldsKey (before ++ (a, .json) :: behind) (keyOf items) := by
    apply (holdsKey_sampleKey before).append
    exact List.Forall₂.cons ⟨rfl, .json _⟩ (holdsKey_sampleKey behind)
  apply h (keyOf []) (keyOf [.null]) (hholds _) (hholds _)
  · intro hsame
    have heq := hsame.middle
    simp [GenericValue.eq, GenericValue.eqItems] at heq
  · rw [documentId_eq_iff]
    simp only [keyOf, keyTexts, List.map_append, List.map_cons]
    rfl

/-- The ids of a table tell its rows apart just where one key column at most is free text and none
holds values without a text. -/
theorem idsTellApart_iff (index : IndexName) (columns : List (ColumnName × KeyKind)) :
    IdsTellApart index columns ↔
      columns.countP (fun column => column.2 = .text) ≤ 1 ∧
        ∀ column ∈ columns, column.2 ≠ .json := by
  constructor
  · intro h
    constructor
    · by_contra htwo
      obtain ⟨before, a, mid, b, behind, rfl, ha, hb⟩ :=
        exists_two_of_countP (not_le.mp htwo)
      obtain ⟨a, kind⟩ := a
      obtain ⟨b, kind'⟩ := b
      obtain rfl : kind = .text := by simpa using ha
      obtain rfl : kind' = .text := by simpa using hb
      exact not_idsTellApart_of_texts h
    · rintro ⟨a, kind⟩ hmem rfl
      obtain ⟨before, behind, rfl⟩ := List.append_of_mem hmem
      exact not_idsTellApart_of_json h
  · rintro ⟨htext, hjson⟩ key key' hkey hkey' hdistinct heq
    apply hdistinct
    apply hkey.sameKey hkey' hjson
    exact (hkey.aligned hkey' htext hjson).intercalate_inj (documentId_eq_iff.mp heq)

/-- Two rows of a table with two text columns in its key. -/
theorem not_idsTellApart_tenant :
    ¬ IdsTellApart ⟨"users"⟩ [(⟨"tenant"⟩, .text), (⟨"name"⟩, .text)] := by
  intro h
  apply h [(⟨"tenant"⟩, .string "a:b"), (⟨"name"⟩, .string "c")]
    [(⟨"tenant"⟩, .string "a"), (⟨"name"⟩, .string "b:c")]
  · exact .cons ⟨rfl, .text _⟩ (.cons ⟨rfl, .text _⟩ .nil)
  · exact .cons ⟨rfl, .text _⟩ (.cons ⟨rfl, .text _⟩ .nil)
  · rintro (_ | ⟨⟨-, heq⟩, -⟩)
    simp [GenericValue.eq] at heq
  · rfl

end Keys

end Flusso
