import Flusso.Cdc.Pgoutput

/-! # The wire encoding of pgoutput

Messages as version 1 of the protocol lays them out, counts and lengths with
their sign. The decoder reads each encoding back, and refuses every message cut
short.
-/

namespace Flusso.Cdc.Pgoutput

/-- Items under the signed number that announces them; a negative number announces none. -/
structure Counted (N α : Type) (announced : N → ℕ) where
  count : N
  items : List α
  agrees : items.length = announced count

/-- A text that a zero byte can end. -/
structure CString where
  text : String
  zeroFree : 0 ∉ utf8 text

inductive WireCell where
  | null
  | unchanged
  | text (len : Int32) (text : String) (agrees : (utf8 text).length = len.toNatClampNeg)

abbrev WireTuple := Counted Int16 WireCell Int16.toNatClampNeg

structure WireColumn where
  flags : UInt8
  name : CString
  typeOid : UInt32
  typeModifier : UInt32

/-- Whether an old tuple holds the key columns or all of them. -/
inductive OldKind where
  | key
  | full

/-- The row and table messages of the protocol, every field as it is sent. -/
inductive Message where
  | relation (oid : UInt32) (dbSchema table : CString) (identity : UInt8)
      (columns : Counted Int16 WireColumn Int16.toNatClampNeg)
  | insert (rel : UInt32) (new : WireTuple)
  | update (rel : UInt32) (old : Option (OldKind × WireTuple)) (new : WireTuple)
  | delete (rel : UInt32) (kind : OldKind) (old : WireTuple)
  | truncate (options : UInt8) (rels : Counted Int32 UInt32 Int32.toNatClampNeg)

section Encoding

def encodeU32 (n : UInt32) : List UInt8 := bigEndian 4 n.toNat

def encodeI32 (n : Int32) : List UInt8 := bigEndian 4 n.toUInt32.toNat

def encodeI16 (n : Int16) : List UInt8 := bigEndian 2 n.toUInt16.toNat

def CString.encode (s : CString) : List UInt8 := utf8 s.text ++ [0]

def WireCell.encode : WireCell → List UInt8
  | .null => ['n'.toUInt8]
  | .unchanged => ['u'.toUInt8]
  | .text len content _ => 't'.toUInt8 :: encodeI32 len ++ utf8 content

def encodeTuple (tuple : WireTuple) : List UInt8 :=
  encodeI16 tuple.count ++ tuple.items.flatMap WireCell.encode

def WireColumn.encode (column : WireColumn) : List UInt8 :=
  column.flags :: column.name.encode ++ encodeU32 column.typeOid ++ encodeU32 column.typeModifier

def OldKind.encode : OldKind → UInt8
  | .key => 'K'.toUInt8
  | .full => 'O'.toUInt8

def Message.encode : Message → List UInt8
  | .relation oid dbSchema table identity columns =>
    'R'.toUInt8 :: encodeU32 oid ++ dbSchema.encode ++ table.encode ++ [identity] ++
      encodeI16 columns.count ++ columns.items.flatMap WireColumn.encode
  | .insert rel new => 'I'.toUInt8 :: encodeU32 rel ++ ['N'.toUInt8] ++ encodeTuple new
  | .update rel (some (kind, old)) new =>
    'U'.toUInt8 :: encodeU32 rel ++ [kind.encode] ++ encodeTuple old ++ ['N'.toUInt8] ++
      encodeTuple new
  | .update rel none new => 'U'.toUInt8 :: encodeU32 rel ++ ['N'.toUInt8] ++ encodeTuple new
  | .delete rel kind old => 'D'.toUInt8 :: encodeU32 rel ++ [kind.encode] ++ encodeTuple old
  | .truncate options rels =>
    'T'.toUInt8 :: encodeI32 rels.count ++ [options] ++ rels.items.flatMap encodeU32

end Encoding

section Meaning

def WireCell.decoded : WireCell → Cell
  | .null => .null
  | .unchanged => .unchanged
  | .text _ content _ => .text content

def WireColumn.decoded (column : WireColumn) : Option Column := do
  let name ← ColumnName.tryNew column.name.text
  pure { name, isKey := column.flags &&& 1 ≠ 0, typeOid := column.typeOid }

def tupleDecoded (tuple : WireTuple) : Tuple := tuple.items.map WireCell.decoded

/-- What a message says, in the fields the decoder keeps; no relation has a name that is none. -/
def Message.decoded : Message → Option Decoded
  | .relation oid dbSchema table _ columns => do
    let dbSchema ← DatabaseSchema.tryNew dbSchema.text
    let table ← TableName.tryNew table.text
    let columns ← columns.items.mapM WireColumn.decoded
    pure (.relation { oid, dbSchema, table, columns, primaryKey := [] })
  | .insert rel new => some (.insert rel (tupleDecoded new))
  | .update rel old new =>
    some (.update rel (old.map fun old => tupleDecoded old.2) (tupleDecoded new))
  | .delete rel _ old => some (.delete rel (tupleDecoded old))
  | .truncate _ rels => some (.truncate rels.items)

def Message.isTruncate : Message → Bool
  | .truncate _ _ => true
  | _ => false

end Meaning

open Reader Cursor

section Fields

theorem reads_u8 (b : UInt8) : Reads u8 [b] (some b) := Reads.byte b _

theorem reads_take (bytes : List UInt8) : Reads (take bytes.length) bytes (some bytes) :=
  Reads.take _

theorem reads_u32 (n : UInt32) : Reads u32 (encodeU32 n) (some n) := by
  have h := (reads_take (encodeU32 n)).map fun bytes => UInt32.ofNat (ofBigEndian bytes)
  rw [Option.map_some, encodeU32, ofBigEndian_bigEndian n.toNat_lt, UInt32.ofNat_toNat] at h
  exact h

theorem reads_i16Count (n : Int16) : Reads i16Count (encodeI16 n) (some n.toNatClampNeg) := by
  have h := (reads_take (encodeI16 n)).map
    fun bytes => (Int16.ofNat (ofBigEndian bytes)).toNatClampNeg
  have hback : Int16.ofNat n.toUInt16.toNat = n := by simp [Int16.ofNat]
  rw [Option.map_some, encodeI16, ofBigEndian_bigEndian n.toUInt16.toNat_lt, hback] at h
  exact h

theorem reads_i32Len (n : Int32) : Reads i32Len (encodeI32 n) (some n.toNatClampNeg) := by
  have h := (reads_take (encodeI32 n)).map
    fun bytes => (Int32.ofNat (ofBigEndian bytes)).toNatClampNeg
  have hback : Int32.ofNat n.toUInt32.toNat = n := by simp [Int32.ofNat]
  rw [Option.map_some, encodeI32, ofBigEndian_bigEndian n.toUInt32.toNat_lt, hback] at h
  exact h

theorem reads_cstring (s : CString) : Reads cstring s.encode (some s.text) := by
  have h := (Reads.untilZero s.zeroFree DecodeError.unterminated).map fromUtf8Lossy
  rw [Option.map_some, fromUtf8Lossy_utf8] at h
  exact h

theorem reads_named {α : Type} (what : String) (tryNew : String → Option α) (s : CString) :
    Reads (named what tryNew) s.encode (tryNew s.text) := by
  refine (reads_cstring s).finish (s := tryNew) fun text _ => ?_
  cases tryNew text with
  | none => exact Reads.throw _
  | some name => exact Reads.pure name

theorem reads_expect (want : UInt8) (what : String) : Reads (expect want what) [want] (some ()) := by
  refine (reads_u8 want).finish (s := fun _ => some ()) fun got hgot => ?_
  rw [if_pos (Option.some.inj hgot).symm]
  exact Reads.pure ()

end Fields

section Rows

theorem reads_cell (cell : WireCell) : Reads decodeCell cell.encode (some cell.decoded) := by
  cases cell with
  | null => exact (reads_u8 _).seq (Reads.pure Cell.null)
  | unchanged => exact (reads_u8 _).seq (Reads.pure Cell.unchanged)
  | text len content agrees =>
    have hcell : WireCell.encode (.text len content agrees) =
        ['t'.toUInt8] ++ (encodeI32 len ++ utf8 content) := rfl
    rw [hcell]
    refine (reads_u8 't'.toUInt8).seq ?_
    refine (reads_i32Len len).seq ?_
    have h := (reads_take (utf8 content)).map fun bytes => Cell.text (fromUtf8Lossy bytes)
    rw [agrees, Option.map_some, fromUtf8Lossy_utf8] at h
    exact h

theorem reads_tuple (tuple : WireTuple) :
    Reads decodeTuple (encodeTuple tuple) (some (tupleDecoded tuple)) := by
  refine (reads_i16Count tuple.count).seq ?_
  have hcells : ∀ cell ∈ tuple.items, Reads decodeCell cell.encode (some cell.decoded) :=
    fun cell _ => reads_cell cell
  have h := Reads.times hcells
  have hmap : tuple.items.mapM (fun cell => some cell.decoded) = some (tupleDecoded tuple) :=
    List.mapM_pure
  rw [tuple.agrees, hmap] at h
  exact h

theorem reads_column (column : WireColumn) :
    Reads decodeColumn column.encode column.decoded := by
  have hencode : column.encode = [column.flags] ++ (column.name.encode ++
      (encodeU32 column.typeOid ++ encodeU32 column.typeModifier)) := by
    simp [WireColumn.encode]
  rw [hencode]
  refine (reads_u8 column.flags).seq ((reads_cstring column.name).seq
    ((reads_u32 column.typeOid).seq ?_))
  refine (reads_u32 column.typeModifier).finish (s := fun _ => column.decoded) fun _ _ => ?_
  unfold WireColumn.decoded
  cases ColumnName.tryNew column.name.text with
  | none => exact Reads.throw _
  | some name => exact Reads.pure _

theorem reads_relation (oid : UInt32) (dbSchema table : CString) (identity : UInt8)
    (columns : Counted Int16 WireColumn Int16.toNatClampNeg) :
    Reads decodeRelation
      (encodeU32 oid ++ (dbSchema.encode ++ (table.encode ++ ([identity] ++
        (encodeI16 columns.count ++ columns.items.flatMap WireColumn.encode)))))
      (Message.relation oid dbSchema table identity columns).decoded := by
  refine (reads_u32 oid).seq ?_
  refine (reads_named "schema" _ dbSchema).bind fun dbSchema _ => ?_
  refine (reads_named "table" _ table).bind fun table _ => ?_
  refine (reads_u8 identity).seq ((reads_i16Count columns.count).seq ?_)
  have hcolumns : ∀ column ∈ columns.items, Reads decodeColumn column.encode column.decoded :=
    fun column _ => reads_column column
  have h := Reads.times hcolumns
  rw [columns.agrees] at h
  exact h.finish fun columns _ => Reads.pure _

theorem reads_insert (rel : UInt32) (new : WireTuple) :
    Reads decodeInsert (encodeU32 rel ++ (['N'.toUInt8] ++ encodeTuple new))
      (Message.insert rel new).decoded := by
  refine (reads_u32 rel).seq ((reads_expect _ _).seq ?_)
  exact (reads_tuple new).map (Decoded.insert rel)

theorem reads_update_old (rel : UInt32) (kind : OldKind) (old new : WireTuple) :
    Reads decodeUpdate (encodeU32 rel ++ ([kind.encode] ++ (encodeTuple old ++
      (['N'.toUInt8] ++ encodeTuple new)))) (Message.update rel (some (kind, old)) new).decoded := by
  refine (reads_u32 rel).seq ((reads_u8 _).seq ?_)
  have hmarker : (kind.encode = 'K'.toUInt8 || kind.encode = 'O'.toUInt8) = true := by
    cases kind <;> rfl
  simp only [hmarker, if_true]
  refine (reads_tuple old).seq ((reads_expect _ _).seq ?_)
  exact (reads_tuple new).map (Decoded.update rel (some (tupleDecoded old)))

theorem reads_update_new (rel : UInt32) (new : WireTuple) :
    Reads decodeUpdate (encodeU32 rel ++ (['N'.toUInt8] ++ encodeTuple new))
      (Message.update rel none new).decoded := by
  refine (reads_u32 rel).seq ((reads_u8 'N'.toUInt8).seq ?_)
  exact (reads_tuple new).map (Decoded.update rel none)

theorem reads_delete (rel : UInt32) (kind : OldKind) (old : WireTuple) :
    Reads decodeDelete (encodeU32 rel ++ ([kind.encode] ++ encodeTuple old))
      (Message.delete rel kind old).decoded := by
  refine (reads_u32 rel).seq ((reads_u8 _).seq ?_)
  have hmarker : (kind.encode = 'K'.toUInt8 || kind.encode = 'O'.toUInt8) = true := by
    cases kind <;> rfl
  simp only [hmarker, if_true]
  exact (reads_tuple old).map (Decoded.delete rel)

end Rows

section Messages

theorem exists_reads (m : Message) (h : m.isTruncate = false) :
    ∃ tag body, m.encode = tag :: body ∧ Reads (decodeBody tag) body m.decoded := by
  cases m with
  | relation oid dbSchema table identity columns =>
    refine ⟨'R'.toUInt8, _, ?_, reads_relation oid dbSchema table identity columns⟩
    simp [Message.encode]
  | insert rel new => exact ⟨_, _, rfl, reads_insert rel new⟩
  | update rel old new =>
    cases old with
    | none => exact ⟨_, _, rfl, reads_update_new rel new⟩
    | some old =>
      obtain ⟨kind, old⟩ := old
      refine ⟨'U'.toUInt8, _, ?_, reads_update_old rel kind old new⟩
      simp [Message.encode]
  | delete rel kind old => exact ⟨_, _, rfl, reads_delete rel kind old⟩
  | truncate options rels => cases h

theorem toOption_decode (tag : UInt8) (body : List UInt8) :
    (decode (tag :: body)).toOption = ((decodeBody tag).run body).toOption.map Prod.fst := by
  simp only [decode, StateT.run'_eq]
  cases (decodeBody tag).run body with
  | error e => rfl
  | ok out => rfl

theorem decode_eq_ok {m : Message} {d : Decoded} (h : m.isTruncate = false)
    (hd : m.decoded = some d) : decode m.encode = .ok d := by
  obtain ⟨tag, body, hencode, hreads⟩ := exists_reads m h
  have hread := toOption_decode tag body
  have hwhole := hreads.whole []
  rw [List.append_nil] at hwhole
  rw [hwhole, hd] at hread
  rw [hencode]
  cases hresult : decode (tag :: body) with
  | ok d' =>
    rw [hresult] at hread
    exact congrArg Except.ok (Option.some.inj hread)
  | error e =>
    rw [hresult] at hread
    cases hread

/-- Row and relation messages decode to what they say, whatever follows them, and to nothing
when they are cut short. -/
theorem decode_encode (m : Message) (h : m.isTruncate = false) :
    (∀ rest, (decode (m.encode ++ rest)).toOption = m.decoded) ∧
      ∀ front, front <+: m.encode → front ≠ m.encode → (decode front).toOption = none := by
  obtain ⟨tag, body, hencode, hreads⟩ := exists_reads m h
  rw [hencode]
  constructor
  · rintro rest
    rw [List.cons_append, toOption_decode, hreads.whole]
    cases m.decoded <;> rfl
  · rintro front hfront hne
    cases front with
    | nil => rfl
    | cons b front =>
      obtain ⟨rfl, htail⟩ := List.cons_prefix_cons.mp hfront
      rw [toOption_decode, hreads.short front htail fun heq => hne (heq ▸ rfl)]
      rfl

theorem decode_encode_insert :
    let m : Message := .insert 16384 ⟨2, [.text 2 "42" (by decide), .null], rfl⟩
    (∀ rest, (decode (m.encode ++ rest)).toOption = m.decoded) ∧
      ∀ front, front <+: m.encode → front ≠ m.encode → (decode front).toOption = none :=
  decode_encode (.insert 16384 ⟨2, [.text 2 "42" (by decide), .null], rfl⟩) rfl

/-- A truncate's `Int32` count is read at half its width, and a negative count announces
nothing. -/
theorem not_decode_encode_truncate :
    ((Message.truncate 0 ⟨1, [16384], rfl⟩).decoded = some (.truncate [16384]) ∧
      decode (Message.truncate 0 ⟨1, [16384], rfl⟩).encode = .ok (.truncate [])) ∧
      decode (Message.delete 16384 .key ⟨-1, [], rfl⟩).encode = .ok (.delete 16384 []) := by
  refine ⟨⟨rfl, ?_⟩, ?_⟩
  · decide
  · decide

end Messages

end Flusso.Cdc.Pgoutput
