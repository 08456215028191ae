import Flusso.Foundation.Reader
import Flusso.Kernel.Names

/-! # Decoding pgoutput

The raw messages of the replication stream, decoded far enough to recover a
row's key and, for an update or delete, its pre-image.
-/

namespace Flusso.Cdc.Pgoutput

section Utf8

def continues (b : UInt8) : Bool := 0x80 ≤ b && b ≤ 0xBF

/-- The bytes the first character takes, and the character when they spell one. -/
def utf8Chunk : List UInt8 → ℕ × Option Char
  | [] => (0, none)
  | b₁ :: rest =>
    if b₁ < 0x80 then (1, some (Char.ofNat b₁.toNat))
    else if 0xC2 ≤ b₁ && b₁ ≤ 0xDF then
      match rest with
      | b₂ :: _ =>
        if continues b₂ then (2, some (Char.ofNat (b₁.toNat % 32 * 64 + b₂.toNat % 64)))
        else (1, none)
      | [] => (1, none)
    else if 0xE0 ≤ b₁ && b₁ ≤ 0xEF then
      match rest with
      | b₂ :: rest =>
        if (if b₁ = 0xE0 then 0xA0 else 0x80) ≤ b₂ && b₂ ≤ (if b₁ = 0xED then 0x9F else 0xBF) then
          match rest with
          | b₃ :: _ =>
            if continues b₃ then
              (3, some (Char.ofNat ((b₁.toNat % 16 * 64 + b₂.toNat % 64) * 64 + b₃.toNat % 64)))
            else (2, none)
          | [] => (2, none)
        else (1, none)
      | [] => (1, none)
    else if 0xF0 ≤ b₁ && b₁ ≤ 0xF4 then
      match rest with
      | b₂ :: rest =>
        if (if b₁ = 0xF0 then 0x90 else 0x80) ≤ b₂ && b₂ ≤ (if b₁ = 0xF4 then 0x8F else 0xBF) then
          match rest with
          | b₃ :: rest =>
            if continues b₃ then
              match rest with
              | b₄ :: _ =>
                if continues b₄ then
                  (4, some (Char.ofNat (((b₁.toNat % 8 * 64 + b₂.toNat % 64) * 64 +
                    b₃.toNat % 64) * 64 + b₄.toNat % 64)))
                else (3, none)
              | [] => (3, none)
            else (2, none)
          | [] => (2, none)
        else (1, none)
      | [] => (1, none)
    else (1, none)

/-- Every chunk takes a byte, so there are at most as many as bytes. -/
def lossyChars : ℕ → List UInt8 → List Char
  | 0, _ => []
  | _, [] => []
  | n + 1, bytes =>
    let (taken, c) := utf8Chunk bytes
    c.getD (Char.ofNat 0xFFFD) :: lossyChars n (bytes.drop taken)

/-- The text UTF-8 bytes spell, each maximal part that spells none replaced by U+FFFD. -/
def fromUtf8Lossy (bytes : List UInt8) : String :=
  match String.fromUTF8? ⟨bytes.toArray⟩ with
  | some text => text
  | none => String.ofList (lossyChars bytes.length bytes)

/-- The bytes of a text. -/
def utf8 (text : String) : List UInt8 := text.toUTF8.data.toList

theorem fromUtf8Lossy_utf8 (text : String) : fromUtf8Lossy (utf8 text) = text := by
  have h : String.fromUTF8? ⟨(utf8 text).toArray⟩ = some text := by
    simp only [utf8, Array.toArray_toList, String.toUTF8_eq_toByteArray, String.fromUTF8?,
      dif_pos text.isValidUTF8]
    rfl
  rw [fromUtf8Lossy, h]

end Utf8

/-- Why a message is refused. -/
inductive DecodeError where
  | empty
  | truncated (what : String)
  | unterminated
  | expected (what : String) (want got : UInt8)
  | tupleMarker (message : String) (got : UInt8)
  | cellKind (got : UInt8)
  | name (what text : String)
  deriving DecidableEq

/-- One column value within a tuple. -/
inductive Cell where
  | null
  /-- An unchanged TOASTed value the server chose not to resend. -/
  | unchanged
  | text (text : String)
  deriving DecidableEq

/-- A row's column values, in the order of its relation's columns. -/
abbrev Tuple := List Cell

structure Column where
  name : ColumnName
  /-- Part of the replica identity. -/
  isKey : Bool
  typeOid : UInt32
  deriving DecidableEq

structure Relation where
  oid : UInt32
  dbSchema : DatabaseSchema
  table : TableName
  columns : List Column
  /-- From the catalog; empty until looked up, and for a table without one. -/
  primaryKey : List ColumnName
  deriving DecidableEq

inductive Decoded where
  | relation (relation : Relation)
  | insert (rel : UInt32) (new : Tuple)
  | update (rel : UInt32) (old : Option Tuple) (new : Tuple)
  | delete (rel : UInt32) (old : Tuple)
  | truncate (rels : List UInt32)
  | other
  deriving DecidableEq

/-- A reader over the rest of a message. -/
abbrev Cursor := Reader DecodeError

namespace Cursor

def take (n : ℕ) : Cursor (List UInt8) := Reader.take n (.truncated "bytes")

def u8 : Cursor UInt8 := Reader.byte (.truncated "u8")

def u32 : Cursor UInt32 := do
  let bytes ← take 4
  pure (UInt32.ofNat (ofBigEndian bytes))

/-- A negative length is read as zero. -/
def i32Len : Cursor ℕ := do
  let bytes ← take 4
  pure (Int32.ofNat (ofBigEndian bytes)).toNatClampNeg

/-- A negative count is read as zero. -/
def i16Count : Cursor ℕ := do
  let bytes ← take 2
  pure (Int16.ofNat (ofBigEndian bytes)).toNatClampNeg

def cstring : Cursor String := do
  let bytes ← Reader.untilZero .unterminated
  pure (fromUtf8Lossy bytes)

/-- A name read as text, if it is one. -/
def named {α : Type} (what : String) (tryNew : String → Option α) : Cursor α := do
  let text ← cstring
  match tryNew text with
  | some name => pure name
  | none => throw (.name what text)

end Cursor

open Cursor

def expect (want : UInt8) (what : String) : Cursor Unit := do
  let got ← u8
  if got = want then pure () else throw (.expected what want got)

def decodeCell : Cursor Cell := do
  let kind ← u8
  if kind = 'n'.toUInt8 then pure .null
  else if kind = 'u'.toUInt8 then pure .unchanged
  else if kind = 't'.toUInt8 || kind = 'b'.toUInt8 then
    let len ← i32Len
    let bytes ← take len
    pure (.text (fromUtf8Lossy bytes))
  else throw (.cellKind kind)

def decodeTuple : Cursor Tuple := do
  let ncols ← i16Count
  decodeCell.times ncols

def decodeColumn : Cursor Column := do
  let flags ← u8
  let text ← cstring
  let typeOid ← u32
  let _typeModifier ← u32
  match ColumnName.tryNew text with
  | some name => pure { name, isKey := flags &&& 1 ≠ 0, typeOid }
  | none => throw (.name "column" text)

def decodeRelation : Cursor Decoded := do
  let oid ← u32
  let dbSchema ← named "schema" DatabaseSchema.tryNew
  let table ← named "table" TableName.tryNew
  let _replicaIdentity ← u8
  let ncols ← i16Count
  let columns ← decodeColumn.times ncols
  pure (.relation { oid, dbSchema, table, columns, primaryKey := [] })

def decodeInsert : Cursor Decoded := do
  let rel ← u32
  expect 'N'.toUInt8 "insert new-tuple marker"
  let new ← decodeTuple
  pure (.insert rel new)

def decodeUpdate : Cursor Decoded := do
  let rel ← u32
  let marker ← u8
  if marker = 'K'.toUInt8 || marker = 'O'.toUInt8 then
    let old ← decodeTuple
    expect 'N'.toUInt8 "update new-tuple marker"
    let new ← decodeTuple
    pure (.update rel (some old) new)
  else if marker = 'N'.toUInt8 then
    let new ← decodeTuple
    pure (.update rel none new)
  else throw (.tupleMarker "update" marker)

def decodeDelete : Cursor Decoded := do
  let rel ← u32
  let marker ← u8
  if marker = 'K'.toUInt8 || marker = 'O'.toUInt8 then
    let old ← decodeTuple
    pure (.delete rel old)
  else throw (.tupleMarker "delete" marker)

/-- The number of relations is read as an `Int16`. -/
def decodeTruncate : Cursor Decoded := do
  let nrels ← i16Count
  let _flags ← u8
  let rels ← u32.times nrels
  pure (.truncate rels)

/-- The rest of a message, by its tag. -/
def decodeBody (tag : UInt8) : Cursor Decoded :=
  if tag = 'R'.toUInt8 then decodeRelation
  else if tag = 'I'.toUInt8 then decodeInsert
  else if tag = 'U'.toUInt8 then decodeUpdate
  else if tag = 'D'.toUInt8 then decodeDelete
  else if tag = 'T'.toUInt8 then decodeTruncate
  else pure .other

/-- Decode one raw pgoutput message; what follows its fields is ignored. -/
def decode (data : List UInt8) : Except DecodeError Decoded :=
  match data with
  | [] => .error .empty
  | tag :: rest => (decodeBody tag).run' rest

end Flusso.Cdc.Pgoutput
