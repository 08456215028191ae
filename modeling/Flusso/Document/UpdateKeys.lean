import Flusso.Cdc.Messages
import Flusso.Document.Changes

/-! # The key of an update

The decoder reads the key off the new version's tuple. A value kept out of line
and not changed is not sent again, and the decoder takes its cell for a null,
although an old tuple sent along holds the value.
-/

namespace Flusso.Document

open Cdc Pgoutput

section Keys

variable {S : Type} [Postgres S] (rel : Pgoutput.Relation)

/-- The key read off a new version, values not sent again read as null. -/
def sentKey (kept : List ColumnName) (row : Row S) : RowKey GenericValue :=
  (rel.columns.filter fun column => rel.keys column).map fun column =>
    (column.name, if column.name ∈ kept then .null else cellValue column (row column.name))

/-- What PostgreSQL keeps to: it publishes updates of relations with a replica identity, and
leaves out of a new version only values that are there and have not changed. -/
structure Publishes (old new : Row S) (kept : List ColumnName) : Prop where
  identity : ∃ column ∈ rel.columns, column.isKey = true
  unchanged : ∀ column ∈ kept, old column = new column ∧
    (Postgres.output (new column)).isSome = true

variable {rel} {old new row : Row S} {kept : List ColumnName}

theorem getD_ne_null {text : String} {α : Type} {value : Option α} {f : α → GenericValue}
    (hf : ∀ a, f a ≠ .null) : (value.map f).getD (.string text) ≠ .null := by
  cases value with
  | none => exact GenericValue.noConfusion
  | some a => exact hf a

theorem typedValue_ne_null (text : String) (typeOid : UInt32) :
    typedValue text typeOid ≠ .null := by
  unfold typedValue
  split
  · split <;> intro h <;> cases h
  all_goals first
    | exact getD_ne_null fun _ h => by cases h
    | intro h; cases h

theorem exists_keys (h : ∃ column ∈ rel.columns, column.isKey = true) :
    ∃ column ∈ rel.columns, rel.keys column = true := by
  by_cases hcarried : rel.primaryKeyIsCarried = true
  · have hpk := hcarried
    rw [Relation.primaryKeyIsCarried, Bool.and_eq_true, List.all_eq_true] at hpk
    obtain ⟨hne, hall⟩ := hpk
    obtain ⟨pk, hpk⟩ := List.exists_mem_of_ne_nil rel.primaryKey (by simpa using hne)
    obtain ⟨column, hmem, hcolumn⟩ := List.any_eq_true.mp (hall pk hpk)
    rw [Bool.and_eq_true, decide_eq_true_eq] at hcolumn
    refine ⟨column, hmem, ?_⟩
    rw [Relation.keys, if_pos hcarried, hcolumn.2]
    exact decide_eq_true hpk
  · obtain ⟨column, hmem, hkey⟩ := h
    refine ⟨column, hmem, ?_⟩
    rwa [Relation.keys, if_neg hcarried]

theorem rowKey_map (cell : Pgoutput.Column → Cell)
    (h : ∃ column ∈ rel.columns, rel.keys column = true) :
    rowKey rel (rel.columns.map cell) =
      .ok ((rel.columns.filter fun column => rel.keys column).map fun column =>
        (column.name, keyCell column (cell column))) := by
  have hpairs : (((rel.columns.zip (rel.columns.map cell)).filter fun entry =>
      rel.keys entry.1).map fun entry => (entry.1.name, keyCell entry.1 entry.2)) =
      (rel.columns.filter fun column => rel.keys column).map fun column =>
        (column.name, keyCell column (cell column)) := by
    simp only [← List.map_prod_left_eq_zip, List.filter_map, List.map_map]
    rfl
  obtain ⟨column, hmem, hkey⟩ := h
  have hne : (rel.columns.filter fun column => rel.keys column) ≠ [] :=
    List.ne_nil_of_mem (List.mem_filter.mpr ⟨hmem, hkey⟩)
  simp only [rowKey_eq, hpairs, List.isEmpty_iff, List.map_eq_nil_iff, if_neg hne]

theorem rowKey_newTuple_kept (h : ∃ column ∈ rel.columns, rel.keys column = true) :
    rowKey rel (newTuple rel kept row) = .ok (sentKey rel kept row) := by
  rw [newTuple, rowKey_map _ h]
  refine congrArg Except.ok (List.map_congr_left fun column _ => ?_)
  by_cases hkept : column.name ∈ kept
  · simp only [if_pos hkept, keyCell]
  · simp only [if_neg hkept, cellOf, cellValue]
    cases Postgres.output (row column.name) <;> rfl

/-- The key is the row's own unless the value of a key column is not sent again. -/
theorem sentKey_eq_iff (h : Publishes rel old new kept) : sentKey rel kept new = keyOf rel new ↔
    ∀ column ∈ rel.columns, rel.keys column = true → column.name ∉ kept := by
  constructor
  · intro heq column hmem hkey hkept
    have hcell := List.map_inj_left.mp heq column (List.mem_filter.mpr ⟨hmem, hkey⟩)
    rw [if_pos hkept, Prod.mk.injEq] at hcell
    obtain ⟨text, htext⟩ := Option.isSome_iff_exists.mp (h.unchanged _ hkept).2
    rw [cellValue, htext] at hcell
    exact typedValue_ne_null _ _ hcell.2.symm
  · intro hsent
    refine List.map_congr_left fun column hcolumn => ?_
    obtain ⟨hmem, hkey⟩ := List.mem_filter.mp hcolumn
    rw [if_neg (hsent column hmem hkey)]

/-- An update is an upsert under the key of the new tuple, after a delete where the old
tuple's key differs. -/
theorem updateChanges_upsert {oldTuple : Option Tuple} {newTuple : Tuple}
    {newKey : RowKey GenericValue} (hnew : rowKey rel newTuple = .ok newKey)
    (hold : ∀ tuple, oldTuple = some tuple →
      ∃ oldKey : RowKey GenericValue, rowKey rel tuple = .ok oldKey) :
    ∃ changes : List (ChangeEvent GenericValue), updateChanges rel oldTuple newTuple = .ok changes ∧
      ∀ key, (∃ before, .upsert rel.table key before ∈ changes) ↔ key = newKey := by
  unfold updateChanges
  rw [hnew]
  cases oldTuple with
  | none => exact ⟨_, rfl, by simp⟩
  | some tuple =>
    obtain ⟨oldKey, hkey⟩ := hold tuple rfl
    simp only [hkey, bind, Except.bind, pure, Except.pure]
    by_cases heq : (oldKey == newKey) = true
    · rw [if_pos heq]
      exact ⟨_, rfl, by simp⟩
    · rw [if_neg heq]
      exact ⟨_, rfl, by simp⟩

end Keys

section Updates

variable {S : Type} [Postgres S]

/-- The upsert an update is captured as carries the row's key exactly when the new version's
key values are all sent. -/
theorem handleXlog_update_keyed_iff (s : StreamState GenericValue) (data : List UInt8)
    (oid : UInt32) (rel : Pgoutput.Relation) (old new : Row S) (oldSent : Bool)
    (kept : List ColumnName)
    (hdata : decode data = .ok (.update oid (if oldSent then some (oldTuple rel old) else none)
      (newTuple rel kept new)))
    (hrel : s.lookupRelation oid = .ok rel) (h : Publishes rel old new kept) :
    ∃ s' changes, s.handleXlog data = .ok s' ∧
      s'.decode.openTxn = s.decode.openTxn ++ changes ∧
      ((∃ before, .upsert rel.table (keyOf rel new) before ∈ changes) ↔
        ∀ column ∈ rel.columns, rel.keys column = true → column.name ∉ kept) := by
  have hkeyed := exists_keys h.identity
  have hold : ∀ tuple, (if oldSent then some (oldTuple rel old) else none) = some tuple →
      ∃ oldKey : RowKey GenericValue, rowKey rel tuple = .ok oldKey := by
    intro tuple htuple
    split at htuple
    · cases htuple
      exact ⟨_, rowKey_map _ hkeyed⟩
    · cases htuple
  have hnew : rowKey rel (newTuple rel kept new) = .ok (sentKey rel kept new) :=
    rowKey_newTuple_kept hkeyed
  obtain ⟨changes, hchanges, hupsert⟩ := updateChanges_upsert hnew hold
  refine ⟨s.push changes, changes, ?_, rfl, ?_⟩
  · rw [StreamState.handleXlog, hdata]
    simp only [hrel, hchanges, bind, Except.bind, pure, Except.pure]
  · rw [hupsert, eq_comm]
    exact sentKey_eq_iff h

/-- A table of articles with the default identity: a text key, long enough to be kept out of
line, and a title. -/
def articles : Pgoutput.Relation where
  oid := 7
  dbSchema := ⟨"public"⟩
  table := ⟨"articles"⟩
  columns := [⟨⟨"slug"⟩, true, 25⟩, ⟨⟨"title"⟩, false, 25⟩]
  primaryKey := [⟨"slug"⟩]

def article (title : String) : Row (Option String) := fun column =>
  if column = ⟨"slug"⟩ then some "long-slug" else some title

/-- A stream that knows the table. -/
def articleStream : StreamState GenericValue where
  relations oid := if oid = 7 then some articles else none
  unkeyed := []
  decode := .new (.new 0 0)

/-- The title of an article changes; `slug` is the cell of its key. -/
def retitle (slug : WireCell) (old : Option (OldKind × WireTuple)) : Message :=
  .update 7 old ⟨2, [slug, .text 5 "Later" (by decide)], rfl⟩

def slugCell : WireCell := .text 9 "long-slug" (by decide)

/-- The old key, which is sent along when a value of the identity is kept out of line. -/
def oldSlug : WireTuple := ⟨2, [slugCell, .null], rfl⟩

theorem publishes_articles {kept : List ColumnName} (h : kept ⊆ [⟨"slug"⟩]) :
    Publishes articles (article "First") (article "Later") kept where
  identity := ⟨_, List.mem_cons_self, rfl⟩
  unchanged column hcolumn := by
    rw [List.mem_singleton.mp (h hcolumn)]
    exact ⟨rfl, rfl⟩

theorem handleXlog_update_keyed_iff_slug :
    ∃ s' changes, articleStream.handleXlog (retitle slugCell none).encode = .ok s' ∧
      s'.decode.openTxn = articleStream.decode.openTxn ++ changes ∧
      ((∃ before, .upsert articles.table (keyOf articles (article "Later")) before ∈ changes) ↔
        ∀ column ∈ articles.columns, articles.keys column = true → column.name ∉ []) :=
  handleXlog_update_keyed_iff articleStream _ 7 articles (article "First") (article "Later") false
    [] (decode_eq_ok rfl rfl) rfl (publishes_articles (List.nil_subset _))

/-- The server sends the old key beside a new version whose key is not sent again: the row is
deleted and upserted under a null key. -/
theorem null_key_of_kept_slug :
    ∃ s', articleStream.handleXlog (retitle .unchanged (some (.key, oldSlug))).encode = .ok s' ∧
      s'.decode.openTxn =
        [.delete ⟨"articles"⟩ [(⟨"slug"⟩, .string "long-slug")] none,
          .upsert ⟨"articles"⟩ [(⟨"slug"⟩, .null)] none] ∧
      keyOf articles (article "Later") = [(⟨"slug"⟩, .string "long-slug")] := by
  refine ⟨articleStream.push [.delete ⟨"articles"⟩ [(⟨"slug"⟩, .string "long-slug")] none,
    .upsert ⟨"articles"⟩ [(⟨"slug"⟩, .null)] none], ?_, rfl, rfl⟩
  have hdecoded : decode (retitle .unchanged (some (.key, oldSlug))).encode =
      .ok (.update 7 (some [.text "long-slug", .null]) [.unchanged, .text "Later"]) :=
    decode_eq_ok rfl rfl
  rw [StreamState.handleXlog, hdecoded]
  rfl

end Updates

end Flusso.Document
