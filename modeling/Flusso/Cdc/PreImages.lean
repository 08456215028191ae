import Flusso.Cdc.Publication
import Flusso.Cdc.ReplicaIdentity

/-! # Setting replica identities

Before the slot is made, a start asks which tables do not deliver the columns that
lead to an old parent, and alters the identity of those it may alter. What no start
closes are the gaps of partitioned tables, of tables of another owner, and of tables
without a primary key.
-/

namespace Flusso.Cdc

/-- A table's identity setting, as the connected role sees it. -/
structure IdentityTable where
  identity : ReplicaIdentity
  primaryKey : List ColumnName
  /-- The columns of the identity index. -/
  indexed : List ColumnName
  owned : Bool
  partitioned : Bool

abbrev Identities := QualifiedTable → Option IdentityTable

structure PreImageGap where
  table : QualifiedTable
  missing : List ColumnName
  manageable : Bool
  blockers : List String
  remediation : String

namespace IdentityTable

/-- The columns of the index that the identity is of: for most identities the primary key. -/
def columns (t : IdentityTable) : List ColumnName :=
  if t.identity = .index then t.indexed else t.primaryKey

def missing (t : IdentityTable) (required : List ColumnName) : List ColumnName :=
  uncarried (t.identity.carries t.columns) t.primaryKey required

def blockers (t : IdentityTable) (table : QualifiedTable) : List String :=
  if t.partitioned then
    [table.text ++ " is partitioned; its partitions stream under their own names and " ++
      "need their own replica identity"]
  else if !t.owned then ["role does not own table " ++ table.text]
  else []

/-- The table with its whole old rows in the log. -/
def full (t : IdentityTable) : IdentityTable := { t with identity := .full }

end IdentityTable

def alterSql (table : QualifiedTable) : String :=
  "ALTER TABLE " ++ quoteIdent table.schema.name ++ "." ++ quoteIdent table.table.name ++
    " REPLICA IDENTITY FULL;"

def preImageGap (tables : Identities) (required : QualifiedTable × List ColumnName) :
    Option PreImageGap :=
  match tables required.1 with
  | none => none
  | some t =>
    if (t.missing required.2).isEmpty then none
    else some {
      table := required.1
      missing := t.missing required.2
      manageable := (t.blockers required.1).isEmpty
      blockers := t.blockers required.1
      remediation := alterSql required.1 }

section Ensuring

variable (required : List (QualifiedTable × List ColumnName))

def inspectPreImage (tables : Identities) : List PreImageGap :=
  required.filterMap (preImageGap tables)

/-- The statement of a gap, which waits a while for the lock on its table; none where it fails. -/
def applyIdentity (locked : QualifiedTable → Bool) (tables : Identities) (gap : PreImageGap) :
    Option Identities :=
  match tables gap.table with
  | none => none
  | some t =>
    if t.owned && locked gap.table then some (Function.update tables gap.table (some t.full))
    else none

def closeGap (manage : Bool) (locked : QualifiedTable → Bool) (tables : Identities)
    (gap : PreImageGap) : Identities :=
  if !manage then tables
  else if !gap.manageable then tables
  else (applyIdentity locked tables gap).getD tables

/-- Close the gaps that may be closed. The report is of what was found; a gap that stays open is
logged. -/
def ensurePreImage (manage : Bool) (locked : QualifiedTable → Bool) (tables : Identities) :
    List PreImageGap × Identities :=
  let gaps := inspectPreImage required tables
  (gaps, gaps.foldl (closeGap manage locked) tables)

/-- A number of starts, each with the locks it gets in time. -/
def prepares (starts : List (QualifiedTable → Bool)) (tables : Identities) : Identities :=
  starts.foldl (fun tables locked => (ensurePreImage required true locked tables).2) tables

end Ensuring

section Gaps

variable {required : List (QualifiedTable × List ColumnName)} {tables : Identities}
  {table : QualifiedTable} {t : IdentityTable} {columns : List ColumnName}
  {locked : QualifiedTable → Bool}

/-- A table is found to have a gap. -/
def HasGap (required : List (QualifiedTable × List ColumnName)) (tables : Identities)
    (table : QualifiedTable) : Prop :=
  ∃ gap ∈ inspectPreImage required tables, gap.table = table

/-- The statement would close nothing: it is not run, or the table has no primary key. -/
def IdentityTable.IsStuck (t : IdentityTable) : Prop :=
  t.partitioned = true ∨ t.owned = false ∨ t.primaryKey = []

theorem blockers_eq_nil :
    t.blockers table = [] ↔ t.partitioned = false ∧ t.owned = true := by
  unfold IdentityTable.blockers
  cases t.partitioned <;> cases t.owned <;> simp

theorem preImageGap_eq_some {entry : QualifiedTable × List ColumnName} {gap : PreImageGap} :
    preImageGap tables entry = some gap ↔ ∃ t, tables entry.1 = some t ∧
      t.missing entry.2 ≠ [] ∧ gap = ⟨entry.1, t.missing entry.2, (t.blockers entry.1).isEmpty,
        t.blockers entry.1, alterSql entry.1⟩ := by
  unfold preImageGap
  cases tables entry.1 with
  | none => simp
  | some t =>
    by_cases hmissing : t.missing entry.2 = []
    · simp [hmissing]
    · have hgap : (t.missing entry.2).isEmpty = false := List.isEmpty_eq_false_iff.mpr hmissing
      simp only [hgap, Bool.false_eq_true, if_false, Option.some.injEq]
      constructor
      · rintro rfl
        exact ⟨t, rfl, hmissing, rfl⟩
      · rintro ⟨t', rfl, -, rfl⟩
        rfl

theorem hasGap_iff : HasGap required tables table ↔ ∃ t columns, tables table = some t ∧
    (table, columns) ∈ required ∧ t.missing columns ≠ [] := by
  unfold HasGap inspectPreImage
  constructor
  · rintro ⟨gap, hgap, rfl⟩
    obtain ⟨⟨table, columns⟩, hrequired, hgap⟩ := List.mem_filterMap.mp hgap
    obtain ⟨t, ht, hmissing, rfl⟩ := preImageGap_eq_some.mp hgap
    exact ⟨t, columns, ht, hrequired, hmissing⟩
  · rintro ⟨t, columns, ht, hrequired, hmissing⟩
    exact ⟨_, List.mem_filterMap.mpr ⟨(table, columns), hrequired,
      preImageGap_eq_some.mpr ⟨t, ht, hmissing, rfl⟩⟩, rfl⟩

theorem missing_of_no_key (h : t.primaryKey = []) : t.missing columns = columns := by
  simp [IdentityTable.missing, uncarried, h]

theorem missing_full (h : t.primaryKey ≠ []) : t.full.missing columns = [] := by
  simp [IdentityTable.missing, IdentityTable.full, uncarried, ReplicaIdentity.carries, h]

end Gaps

section Starts

variable {required : List (QualifiedTable × List ColumnName)} {tables : Identities}
  {table : QualifiedTable} {t : IdentityTable} {locked : QualifiedTable → Bool}

/-- The table after the statement, which only its owner may run. -/
def IdentityTable.altered (t : IdentityTable) : IdentityTable := if t.owned then t.full else t

theorem altered_altered : t.altered.altered = t.altered := by
  unfold IdentityTable.altered
  by_cases howned : t.owned = true
  · simp [howned, IdentityTable.full]
  · simp [howned]

theorem applyIdentity_getD {gap : PreImageGap} :
    ((applyIdentity locked tables gap).getD tables) table =
      if gap.table = table ∧ locked table = true then (tables table).map IdentityTable.altered
      else tables table := by
  by_cases htable : gap.table = table
  · subst htable
    unfold applyIdentity
    cases ht : tables gap.table with
    | none => simp [ht]
    | some t =>
      cases hlocked : locked gap.table with
      | false => simp [ht]
      | true =>
        cases howned : t.owned with
        | false => simp [IdentityTable.altered, howned, ht]
        | true => simp [IdentityTable.altered, howned]
  · rw [if_neg fun h => htable h.1]
    unfold applyIdentity
    cases tables gap.table with
    | none => rfl
    | some t =>
      dsimp only
      split
      · exact Function.update_of_ne (Ne.symm htable) _ _
      · rfl

theorem foldl_closeGap {gaps : List PreImageGap} :
    gaps.foldl (closeGap true locked) tables table =
      if (∃ gap ∈ gaps, gap.table = table ∧ gap.manageable = true) ∧ locked table = true then
        (tables table).map IdentityTable.altered
      else tables table := by
  induction gaps generalizing tables with
  | nil => simp
  | cons gap gaps ih =>
    have hgap : closeGap true locked tables gap table =
        if (gap.table = table ∧ gap.manageable = true) ∧ locked table = true then
          (tables table).map IdentityTable.altered
        else tables table := by
      cases hmanageable : gap.manageable with
      | false => simp [closeGap, hmanageable]
      | true =>
        simp only [closeGap, hmanageable, Bool.not_true, Bool.false_eq_true, if_false, and_true]
        exact applyIdentity_getD
    rw [List.foldl_cons, ih, hgap]
    by_cases hlocked : locked table = true
    · by_cases hthis : gap.table = table ∧ gap.manageable = true
      · by_cases hrest : ∃ gap ∈ gaps, gap.table = table ∧ gap.manageable = true
        · simp [hlocked, hthis, hrest, altered_altered, Function.comp_def]
        · simp [hlocked, hthis, hrest]
      · simp [hlocked, hthis]
    · simp [hlocked]

theorem manageable_gap_iff (ht : tables table = some t) :
    (∃ gap ∈ inspectPreImage required tables, gap.table = table ∧ gap.manageable = true) ↔
      HasGap required tables table ∧ t.partitioned = false ∧ t.owned = true := by
  have hmanageable : ∀ gap ∈ inspectPreImage required tables, gap.table = table →
      (gap.manageable = true ↔ t.partitioned = false ∧ t.owned = true) := by
    intro gap hgap htable
    obtain ⟨⟨table', columns⟩, -, hgap⟩ := List.mem_filterMap.mp hgap
    obtain ⟨t', ht', -, rfl⟩ := preImageGap_eq_some.mp hgap
    cases htable
    rw [ht] at ht'
    cases ht'
    rw [List.isEmpty_iff]
    exact blockers_eq_nil
  constructor
  · rintro ⟨gap, hgap, htable, hgapManageable⟩
    exact ⟨⟨gap, hgap, htable⟩, (hmanageable gap hgap htable).mp hgapManageable⟩
  · rintro ⟨⟨gap, hgap, htable⟩, hmay⟩
    exact ⟨gap, hgap, htable, (hmanageable gap hgap htable).mpr hmay⟩

theorem ensurePreImage_closes (ht : tables table = some t) (hgap : HasGap required tables table)
    (hmay : t.partitioned = false ∧ t.owned = true) (hlocked : locked table = true) :
    (ensurePreImage required true locked tables).2 table = some t.full := by
  dsimp only [ensurePreImage]
  rw [foldl_closeGap, if_pos ⟨(manageable_gap_iff ht).mpr ⟨hgap, hmay⟩, hlocked⟩, ht,
    Option.map_some, IdentityTable.altered, if_pos hmay.2]

theorem ensurePreImage_leaves (h : ¬ (HasGap required tables table ∧ (∃ t, tables table = some t ∧
    t.partitioned = false ∧ t.owned = true) ∧ locked table = true)) :
    (ensurePreImage required true locked tables).2 table = tables table := by
  dsimp only [ensurePreImage]
  rw [foldl_closeGap]
  split
  · next hcloses =>
    exfalso
    obtain ⟨⟨gap, hgap, htable, hmanageable⟩, hlocked⟩ := hcloses
    obtain ⟨t, columns, ht, -⟩ := hasGap_iff.mp ⟨gap, hgap, htable⟩
    have hmay := (manageable_gap_iff ht).mp ⟨gap, hgap, htable, hmanageable⟩
    exact h ⟨hmay.1, ⟨t, ht, hmay.2⟩, hlocked⟩
  · rfl

/-- A start leaves the gaps of tables it may not alter, cannot lock or cannot help. -/
theorem hasGap_ensurePreImage :
    HasGap required (ensurePreImage required true locked tables).2 table ↔
      HasGap required tables table ∧ ∃ t, tables table = some t ∧
        (t.IsStuck ∨ locked table = false) := by
  by_cases hcloses : HasGap required tables table ∧ (∃ t, tables table = some t ∧
    t.partitioned = false ∧ t.owned = true) ∧ locked table = true
  · obtain ⟨hgap, ⟨t, ht, hmay⟩, hlocked⟩ := hcloses
    have hclosed := ensurePreImage_closes ht hgap hmay hlocked
    by_cases hkey : t.primaryKey = []
    · refine iff_of_true ?_ ⟨hgap, t, ht, .inl (.inr (.inr hkey))⟩
      obtain ⟨t', columns, ht', hrequired, hmissing⟩ := hasGap_iff.mp hgap
      rw [ht] at ht'
      cases ht'
      refine hasGap_iff.mpr ⟨t.full, columns, hclosed, hrequired, ?_⟩
      rw [missing_of_no_key hkey] at hmissing
      rw [missing_of_no_key (t := t.full) hkey]
      exact hmissing
    · refine iff_of_false ?_ ?_
      · intro hagain
        obtain ⟨t', columns, ht', -, hmissing⟩ := hasGap_iff.mp hagain
        rw [hclosed] at ht'
        cases ht'
        exact hmissing (missing_full hkey)
      · rintro ⟨-, t', ht', hopen⟩
        rw [ht] at ht'
        cases ht'
        rcases hopen with (hpartitioned | howned | hnone) | hunlocked
        · exact Bool.false_ne_true (hmay.1.symm.trans hpartitioned)
        · exact Bool.false_ne_true (howned.symm.trans hmay.2)
        · exact hkey hnone
        · exact Bool.false_ne_true (hunlocked.symm.trans hlocked)
  · have hleft := ensurePreImage_leaves hcloses
    rw [hasGap_iff, hasGap_iff, hleft, ← hasGap_iff, iff_self_and]
    intro hgap
    obtain ⟨t, columns, ht, -⟩ := hasGap_iff.mp hgap
    refine ⟨t, ht, ?_⟩
    by_contra hopen
    simp only [IdentityTable.IsStuck, not_or, Bool.not_eq_true, Bool.not_eq_false] at hopen
    exact hcloses ⟨hgap, ⟨t, ht, hopen.1.1, hopen.1.2.1⟩, hopen.2⟩

variable (required locked) in
theorem ensurePreImage_keeps (ht : tables table = some t) :
    ∃ t', (ensurePreImage required true locked tables).2 table = some t' ∧
      (t'.IsStuck ↔ t.IsStuck) := by
  by_cases hcloses : HasGap required tables table ∧ (∃ t, tables table = some t ∧
    t.partitioned = false ∧ t.owned = true) ∧ locked table = true
  · obtain ⟨hgap, ⟨t', ht', hmay⟩, hlocked⟩ := hcloses
    rw [ht] at ht'
    cases ht'
    exact ⟨t.full, ensurePreImage_closes ht hgap hmay hlocked, Iff.rfl⟩
  · exact ⟨t, (ensurePreImage_leaves hcloses).trans ht, Iff.rfl⟩

/-- Whatever starts follow and whichever locks they get, the gaps still found are those of
partitioned tables, of tables of another owner, of tables without a primary key, and of tables
whose lock no start got. -/
theorem prepares_hasGap_iff (required : List (QualifiedTable × List ColumnName))
    (tables : Identities) (starts : List (QualifiedTable → Bool)) (table : QualifiedTable) :
    HasGap required (prepares required starts tables) table ↔ HasGap required tables table ∧
      ∃ t, tables table = some t ∧ (t.IsStuck ∨ ∀ locked ∈ starts, locked table = false) := by
  induction starts generalizing tables with
  | nil =>
    rw [prepares, List.foldl_nil, iff_self_and]
    intro hgap
    obtain ⟨t, columns, ht, -⟩ := hasGap_iff.mp hgap
    exact ⟨t, ht, .inr (List.forall_mem_nil _)⟩
  | cons locked starts ih =>
    rw [prepares, List.foldl_cons, ← prepares, ih, hasGap_ensurePreImage]
    constructor
    · rintro ⟨⟨hgap, t, ht, hopen⟩, t', ht', hopen'⟩
      obtain ⟨t'', ht'', hstuck⟩ := ensurePreImage_keeps required locked ht
      rw [ht''] at ht'
      cases ht'
      refine ⟨hgap, t, ht, ?_⟩
      rcases hopen with hopen | hopen
      · exact .inl hopen
      · rw [hstuck] at hopen'
        exact hopen'.imp_right fun h => List.forall_mem_cons.mpr ⟨hopen, h⟩
    · rintro ⟨hgap, t, ht, hopen⟩
      obtain ⟨t', ht', hstuck⟩ := ensurePreImage_keeps required locked ht
      refine ⟨⟨hgap, t, ht, hopen.imp_right fun h => h locked List.mem_cons_self⟩, t', ht', ?_⟩
      rw [hstuck]
      exact hopen.imp_right fun h => (List.forall_mem_cons.mp h).2

end Starts

end Flusso.Cdc
