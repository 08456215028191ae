import Flusso.Foundation.Attempts
import Flusso.Kernel.Schema
import Mathlib.Data.List.Nodup

/-! # Checking a schema against the database

A declared schema is checked column by column, at every level of its fields. Each
disagreement is reported at the field that declares it, and the check stops only
where the database cannot be asked.
-/

namespace Flusso

section Types

/-- Without the array suffixes, from the end. -/
def dropBrackets : List Char → List Char
  | ']' :: '[' :: rest => dropBrackets rest
  | text => text

/-- A type name without array suffix, precision or length, in lower case. -/
def normalizePgType (sqlType : String) : String :=
  let base := trim (dropBrackets (trim sqlType.toList).reverse).reverse
  String.ofList ((trim (base.takeWhile fun c => c ≠ '(')).map Char.toLower)

def textTypes : List String :=
  ["text", "character varying", "varchar", "character", "char", "bpchar", "citext", "name"]

/-- Whether a declared type accepts columns of a type of PostgreSQL. -/
def FlussoType.acceptsPg (ty : FlussoType) (sqlType : String) : Bool :=
  let base := normalizePgType sqlType
  match ty with
  | .text | .identifier | .keyword | .enum => base ∈ textTypes
  | .uuid => base = "uuid"
  | .boolean => base ∈ ["boolean", "bool"]
  | .short => base ∈ ["smallint", "int2", "smallserial"]
  | .integer => base ∈ ["integer", "int", "int4", "serial"]
  | .long => base ∈ ["bigint", "int8", "bigserial"]
  | .float => base ∈ ["real", "float4"]
  | .double => base ∈ ["double precision", "float8"]
  | .decimal => base ∈ ["numeric", "decimal", "money"]
  | .date => base = "date"
  | .timestamp => base ∈ ["timestamp with time zone", "timestamp without time zone", "timestamp",
      "timestamptz", "time with time zone", "time without time zone", "time", "timetz"]
  | .binary => base = "bytea"
  | .json | .map _ => base ∈ ["json", "jsonb"]
  | .geoPoint => base ∈ ["json", "jsonb"] ++ textTypes
  | .custom postgres _ => postgres.any fun t => normalizePgType t = base

end Types

namespace Validation

structure ColumnInfo where
  sqlType : String
  nullable : Bool

/-- Why a column is not described: it is not there, or the database cannot be asked. -/
inductive LookupError where
  | unknownColumn (what : String)
  | failed (message : String)

abbrev Columns := DatabaseSchema → TableName → ColumnName → Except LookupError ColumnInfo

inductive Severity where
  | error
  | warning
  deriving DecidableEq

structure Diagnostic where
  index : IndexName
  field : FieldName
  severity : Severity
  message : String
  deriving DecidableEq

section Walk

variable (catalog : Columns) (index : IndexName) (dbSchema : DatabaseSchema)

/-- The diagnostics of a column that is there; one of its own for a column that is not. -/
def lookupColumn (table : TableName) (field : FieldName) (column : ColumnName)
    (diagnose : ColumnInfo → List Diagnostic) : Except LookupError (List Diagnostic) :=
  match catalog dbSchema table column with
  | .ok info => .ok (diagnose info)
  | .error (.unknownColumn what) =>
    .ok [⟨index, field, .error, "references unknown column `" ++ what ++ "`"⟩]
  | .error (.failed message) => .error (.failed message)

def validateColumn (table : TableName) (field : FieldName) (column : Column)
    (primaryKey : Option ColumnName) : Except LookupError (List Diagnostic) :=
  lookupColumn catalog index dbSchema table field column.column fun info =>
    let forcedNonNull := primaryKey = some column.column || column.default.isSome
    (if column.ty.acceptsPg info.sqlType then []
      else [⟨index, field, .error, "declared type does not accept the column's database type `" ++
        info.sqlType ++ "`"⟩]) ++
    if !column.nullable && info.nullable && !forcedNonNull then
      [⟨index, field, .warning,
        "declared non-null (`required`) but the database column allows null"⟩]
    else []

def numericTypes : List FlussoType := [.double, .float, .decimal, .integer, .long, .short]

def validateCoordinate (table : TableName) (field : FieldName) (column : ColumnName) :
    Except LookupError (List Diagnostic) :=
  lookupColumn catalog index dbSchema table field column fun info =>
    if numericTypes.any fun ty => ty.acceptsPg info.sqlType then []
    else [⟨index, field, .error, "geo_point coordinate column `" ++ column.name ++
      "` must be numeric, found `" ++ info.sqlType ++ "`"⟩]

def validateGeo (table : TableName) (field : FieldName) (geo : Geo) :
    Except LookupError (List Diagnostic) := do
  let lat ← validateCoordinate catalog index dbSchema table field geo.lat
  let lon ← validateCoordinate catalog index dbSchema table field geo.lon
  pure (lat ++ lon)

def checkType (table : TableName) (field : FieldName) (column : ColumnName)
    (declared : FlussoType) : Except LookupError (List Diagnostic) :=
  lookupColumn catalog index dbSchema table field column fun info =>
    if declared.acceptsPg info.sqlType then []
    else [⟨index, field, .error,
      "declared aggregate type does not accept the column's database type `" ++ info.sqlType ++
        "`"⟩]

/-- The column whose type an aggregate passes on. -/
def typedOperand : AggregateOp → Option ColumnName
  | .sum column | .min column | .max column => some column
  | .count | .avg _ | .ids _ => none

def validateAggregate (field : FieldName) (aggregate : Aggregate) :
    Except LookupError (List Diagnostic) :=
  match typedOperand aggregate.op, aggregate.valueType with
  | some column, some valueType =>
    checkType catalog index dbSchema aggregate.table field column valueType
  | _, _ => pure []

mutual

def validateField (table : TableName) (primaryKey : Option ColumnName) :
    Field → Except LookupError (List Diagnostic)
  | .column field _ source => validateColumn catalog index dbSchema table field source primaryKey
  | .aggregate field _ source => validateAggregate catalog index dbSchema field source
  | .group _ _ fields => validateFields table primaryKey fields
  | .join _ _ source fields => validateFields source.table (some source.primaryKey) fields
  | .geo field _ source => validateGeo catalog index dbSchema table field source
  | .constant .. => pure []

def validateFields (table : TableName) (primaryKey : Option ColumnName) :
    List Field → Except LookupError (List Diagnostic)
  | [] => pure []
  | field :: fields => do
    let own ← validateField table primaryKey field
    let rest ← validateFields table primaryKey fields
    pure (own ++ rest)

end

end Walk

/-- The disagreements of every index with the database. -/
def validateIndexes (catalog : Columns) (spec : SourceSpec) :
    Except LookupError (List Diagnostic) := do
  let diagnostics ← spec.indexes.mapM fun entry =>
    validateFields catalog entry.1 entry.2.dbSchema entry.2.table entry.2.primaryKey
      entry.2.fields
  pure diagnostics.flatten

section Agreement

variable {catalog : Columns} {index : IndexName} {dbSchema : DatabaseSchema} {table : TableName}
  {primaryKey : Option ColumnName}

/-- A field reads rows of a table, under a primary key, somewhere below a field. -/
inductive ReadsFrom : TableName → Option ColumnName → Field → TableName → Option ColumnName →
    Field → Prop where
  | here {table : TableName} {primaryKey : Option ColumnName} {f : Field} :
    ReadsFrom table primaryKey f table primaryKey f
  | group {table t : TableName} {primaryKey p : Option ColumnName} {name : FieldName}
    {options : Options} {fields : List Field} {g h : Field} : g ∈ fields →
    ReadsFrom table primaryKey g t p h →
    ReadsFrom table primaryKey (.group name options fields) t p h
  | join {table t : TableName} {primaryKey p : Option ColumnName} {name : FieldName}
    {options : Options} {source : Join} {fields : List Field} {g h : Field} : g ∈ fields →
    ReadsFrom source.table (some source.primaryKey) g t p h →
    ReadsFrom table primaryKey (.join name options source fields) t p h

/-- The columns a field declares something of. -/
def declaredColumns (table : TableName) : Field → List (TableName × ColumnName)
  | .column _ _ source => [(table, source.column)]
  | .geo _ _ source => [(table, source.lat), (table, source.lon)]
  | .aggregate _ _ source =>
    match typedOperand source.op, source.valueType with
    | some column, some _ => [(source.table, column)]
    | _, _ => []
  | .group .. | .join .. | .constant .. => []

/-- A column is there, as described. -/
def Is (catalog : Columns) (dbSchema : DatabaseSchema) (table : TableName) (column : ColumnName)
    (described : ColumnInfo → Prop) : Prop :=
  ∃ info, catalog dbSchema table column = .ok info ∧ described info

/-- The database has the columns that a field declares, of types it accepts; a required column
allows null only where it is the primary key or has a default. -/
def Fits (catalog : Columns) (dbSchema : DatabaseSchema) (table : TableName)
    (primaryKey : Option ColumnName) : Field → Prop
  | .column _ _ source => Is catalog dbSchema table source.column fun info =>
    source.ty.acceptsPg info.sqlType = true ∧ (source.nullable = false → info.nullable = true →
      primaryKey = some source.column ∨ source.default.isSome = true)
  | .geo _ _ source => ∀ column ∈ [source.lat, source.lon], Is catalog dbSchema table column
    fun info => ∃ ty ∈ numericTypes, ty.acceptsPg info.sqlType = true
  | .aggregate _ _ source => ∀ column ty, typedOperand source.op = some column →
    source.valueType = some ty → Is catalog dbSchema source.table column fun info =>
      ty.acceptsPg info.sqlType = true
  | .group .. | .join .. | .constant .. => True

/-- The database can be asked about a column. -/
def Asks (catalog : Columns) (dbSchema : DatabaseSchema) (column : TableName × ColumnName) : Prop :=
  ∀ message, catalog dbSchema column.1 column.2 ≠ .error (.failed message)

/-- A field somewhere below one disagrees with the database. -/
def Disagrees (catalog : Columns) (dbSchema : DatabaseSchema) (table : TableName)
    (primaryKey : Option ColumnName) (f : Field) (name : FieldName) : Prop :=
  ∃ t p h, ReadsFrom table primaryKey f t p h ∧ h.field = name ∧ ¬ Fits catalog dbSchema t p h

/-- Every column declared somewhere below a field can be asked about. -/
def AllAsk (catalog : Columns) (dbSchema : DatabaseSchema) (table : TableName)
    (primaryKey : Option ColumnName) (f : Field) : Prop :=
  ∀ t p h, ReadsFrom table primaryKey f t p h →
    ∀ column ∈ declaredColumns t h, Asks catalog dbSchema column

/-- Diagnostics of one field, none just where a condition holds. -/
def Reported (index : IndexName) (field : FieldName) (diagnostics : List Diagnostic)
    (condition : Prop) : Prop :=
  (diagnostics = [] ↔ condition) ∧ ∀ d ∈ diagnostics, d.index = index ∧ d.field = field

/-- Diagnostics of an index, at just the fields of a kind. -/
def Covers (index : IndexName) (diagnostics : List Diagnostic) (fields : FieldName → Prop) : Prop :=
  (∀ d ∈ diagnostics, d.index = index) ∧ ∀ name, (∃ d ∈ diagnostics, d.field = name) ↔ fields name

section Leaves

variable {field : FieldName} {column : ColumnName} {diagnostics diagnostics' : List Diagnostic}
  {condition condition' : Prop}

theorem Reported.append (h : Reported index field diagnostics condition)
    (h' : Reported index field diagnostics' condition') :
    Reported index field (diagnostics ++ diagnostics') (condition ∧ condition') := by
  constructor
  · rw [List.append_eq_nil_iff, h.1, h'.1]
  · intro d hd
    rcases List.mem_append.mp hd with hd | hd
    · exact h.2 d hd
    · exact h'.2 d hd

theorem Reported.ite [Decidable condition] {severity : Severity} {message : String} :
    Reported index field (if condition then [] else [⟨index, field, severity, message⟩])
      condition := by
  split
  · next hcondition => exact ⟨iff_of_true rfl hcondition, List.forall_mem_nil _⟩
  · next hcondition =>
    refine ⟨iff_of_false (List.cons_ne_nil _ _) hcondition, ?_⟩
    rintro d hd
    rw [List.mem_singleton.mp hd]
    exact ⟨rfl, rfl⟩

theorem Reported.unless [Decidable condition] {severity : Severity} {message : String} :
    Reported index field (if condition then [⟨index, field, severity, message⟩] else [])
      (¬ condition) := by
  rw [← ite_not]
  exact .ite

theorem Reported.congr (h : Reported index field diagnostics condition)
    (hiff : condition ↔ condition') : Reported index field diagnostics condition' :=
  ⟨h.1.trans hiff, h.2⟩

theorem Reported.covers (h : Reported index field diagnostics condition) :
    Covers index diagnostics fun name => field = name ∧ ¬ condition := by
  refine ⟨fun d hd => (h.2 d hd).1, fun name => ?_⟩
  rw [← h.1]
  constructor
  · rintro ⟨d, hd, rfl⟩
    exact ⟨(h.2 d hd).2.symm, List.ne_nil_of_mem hd⟩
  · rintro ⟨rfl, hne⟩
    obtain ⟨d, hd⟩ := List.exists_mem_of_ne_nil _ hne
    exact ⟨d, hd, (h.2 d hd).2⟩

theorem lookupColumn_reported {diagnose : ColumnInfo → List Diagnostic}
    {described : ColumnInfo → Prop}
    (hdiagnose : ∀ info, Reported index field (diagnose info) (described info))
    (h : lookupColumn catalog index dbSchema table field column diagnose = .ok diagnostics) :
    Reported index field diagnostics (Is catalog dbSchema table column described) := by
  unfold lookupColumn at h
  split at h
  · next info hinfo =>
    cases h
    have his : Is catalog dbSchema table column described ↔ described info := by
      simp [Is, hinfo]
    rw [his]
    exact hdiagnose info
  · next what hwhat =>
    cases h
    have his : ¬ Is catalog dbSchema table column described := by simp [Is, hwhat]
    refine ⟨iff_of_false (List.cons_ne_nil _ _) his, ?_⟩
    rintro d hd
    rw [List.mem_singleton.mp hd]
    exact ⟨rfl, rfl⟩
  · cases h

theorem exists_lookupColumn {diagnose : ColumnInfo → List Diagnostic} :
    (∃ diagnostics, lookupColumn catalog index dbSchema table field column diagnose =
      .ok diagnostics) ↔ Asks catalog dbSchema (table, column) := by
  unfold lookupColumn Asks
  split
  · next info hinfo => simp [hinfo]
  · next what hwhat => simp [hwhat]
  · next message hmessage => simp [hmessage]

theorem validateColumn_reported {source : Column} {options : Options}
    (h : validateColumn catalog index dbSchema table field source primaryKey = .ok diagnostics) :
    Reported index field diagnostics
      (Fits catalog dbSchema table primaryKey (.column field options source)) := by
  refine lookupColumn_reported (fun info => Reported.append .ite (Reported.congr .unless ?_)) h
  cases source.nullable <;> cases info.nullable <;> cases source.default <;> simp

theorem validateCoordinate_reported
    (h : validateCoordinate catalog index dbSchema table field column = .ok diagnostics) :
    Reported index field diagnostics (Is catalog dbSchema table column fun info =>
      ∃ ty ∈ numericTypes, ty.acceptsPg info.sqlType = true) :=
  lookupColumn_reported (fun _ => Reported.congr .ite List.any_eq_true) h

theorem validateGeo_reported {source : Geo} {options : Options}
    (h : validateGeo catalog index dbSchema table field source = .ok diagnostics) :
    Reported index field diagnostics
      (Fits catalog dbSchema table primaryKey (.geo field options source)) := by
  obtain ⟨lat, hlat, h⟩ := Attempts.bind_ok.mp h
  obtain ⟨lon, hlon, h⟩ := Attempts.bind_ok.mp h
  cases h
  have hboth := (validateCoordinate_reported hlat).append (validateCoordinate_reported hlon)
  refine hboth.congr ?_
  rw [Fits, List.forall_mem_cons, List.forall_mem_singleton]

theorem validateAggregate_reported {source : Aggregate} {options : Options}
    (h : validateAggregate catalog index dbSchema field source = .ok diagnostics) :
    Reported index field diagnostics
      (Fits catalog dbSchema table primaryKey (.aggregate field options source)) := by
  unfold validateAggregate at h
  split at h
  · next column ty hcolumn hty =>
    refine Reported.congr (lookupColumn_reported (fun _ => .ite) h) ?_
    simp [Fits, hcolumn, hty]
  · next hnone =>
    cases h
    refine ⟨iff_of_true rfl ?_, List.forall_mem_nil _⟩
    rintro column ty hcolumn hty
    exact absurd hty (hnone column ty hcolumn)

end Leaves

section Levels

variable {diagnostics : List Diagnostic} {fields : List Field} {f : Field} {name : FieldName}
  {options : Options} {source : Join}

theorem disagrees_leaf (hleaf : f.children = []) :
    Disagrees catalog dbSchema table primaryKey f name ↔
      f.field = name ∧ ¬ Fits catalog dbSchema table primaryKey f := by
  constructor
  · rintro ⟨t, p, h, hreads, hname, hfits⟩
    cases hreads with
    | here => exact ⟨hname, hfits⟩
    | group hg =>
      cases hleaf
      cases hg
    | join hg =>
      cases hleaf
      cases hg
  · rintro ⟨hname, hfits⟩
    exact ⟨table, primaryKey, f, .here, hname, hfits⟩

theorem Reported.disagrees (hleaf : f.children = [])
    (h : Reported index f.field diagnostics (Fits catalog dbSchema table primaryKey f)) :
    Covers index diagnostics (Disagrees catalog dbSchema table primaryKey f) := by
  refine ⟨h.covers.1, fun name => ?_⟩
  rw [h.covers.2, disagrees_leaf hleaf]

theorem disagrees_group {field : FieldName} :
    Disagrees catalog dbSchema table primaryKey (.group field options fields) name ↔
      ∃ g ∈ fields, Disagrees catalog dbSchema table primaryKey g name := by
  constructor
  · rintro ⟨t, p, h, hreads, hname, hfits⟩
    cases hreads with
    | here => exact absurd trivial hfits
    | group hg hreads => exact ⟨_, hg, t, p, h, hreads, hname, hfits⟩
  · rintro ⟨g, hg, t, p, h, hreads, hname, hfits⟩
    exact ⟨t, p, h, .group hg hreads, hname, hfits⟩

theorem disagrees_join {field : FieldName} :
    Disagrees catalog dbSchema table primaryKey (.join field options source fields) name ↔
      ∃ g ∈ fields, Disagrees catalog dbSchema source.table (some source.primaryKey) g name := by
  constructor
  · rintro ⟨t, p, h, hreads, hname, hfits⟩
    cases hreads with
    | here => exact absurd trivial hfits
    | join hg hreads => exact ⟨_, hg, t, p, h, hreads, hname, hfits⟩
  · rintro ⟨g, hg, t, p, h, hreads, hname, hfits⟩
    exact ⟨t, p, h, .join hg hreads, hname, hfits⟩

theorem validateFields_covers
    (hfields : ∀ f ∈ fields, ∀ diagnostics,
      validateField catalog index dbSchema table primaryKey f = .ok diagnostics →
        Covers index diagnostics (Disagrees catalog dbSchema table primaryKey f))
    (h : validateFields catalog index dbSchema table primaryKey fields = .ok diagnostics) :
    Covers index diagnostics fun name =>
      ∃ f ∈ fields, Disagrees catalog dbSchema table primaryKey f name := by
  induction fields generalizing diagnostics with
  | nil =>
    cases h
    exact ⟨List.forall_mem_nil _, fun name => by simp⟩
  | cons f fields ih =>
    rw [validateFields] at h
    obtain ⟨own, hown, h⟩ := Attempts.bind_ok.mp h
    obtain ⟨rest, hrest, h⟩ := Attempts.bind_ok.mp h
    cases h
    have hf := hfields f List.mem_cons_self own hown
    have hrest := ih (fun g hg => hfields g (List.mem_cons_of_mem _ hg)) hrest
    constructor
    · intro d hd
      exact (List.mem_append.mp hd).elim (hf.1 d) (hrest.1 d)
    · intro name
      simp only [List.mem_append, or_and_right, exists_or, hf.2, hrest.2, List.mem_cons,
        exists_eq_left]

/-- Below a field, the diagnostics name the fields that disagree. -/
theorem validateField_covers (f : Field) : ∀ table primaryKey diagnostics,
    validateField catalog index dbSchema table primaryKey f = .ok diagnostics →
      Covers index diagnostics (Disagrees catalog dbSchema table primaryKey f) := by
  induction f using Field.induct with
  | node f ih =>
    intro table primaryKey diagnostics h
    cases f with
    | column field options source =>
      exact Reported.disagrees (f := .column field options source) rfl (validateColumn_reported h)
    | aggregate field options source =>
      exact Reported.disagrees (f := .aggregate field options source) rfl
        (validateAggregate_reported h)
    | geo field options source =>
      exact Reported.disagrees (f := .geo field options source) rfl (validateGeo_reported h)
    | constant field options value =>
      cases h
      exact Reported.disagrees (f := .constant field options value) rfl
        ⟨iff_of_true rfl trivial, List.forall_mem_nil _⟩
    | group field options fields =>
      obtain ⟨hindex, hnames⟩ := validateFields_covers (fun g hg => ih g hg table primaryKey) h
      exact ⟨hindex, fun name => (hnames name).trans disagrees_group.symm⟩
    | join field options source fields =>
      obtain ⟨hindex, hnames⟩ :=
        validateFields_covers (fun g hg => ih g hg source.table (some source.primaryKey)) h
      exact ⟨hindex, fun name => (hnames name).trans disagrees_join.symm⟩

end Levels

section Answers

variable {fields : List Field} {f : Field} {field : FieldName} {options : Options} {source : Join}

theorem allAsk_leaf (hleaf : f.children = []) : AllAsk catalog dbSchema table primaryKey f ↔
    ∀ column ∈ declaredColumns table f, Asks catalog dbSchema column := by
  constructor
  · intro h
    exact h table primaryKey f .here
  · rintro h t p g hreads
    cases hreads with
    | here => exact h
    | group hg =>
      cases hleaf
      cases hg
    | join hg =>
      cases hleaf
      cases hg

theorem allAsk_group : AllAsk catalog dbSchema table primaryKey (.group field options fields) ↔
    ∀ g ∈ fields, AllAsk catalog dbSchema table primaryKey g := by
  constructor
  · rintro h g hg t p below hreads
    exact h t p below (.group hg hreads)
  · rintro h t p below hreads
    cases hreads with
    | here => exact List.forall_mem_nil _
    | group hg hreads => exact h _ hg t p below hreads

theorem allAsk_join : AllAsk catalog dbSchema table primaryKey (.join field options source fields) ↔
    ∀ g ∈ fields, AllAsk catalog dbSchema source.table (some source.primaryKey) g := by
  constructor
  · rintro h g hg t p below hreads
    exact h t p below (.join hg hreads)
  · rintro h t p below hreads
    cases hreads with
    | here => exact List.forall_mem_nil _
    | join hg hreads => exact h _ hg t p below hreads

theorem exists_validateGeo {source : Geo} :
    (∃ diagnostics, validateGeo catalog index dbSchema table field source = .ok diagnostics) ↔
      ∀ column ∈ declaredColumns table (.geo field options source),
        Asks catalog dbSchema column := by
  rw [declaredColumns, List.forall_mem_cons, List.forall_mem_singleton]
  constructor
  · rintro ⟨diagnostics, h⟩
    obtain ⟨lat, hlat, h⟩ := Attempts.bind_ok.mp h
    obtain ⟨lon, hlon, -⟩ := Attempts.bind_ok.mp h
    exact ⟨exists_lookupColumn.mp ⟨lat, hlat⟩, exists_lookupColumn.mp ⟨lon, hlon⟩⟩
  · rintro ⟨hlat, hlon⟩
    obtain ⟨lat, hlat⟩ : ∃ lat, validateCoordinate catalog index dbSchema table field source.lat =
        .ok lat := exists_lookupColumn.mpr hlat
    obtain ⟨lon, hlon⟩ : ∃ lon, validateCoordinate catalog index dbSchema table field source.lon =
        .ok lon := exists_lookupColumn.mpr hlon
    exact ⟨lat ++ lon, Attempts.bind_ok.mpr ⟨lat, hlat, Attempts.bind_ok.mpr ⟨lon, hlon, rfl⟩⟩⟩

theorem exists_validateAggregate {source : Aggregate} :
    (∃ diagnostics, validateAggregate catalog index dbSchema field source = .ok diagnostics) ↔
      ∀ column ∈ declaredColumns table (.aggregate field options source),
        Asks catalog dbSchema column := by
  cases hop : typedOperand source.op with
  | none =>
    simp only [validateAggregate, declaredColumns, hop]
    exact iff_of_true ⟨[], rfl⟩ (List.forall_mem_nil _)
  | some column =>
    cases hty : source.valueType with
    | none =>
      simp only [validateAggregate, declaredColumns, hop, hty]
      exact iff_of_true ⟨[], rfl⟩ (List.forall_mem_nil _)
    | some ty =>
      simp only [validateAggregate, declaredColumns, hop, hty]
      exact exists_lookupColumn.trans List.forall_mem_singleton.symm

theorem exists_validateFields :
    (∃ diagnostics, validateFields catalog index dbSchema table primaryKey fields =
      .ok diagnostics) ↔
      ∀ f ∈ fields, ∃ diagnostics, validateField catalog index dbSchema table primaryKey f =
        .ok diagnostics := by
  induction fields with
  | nil => exact iff_of_true ⟨[], rfl⟩ (List.forall_mem_nil _)
  | cons f fields ih =>
    rw [List.forall_mem_cons, ← ih, validateFields]
    constructor
    · rintro ⟨diagnostics, h⟩
      obtain ⟨own, hown, h⟩ := Attempts.bind_ok.mp h
      obtain ⟨rest, hrest, -⟩ := Attempts.bind_ok.mp h
      exact ⟨⟨own, hown⟩, rest, hrest⟩
    · rintro ⟨⟨own, hown⟩, rest, hrest⟩
      exact ⟨own ++ rest, Attempts.bind_ok.mpr
        ⟨own, hown, Attempts.bind_ok.mpr ⟨rest, hrest, rfl⟩⟩⟩

/-- A field is checked to the end where every column declared below it can be asked about. -/
theorem exists_validateField (f : Field) : ∀ table primaryKey,
    (∃ diagnostics, validateField catalog index dbSchema table primaryKey f = .ok diagnostics) ↔
      AllAsk catalog dbSchema table primaryKey f := by
  induction f using Field.induct with
  | node f ih =>
    intro table primaryKey
    cases f with
    | column field options source =>
      rw [allAsk_leaf rfl]
      exact exists_lookupColumn.trans List.forall_mem_singleton.symm
    | aggregate field options source =>
      rw [allAsk_leaf rfl]
      exact exists_validateAggregate
    | geo field options source =>
      rw [allAsk_leaf rfl]
      exact exists_validateGeo
    | constant field options value =>
      rw [allAsk_leaf rfl]
      exact iff_of_true ⟨[], rfl⟩ (List.forall_mem_nil _)
    | group field options fields =>
      rw [allAsk_group]
      exact exists_validateFields.trans (forall₂_congr fun g hg => ih g hg table primaryKey)
    | join field options source fields =>
      rw [allAsk_join]
      exact exists_validateFields.trans
        (forall₂_congr fun g hg => ih g hg source.table (some source.primaryKey))

end Answers

section Indexes

variable {spec : SourceSpec} {diagnostics : List Diagnostic}

/-- The check of a source runs to the end just where every declared column, at every level of
every index, can be asked about; a column that is not there does not stop it. -/
theorem validateIndexes_ok_iff (catalog : Columns) (spec : SourceSpec) :
    (∃ diagnostics, validateIndexes catalog spec = .ok diagnostics) ↔
      ∀ entry ∈ spec.indexes, ∀ f ∈ entry.2.fields,
        AllAsk catalog entry.2.dbSchema entry.2.table entry.2.primaryKey f := by
  have hentry : ∀ entry : IndexName × IndexSchema,
      (∃ diagnostics, validateFields catalog entry.1 entry.2.dbSchema entry.2.table
        entry.2.primaryKey entry.2.fields = .ok diagnostics) ↔
      ∀ f ∈ entry.2.fields, AllAsk catalog entry.2.dbSchema entry.2.table entry.2.primaryKey f :=
    fun entry => exists_validateFields.trans
      (forall₂_congr fun f _ => exists_validateField f entry.2.table entry.2.primaryKey)
  simp only [← hentry]
  constructor
  · rintro ⟨diagnostics, h⟩ entry hmem
    obtain ⟨all, hall, -⟩ := Attempts.bind_ok.mp h
    obtain ⟨own, -, hown⟩ := Attempts.mem_mapM hall hmem
    exact ⟨own, hown⟩
  · intro h
    obtain ⟨all, hall⟩ := Attempts.exists_mapM h
    exact ⟨all.flatten, Attempts.bind_ok.mpr ⟨all, hall, rfl⟩⟩

/-- The diagnostics name just the fields, at every level of every index, that disagree with the
database. -/
theorem validateIndexes_names (h : validateIndexes catalog spec = .ok diagnostics)
    (index : IndexName) (name : FieldName) :
    (∃ d ∈ diagnostics, d.index = index ∧ d.field = name) ↔
      ∃ schema, (index, schema) ∈ spec.indexes ∧ ∃ f ∈ schema.fields,
        Disagrees catalog schema.dbSchema schema.table schema.primaryKey f name := by
  obtain ⟨all, hall, h⟩ := Attempts.bind_ok.mp h
  cases h
  constructor
  · rintro ⟨d, hd, rfl, rfl⟩
    obtain ⟨own, hown, hd⟩ := List.mem_flatten.mp hd
    obtain ⟨⟨index, schema⟩, hmem, hown⟩ := Attempts.mem_of_mapM hall hown
    obtain ⟨hindex, hnames⟩ := validateFields_covers (fun f _ => validateField_covers f _ _) hown
    rw [hindex d hd]
    exact ⟨schema, hmem, (hnames d.field).mp ⟨d, hd, rfl⟩⟩
  · rintro ⟨schema, hmem, hdisagrees⟩
    obtain ⟨own, hmemOwn, hown⟩ := Attempts.mem_mapM hall hmem
    obtain ⟨hindex, hnames⟩ := validateFields_covers (fun f _ => validateField_covers f _ _) hown
    obtain ⟨d, hd, hname⟩ := (hnames name).mpr hdisagrees
    exact ⟨d, List.mem_flatten_of_mem hmemOwn hd, hindex d hd, hname⟩

/-- An index of users whose age is declared a number but stored as text. -/
def agedUsers : SourceSpec where
  indexes := [(⟨"users"⟩, {
    version := 1
    table := ⟨"users"⟩
    dbSchema := ⟨"public"⟩
    primaryKey := some ⟨"id"⟩
    docId := none
    softDelete := none
    filters := none
    fields := [.column ⟨"name"⟩ [] ⟨⟨"name"⟩, .text, true, [], none, []⟩,
      .column ⟨"age"⟩ [] ⟨⟨"age"⟩, .integer, true, [], none, []⟩] })]
  indexes_nodup := List.nodup_singleton _

theorem validateIndexes_names_age : ∃ diagnostics,
    validateIndexes (fun _ _ _ => .ok ⟨"text", true⟩) agedUsers = .ok diagnostics ∧
      ((∃ d ∈ diagnostics, d.index = ⟨"users"⟩ ∧ d.field = ⟨"age"⟩) ↔
        ∃ schema, (⟨"users"⟩, schema) ∈ agedUsers.indexes ∧ ∃ f ∈ schema.fields,
          Disagrees (fun _ _ _ => .ok ⟨"text", true⟩) schema.dbSchema schema.table
            schema.primaryKey f ⟨"age"⟩) :=
  ⟨_, rfl, validateIndexes_names rfl _ _⟩

end Indexes

end Agreement

end Validation

end Flusso
