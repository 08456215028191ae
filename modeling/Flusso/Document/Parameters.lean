import Flusso.Document.Evaluation
import Flusso.Sql.Layout

/-! # The parameters of the document query

What a schema means to have bound, in the order of the query's text, and that the
builder binds it: each placeholder it writes is cast to its column's type and stands
for the parameter of its place.
-/

namespace Flusso

def IsName (text : String) : Prop := isIdentifier text.toList = true

instance (text : String) : Decidable (IsName text) := inferInstanceAs (Decidable (_ = _))

theorem isIdentifierRest_ne_quote {c : Char} (h : isIdentifierRest c = true) : c ≠ '"' := by
  rintro rfl
  exact absurd h (by decide)

theorem IsName.enclosed {text : String} (h : IsName text) : Sql.Enclosed text := by
  unfold IsName at h
  constructor
  · rintro rfl
    cases h
  · intro hquote
    cases hchars : text.toList with
    | nil => simp [hchars] at hquote
    | cons c rest =>
      rw [hchars] at h hquote
      simp only [isIdentifier, Bool.and_eq_true, List.all_eq_true] at h
      obtain ⟨⟨hstart, hrest⟩, -⟩ := h
      rcases List.mem_cons.mp hquote with rfl | hquote
      · exact absurd hstart (by decide)
      · exact isIdentifierRest_ne_quote (hrest _ hquote) rfl

section Structured

/-! A schema whose names are identifiers and whose filters are not raw SQL. -/

def Filter.Structured : Filter → Prop
  | .raw _ => False
  | .nullCheck column _ | .valueOp column _ _ => IsName column.name

def FiltersStructured (fs : Option (List Filter)) : Prop := ∀ f ∈ fs.getD [], f.Structured

structure Through.Structured (through : Through) : Prop where
  table : IsName through.table.name
  leftKey : IsName through.leftKey.name
  rightKey : IsName through.rightKey.name
  filters : FiltersStructured through.filters

def JoinKind.Structured : JoinKind → Prop
  | .belongsTo column | .hasOne column | .hasMany column => IsName column.name
  | .manyToMany through => through.Structured

structure Join.Structured (join : Join) : Prop where
  table : IsName join.table.name
  kind : join.kind.Structured
  filters : FiltersStructured join.filters
  orderBy : ∀ o ∈ join.orderBy.getD [], IsName o.column.name

def AggregateOp.Structured : AggregateOp → Prop
  | .sum column | .avg column | .min column | .max column => IsName column.name
  | .count | .ids _ => True

def AggregateKey.Structured : AggregateKey → Prop
  | .direct foreignKey => IsName foreignKey.name
  | .through link => link.Structured

structure Aggregate.Structured (aggregate : Aggregate) : Prop where
  table : IsName aggregate.table.name
  op : aggregate.op.Structured
  key : aggregate.key.Structured
  filters : FiltersStructured aggregate.filters

mutual

def Field.Structured : Field → Prop
  | .column _ _ source => IsName source.column.name
  | .group _ _ fields => FieldsStructured fields
  | .geo _ _ source => IsName source.lat.name ∧ IsName source.lon.name
  | .join _ _ source fields => source.Structured ∧ FieldsStructured fields
  | .aggregate _ _ source => source.Structured
  | .constant _ _ _ => True

def FieldsStructured : List Field → Prop
  | [] => True
  | field :: fields => field.Structured ∧ FieldsStructured fields

end

def SoftDelete.Structured : SoftDelete → Prop
  | .field _ filters => FiltersStructured filters
  | .column marker filters => IsName marker.name ∧ FiltersStructured filters

structure IndexSchema.Structured (index : IndexSchema) : Prop where
  table : IsName index.table.name
  dbSchema : IsName index.dbSchema.name
  primaryKey : ∀ pk ∈ index.primaryKey, IsName pk.name
  softDelete : ∀ deleted ∈ index.softDelete, deleted.Structured
  filters : FiltersStructured index.filters
  fields : FieldsStructured index.fields

end Structured

end Flusso

namespace Flusso.Document

theorem isName_fieldColumn_of {name : FieldName} {fields : List Field} {column : ColumnName}
    (hchild : ∀ field ∈ fields, ∀ {column}, field.Structured →
      childColumn name field = some column → IsName column.name)
    (hfields : FieldsStructured fields) (h : fieldColumn name fields = some column) :
    IsName column.name := by
  induction fields with
  | nil => cases h
  | cons field fields ih =>
    rw [fieldColumn] at h
    split at h
    · cases field with
      | column =>
        cases h
        exact hfields.1
      | _ => cases h
    · cases hbelow : childColumn name field with
      | some column' =>
        rw [hbelow] at h
        cases h
        exact hchild field List.mem_cons_self hfields.1 hbelow
      | none =>
        rw [hbelow] at h
        exact ih (fun g hg => hchild g (List.mem_cons_of_mem _ hg)) hfields.2 h

theorem isName_childColumn {name : FieldName} (field : Field) : ∀ {column : ColumnName},
    field.Structured → childColumn name field = some column → IsName column.name := by
  induction field using Field.induct with
  | node field ih =>
    rintro column hfield h
    cases field with
    | group => exact isName_fieldColumn_of ih hfield h
    | join => exact isName_fieldColumn_of ih hfield.2 h
    | _ => cases h

theorem isName_fieldColumn {name : FieldName} {fields : List Field} {column : ColumnName}
    (hfields : FieldsStructured fields) (h : fieldColumn name fields = some column) :
    IsName column.name :=
  isName_fieldColumn_of (fun field _ => isName_childColumn field) hfields h

theorem marker_structured {index : IndexSchema} (hindex : index.Structured) {column : ColumnName}
    {conditions : Option (List Filter)} (h : marker index = some (column, conditions)) :
    IsName column.name ∧ FiltersStructured conditions := by
  unfold marker at h
  cases hsoft : index.softDelete with
  | none =>
    rw [hsoft] at h
    cases h
  | some softDelete =>
    have hdeleted := hindex.softDelete softDelete hsoft
    rw [hsoft] at h
    cases softDelete with
    | column column' conditions' =>
      cases h
      exact hdeleted
    | field field conditions' =>
      obtain ⟨column', hcolumn, hpair⟩ := Option.map_eq_some_iff.mp h
      cases hpair
      exact ⟨isName_fieldColumn hindex.fields hcolumn, hdeleted⟩

section Parameters

/-- A value that is bound to be compared with a column. -/
structure Parameter where
  table : TableName
  column : ColumnName
  value : GenericValue

def filterParameters (table : TableName) (f : Filter) : List Parameter :=
  (operandsOf f).map fun operand => ⟨table, operand.1, .string operand.2⟩

def filtersParameters (table : TableName) (fs : Option (List Filter)) : List Parameter :=
  (fs.getD []).flatMap (filterParameters table)

def throughParameters (through : Through) : List Parameter :=
  filtersParameters through.table through.filters

/-- Where links count once, the junction's conditions stand in a subquery before the others. -/
def aggregateParameters (aggregate : Aggregate) : List Parameter :=
  let own := filtersParameters aggregate.table aggregate.filters
  match aggregate.key with
  | .direct _ => own
  | .through through =>
    if aggregate.distinct then throughParameters through ++ own
    else own ++ throughParameters through

def joinParameters (join : Join) : List Parameter :=
  filtersParameters join.table join.filters ++
    match join.kind with
    | .manyToMany through => throughParameters through
    | .belongsTo _ | .hasOne _ | .hasMany _ => []

mutual

def fieldParameters : Field → List Parameter
  | .column .. | .geo .. | .constant .. => []
  | .group _ _ fields => fieldsParameters fields
  | .join _ _ source fields => fieldsParameters fields ++ joinParameters source
  | .aggregate _ _ source => aggregateParameters source

def fieldsParameters : List Field → List Parameter
  | [] => []
  | field :: fields => fieldParameters field ++ fieldsParameters fields

end

def softDeleteParameters (index : IndexSchema) : List Parameter :=
  match marker index with
  | some (_, conditions) => filtersParameters index.table conditions
  | none => []

/-- The parameters of a query for the documents of a key, which has its own. -/
def queryParameters (index : IndexSchema) (key : List Parameter) : List Parameter :=
  fieldsParameters index.fields ++ key ++ softDeleteParameters index ++
    filtersParameters index.table index.filters

end Parameters

section Emits

abbrev Piece := Sql.Piece ColumnName

/-- The identifiers that names are written with. -/
def spelling : Sql.Spelling Alias ColumnName TableRef where
  row a := a.text
  column c := c.name
  table t := [t.1.name, t.2.name]

theorem names_spells : names.Spells spelling where
  row _ := rfl
  column _ := rfl
  table t := by
    simp [names, spelling, qident, Sql.quotedIdentifier, String.append_assoc]

theorem Alias.enclosed (a : Alias) : Sql.Enclosed a.text := by
  cases a with
  | root => exact ⟨by decide, by decide⟩
  | rel n =>
    obtain ⟨c, digits, hn, hdigits⟩ := Sql.exists_digits n
    have htext : (Alias.rel n).text.toList = 'r' :: 'e' :: 'l' :: c :: digits := by
      rw [Alias.text, String.toList_append, hn]
      rfl
    refine ⟨fun h => ?_, fun h => ?_⟩
    · rw [h] at htext
      cases htext
    · rw [htext] at h
      have hquote : '"' ∈ c :: digits := by simpa using h
      exact absurd (hdigits _ hquote) (by decide)

variable (colTypes : TableName → ColumnName → Option String)

/-- A placeholder at which a parameter is bound. -/
structure Fills (params : List GenericValue) (parameter : Parameter)
    (slot : ColumnName × Sql.Param) : Prop where
  column : slot.1 = parameter.column
  sqlType : colTypes parameter.table parameter.column = some slot.2.sqlType
  bound : params[slot.2.index - 1]? = some parameter.value

/-- Pieces whose placeholders number the values bound in between, each of them standing for the
parameter of its place. -/
structure Emits (params : List GenericValue) (parameters : List Parameter) (ps : List Piece)
    (params' : List GenericValue) : Prop where
  grows : params <+: params'
  indices : ((Sql.slots ps).map fun slot => slot.2.index).Perm
    (List.range' (params.length + 1) (params'.length - params.length))
  fills : List.Forall₂ (Fills colTypes params') parameters (Sql.slots ps)
  plain : ∀ p ∈ ps, p.Plain

variable {colTypes} {params params' params'' : List GenericValue}
  {parameters parameters' : List Parameter} {ps qs : List Piece}

theorem Fills.mono {parameter : Parameter} {slot : ColumnName × Sql.Param}
    (h : Fills colTypes params parameter slot) (hgrows : params <+: params') :
    Fills colTypes params' parameter slot := by
  obtain ⟨more, rfl⟩ := hgrows
  refine ⟨h.column, h.sqlType, ?_⟩
  rw [List.getElem?_append_left (List.getElem?_eq_some_iff.mp h.bound).1]
  exact h.bound

theorem Emits.none (hslots : Sql.slots ps = []) (hplain : ∀ p ∈ ps, p.Plain) :
    Emits colTypes params [] ps params := by
  refine ⟨List.prefix_rfl, ?_, ?_, hplain⟩
  · simp [hslots]
  · rw [hslots]
    exact .nil

theorem Emits.framed (h : Emits colTypes params parameters ps params')
    (hslots : Sql.slots qs = Sql.slots ps) (hplain : ∀ p ∈ qs, p.Plain) :
    Emits colTypes params parameters qs params' :=
  ⟨h.grows, hslots ▸ h.indices, hslots ▸ h.fills, hplain⟩

theorem Emits.append (h : Emits colTypes params parameters ps params')
    (h' : Emits colTypes params' parameters' qs params'') :
    Emits colTypes params (parameters ++ parameters') (ps ++ qs) params'' := by
  refine ⟨h.grows.trans h'.grows, ?_, ?_, List.forall_mem_append.mpr ⟨h.plain, h'.plain⟩⟩
  · have hlength := h.grows.length_le
    have hlength' := h'.grows.length_le
    have hranges : List.range' (params.length + 1) (params''.length - params.length) =
        List.range' (params.length + 1) (params'.length - params.length) ++
          List.range' (params'.length + 1) (params''.length - params'.length) := by
      have hstart : params'.length + 1 =
          params.length + 1 + (params'.length - params.length) := by omega
      rw [hstart, List.range'_append_1]
      congr 1
      omega
    rw [Sql.slots_append, List.map_append, hranges]
    exact h.indices.append h'.indices
  · rw [Sql.slots_append]
    exact List.rel_append (h.fills.imp fun _ _ hp => hp.mono h'.grows) h'.fills

/-- What is bound first may be written last. -/
theorem Emits.swap (h : Emits colTypes params parameters ps params')
    (h' : Emits colTypes params' parameters' qs params'') :
    Emits colTypes params (parameters' ++ parameters) (qs ++ ps) params'' := by
  obtain ⟨hgrows, hindices, hfills, hplain⟩ := h.append h'
  refine ⟨hgrows, ?_, ?_, List.forall_mem_append.mpr ⟨h'.plain, h.plain⟩⟩
  · rw [Sql.slots_append, List.map_append] at hindices ⊢
    exact List.perm_append_comm.trans hindices
  · rw [Sql.slots_append]
    exact List.rel_append h'.fills (h.fills.imp fun _ _ hp => hp.mono h'.grows)

theorem mapM_emits {β γ : Type} {l : List β} {out : List γ} {f : β → Build γ}
    {wanted : β → List Parameter} {pieces : γ → List Piece} {b b' : Builder}
    (hf : ∀ x ∈ l, ∀ {b y b'}, f x b = .ok (y, b') →
      Emits colTypes b.params (wanted x) (pieces y) b'.params)
    (h : l.mapM f b = .ok (out, b')) :
    Emits colTypes b.params (l.flatMap wanted) (out.flatMap pieces) b'.params := by
  induction l generalizing b out with
  | nil =>
    obtain ⟨rfl, rfl⟩ := build_pure.mp h
    exact .none rfl (List.forall_mem_nil _)
  | cons x l ih =>
    rw [List.mapM_cons] at h
    obtain ⟨y, b₁, hy, h⟩ := build_bind.mp h
    obtain ⟨ys, b₂, hys, h⟩ := build_bind.mp h
    obtain ⟨rfl, rfl⟩ := build_pure.mp h
    exact (hf x List.mem_cons_self hy).append
      (ih (fun x' hx' => hf x' (List.mem_cons_of_mem _ hx')) hys)

end Emits

end Flusso.Document
