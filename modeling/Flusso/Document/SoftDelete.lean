import Flusso.Document.Constants

/-! # Soft deletion

A marker that is named by a field is looked up in the whole tree, joined rows
included, but read from the root row. A row whose `when` filters cannot be told
is left out as if it were deleted.
-/

namespace Flusso.Document

section Lookup

variable (name : FieldName)

mutual

def Field.rootColumns : Field → List ColumnName
  | .column field _ source => if field = name then [source.column] else []
  | .group _ _ fields => rootColumns fields
  | .geo .. | .join .. | .aggregate .. | .constant .. => []

/-- The columns that the fields of a name read on the root row, at the top level and in groups. -/
def rootColumns : List Field → List ColumnName
  | [] => []
  | field :: fields => Field.rootColumns field ++ rootColumns fields

end

mutual

def Field.shownColumns : Field → List ColumnName
  | .group _ _ fields | .join _ _ _ fields => shownColumns fields
  | .column .. | .geo .. | .aggregate .. | .constant .. => []

/-- The columns that the fields of a name read, in the order the tree is written and with joined
rows where they stand. A field of the name hides what is under it and what follows in its list. -/
def shownColumns : List Field → List ColumnName
  | [] => []
  | field :: fields =>
    if field.field = name then field.sourceColumn.toList
    else Field.shownColumns field ++ shownColumns fields

end

mutual

theorem childColumn_eq_head : ∀ f : Field,
    childColumn name f = (Field.shownColumns name f).head?
  | .group _ _ fields | .join _ _ _ fields => fieldColumn_eq_head fields
  | .column .. | .geo .. | .aggregate .. | .constant .. => rfl

/-- The column a name is resolved to is the first one shown. -/
theorem fieldColumn_eq_head : ∀ fields : List Field,
    fieldColumn name fields = (shownColumns name fields).head?
  | [] => rfl
  | f :: fields => by
    rw [fieldColumn, shownColumns]
    split
    · cases f.sourceColumn <;> rfl
    · rw [childColumn_eq_head f, fieldColumn_eq_head fields, List.head?_append, Option.orElse_eq_or]

end

mutual

/-- No field of the name is at the field or below it. -/
def Field.Lacks : Field → Prop
  | .group field _ fields | .join field _ _ fields => field ≠ name ∧ Lacks fields
  | .column field .. | .geo field .. | .aggregate field .. | .constant field .. => field ≠ name

def Lacks : List Field → Prop
  | [] => True
  | field :: fields => Field.Lacks field ∧ Lacks fields

end

/-- The first field of the name that is written, at any depth, is a column of the root row. -/
inductive RootFirst : List Field → ColumnName → Prop where
  | column {options : Options} {source : Column} {fields : List Field} :
    RootFirst (.column name options source :: fields) source.column
  | group {field : FieldName} {options : Options} {inner fields : List Field}
    {column : ColumnName} (hne : field ≠ name) (hinner : RootFirst inner column) :
    RootFirst (.group field options inner :: fields) column
  | later {field : Field} {fields : List Field} {column : ColumnName}
    (hlacks : Field.Lacks name field) (hfields : RootFirst fields column) :
    RootFirst (field :: fields) column

mutual

theorem Field.columns_of_lacks : ∀ {field : Field}, Field.Lacks name field →
    field.field ≠ name ∧ Field.shownColumns name field = [] ∧ Field.rootColumns name field = []
  | .group .., ⟨hne, hfields⟩ => ⟨hne, columns_of_lacks hfields⟩
  | .join .., ⟨hne, hfields⟩ => ⟨hne, (columns_of_lacks hfields).1, rfl⟩
  | .column .., hne => ⟨hne, rfl, if_neg hne⟩
  | .geo .., hne | .aggregate .., hne | .constant .., hne => ⟨hne, rfl, rfl⟩

theorem columns_of_lacks : ∀ {fields : List Field}, Lacks name fields →
    shownColumns name fields = [] ∧ rootColumns name fields = []
  | [], _ => ⟨rfl, rfl⟩
  | _ :: _, ⟨hfield, hfields⟩ => by
    obtain ⟨hne, hshown, hroot⟩ := Field.columns_of_lacks hfield
    obtain ⟨hshown', hroot'⟩ := columns_of_lacks hfields
    rw [shownColumns, rootColumns, if_neg hne, hshown, hshown', hroot, hroot']
    exact ⟨rfl, rfl⟩

end

variable {name} {fields : List Field} {column : ColumnName}

theorem RootFirst.shown (h : RootFirst name fields column) :
    (shownColumns name fields).head? = some column ∧ column ∈ rootColumns name fields := by
  induction h with
  | column => simp [shownColumns, rootColumns, Field.rootColumns, Field.field, Field.sourceColumn]
  | group hne hinner ih =>
    obtain ⟨hhead, hmem⟩ := ih
    rw [shownColumns, if_neg (by exact hne), rootColumns, Field.shownColumns, Field.rootColumns,
      List.head?_append, hhead]
    exact ⟨rfl, List.mem_append_left _ hmem⟩
  | later hlacks hfields ih =>
    obtain ⟨hne, hshown, hroot⟩ := Field.columns_of_lacks name hlacks
    rw [shownColumns, if_neg hne, rootColumns, hshown, hroot]
    exact ih

/-- The first column shown is the root row's where the name is written there first, or nowhere. -/
theorem shown_of_rootFirst (h : Lacks name fields ∨ ∃ column, RootFirst name fields column) :
    match (shownColumns name fields).head? with
    | some column => column ∈ rootColumns name fields
    | none => rootColumns name fields = [] := by
  rcases h with hlacks | ⟨column, hfirst⟩
  · obtain ⟨hshown, hroot⟩ := columns_of_lacks name hlacks
    rw [hshown]
    exact hroot
  · obtain ⟨hhead, hmem⟩ := hfirst.shown
    rw [hhead]
    exact hmem

end Lookup

/-- The marker a deletion condition tests, which stands before the `when` filters. -/
def testedMarker : Cond → Option Col
  | .paren (.marked c) => some c
  | .and cond _ => testedMarker cond
  | _ => none

theorem testedMarker_andAll (base : Cond) (conds : List Cond) :
    testedMarker (andAll base conds) = testedMarker base := by
  unfold andAll
  induction conds generalizing base with
  | nil => rfl
  | cons cond conds ih => rw [List.foldl_cons, ih, testedMarker]

/-- The deletion condition tests a column of the root row that a field of the marker's name reads
there, and there is one whenever there is such a column. -/
structure MarksRoot (index : IndexSchema) (name : FieldName) (deleted : Option Cond) : Prop where
  tested : ∀ cond, deleted = some cond →
    ∃ column ∈ rootColumns name index.fields, testedMarker cond = some ⟨.root, column⟩
  generated : rootColumns name index.fields ≠ [] → deleted.isSome = true

/-- The tested marker is right exactly if the first column shown for its name is one that the name
has on the root row, or if none is shown and the root row has none. -/
theorem marksRoot_iff {index : IndexSchema} {name : FieldName} {conditions : Option (List Filter)}
    {colTypes : TableName → ColumnName → Option String} {b b' : Builder} {deleted : Option Cond}
    (hsoft : index.softDelete = some (.field name conditions))
    (h : softDeletePredicate colTypes index b = .ok (deleted, b')) :
    MarksRoot index name deleted ↔
      match (shownColumns name index.fields).head? with
      | some column => column ∈ rootColumns name index.fields
      | none => rootColumns name index.fields = [] := by
  have hmarker : marker index =
      ((shownColumns name index.fields).head?).map fun column => (column, conditions) := by
    rw [marker, hsoft, ← fieldColumn_eq_head]
  rcases softDeletePredicate_spec h with ⟨hnone, rfl, -⟩ | ⟨column, filters, conds, hsome, -, rfl⟩
  · rw [hmarker, Option.map_eq_none_iff] at hnone
    rw [hnone]
    constructor
    · intro hmarks
      by_contra hne
      cases hmarks.generated hne
    · intro hempty
      exact ⟨nofun, fun hne => absurd hempty hne⟩
  · rw [hmarker, Option.map_eq_some_iff] at hsome
    obtain ⟨column', hhead, heq⟩ := hsome
    obtain ⟨rfl, -⟩ := Prod.mk.inj heq
    rw [hhead]
    have htested : testedMarker (andAll (.paren (.marked ⟨.root, column'⟩)) conds) =
        some ⟨.root, column'⟩ := testedMarker_andAll _ conds
    constructor
    · intro hmarks
      obtain ⟨column, hcolumn, htested'⟩ := hmarks.tested _ rfl
      rw [htested, Option.some.injEq, Sql.Col.mk.injEq] at htested'
      rw [htested'.2]
      exact hcolumn
    · intro hmem
      constructor
      · rintro cond heq
        cases heq
        exact ⟨column', hmem, htested⟩
      · exact fun _ => rfl

/-- Orders, whose deletion is marked by a status, each with the customer that has a status too. -/
def customerFirst : IndexSchema where
  version := 1
  table := ⟨"orders"⟩
  dbSchema := ⟨"public"⟩
  primaryKey := some ⟨"id"⟩
  docId := none
  softDelete := some (.field ⟨"status"⟩ none)
  filters := none
  fields := [
    .join ⟨"customer"⟩ [] {
      table := ⟨"customers"⟩
      kind := .belongsTo ⟨"customer_id"⟩
      primaryKey := ⟨"id"⟩
      nullable := true
      filters := none
      orderBy := none
      limit := none }
      [.column ⟨"status"⟩ [] {
        column := ⟨"account_state"⟩
        ty := .keyword
        nullable := true
        transforms := []
        default := none
        enumOrder := [] }],
    .column ⟨"status"⟩ [] {
      column := ⟨"cancelled"⟩
      ty := .boolean
      nullable := true
      transforms := []
      default := none
      enumOrder := [] }]

theorem not_marksRoot_customerFirst :
    ¬ ∀ {index : IndexSchema} {name : FieldName} {conditions : Option (List Filter)}
      {colTypes : TableName → ColumnName → Option String} {b b' : Builder} {deleted : Option Cond},
      index.softDelete = some (.field name conditions) →
      softDeletePredicate colTypes index b = .ok (deleted, b') → MarksRoot index name deleted := by
  intro h
  have hmarks := @h customerFirst ⟨"status"⟩ none (fun _ _ => none) ⟨[], 0⟩ ⟨[], 0⟩ _ rfl rfl
  obtain ⟨column, hcolumn, htested⟩ := hmarks.tested _ rfl
  cases htested
  revert hcolumn
  decide

/-- The same orders with their own status written first. -/
def statusFirst : IndexSchema := { customerFirst with fields := customerFirst.fields.reverse }

theorem marksRoot_customerFirst_iff :
    (MarksRoot customerFirst ⟨"status"⟩ (some (.paren (.marked ⟨.root, ⟨"account_state"⟩⟩))) ↔
      (⟨"account_state"⟩ : ColumnName) ∈ rootColumns ⟨"status"⟩ customerFirst.fields) ∧
    MarksRoot statusFirst ⟨"status"⟩ (some (.paren (.marked ⟨.root, ⟨"cancelled"⟩⟩))) := by
  constructor
  · exact @marksRoot_iff customerFirst _ _ (fun _ _ => none) ⟨[], 0⟩ ⟨[], 0⟩ _ rfl rfl
  · apply (@marksRoot_iff statusFirst _ _ (fun _ _ => none) ⟨[], 0⟩ ⟨[], 0⟩ _ rfl rfl).mpr
    have hfirst : RootFirst ⟨"status"⟩ statusFirst.fields ⟨"cancelled"⟩ := .column
    exact shown_of_rootFirst (.inr ⟨_, hfirst⟩)

section Absence

variable {S : Type} [Postgres S] [Sql.Values S] (db : Database S) (index : IndexSchema)

/-- Whether a row of the root table should have no document: it is deleted, or it does not pass a
root filter. A filter that compares with a null does not hold. -/
def isAbsent (row : Row S) : Bool :=
  softDeleted db index row || !passesAll db index.dbSchema index.table index.filters row

/-- Whether it can be told if a row is deleted: its marker does not stand, it passes all of the
`when` filters, or it fails one of them outright. -/
def isSettled (row : Row S) : Bool :=
  match marker index with
  | some (column, conditions) =>
    !stands (row column) || passesAll db index.dbSchema index.table conditions row ||
      failsAny db index.dbSchema index.table conditions row
  | none => true

/-- The rows of the root table that a key names. -/
def keyedRows (operands : List (ColumnName × S)) : List (Row S) :=
  (rowsOf db index.dbSchema index.table).filter (hasKey operands)

variable {db} {index} {row : Row S}

omit [Postgres S] in
theorem refutes_eq_false {op : Sql.Comparison} {a : S} {operand : Option S}
    (h : satisfies op a operand = true) : refutes op a operand = false := by
  cases operand with
  | none => cases h
  | some b =>
    have htrue : Sql.Values.compare op a b = some true := by simpa [satisfies] using h
    simp [refutes, htrue]

omit [Postgres S] in
theorem satisfies_eq_false {op : Sql.Comparison} {a : S} {operand : Option S}
    (h : refutes op a operand = true) : satisfies op a operand = false := by
  cases hsat : satisfies op a operand with
  | false => rfl
  | true => rw [refutes_eq_false hsat] at h; cases h

theorem fails_eq_false {schema : DatabaseSchema} {table : TableName} {f : Filter}
    (h : passes db schema table row f = true) : fails db schema table row f = false := by
  cases f with
  | raw sql => rfl
  | nullCheck column op => cases op <;> simp_all [passes, fails]
  | valueOp column op value =>
    cases value with
    | list values =>
      cases op with
      | isIn =>
        obtain ⟨v, hv, hsat⟩ := List.any_eq_true.mp h
        exact List.all_eq_false.mpr ⟨v, hv, by simp [refutes_eq_false hsat]⟩
      | notIn =>
        refine List.any_eq_false.mpr fun v hv => ?_
        simp [satisfies_eq_false (List.all_eq_true.mp h v hv)]
      | _ => rfl
    | range lower upper =>
      cases op with
      | between =>
        obtain ⟨hlower, hupper⟩ := Bool.and_eq_true_iff.mp h
        simp [fails, refutes_eq_false hlower, refutes_eq_false hupper]
      | _ => rfl
    | single v =>
      cases hop : comparison op with
      | none =>
        cases op with
        | isIn | notIn | between => cases h
        | _ => cases hop
      | some compared =>
        have hsat : satisfies compared (row column) (operandOf db schema table column v) = true := by
          cases op <;> cases hop <;> exact h
        have hrefutes := refutes_eq_false hsat
        cases op <;> cases hop <;> exact hrefutes

theorem failsAny_eq_false {schema : DatabaseSchema} {table : TableName} {fs : Option (List Filter)}
    (h : passesAll db schema table fs row = true) : failsAny db schema table fs row = false :=
  List.any_eq_false.mpr fun f hf => by simp [fails_eq_false (List.all_eq_true.mp h f hf)]

/-- A row is an index's exactly if it should not be absent and it can be told whether it is
deleted. -/
theorem indexed_eq : indexed db index row = (!isAbsent db index row && isSettled db index row) := by
  unfold indexed isAbsent isSettled spared softDeleted
  cases marker index with
  | none => simp
  | some found =>
    obtain ⟨column, conditions⟩ := found
    simp only
    cases hpasses : passesAll db index.dbSchema index.table conditions row with
    | false => cases stands (row column) <;> simp [Bool.and_comm]
    | true =>
      rw [failsAny_eq_false hpasses]
      cases stands (row column) <;> simp

variable [Sql.LawfulValues S] {pks : TableName → Option ColumnName}
  {colTypes : TableName → ColumnName → Option String} {raw : RawTexts S}
  {params : List GenericValue} {q : DocumentQuery} {key : RowKey GenericValue}
  {operands : List (ColumnName × S)}

/-- A lookup finds nothing exactly where no row of its key should be present, if the server accepts
what the index names and a row that should be present can be told not to be deleted. -/
theorem documentQuery_absent_iff (hcatalog : Catalog db index.dbSchema pks colTypes)
    (hfits : IndexFits db index) (hquery : documentQuery pks colTypes index key = .ok (q, params))
    (hoperands : keyOperands db index key = some operands) :
    (∃ found, q.run (session db raw params) = some found ∧
        (found = [] ↔ ∀ row ∈ keyedRows db index operands, isAbsent db index row = true)) ↔
      keyAccepted db index (key.map Prod.fst) = true ∧ indexAccepted db index raw = true ∧
        ((∃ row ∈ keyedRows db index operands, isAbsent db index row = false) →
          ∃ row ∈ keyedRows db index operands, isAbsent db index row = false ∧
            isSettled db index row = true) := by
  rw [documentQuery_run hcatalog hfits hquery hoperands, ← and_assoc, ← Bool.and_eq_true]
  split
  case isFalse hrefused => simp [hrefused]
  next haccepted =>
  have hnone : ((rowsOf db index.dbSchema index.table).filter fun row =>
      hasKey operands row && indexed db index row).map (fun row =>
        ((none : Option S), documentContents db index.dbSchema literalJson index.fields index.table
          row index.primaryKey)) = [] ↔
      ¬ ∃ row ∈ keyedRows db index operands, isAbsent db index row = false ∧
        isSettled db index row = true := by
    simp [keyedRows, indexed_eq]
  have hall : (∀ row ∈ keyedRows db index operands, isAbsent db index row = true) ↔
      ¬ ∃ row ∈ keyedRows db index operands, isAbsent db index row = false := by
    simp
  simp only [haccepted, true_and, Option.some.injEq, exists_eq_left', hnone, hall, not_iff_not]
  constructor
  · exact fun h => h.mpr
  · exact fun h => ⟨fun ⟨row, hrow, hpresent, _⟩ => ⟨row, hrow, hpresent⟩, h⟩

end Absence

/-- An index of users that are deleted by the day of it, but only archived ones. -/
def archivedUsers : IndexSchema where
  version := 1
  table := ⟨"users"⟩
  dbSchema := ⟨"public"⟩
  primaryKey := some ⟨"id"⟩
  docId := none
  softDelete := some (.column ⟨"deleted_at"⟩ (some [.valueOp ⟨"archived"⟩ .eq (.single "yes")]))
  filters := none
  fields := [.column ⟨"name"⟩ [] ⟨⟨"name"⟩, .text, false, [], none, []⟩]

/-- A user with a day of deletion, archived or not or neither. -/
def leftUser (archived : Option String) : Row (Option String) := fun column =>
  if column.name = "archived" then archived
  else if column.name = "deleted_at" then some "2024-01-31"
  else if column.name = "id" then some "1"
  else some "Ada"

def leftDatabase (archived : Option String) : Database (Option String) := fun _ _ =>
  some ⟨fun _ => some "text", [⟨"id"⟩], [leftUser archived]⟩

theorem catalog_leftDatabase (archived : Option String) : Catalog (leftDatabase archived) ⟨"public"⟩
    (fun _ => some ⟨"id"⟩) (fun _ _ => some "text") := by
  constructor
  · rintro _ _ ⟨⟩
    rfl
  · rintro _ _ _ ⟨⟩
    rfl

theorem fits_leftDatabase (archived : Option String) :
    IndexFits (leftDatabase archived) archivedUsers := by
  refine ⟨rfl, ?_, ?_, ?_⟩
  · exact fun _ h => absurd h List.not_mem_nil
  · exact fun _ h => absurd h List.not_mem_nil
  · rintro _ _ ⟨⟩ f hf
    obtain rfl := List.mem_singleton.mp hf
    refine ⟨nofun, fun operand hoperand => ?_⟩
    obtain rfl := List.mem_singleton.mp hoperand
    rfl

theorem documentQuery_absent_iff_of_unarchived : ∃ q params,
    documentQuery (fun _ => some ⟨"id"⟩) (fun _ _ => some "text") archivedUsers
        [(⟨"id"⟩, .string "1")] = .ok (q, params) ∧
      ((∃ found, q.run (session (leftDatabase (some "no")) (fun _ => none) params) = some found ∧
          (found = [] ↔
            ∀ row ∈ keyedRows (leftDatabase (some "no")) archivedUsers [(⟨"id"⟩, some "1")],
              isAbsent (leftDatabase (some "no")) archivedUsers row = true)) ↔
        keyAccepted (leftDatabase (some "no")) archivedUsers [⟨"id"⟩] = true ∧
          indexAccepted (leftDatabase (some "no")) archivedUsers (fun _ => none) = true ∧
          ((∃ row ∈ keyedRows (leftDatabase (some "no")) archivedUsers [(⟨"id"⟩, some "1")],
              isAbsent (leftDatabase (some "no")) archivedUsers row = false) →
            ∃ row ∈ keyedRows (leftDatabase (some "no")) archivedUsers [(⟨"id"⟩, some "1")],
              isAbsent (leftDatabase (some "no")) archivedUsers row = false ∧
                isSettled (leftDatabase (some "no")) archivedUsers row = true)) :=
  ⟨_, _, rfl, documentQuery_absent_iff (catalog_leftDatabase _) (fits_leftDatabase _)
    (rfl : documentQuery (fun _ => some ⟨"id"⟩) (fun _ _ => some "text") archivedUsers
      [(⟨"id"⟩, .string "1")] = .ok (_, _)) rfl⟩

/-- A user for whom it is not known whether they are archived is taken for a deleted one. -/
theorem not_absent_iff_unknown : ¬ ∀ {db : Database (Option String)} {index : IndexSchema}
    {pks : TableName → Option ColumnName} {colTypes : TableName → ColumnName → Option String}
    {raw : RawTexts (Option String)} {params : List GenericValue} {q : DocumentQuery}
    {key : RowKey GenericValue} {operands : List (ColumnName × Option String)},
    Catalog db index.dbSchema pks colTypes → IndexFits db index →
    documentQuery pks colTypes index key = .ok (q, params) →
    keyOperands db index key = some operands →
    indexAccepted db index raw = true →
    ∃ found, q.run (session db raw params) = some found ∧
      (found = [] ↔ ∀ row ∈ keyedRows db index operands, isAbsent db index row = true) := by
  intro h
  obtain ⟨found, hrun, habsent⟩ := @h (leftDatabase none) archivedUsers (fun _ => some ⟨"id"⟩)
    (fun _ _ => some "text") (fun _ => none) _ _ [(⟨"id"⟩, .string "1")] [(⟨"id"⟩, some "1")]
    (catalog_leftDatabase _) (fits_leftDatabase _) rfl rfl rfl
  have hkeyed : leftUser none ∈ keyedRows (leftDatabase none) archivedUsers [(⟨"id"⟩, some "1")] :=
    List.mem_filter.mpr ⟨List.mem_singleton_self _, by decide⟩
  have habsent := habsent.mp (Option.some.inj hrun).symm _ hkeyed
  revert habsent
  decide

end Flusso.Document
