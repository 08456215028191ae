import Flusso.Document.Acceptance

/-! # What the document queries return

A query the server does not accept returns nothing. Run over the root table, one
it accepts selects the rows its key names that are not deleted and pass the root
filters, and returns the document of each.
-/

namespace Flusso.Document

section Deletion

variable {S : Type} [Postgres S] [Sql.Values S] (db : Database S) (index : IndexSchema)

/-- Whether a marker stands: it is not null, and true where it is a boolean. -/
def stands (v : S) : Bool := !Sql.Values.isNull v && (Sql.Values.boolean v).getD true

/-- The marker column of a soft delete, with the filters it is limited to. -/
def marker : Option (ColumnName × Option (List Filter)) :=
  match index.softDelete with
  | none => none
  | some (.column column conditions) => some (column, conditions)
  | some (.field field conditions) =>
    (fieldColumn field index.fields).map fun column => (column, conditions)

def softDeleted (row : Row S) : Bool :=
  match marker index with
  | some (column, conditions) =>
    stands (row column) && passesAll db index.dbSchema index.table conditions row
  | none => false

/-- Whether a row is certain not to be deleted: its marker does not stand, or it fails one of the
filters outright. -/
def spared (row : Row S) : Bool :=
  match marker index with
  | some (column, conditions) =>
    !stands (row column) || failsAny db index.dbSchema index.table conditions row
  | none => true

/-- Whether the server accepts the condition that a row is not deleted. -/
def deletionAccepted (raw : RawTexts S) : Bool :=
  match marker index with
  | some (column, conditions) =>
    (storedType db index.dbSchema index.table column).isSome &&
      filtersAccepted db raw index.dbSchema index.table conditions
  | none => true

end Deletion

section Keys

variable {S : Type} [Postgres S] [Sql.Values S] (db : Database S) (index : IndexSchema)

/-- A key's values as values of their columns. -/
def keyOperands (key : RowKey GenericValue) : Option (List (ColumnName × S)) :=
  key.mapM fun entry =>
    (Postgres.cast (typeName db index.dbSchema index.table entry.1) entry.2).map (entry.1, ·)

/-- Whether a row has the key's values. -/
def hasKey (operands : List (ColumnName × S)) (row : Row S) : Bool :=
  operands.all fun operand => areEqual (row operand.1) operand.2

/-- Whether a row is one an index makes documents of. -/
def indexed (row : Row S) : Bool :=
  spared db index row && passesAll db index.dbSchema index.table index.filters row

/-- Whether columns of the root table can be compared with values of their own types. -/
def keyAccepted (columns : List ColumnName) : Bool :=
  columns.all fun column => columnsCompare db index.dbSchema index.table column index.table column

/-- Whether the server accepts what an index names: every table and column is there and has the
operators, functions and order asked of it, no list of values is empty, and every default is a
literal of its type. -/
def indexAccepted (raw : RawTexts S) : Bool :=
  tableExists db index.dbSchema index.table &&
    fieldsAccepted db raw index.dbSchema index.fields index.table index.primaryKey &&
    deletionAccepted db index raw &&
    filtersAccepted db raw index.dbSchema index.table index.filters

end Keys

section Run

variable {S : Type} [Postgres S] [Sql.Values S]

def DocumentQuery.accepted (q : DocumentQuery) (session : Session S) : Bool :=
  let typing : Sql.Typing Alias TableRef := Sql.Typing.bind (fun _ => none) .root q.table
  Sql.hasTable session q.table && q.cond.accepted session typing &&
    q.object.accepted session typing && q.docKey.all fun c => (c.sqlType session typing).isSome

/-- The rows a query returns: the key, where it is asked for, and the document. -/
def DocumentQuery.run (q : DocumentQuery) (session : Session S) :
    Option (List (Option S × Json)) :=
  if q.accepted session then do
    let scopes ← (Sql.From.table q.table .root).eval session fun _ => none
    let selected ← q.cond.select session scopes
    selected.mapM fun scope => do
      let document ← q.object.eval session scope
      match q.docKey with
      | some c => do
        let key ← c.eval scope
        pure (some key, document)
      | none => pure (none, document)
  else none

end Run

section Predicates

variable {S : Type} [Postgres S] [Sql.Values S] {db : Database S} {index : IndexSchema}
  {pks : TableName → Option ColumnName} {colTypes : TableName → ColumnName → Option String}
  {raw : RawTexts S} {params : List GenericValue} {scope : Scope S}
  {b b' : Builder} {row : Row S} {t : TableRef}

theorem softDeletePredicate_spec {deleted : Option Cond}
    (h : softDeletePredicate colTypes index b = .ok (deleted, b')) :
    (marker index = none ∧ deleted = none ∧ b = b') ∨
      ∃ column conditions conds, marker index = some (column, conditions) ∧
        filters colTypes conditions .root index.table b = .ok (conds, b') ∧
        deleted = some (andAll (.paren (.marked ⟨.root, column⟩)) conds) := by
  have hpredicate : ∀ {column : ColumnName} {conditions : Option (List Filter)},
      ((some <$> (do
        let conditions ← filters colTypes conditions .root index.table
        return andAll (.paren (.marked ⟨.root, column⟩)) conditions)) : Build (Option Cond)) b =
          .ok (deleted, b') →
      ∃ conds, filters colTypes conditions .root index.table b = .ok (conds, b') ∧
        deleted = some (andAll (.paren (.marked ⟨.root, column⟩)) conds) := by
    intro column conditions h
    obtain ⟨predicate, hbuilt, rfl⟩ := build_map.mp h
    obtain ⟨conds, b₁, hconds, h⟩ := build_bind.mp hbuilt
    obtain ⟨rfl, rfl⟩ := build_pure.mp h
    exact ⟨conds, hconds, rfl⟩
  unfold softDeletePredicate at h
  unfold marker
  cases hsoft : index.softDelete with
  | none =>
    rw [hsoft] at h
    obtain ⟨rfl, rfl⟩ := build_pure.mp h
    exact .inl ⟨rfl, rfl, rfl⟩
  | some softDelete =>
    rw [hsoft] at h
    cases softDelete with
    | column column conditions =>
      obtain ⟨conds, hconds, rfl⟩ := hpredicate h
      exact .inr ⟨column, conditions, conds, rfl, hconds, rfl⟩
    | field field conditions =>
      cases hfield : fieldColumn field index.fields with
      | none =>
        simp only [hfield] at h
        obtain ⟨rfl, rfl⟩ := build_pure.mp h
        exact .inl ⟨by simp [hfield], rfl, rfl⟩
      | some column =>
        simp only [hfield] at h
        obtain ⟨conds, hconds, rfl⟩ := hpredicate h
        exact .inr ⟨column, conditions, conds, by simp [hfield], hconds, rfl⟩

theorem softDeletePredicate_grows {deleted : Option Cond}
    (h : softDeletePredicate colTypes index b = .ok (deleted, b')) : Grows b b' := by
  rcases softDeletePredicate_spec h with ⟨-, -, rfl⟩ | ⟨_, _, _, -, hconds, -⟩
  · exact .refl b
  · exact filters_grows hconds

theorem keyed_grows {key : RowKey GenericValue} {keyed : List Cond}
    (h : (key.mapM fun (column, value) => do
      let operand ← typedPlaceholder colTypes value index.table column
      return Sql.Cond.compare .eq ⟨.root, column⟩ (.param operand) : Build (List Cond)) b =
        .ok (keyed, b')) : Grows b b' := by
  refine (mapM_build (fun entry _ b₁ cond b₂ h => ?_) h).1
  obtain ⟨p, b₃, hp, h⟩ := build_bind.mp h
  obtain ⟨-, rfl⟩ := build_pure.mp h
  exact typedPlaceholder_grows hp

/-- What the database holds of an index: its tables, and filters whose operands can be read. -/
structure IndexFits (db : Database S) (index : IndexSchema) : Prop where
  table : (db index.dbSchema index.table).isSome = true
  relations : ∀ relation ∈ relationsOf index.fields, RelationFits db index.dbSchema relation
  filters : ∀ f ∈ index.filters.getD [], Spelled db index.dbSchema index.table f
  deletion : ∀ column conditions, marker index = some (column, conditions) →
    ∀ f ∈ conditions.getD [], Spelled db index.dbSchema index.table f

/-- An index that fits, and whose filters can be evaluated. -/
structure IndexReads (db : Database S) (index : IndexSchema) : Prop where
  fits : IndexFits db index
  relations : ∀ relation ∈ relationsOf index.fields, RelationReads db index.dbSchema relation
  filters : ∀ f ∈ index.filters.getD [], Readable db index.dbSchema index.table f
  deletion : ∀ column conditions, marker index = some (column, conditions) →
    ∀ f ∈ conditions.getD [], Readable db index.dbSchema index.table f

theorem IndexFits.reads (hfits : IndexFits db index) (h : indexAccepted db index raw = true) :
    IndexReads db index := by
  simp only [indexAccepted, Bool.and_eq_true] at h
  obtain ⟨⟨⟨-, hfields⟩, hdeletion⟩, hfilters⟩ := h
  refine ⟨hfits, ?_, readable_of_accepted hfits.filters hfilters, ?_⟩
  · intro relation hrelation
    exact (relationsAccepted_of (fun g _ => relationsAccepted g) hfields relation hrelation).reads
      (hfits.relations relation hrelation)
  · intro column conditions hmarker
    rw [deletionAccepted, hmarker, Bool.and_eq_true] at hdeletion
    exact readable_of_accepted (hfits.deletion column conditions hmarker) hdeletion.2

section Conditions

variable (hcatalog : Catalog db index.dbSchema pks colTypes)

include hcatalog

theorem softDelete_decides {column : ColumnName} {conditions : Option (List Filter)}
    {conds : List Cond} (hmarker : marker index = some (column, conditions))
    (hfits : IndexReads db index)
    (hconds : filters colTypes conditions .root index.table b = .ok (conds, b'))
    (hparams : b'.params <+: params) (hscope : scope .root = some (t, row)) :
    Sql.Decides (session db raw params) scope (andAll (.paren (.marked ⟨.root, column⟩)) conds)
      (softDeleted db index row) (spared db index row) := by
  have hmarked : Sql.Decides (session db raw params) scope (.paren (.marked ⟨.root, column⟩))
      (stands (row column)) (!stands (row column)) := by
    have h : Sql.Decides (session db raw params) scope (.paren (.marked ⟨.root, column⟩)) _ _ :=
      (Sql.decides_marked (column_eval hscope)).paren
    simpa only [stands, Bool.not_and, Bool.not_not] using h
  have hdecides := filters_decides hcatalog hscope hconds (hfits.deletion column conditions hmarker)
    hparams hmarked
  simpa only [softDeleted, spared, hmarker] using hdecides

variable (raw) in
theorem keyed_decides {key : RowKey GenericValue} {keyed : List Cond}
    {operands : List (ColumnName × S)}
    (h : (key.mapM fun (column, value) => do
      let operand ← typedPlaceholder colTypes value index.table column
      return Sql.Cond.compare .eq ⟨.root, column⟩ (.param operand) : Build (List Cond)) b =
        .ok (keyed, b'))
    (hoperands : keyOperands db index key = some operands) (hparams : b'.params <+: params)
    (hscope : scope .root = some (t, row)) :
    List.Forall₂ (fun cond (p : Bool × Bool) =>
      Sql.Decides (session db raw params) scope cond p.1 p.2) keyed
      (operands.map fun operand => (areEqual (row operand.1) operand.2,
        decide (Sql.Values.compare .eq (row operand.1) operand.2 = some false))) := by
  obtain ⟨-, hall⟩ := mapM_build (fun entry _ b₁ cond b₂ h => by
    obtain ⟨p, b₃, hp, h⟩ := build_bind.mp h
    obtain ⟨-, rfl⟩ := build_pure.mp h
    exact typedPlaceholder_grows hp) h
  clear h
  induction hall generalizing operands with
  | nil =>
    cases hoperands
    exact .nil
  | @cons entry cond key keyed hp _ ih =>
    obtain ⟨b₁, b₂, -, hstep, hgrows⟩ := hp
    obtain ⟨p, b₃, hparam, hcond⟩ := build_bind.mp hstep
    obtain ⟨rfl, rfl⟩ := build_pure.mp hcond
    rw [keyOperands, List.mapM_cons] at hoperands
    obtain ⟨operand, hoperand, hoperands⟩ := Option.bind_eq_some_iff.mp hoperands
    obtain ⟨rest, hrest, hoperands⟩ := Option.bind_eq_some_iff.mp hoperands
    cases hoperands
    obtain ⟨w, hcast, rfl⟩ := Option.map_eq_some_iff.mp hoperand
    have heval := typedPlaceholder_eval hcatalog raw hparam (hgrows.params.trans hparams)
    exact .cons (Sql.decides_compare (column_eval hscope) (heval.trans hcast)) (ih hrest)

omit hcatalog in
theorem foldl_and_decides {conds : List Cond} {ps : List (Bool × Bool)} {base : Cond} {p q : Bool}
    (hbase : Sql.Decides (session db raw params) scope base p q)
    (h : List.Forall₂ (fun cond (p : Bool × Bool) =>
      Sql.Decides (session db raw params) scope cond p.1 p.2) conds ps) :
    Sql.Decides (session db raw params) scope (conds.foldl .and base)
      (p && ps.all Prod.fst) (q || ps.any Prod.snd) := by
  induction h generalizing base p q with
  | nil => simpa using hbase
  | cons hcond _ ih =>
    rw [List.foldl_cons, List.all_cons, List.any_cons, ← Bool.and_assoc, ← Bool.or_assoc]
    exact ih (hbase.and hcond)

omit hcatalog in
theorem allOf_decides {conds : List Cond} {ps : List (Bool × Bool)}
    (h : List.Forall₂ (fun cond (p : Bool × Bool) =>
      Sql.Decides (session db raw params) scope cond p.1 p.2) conds ps) :
    Sql.Decides (session db raw params) scope (allOf conds)
      (ps.all Prod.fst) (ps.any Prod.snd) := by
  cases h with
  | nil => exact Sql.decides_always
  | cons hfirst hrest => exact foldl_and_decides hfirst hrest

variable (raw) in
theorem spared_decides {deleted : Option Cond} (hfits : IndexReads db index)
    (hdeleted : softDeletePredicate colTypes index b = .ok (deleted, b'))
    (hparams : b'.params <+: params) (hscope : scope .root = some (t, row)) :
    ∃ ps : List (Bool × Bool), ps.all Prod.fst = spared db index row ∧
      List.Forall₂ (fun cond (p : Bool × Bool) =>
        Sql.Decides (session db raw params) scope cond p.1 p.2)
        (deleted.map fun predicate => .not (.paren predicate)).toList ps := by
  rcases softDeletePredicate_spec hdeleted with ⟨hmarker, rfl, rfl⟩ |
    ⟨column, conditions, conds, hmarker, hconds, rfl⟩
  · exact ⟨[], by simp only [spared, hmarker, List.all_nil], .nil⟩
  · refine ⟨[(spared db index row, softDeleted db index row)], by simp, .cons ?_ .nil⟩
    exact (softDelete_decides hcatalog hmarker hfits hconds hparams hscope).paren.not

theorem indexed_accepts {conds : List Cond} {base : Cond} {b₁ : Builder} {p q : Bool}
    (hfits : IndexReads db index)
    (hbase : Sql.Decides (session db raw params) scope base (p && spared db index row) q)
    (hconds : filters colTypes index.filters .root index.table b = .ok (conds, b₁))
    (hparams : b₁.params <+: params) (hscope : scope .root = some (t, row)) :
    Sql.Accepts (session db raw params) scope (andAll base conds)
      (p && indexed db index row) := by
  rw [indexed, ← Bool.and_assoc]
  exact (filters_decides hcatalog hscope hconds hfits.filters hparams hbase).accepts

end Conditions

section Accepted

variable {typing : Sql.Typing Alias TableRef}

theorem allOf_accepted {conds : List Cond} :
    (allOf conds).accepted (session db raw params) typing =
      conds.all fun cond => cond.accepted (session db raw params) typing := by
  have hfoldl (base : Cond) (conds : List Cond) :
      (conds.foldl .and base).accepted (session db raw params) typing =
        (base.accepted (session db raw params) typing &&
          conds.all fun cond => cond.accepted (session db raw params) typing) := by
    induction conds generalizing base with
    | nil => simp
    | cons cond conds ih =>
      rw [List.foldl_cons, ih, List.all_cons, ← Bool.and_assoc]
      rfl
  cases conds with
  | nil => rfl
  | cons cond conds => exact hfoldl cond conds

variable (hcatalog : Catalog db index.dbSchema pks colTypes)
  (htyping : typing .root = some (index.dbSchema, index.table))

include hcatalog htyping

theorem keyed_accepted {key : RowKey GenericValue} {keyed : List Cond}
    (h : (key.mapM fun (column, value) => do
      let operand ← typedPlaceholder colTypes value index.table column
      return Sql.Cond.compare .eq ⟨.root, column⟩ (.param operand) : Build (List Cond)) b =
        .ok (keyed, b')) :
    (keyed.all fun cond => cond.accepted (session db raw params) typing) =
      keyAccepted db index (key.map Prod.fst) := by
  obtain ⟨-, hall⟩ := mapM_build (fun entry _ b₁ cond b₂ h => by
    obtain ⟨p, b₃, hp, h⟩ := build_bind.mp h
    obtain ⟨-, rfl⟩ := build_pure.mp h
    exact typedPlaceholder_grows hp) h
  clear h
  unfold keyAccepted
  induction hall with
  | nil => rfl
  | @cons entry cond key keyed hp _ ih =>
    obtain ⟨b₁, b₂, -, hstep, -⟩ := hp
    obtain ⟨p, b₃, hparam, hcond⟩ := build_bind.mp hstep
    obtain ⟨rfl, rfl⟩ := build_pure.mp hcond
    rw [List.all_cons, ih, List.map_cons, List.all_cons, Sql.Cond.accepted, Sql.Operand.sqlType,
      col_sqlType htyping, comparable_param hcatalog hparam]
    rfl

theorem spared_accepted {deleted : Option Cond}
    (h : softDeletePredicate colTypes index b = .ok (deleted, b')) :
    ((deleted.map fun predicate => Sql.Cond.not (.paren predicate)).toList.all fun cond =>
      cond.accepted (session db raw params) typing) = deletionAccepted db index raw := by
  rcases softDeletePredicate_spec h with ⟨hmarker, rfl, rfl⟩ |
    ⟨column, conditions, conds, hmarker, hconds, rfl⟩
  · simp [deletionAccepted, hmarker]
  · simp only [Option.map_some, Option.toList_some, List.all_cons, List.all_nil, Bool.and_true,
      Sql.Cond.accepted, andAll_accepted, col_sqlType htyping,
      filters_accepted hcatalog hconds htyping, deletionAccepted, hmarker]

end Accepted

end Predicates

section Results

variable {S : Type} [Postgres S] [Sql.Values S] [Sql.LawfulValues S] {db : Database S}
  {index : IndexSchema} {pks : TableName → Option ColumnName}
  {colTypes : TableName → ColumnName → Option String} {raw : RawTexts S}
  {params : List GenericValue} {q : DocumentQuery}

omit [Sql.LawfulValues S] in
theorem run_eq_some {selects : Row S → Bool} {document : Row S → Json}
    (haccepted : q.accepted (session db raw params) = true)
    (htable : (db index.dbSchema index.table).isSome = true)
    (hq : q.table = (index.dbSchema, index.table))
    (hcond : ∀ (scope : Scope S) (row : Row S),
      scope .root = some ((index.dbSchema, index.table), row) →
        Sql.Accepts (session db raw params) scope q.cond (selects row))
    (hobject : ∀ (scope : Scope S) (row : Row S),
      scope .root = some ((index.dbSchema, index.table), row) →
        q.object.eval (session db raw params) scope = some (document row))
    (hkey : ∀ c, q.docKey = some c → c.row = .root) :
    q.run (session db raw params) =
      some (((rowsOf db index.dbSchema index.table).filter selects).map fun row =>
        (q.docKey.map fun c => row c.column, document row)) := by
  let inScope (row : Row S) : Scope S :=
    Sql.Scope.bind (fun _ => none) .root ((index.dbSchema, index.table), row)
  have hroot (row : Row S) : inScope row .root = some ((index.dbSchema, index.table), row) :=
    Sql.bind_self
  have hsource : (Sql.From.table (index.dbSchema, index.table) .root).eval
      (session db raw params) (fun _ => none) =
        some ((rowsOf db index.dbSchema index.table).map inScope) :=
    Sql.table_eval (rows_session raw params htable)
  have hselect := Sql.select_eq_some fun row (_ : row ∈ rowsOf db index.dbSchema index.table) =>
    hcond (inScope row) row (hroot row)
  rw [DocumentQuery.run, if_pos haccepted]
  simp only [hq, hsource, hselect, Option.bind_eq_bind, Option.bind_some, List.mapM_map]
  apply Sql.mapM_eq_some
  intro row _
  simp only [Function.comp_apply, hobject (inScope row) row (hroot row), Option.bind_some]
  cases hdocKey : q.docKey with
  | none => rfl
  | some c =>
    have hc : c.eval (inScope row) = some (row c.column) := by
      simp [Sql.Col.eval, hkey c hdocKey, hroot row]
    simp only [hc, Option.bind_some, Option.map_some, Option.pure_def]

theorem typing_root {t : TableRef} :
    (Sql.Typing.bind (fun _ => none) .root t : Sql.Typing Alias TableRef) .root = some t :=
  Sql.Typing.bind_self

omit [Sql.LawfulValues S] in
theorem documentQuery_accepted {key : RowKey GenericValue}
    (hcatalog : Catalog db index.dbSchema pks colTypes)
    (hquery : documentQuery pks colTypes index key = .ok (q, params)) :
    q.accepted (session db raw params) =
      (keyAccepted db index (key.map Prod.fst) && indexAccepted db index raw) := by
  obtain ⟨⟨built, builder⟩, hbuilt, hresult⟩ := Attempts.bind_ok.mp hquery
  cases hresult
  obtain ⟨pairs, b₁, hpairs, hbuilt⟩ := build_bind.mp hbuilt
  obtain ⟨keyed, b₂, hkeyed, hbuilt⟩ := build_bind.mp hbuilt
  obtain ⟨deleted, b₃, hdeleted, hbuilt⟩ := build_bind.mp hbuilt
  obtain ⟨conds, b₄, hconds, hbuilt⟩ := build_bind.mp hbuilt
  obtain ⟨rfl, rfl⟩ := build_pure.mp hbuilt
  simp only [DocumentQuery.accepted, hasTable_session, andAll_accepted, allOf_accepted,
    List.all_append, keyed_accepted hcatalog typing_root hkeyed,
    spared_accepted hcatalog typing_root hdeleted, filters_accepted hcatalog hconds typing_root,
    object_accepted hcatalog hpairs trivial typing_root, Option.all_none, indexAccepted]
  ac_rfl

/-- The query for one document is refused, or returns the documents of the rows its key names. -/
theorem documentQuery_run {key : RowKey GenericValue} {operands : List (ColumnName × S)}
    (hcatalog : Catalog db index.dbSchema pks colTypes) (hfits : IndexFits db index)
    (hquery : documentQuery pks colTypes index key = .ok (q, params))
    (hoperands : keyOperands db index key = some operands) :
    q.run (session db raw params) =
      if keyAccepted db index (key.map Prod.fst) && indexAccepted db index raw then
        some (((rowsOf db index.dbSchema index.table).filter fun row =>
          hasKey operands row && indexed db index row).map fun row =>
            (none, documentContents db index.dbSchema literalJson index.fields index.table row
              index.primaryKey))
      else none := by
  have haccepted : q.accepted (session db raw params) = _ :=
    documentQuery_accepted hcatalog hquery
  split
  case isFalse h =>
    rw [DocumentQuery.run, haccepted, if_neg h]
  next h =>
  rw [h] at haccepted
  have hfits := hfits.reads (Bool.and_eq_true_iff.mp h).2
  obtain ⟨⟨built, builder⟩, hbuilt, hresult⟩ := Attempts.bind_ok.mp hquery
  cases hresult
  obtain ⟨pairs, b₁, hpairs, hbuilt⟩ := build_bind.mp hbuilt
  obtain ⟨keyed, b₂, hkeyed, hbuilt⟩ := build_bind.mp hbuilt
  obtain ⟨deleted, b₃, hdeleted, hbuilt⟩ := build_bind.mp hbuilt
  obtain ⟨conds, b₄, hconds, hbuilt⟩ := build_bind.mp hbuilt
  obtain ⟨rfl, rfl⟩ := build_pure.mp hbuilt
  have hgrows := filters_grows hconds
  have hgrows' := (softDeletePredicate_grows hdeleted).trans hgrows
  have hgrows'' := (keyed_grows hkeyed).trans hgrows'
  apply run_eq_some haccepted hfits.fits.table rfl
  · intro scope row hscope
    have hkeys := keyed_decides raw hcatalog hkeyed hoperands hgrows'.params hscope
    obtain ⟨ps, hps, hspared⟩ := spared_decides raw hcatalog hfits hdeleted hgrows.params hscope
    have hbase := allOf_decides (List.rel_append hkeys hspared)
    have hall : (operands.map (fun operand => (areEqual (row operand.1) operand.2,
        decide (Sql.Values.compare .eq (row operand.1) operand.2 = some false))) ++ ps).all
          Prod.fst = (hasKey operands row && spared db index row) := by
      rw [List.all_append, List.all_map, hps]
      rfl
    rw [hall] at hbase
    exact indexed_accepts hcatalog hfits hbase hconds List.prefix_rfl hscope
  · intro scope row hscope
    exact object_eval hcatalog hfits.relations hpairs hgrows''.params trivial hscope
  · intro c h
    cases h

theorem foldl_and_deleted {keyed : Cond} {deleted : Option Cond} :
    (deleted.map fun predicate => Sql.Cond.not (.paren predicate)).toList.foldl .and keyed =
      match deleted with
      | some predicate => .and keyed (.not (.paren predicate))
      | none => keyed := by
  cases deleted <;> rfl

omit [Sql.LawfulValues S] in
theorem documentsQuery_accepted {pkColumn : ColumnName} {keys : List GenericValue}
    (hcatalog : Catalog db index.dbSchema pks colTypes)
    (hquery : documentsQuery pks colTypes index pkColumn keys = .ok (q, params)) :
    q.accepted (session db raw params) =
      (!keys.isEmpty && keyAccepted db index [pkColumn] && indexAccepted db index raw) := by
  obtain ⟨⟨built, builder⟩, hbuilt, hresult⟩ := Attempts.bind_ok.mp hquery
  cases hresult
  obtain ⟨pairs, b₁, hpairs, hbuilt⟩ := build_bind.mp hbuilt
  obtain ⟨ps, b₂, hps, hbuilt⟩ := build_bind.mp hbuilt
  obtain ⟨deleted, b₃, hdeleted, hbuilt⟩ := build_bind.mp hbuilt
  obtain ⟨conds, b₄, hconds, hbuilt⟩ := build_bind.mp hbuilt
  obtain ⟨rfl, rfl⟩ := build_pure.mp hbuilt
  have hstored : keyAccepted db index [pkColumn] = (keyAccepted db index [pkColumn] &&
      (storedType db index.dbSchema index.table pkColumn).isSome) := by
    rw [keyAccepted, List.all_cons, List.all_nil, Bool.and_true, columnsCompare]
    cases storedType db index.dbSchema index.table pkColumn <;> simp [Sql.comparable]
  have hwithin : (Sql.Cond.within false ⟨.root, pkColumn⟩ ps : Cond).accepted
      (session db raw b₄.params)
      (Sql.Typing.bind (fun _ => none) .root (index.dbSchema, index.table)) =
        (!keys.isEmpty && keyAccepted db index [pkColumn]) := by
    rw [Sql.Cond.accepted, col_sqlType typing_root, keyAccepted, List.all_cons, List.all_nil,
      Bool.and_true]
    exact comparable_params hcatalog hps
  have hspared : (List.all (deleted.map fun predicate =>
      Sql.Cond.not (.paren predicate)).toList fun cond => cond.accepted
        (session db raw b₄.params) (Sql.Typing.bind (fun _ => none) .root
          (index.dbSchema, index.table))) = deletionAccepted db index raw :=
    spared_accepted hcatalog typing_root hdeleted
  have hbase : (allOf (.within false ⟨.root, pkColumn⟩ ps ::
      (deleted.map fun predicate => Sql.Cond.not (.paren predicate)).toList)).accepted
        (session db raw b₄.params) (Sql.Typing.bind (fun _ => none) .root
          (index.dbSchema, index.table)) = _ := allOf_accepted
  rw [List.all_cons, hwithin, hspared, allOf, foldl_and_deleted] at hbase
  rw [DocumentQuery.accepted, hasTable_session, andAll_accepted,
    filters_accepted hcatalog hconds typing_root,
    object_accepted hcatalog hpairs trivial typing_root, Option.all_some, col_sqlType typing_root,
    hstored, indexAccepted]
  refine (congrArg (fun accepted => _ && (accepted && _) && _ && _) hbase).trans ?_
  ac_rfl

theorem documentsQuery_run {pkColumn : ColumnName} {keys : List GenericValue} {operands : List S}
    (hcatalog : Catalog db index.dbSchema pks colTypes) (hfits : IndexFits db index)
    (hquery : documentsQuery pks colTypes index pkColumn keys = .ok (q, params))
    (hoperands : keys.mapM
      (Postgres.cast (typeName db index.dbSchema index.table pkColumn)) = some operands) :
    q.run (session db raw params) =
      if !keys.isEmpty && keyAccepted db index [pkColumn] && indexAccepted db index raw then
        some (((rowsOf db index.dbSchema index.table).filter fun row =>
          operands.any (areEqual (row pkColumn)) && indexed db index row).map fun row =>
            (some (row pkColumn), documentContents db index.dbSchema literalJson index.fields
              index.table row index.primaryKey))
      else none := by
  have haccepted : q.accepted (session db raw params) = _ :=
    documentsQuery_accepted hcatalog hquery
  split
  case isFalse h => rw [DocumentQuery.run, haccepted, if_neg h]
  next h =>
  rw [h] at haccepted
  simp only [Bool.and_eq_true, Bool.not_eq_true', List.isEmpty_eq_false_iff] at h
  obtain ⟨⟨hne, -⟩, hindex⟩ := h
  have hfits := hfits.reads hindex
  obtain ⟨⟨built, builder⟩, hbuilt, hresult⟩ := Attempts.bind_ok.mp hquery
  cases hresult
  obtain ⟨pairs, b₁, hpairs, hbuilt⟩ := build_bind.mp hbuilt
  obtain ⟨ps, b₂, hps, hbuilt⟩ := build_bind.mp hbuilt
  obtain ⟨deleted, b₃, hdeleted, hbuilt⟩ := build_bind.mp hbuilt
  obtain ⟨conds, b₄, hconds, hbuilt⟩ := build_bind.mp hbuilt
  obtain ⟨rfl, rfl⟩ := build_pure.mp hbuilt
  have hgrows := filters_grows hconds
  have hgrows' := (softDeletePredicate_grows hdeleted).trans hgrows
  have hgrows'' := (mapM_build (fun _ _ _ _ _ h => typedPlaceholder_grows h) hps).1.trans hgrows'
  apply run_eq_some haccepted hfits.fits.table rfl
  · intro scope row hscope
    have hparams := typedPlaceholders_eval hcatalog raw hps hgrows'.params hoperands
    obtain ⟨qs, hqs, hspared⟩ := spared_decides raw hcatalog hfits hdeleted hgrows.params hscope
    have hwithin : Sql.Decides (session db raw b₄.params) scope (.within false ⟨.root, pkColumn⟩ ps)
        (operands.any (areEqual (row pkColumn))) _ :=
      Sql.decides_within (params_ne_nil hps hne) (column_eval hscope) hparams
    have hbase := foldl_and_decides hwithin hspared
    rw [hqs] at hbase
    rw [foldl_and_deleted] at hbase
    exact indexed_accepts hcatalog hfits hbase hconds List.prefix_rfl hscope
  · intro scope row hscope
    exact object_eval hcatalog hfits.relations hpairs hgrows''.params trivial hscope
  · intro c h
    cases h
    rfl

end Results

end Flusso.Document
