import Flusso.Document.Emitted

/-! # The statements sent to the database

The text of every generated query is read as the pieces it is made of: strings stay in
their literals and names in their quotes, parentheses match, and the placeholders number
the bound values, each of them the one meant for its place.
-/

namespace Flusso.Document

variable {pks : TableName → Option ColumnName}
  {colTypes : TableName → ColumnName → Option String}

section ReadAs

variable (colTypes)

/-- A text that is read as its pieces, with its parameters. -/
structure ReadAs (text : String) (ps : List Piece) (params : List GenericValue)
    (parameters : List Parameter) : Prop where
  text_eq : Sql.textOf ps = text
  plain : ∀ p ∈ ps, p.Plain
  lexed : Sql.lex text.toList = Sql.tokensOf ps
  closed : .junk ∉ Sql.lex text.toList
  balanced : Sql.Balanced (Sql.lex text.toList)
  placeholders : Sql.placeholders (Sql.lex text.toList) =
    (Sql.slots ps).map fun slot => slot.2.index
  numbered : (Sql.placeholders (Sql.lex text.toList)).Perm (List.range' 1 params.length)
  filled : List.Forall₂ (Fills colTypes params) parameters (Sql.slots ps)

variable {colTypes}

theorem Emits.readAs {text : String} {ps : List Piece} {params : List GenericValue}
    {parameters : List Parameter} (h : Emits colTypes [] parameters ps params)
    (htext : Sql.textOf ps = text) (hspaced : Sql.Spaced ps) (hnested : Sql.Nested ps) :
    ReadAs colTypes text ps params parameters := by
  have hlexed : Sql.lex text.toList = Sql.tokensOf ps := htext ▸ hspaced.lex h.plain
  have hbalanced : Sql.Balanced (Sql.tokensOf ps) :=
    (Sql.depth_tokensOf h.plain 0).trans (hnested 0)
  have hplaceholders := hspaced.placeholders h.plain
  refine ⟨htext, h.plain, hlexed, ?_, ?_, ?_, ?_, h.fills⟩
  · rw [hlexed]
    exact Sql.junk_notMem hbalanced
  · rwa [hlexed]
  · rw [hlexed, hplaceholders]
  · rw [hlexed, hplaceholders]
    exact h.indices

end ReadAs

section Documents

def DocumentQuery.pieces (q : DocumentQuery) : List Piece :=
  .fixed "SELECT " [.word "SELECT"] ::
    ((match q.docKey with
      | some c => [c.piece spelling, .fixed " AS \"doc_key\", "
          [.word "AS", .identifier "doc_key", .symbol ',']]
      | none => []) ++
    (q.object.pieces spelling ++ .fixed " AS \"document\" FROM "
        [.word "AS", .identifier "document", .word "FROM"] ::
      spelling.tablePiece q.table :: .fixed " AS " [.word "AS"] :: spelling.rowPiece .root ::
      .fixed " WHERE " [.word "WHERE"] :: q.cond.pieces spelling))

theorem DocumentQuery.textOf_pieces (q : DocumentQuery) : Sql.textOf q.pieces = q.text := by
  obtain ⟨docKey, object, table, cond⟩ := q
  cases docKey <;> simp [DocumentQuery.pieces, DocumentQuery.text, Sql.textOf_append,
    Sql.Expr.textOf_pieces names_spells, Sql.Cond.textOf_pieces names_spells,
    names_spells.text_col, names_spells.text_row, names_spells.text_table, String.append_assoc]

theorem DocumentQuery.spaced (q : DocumentQuery) : Sql.Spaced q.pieces := by
  obtain ⟨docKey, object, table, cond⟩ := q
  cases docKey <;> simp (disch := decide) only [DocumentQuery.pieces, List.nil_append,
    List.cons_append, Sql.Spaced.fixed, Sql.Spaced.col, Sql.Spaced.row, Sql.Spaced.table,
    Sql.Spaced.append_fixed, Sql.Expr.spaced, Sql.Cond.spaced, and_self]

theorem DocumentQuery.nested (q : DocumentQuery) : Sql.Nested q.pieces := by
  intro d
  obtain ⟨docKey, object, table, cond⟩ := q
  cases docKey with
  | none => exact (Sql.depth_skeleton_append object.nested d).trans (cond.nested d)
  | some c => exact (Sql.depth_skeleton_append object.nested d).trans (cond.nested d)

section Key

variable (hcatalog : Writable pks colTypes) {index : IndexSchema} {b b' : Builder}

include hcatalog

theorem softDelete_emits {deleted : Option Cond} (hindex : index.Structured)
    (h : softDeletePredicate colTypes index b = .ok (deleted, b')) :
    Emits colTypes b.params (softDeleteParameters index)
      (deleted.toList.flatMap fun cond => cond.pieces spelling) b'.params := by
  rcases softDeletePredicate_spec h with ⟨hnone, rfl, rfl⟩ |
    ⟨column, conditions, conds, hmarker, hconds, rfl⟩
  · rw [softDeleteParameters, hnone]
    exact .none rfl (List.forall_mem_nil _)
  · obtain ⟨hcolumn, hconditions⟩ := marker_structured hindex hmarker
    have hemits := filters_emits hcatalog hconditions hconds
    have hmarked : ∀ p ∈ (Sql.Cond.paren (.marked ⟨.root, column⟩) : Cond).pieces spelling,
        p.Plain := by
      have hcol : (Sql.Col.piece spelling ⟨.root, column⟩ : Piece).Plain := plain_col hcolumn
      simp only [Sql.Cond.pieces, List.forall_mem_cons, List.forall_mem_append]
      exact ⟨trivial, ⟨trivial, hcol, trivial, hcol, trivial, hcol, trivial, List.forall_mem_nil _⟩,
        trivial, List.forall_mem_nil _⟩
    rw [softDeleteParameters, hmarker]
    refine hemits.framed ?_ ?_
    · rw [Option.toList_some, List.flatMap_singleton, slots_andAll]
      rfl
    · rw [Option.toList_some, List.flatMap_singleton]
      exact plain_andAll hmarked hemits.plain

theorem keyed_emits {key : RowKey GenericValue} {keyed : List Cond}
    (hkey : ∀ entry ∈ key, IsName entry.1.name)
    (h : (key.mapM fun (column, value) => do
      let operand ← typedPlaceholder colTypes value index.table column
      return .compare .eq ⟨.root, column⟩ (.param operand) : Build (List Cond)) b =
        .ok (keyed, b')) :
    Emits colTypes b.params (key.map fun entry => ⟨index.table, entry.1, entry.2⟩)
      (keyed.flatMap fun cond => cond.pieces spelling) b'.params := by
  rw [List.map_eq_flatMap]
  refine mapM_emits ?_ h
  rintro ⟨column, value⟩ hentry b₁ cond b₂ hcond
  obtain ⟨p, b₃, hp, hcond⟩ := build_bind.mp hcond
  obtain ⟨rfl, rfl⟩ := build_pure.mp hcond
  have hparam := param_emits hcatalog hp
  refine hparam.framed rfl ?_
  simp only [Sql.Cond.pieces, Sql.Operand.piece, List.forall_mem_cons]
  exact ⟨plain_col (hkey _ hentry), trivial, hparam.plain _ (List.mem_singleton_self _),
    List.forall_mem_nil _⟩

end Key

theorem slots_allOf (conds : List Cond) : Sql.slots ((allOf conds).pieces spelling) =
    Sql.slots (conds.flatMap fun cond => cond.pieces spelling) := by
  cases conds with
  | nil => rfl
  | cons cond conds =>
    rw [allOf, List.flatMap_cons, Sql.slots_append]
    induction conds generalizing cond with
    | nil => simp
    | cons cond' conds ih =>
      rw [List.foldl_cons, ih, Sql.slots_and, List.flatMap_cons, Sql.slots_append,
        List.append_assoc]

theorem plain_allOf {conds : List Cond}
    (h : ∀ p ∈ conds.flatMap fun cond => cond.pieces spelling, p.Plain) :
    ∀ p ∈ (allOf conds).pieces spelling, p.Plain := by
  cases conds with
  | nil => exact List.forall_mem_singleton.mpr trivial
  | cons cond conds =>
    rw [List.flatMap_cons, List.forall_mem_append] at h
    obtain ⟨hcond, hconds⟩ := h
    rw [allOf]
    induction conds generalizing cond with
    | nil => exact hcond
    | cons cond' conds ih =>
      rw [List.flatMap_cons, List.forall_mem_append] at hconds
      rw [List.foldl_cons]
      refine ih _ ?_ hconds.2
      simp only [Sql.Cond.pieces, List.forall_mem_append, List.forall_mem_cons]
      exact ⟨hcond, trivial, hconds.1⟩

section Queries

variable {index : IndexSchema} {params : List GenericValue} {q : DocumentQuery}

/-- A query of either kind: an object, the conditions that name the rows, and filters. -/
theorem DocumentQuery.readAs (named conds : List Cond) {pairs : List (String × Expr)}
    {parameters : List Parameter} (hindex : index.Structured)
    (hdocKey : ∀ c ∈ q.docKey, IsName c.column.name) (hobject : q.object = objectOf pairs)
    (htable : q.table = (index.dbSchema, index.table))
    (hcond : q.cond = andAll (allOf named) conds)
    (h : Emits colTypes [] parameters ((pairs.flatMap fun pair => pair.2.pieces spelling) ++
      (named.flatMap fun cond => cond.pieces spelling) ++
      conds.flatMap fun cond => cond.pieces spelling) params) :
    ReadAs colTypes q.text q.pieces params parameters := by
  refine (h.framed ?_ ?_).readAs q.textOf_pieces q.spaced q.nested
  · simp only [DocumentQuery.pieces, Sql.slots_append, Sql.slots_fixed, Sql.slots_table,
      Sql.slots_row, hobject, hcond, slots_objectOf, slots_andAll, slots_allOf]
    cases q.docKey <;> simp
  · obtain ⟨hfront, hconds⟩ := List.forall_mem_append.mp h.plain
    obtain ⟨hpairs, hnamed⟩ := List.forall_mem_append.mp hfront
    simp only [DocumentQuery.pieces, List.forall_mem_cons, List.forall_mem_append, hobject, htable,
      hcond]
    refine ⟨trivial, ?_, plain_objectOf hpairs, trivial, plain_table hindex.dbSchema hindex.table,
      trivial, plain_row _, trivial, plain_andAll (plain_allOf hnamed) hconds⟩
    cases hq : q.docKey with
    | none => exact List.forall_mem_nil _
    | some c =>
      simp only [List.forall_mem_cons]
      exact ⟨plain_col (hdocKey c hq), trivial, List.forall_mem_nil _⟩

variable (hcatalog : Writable pks colTypes) (hindex : index.Structured)

include hcatalog hindex

omit hindex in
theorem spared_emits {b b' : Builder} {deleted : Option Cond} (hindex : index.Structured)
    (h : softDeletePredicate colTypes index b = .ok (deleted, b')) :
    Emits colTypes b.params (softDeleteParameters index)
      ((deleted.map fun predicate => Sql.Cond.not (.paren predicate)).toList.flatMap fun cond =>
        cond.pieces spelling) b'.params := by
  have hemits := softDelete_emits hcatalog hindex h
  cases deleted with
  | none => exact hemits
  | some predicate =>
    rw [Option.toList_some, List.flatMap_singleton] at hemits
    rw [Option.map_some, Option.toList_some, List.flatMap_singleton]
    refine hemits.framed ?_ ?_
    · rw [Sql.slots_not, Sql.slots_paren]
    · simp only [Sql.Cond.pieces, List.forall_mem_cons, List.forall_mem_append]
      exact ⟨trivial, trivial, hemits.plain, trivial, List.forall_mem_nil _⟩

theorem documentQuery_readAs {key : RowKey GenericValue}
    (hkey : ∀ entry ∈ key, IsName entry.1.name)
    (h : documentQuery pks colTypes index key = .ok (q, params)) :
    ReadAs colTypes q.text q.pieces params (queryParameters index
      (key.map fun entry => ⟨index.table, entry.1, entry.2⟩)) := by
  obtain ⟨⟨built, builder⟩, hbuilt, hresult⟩ := Attempts.bind_ok.mp h
  cases hresult
  obtain ⟨pairs, b₁, hpairs, hbuilt⟩ := build_bind.mp hbuilt
  obtain ⟨keyed, b₂, hkeyed, hbuilt⟩ := build_bind.mp hbuilt
  obtain ⟨deleted, b₃, hdeleted, hbuilt⟩ := build_bind.mp hbuilt
  obtain ⟨conds, b₄, hconds, hbuilt⟩ := build_bind.mp hbuilt
  obtain ⟨rfl, rfl⟩ := build_pure.mp hbuilt
  have hemits := (((pairsOf_emits hcatalog hindex.dbSchema hindex.fields hindex.primaryKey
    hpairs).append (keyed_emits hcatalog hkey hkeyed)).append
      (spared_emits hcatalog hindex hdeleted)).append
        (filters_emits hcatalog hindex.filters hconds)
  refine DocumentQuery.readAs _ conds hindex (by rintro c ⟨⟩) rfl rfl rfl ?_
  rw [List.flatMap_append, ← List.append_assoc]
  exact hemits

theorem documentsQuery_readAs {pkColumn : ColumnName} {keys : List GenericValue}
    (hkey : IsName pkColumn.name)
    (h : documentsQuery pks colTypes index pkColumn keys = .ok (q, params)) :
    ReadAs colTypes q.text q.pieces params (queryParameters index
      (keys.map fun value => ⟨index.table, pkColumn, value⟩)) := by
  obtain ⟨⟨built, builder⟩, hbuilt, hresult⟩ := Attempts.bind_ok.mp h
  cases hresult
  obtain ⟨pairs, b₁, hpairs, hbuilt⟩ := build_bind.mp hbuilt
  obtain ⟨ps, b₂, hps, hbuilt⟩ := build_bind.mp hbuilt
  obtain ⟨deleted, b₃, hdeleted, hbuilt⟩ := build_bind.mp hbuilt
  obtain ⟨conds, b₄, hconds, hbuilt⟩ := build_bind.mp hbuilt
  obtain ⟨rfl, rfl⟩ := build_pure.mp hbuilt
  have hkeys : Emits colTypes b₁.params (keys.map fun value => ⟨index.table, pkColumn, value⟩)
      ((.within false ⟨.root, pkColumn⟩ ps : Cond).pieces spelling) b₂.params := by
    have hparams := mapM_emits (fun _ _ _ _ _ hp => param_emits hcatalog hp) hps
    rw [← List.map_eq_flatMap, ← List.map_eq_flatMap] at hparams
    exact within_emits hkey hparams
  have hemits := (((pairsOf_emits hcatalog hindex.dbSchema hindex.fields hindex.primaryKey
    hpairs).append hkeys).append (spared_emits hcatalog hindex hdeleted)).append
      (filters_emits hcatalog hindex.filters hconds)
  refine DocumentQuery.readAs (.within false ⟨.root, pkColumn⟩ ps ::
    (deleted.map fun predicate => Sql.Cond.not (.paren predicate)).toList) conds hindex ?_ rfl
    rfl ?_ ?_
  · rintro c ⟨⟩
    exact hkey
  · exact congrArg (andAll · conds) foldl_and_deleted.symm
  · rw [List.flatMap_cons, ← List.append_assoc]
    exact hemits

end Queries

end Documents

section Reverse

/-- Why a reverse query cannot be built. -/
inductive ReverseError where
  | unbindableKey
  | missingType (table : TableName) (column : ColumnName)
  deriving DecidableEq

def ReverseError.text : ReverseError → String
  | .unbindableKey => "cannot bind null, array, or map as a key"
  | .missingType table column => s!"internal: missing type for `{table.name}.{column.name}`"

/-- One column of the rows that a key matches. -/
structure ReverseStatement where
  table : TableRef
  selectColumn : ColumnName
  conditions : List (ColumnName × Sql.Param)

variable (colTypes) in
/-- The conditions of a key after those whose values are bound. -/
def reverseConditions (table : TableName) (params : List GenericValue) : RowKey GenericValue →
    Except ReverseError (List (ColumnName × Sql.Param) × List GenericValue)
  | [] => .ok ([], params)
  | (column, value) :: key =>
    if value.isBindableScalar then
      match colTypes table column with
      | some sqlType => do
        let bound := params ++ [value]
        let (conditions, params') ← reverseConditions table bound key
        pure ((column, ⟨bound.length, sqlType⟩) :: conditions, params')
      | none => .error (.missingType table column)
    else .error .unbindableKey

variable (colTypes) in
/-- The statement behind a reverse query, with its parameters. -/
def reverseStatement (db : DatabaseSchema) (table : TableName) (selectColumn : ColumnName)
    (key : RowKey GenericValue) : Except ReverseError (ReverseStatement × List GenericValue) := do
  let (conditions, params) ← reverseConditions colTypes table [] key
  pure (⟨(db, table), selectColumn, conditions⟩, params)

def ReverseStatement.text (q : ReverseStatement) : String :=
  "SELECT " ++ names.column q.selectColumn ++ " FROM " ++ names.table q.table ++ " WHERE " ++
    " AND ".intercalate
      (if q.conditions.isEmpty then ["true"]
        else q.conditions.map fun c => names.column c.1 ++ " = " ++ c.2.text)

def conditionPieces (c : ColumnName × Sql.Param) : List Piece :=
  [.name [c.1.name], .fixed " = " [.operator "="], .param c.1 c.2]

def ReverseStatement.pieces (q : ReverseStatement) : List Piece :=
  .fixed "SELECT " [.word "SELECT"] :: .name [q.selectColumn.name] ::
    .fixed " FROM " [.word "FROM"] :: spelling.tablePiece q.table ::
    .fixed " WHERE " [.word "WHERE"] ::
    Sql.joined (.fixed " AND " [.word "AND"])
      (if q.conditions.isEmpty then [[.fixed "true" [.word "true"]]]
        else q.conditions.map conditionPieces)

theorem ReverseStatement.textOf_pieces (q : ReverseStatement) : Sql.textOf q.pieces = q.text := by
  have hname (c : ColumnName) : (.name [c.name] : Piece).text = names.column c := rfl
  obtain ⟨table, selectColumn, conditions⟩ := q
  cases conditions <;> simp [ReverseStatement.pieces, ReverseStatement.text, Sql.textOf_joined,
    conditionPieces, hname, names_spells.text_table, Function.comp_def, String.append_assoc]

theorem ReverseStatement.spaced (q : ReverseStatement) : Sql.Spaced q.pieces := by
  obtain ⟨table, selectColumn, conditions⟩ := q
  have hconditions : Sql.Spaced (Sql.joined (.fixed " AND " [.word "AND"])
      (if conditions.isEmpty then [[(.fixed "true" [.word "true"] : Piece)]]
        else conditions.map conditionPieces)) := by
    apply Sql.Spaced.joined rfl rfl rfl
    rintro part hpart
    split at hpart
    · rw [List.mem_singleton] at hpart
      subst hpart
      exact .single rfl
    · obtain ⟨c, -, rfl⟩ := List.mem_map.mp hpart
      rw [conditionPieces, Sql.Spaced.cons_delimited rfl rfl,
        Sql.Spaced.fixed (by decide) (by decide)]
      exact .single rfl
  rw [ReverseStatement.pieces, Sql.Spaced.fixed (by decide) (by decide),
    Sql.Spaced.cons_delimited rfl rfl, Sql.Spaced.fixed (by decide) (by decide),
    Sql.Spaced.table _ (by decide), Sql.Spaced.fixed (by decide) (by decide)]
  exact hconditions

theorem ReverseStatement.nested (q : ReverseStatement) : Sql.Nested q.pieces := by
  obtain ⟨table, selectColumn, conditions⟩ := q
  apply Sql.Nested.joined fun _ => rfl
  rintro part hpart
  split at hpart
  · rw [List.mem_singleton] at hpart
    subst hpart
    exact fun _ => rfl
  · obtain ⟨c, -, rfl⟩ := List.mem_map.mp hpart
    exact fun _ => rfl

variable (hcatalog : Writable pks colTypes) {table : TableName} {key : RowKey GenericValue}
  {params params' : List GenericValue} {conditions : List (ColumnName × Sql.Param)}

include hcatalog

theorem reverseConditions_emits (hkey : ∀ entry ∈ key, IsName entry.1.name)
    (h : reverseConditions colTypes table params key = .ok (conditions, params')) :
    Emits colTypes params (key.map fun entry => ⟨table, entry.1, entry.2⟩)
      (conditions.flatMap conditionPieces) params' := by
  induction key generalizing params conditions with
  | nil =>
    cases h
    exact .none rfl (List.forall_mem_nil _)
  | cons entry key ih =>
    obtain ⟨column, value⟩ := entry
    rw [List.forall_mem_cons] at hkey
    rw [reverseConditions] at h
    split at h
    · cases htype : colTypes table column with
      | none =>
        rw [htype] at h
        cases h
      | some sqlType =>
        rw [htype] at h
        obtain ⟨⟨rest, params₁⟩, hrest, hresult⟩ := Attempts.bind_ok.mp h
        cases hresult
        have hfirst : Emits colTypes params [⟨table, column, value⟩]
            (conditionPieces (column, ⟨(params ++ [value]).length, sqlType⟩))
            (params ++ [value]) := by
          have hslots : Sql.slots (conditionPieces
              (column, ⟨(params ++ [value]).length, sqlType⟩)) =
              [(column, ⟨(params ++ [value]).length, sqlType⟩)] := rfl
          refine ⟨List.prefix_append _ _, ?_, ?_, ?_⟩
          · rw [hslots]
            simp
          · rw [hslots]
            exact .cons ⟨rfl, htype, by simp⟩ .nil
          · simp only [conditionPieces, List.forall_mem_cons]
            exact ⟨⟨List.cons_ne_nil _ _, List.forall_mem_singleton.mpr hkey.1.enclosed⟩, trivial,
              hcatalog.types htype, List.forall_mem_nil _⟩
        exact hfirst.append (ih hkey.2 hrest)
    · cases h

theorem reverseStatement_readAs {db : DatabaseSchema} {selectColumn : ColumnName}
    {q : ReverseStatement} (hdb : IsName db.name) (htable : IsName table.name)
    (hselect : IsName selectColumn.name) (hkey : ∀ entry ∈ key, IsName entry.1.name)
    (h : reverseStatement colTypes db table selectColumn key = .ok (q, params)) :
    ReadAs colTypes q.text q.pieces params
      (key.map fun entry => ⟨table, entry.1, entry.2⟩) := by
  obtain ⟨⟨conditions, params₁⟩, hconditions, hresult⟩ := Attempts.bind_ok.mp h
  cases hresult
  have hemits := reverseConditions_emits hcatalog hkey hconditions
  refine (hemits.framed ?_ ?_).readAs (ReverseStatement.textOf_pieces _)
    (ReverseStatement.spaced _) (ReverseStatement.nested _)
  · cases conditions with
    | nil => rfl
    | cons c conditions =>
      have hjoined : Sql.slots (Sql.joined (.fixed " AND " [.word "AND"])
          ((c :: conditions).map conditionPieces)) =
          Sql.slots ((c :: conditions).flatMap conditionPieces) := by
        rw [Sql.slots_joined rfl, List.flatMap_map, Sql.slots, List.filterMap_flatMap]
        rfl
      exact hjoined
  · simp only [ReverseStatement.pieces, List.forall_mem_cons]
    refine ⟨trivial, ⟨List.cons_ne_nil _ _, List.forall_mem_singleton.mpr hselect.enclosed⟩,
      trivial, plain_table hdb htable, trivial, ?_⟩
    rintro p hp
    rcases Sql.mem_joined hp with rfl | ⟨part, hpart, hp⟩
    · trivial
    · split at hpart
      · rw [List.mem_singleton] at hpart
        subst hpart
        rw [List.mem_singleton] at hp
        subst hp
        trivial
      · obtain ⟨c, hc, rfl⟩ := List.mem_map.mp hpart
        exact hemits.plain p (List.mem_flatMap.mpr ⟨c, hc, hp⟩)

end Reverse

section Summary

/-- Every statement of an index, for a document, for many and for the parents of a row, is read
as it is put together. -/
theorem statements_readAs {index : IndexSchema} (hcatalog : Writable pks colTypes)
    (hindex : index.Structured) :
    (∀ key q params, (∀ entry ∈ key, IsName entry.1.name) →
      documentQuery pks colTypes index key = .ok (q, params) →
      ReadAs colTypes q.text q.pieces params
        (queryParameters index (key.map fun entry => ⟨index.table, entry.1, entry.2⟩))) ∧
    (∀ pkColumn keys q params, IsName pkColumn.name →
      documentsQuery pks colTypes index pkColumn keys = .ok (q, params) →
      ReadAs colTypes q.text q.pieces params
        (queryParameters index (keys.map fun value => ⟨index.table, pkColumn, value⟩))) ∧
    ∀ table selectColumn key q params, IsName table.name → IsName selectColumn.name →
      (∀ entry ∈ key, IsName entry.1.name) →
      reverseStatement colTypes index.dbSchema table selectColumn key = .ok (q, params) →
      ReadAs colTypes q.text q.pieces params (key.map fun entry => ⟨table, entry.1, entry.2⟩) := by
  refine ⟨?_, ?_, ?_⟩
  · intro key q params hkey h
    exact documentQuery_readAs hcatalog hindex hkey h
  · intro pkColumn keys q params hkey h
    exact documentsQuery_readAs hcatalog hindex hkey h
  · intro table selectColumn key q params htable hselect hkey h
    exact reverseStatement_readAs hcatalog hindex.dbSchema htable hselect hkey h

/-- An index with quotes, parentheses and a placeholder in its constants and filters. -/
def hostileUsers : IndexSchema where
  version := 1
  table := ⟨"users"⟩
  dbSchema := ⟨"public"⟩
  primaryKey := some ⟨"id"⟩
  docId := none
  softDelete := some (.column ⟨"deleted_at"⟩ none)
  filters := some [.valueOp ⟨"status"⟩ .isIn (.list ["x'); --", "$9"])]
  fields := [.constant ⟨"it's \"$1\" ("⟩ [] (.string "'; ) \\ $2 '' \""),
    .join ⟨"orders"⟩ [] ⟨⟨"orders"⟩, .hasMany ⟨"user_id"⟩, ⟨"id"⟩, false,
      some [.valueOp ⟨"state"⟩ .eq (.single "o'k")], none, some 3⟩
      [.column ⟨"total"⟩ [] ⟨⟨"total"⟩, .text, true, [.trim], some (.string "'"), []⟩]]

theorem structured_hostileUsers : hostileUsers.Structured := by
  have hname : ∀ name ∈ ["users", "public", "id", "deleted_at", "status", "orders", "user_id",
      "state", "total"], IsName name := by decide
  have hfilter : ∀ {column : ColumnName} {op : FilterOp} {value : FilterValue},
      IsName column.name → FiltersStructured (some [.valueOp column op value]) := by
    rintro column op value hcolumn f hf
    obtain rfl := List.mem_singleton.mp hf
    exact hcolumn
  refine ⟨hname _ (by decide), hname _ (by decide), ?_, ?_, hfilter (hname _ (by decide)), ?_⟩
  · rintro pk ⟨⟩
    exact hname _ (by decide)
  · rintro deleted ⟨⟩
    exact ⟨hname _ (by decide), List.forall_mem_nil _⟩
  · exact ⟨trivial, ⟨⟨hname _ (by decide), hname _ (by decide), hfilter (hname _ (by decide)),
      List.forall_mem_nil _⟩, hname _ (by decide), trivial⟩, trivial⟩

theorem statements_readAs_hostileUsers : ∃ q params,
    documentQuery (fun _ => some ⟨"id"⟩) (fun _ _ => some "character varying(20)") hostileUsers
      [(⟨"id"⟩, .int 7)] = .ok (q, params) ∧
    ReadAs (fun _ _ => some "character varying(20)") q.text q.pieces params
      (queryParameters hostileUsers [⟨⟨"users"⟩, ⟨"id"⟩, .int 7⟩]) := by
  have hcatalog : Writable (fun _ => some ⟨"id"⟩) (fun _ _ => some "character varying(20)") := by
    constructor
    · rintro _ _ ⟨⟩
      decide
    · rintro _ _ _ ⟨⟩
      decide
  refine ⟨_, _, rfl, (statements_readAs hcatalog structured_hostileUsers).1 [(⟨"id"⟩, .int 7)]
    _ _ ?_ rfl⟩
  rintro entry hentry
  obtain rfl := List.mem_singleton.mp hentry
  decide

end Summary

end Flusso.Document
