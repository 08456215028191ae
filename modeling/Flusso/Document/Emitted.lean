import Flusso.Document.Parameters

/-! # What the builder writes

Each expression of the builder binds the parameters its part of the schema means to
have bound, in the order of its text, and is made of plain pieces.
-/

namespace Flusso.Document

section Conditions

variable {a : Alias} {c : Col} {table : TableName} {column : ColumnName}

theorem plain_col (hc : IsName c.column.name) : (c.piece spelling).Plain := by
  refine ⟨List.cons_ne_nil _ _, ?_⟩
  rintro identifier hidentifier
  rcases List.mem_pair.mp hidentifier with rfl | rfl
  · exact c.row.enclosed
  · exact hc.enclosed

theorem plain_row (a : Alias) : (spelling.rowPiece a : Piece).Plain :=
  ⟨List.cons_ne_nil _ _, List.forall_mem_singleton.mpr a.enclosed⟩

theorem plain_table {t : TableRef} (hschema : IsName t.1.name) (htable : IsName t.2.name) :
    (spelling.tablePiece t : Piece).Plain := by
  refine ⟨List.cons_ne_nil _ _, ?_⟩
  rintro identifier hidentifier
  rcases List.mem_pair.mp hidentifier with rfl | rfl
  · exact hschema.enclosed
  · exact htable.enclosed

theorem plain_fixed (text : String) (tokens : List Sql.Token) :
    (.fixed text tokens : Piece).Plain :=
  trivial

theorem plain_joined_comma {parts : List (List Piece)} (h : ∀ part ∈ parts, ∀ p ∈ part, p.Plain) :
    ∀ p ∈ Sql.joined Sql.comma parts, p.Plain := by
  rintro p hp
  rcases Sql.mem_joined hp with rfl | ⟨part, hpart, hp⟩
  · trivial
  · exact h part hpart p hp

theorem plain_equal {b : Alias} {column' : ColumnName} (h : IsName column.name)
    (h' : IsName column'.name) : ∀ p ∈ (equal a column b column').pieces spelling, p.Plain := by
  simp only [equal, Sql.Cond.pieces, Sql.Operand.piece, List.forall_mem_cons]
  exact ⟨plain_col h, trivial, plain_col h', List.forall_mem_nil _⟩

theorem slots_andAll (base : Cond) (conds : List Cond) :
    Sql.slots ((andAll base conds).pieces spelling) =
      Sql.slots (base.pieces spelling) ++
        Sql.slots (conds.flatMap fun cond => cond.pieces spelling) := by
  unfold andAll
  induction conds generalizing base with
  | nil => simp
  | cons cond conds ih =>
    rw [List.foldl_cons, ih]
    simp [Sql.slots_append]

theorem plain_andAll {base : Cond} {conds : List Cond}
    (hbase : ∀ p ∈ base.pieces spelling, p.Plain)
    (hconds : ∀ p ∈ conds.flatMap fun cond => cond.pieces spelling, p.Plain) :
    ∀ p ∈ (andAll base conds).pieces spelling, p.Plain := by
  unfold andAll
  induction conds generalizing base with
  | nil => exact hbase
  | cons cond conds ih =>
    rw [List.flatMap_cons, List.forall_mem_append] at hconds
    rw [List.foldl_cons]
    refine ih ?_ hconds.2
    simp only [Sql.Cond.pieces, List.forall_mem_append, List.forall_mem_cons]
    exact ⟨hbase, trivial, trivial, hconds.1, trivial, List.forall_mem_nil _⟩

/-- What is taken from the catalog can be written down: keys are names, and the type names hold
no parenthesis without its counterpart. -/
structure Writable (pks : TableName → Option ColumnName)
    (colTypes : TableName → ColumnName → Option String) : Prop where
  keys : ∀ {table pk}, pks table = some pk → IsName pk.name
  types : ∀ {table column sqlType}, colTypes table column = some sqlType →
    Sql.Balanced (Sql.lex sqlType.toList) ∧ Sql.placeholders (Sql.lex sqlType.toList) = []

variable {pks : TableName → Option ColumnName}
  {colTypes : TableName → ColumnName → Option String} (hcatalog : Writable pks colTypes)
  {b b' : Builder} {cond : Cond}

include hcatalog

theorem param_emits {value : GenericValue} {p : Sql.Param}
    (h : typedPlaceholder colTypes value table column b = .ok (p, b')) :
    Emits colTypes b.params [⟨table, column, value⟩] [.param column p] b'.params := by
  obtain ⟨hindex, htype, rfl, -⟩ := typedPlaceholder_spec h
  refine ⟨List.prefix_append _ _, ?_, ?_, ?_⟩
  · simp [hindex, Sql.slots_param]
  · exact .cons ⟨rfl, htype, by simp [hindex]⟩ .nil
  · exact List.forall_mem_singleton.mpr (hcatalog.types htype)

theorem params_emits {texts : List String} {ps : List Sql.Param}
    (h : texts.mapM (fun v => typedParam colTypes v table column) b = .ok (ps, b')) :
    Emits colTypes b.params (texts.map fun v => ⟨table, column, .string v⟩)
      (ps.map (Sql.Piece.param column)) b'.params := by
  have hone : ∀ v ∈ texts, ∀ {b p b'}, typedParam colTypes v table column b = .ok (p, b') →
      Emits colTypes b.params [⟨table, column, .string v⟩] [.param column p] b'.params :=
    fun _ _ _ _ _ h => param_emits hcatalog h
  have hparams := mapM_emits hone h
  rwa [← List.map_eq_flatMap, ← List.map_eq_flatMap] at hparams

omit hcatalog in
theorem within_emits {negated : Bool} {params params' : List GenericValue} {ps : List Sql.Param}
    {parameters : List Parameter} (hcolumn : IsName column.name)
    (h : Emits colTypes params parameters (ps.map (Sql.Piece.param column)) params') :
    Emits colTypes params parameters ((.within negated ⟨a, column⟩ ps : Cond).pieces spelling)
      params' := by
  have hplain : ∀ part ∈ ps.map fun p => [Sql.Piece.param column p], ∀ p ∈ part, p.Plain := by
    rintro part hpart
    obtain ⟨p, hp, rfl⟩ := List.mem_map.mp hpart
    exact List.forall_mem_singleton.mpr (h.plain _ (List.mem_map_of_mem hp))
  refine h.framed ?_ ?_
  · have hslot : Sql.Piece.slot? ∘ Sql.Piece.param column = some ∘ fun p => (column, p) := rfl
    rw [Sql.slots_within, Sql.slots, List.filterMap_map, hslot, List.filterMap_eq_map]
  · simp only [Sql.Cond.pieces, List.forall_mem_cons, List.forall_mem_append]
    refine ⟨plain_col hcolumn, ?_, plain_joined_comma hplain, trivial, List.forall_mem_nil _⟩
    cases negated <;> trivial

theorem valueOp_emits {op : FilterOp} {value : FilterValue} (hcolumn : IsName column.name)
    (h : valueOp colTypes column op value a table b = .ok (cond, b')) :
    Emits colTypes b.params (filterParameters table (.valueOp column op value))
      (cond.pieces spelling) b'.params := by
  cases value with
  | single v =>
    rw [valueOp_single] at h
    split at h
    · obtain ⟨p, b₁, hp, h⟩ := build_bind.mp h
      obtain ⟨rfl, rfl⟩ := build_pure.mp h
      have hparam := param_emits hcatalog hp
      refine hparam.framed rfl ?_
      simp only [Sql.Cond.pieces, Sql.Operand.piece, List.forall_mem_cons]
      exact ⟨plain_col hcolumn, trivial, hparam.plain _ (List.mem_singleton_self _),
        List.forall_mem_nil _⟩
    · cases h
  | list vs =>
    have hwithin : ∀ {negated : Bool} {ps : List Sql.Param} {b'},
        vs.mapM (fun v => typedParam colTypes v table column) b = .ok (ps, b') →
        Emits colTypes b.params (filterParameters table (.valueOp column op (.list vs)))
          ((.within negated ⟨a, column⟩ ps : Cond).pieces spelling) b'.params := by
      intro negated ps b' hps
      rw [filterParameters, operandsOf, List.map_map]
      exact within_emits hcolumn (params_emits hcatalog hps)
    rw [valueOp_list] at h
    split at h
    · obtain ⟨ps, b₁, hps, h⟩ := build_bind.mp h
      obtain ⟨rfl, rfl⟩ := build_pure.mp h
      exact hwithin hps
    · split at h
      · obtain ⟨ps, b₁, hps, h⟩ := build_bind.mp h
        obtain ⟨rfl, rfl⟩ := build_pure.mp h
        exact hwithin hps
      · cases h
  | range lower upper =>
    rw [valueOp_range] at h
    split at h
    · obtain ⟨p, b₁, hp, h⟩ := build_bind.mp h
      obtain ⟨p', b₂, hp', h⟩ := build_bind.mp h
      obtain ⟨rfl, rfl⟩ := build_pure.mp h
      have hparams := (param_emits hcatalog hp).append (param_emits hcatalog hp')
      refine hparams.framed rfl ?_
      obtain ⟨hlower, hupper, -⟩ := by
        simpa only [List.singleton_append, List.forall_mem_cons] using hparams.plain
      simp only [Sql.Cond.pieces, List.forall_mem_cons]
      exact ⟨plain_col hcolumn, trivial, hlower, trivial, hupper, List.forall_mem_nil _⟩
    · cases h

theorem filter_emits {f : Filter} (hf : f.Structured)
    (h : filter colTypes f a table b = .ok (cond, b')) :
    Emits colTypes b.params (filterParameters table f) (cond.pieces spelling) b'.params := by
  cases f with
  | raw sql => exact hf.elim
  | nullCheck column op =>
    obtain ⟨rfl, rfl⟩ := build_pure.mp h
    refine .none ?_ ?_
    · cases op <;> rfl
    · simp only [Sql.Cond.pieces, List.forall_mem_cons]
      refine ⟨plain_col hf, ?_, List.forall_mem_nil _⟩
      cases op <;> trivial
  | valueOp column op value => exact valueOp_emits hcatalog hf h

theorem filters_emits {fs : Option (List Filter)} {conds : List Cond}
    (hfs : FiltersStructured fs) (h : filters colTypes fs a table b = .ok (conds, b')) :
    Emits colTypes b.params (filtersParameters table fs)
      (conds.flatMap fun cond => cond.pieces spelling) b'.params :=
  mapM_emits (fun f hf _ _ _ hfilter => filter_emits hcatalog (hfs f hf) hfilter) h

end Conditions

section Shapes

variable {schema : DatabaseSchema} {pks : TableName → Option ColumnName}
  {colTypes : TableName → ColumnName → Option String} {b b' : Builder} {parent : Alias}
  {pk : Option ColumnName} {e : Expr} {pairs : List (String × Expr)}

theorem slots_pairPieces (pairs : List (String × Expr)) :
    (Sql.pairPieces spelling pairs).flatMap Sql.slots =
      Sql.slots (pairs.flatMap fun pair => pair.2.pieces spelling) := by
  induction pairs with
  | nil => rfl
  | cons pair pairs ih =>
    rw [Sql.pairPieces, List.flatMap_cons, List.flatMap_cons, Sql.slots_append, ih]
    rfl

theorem slots_objectOf (pairs : List (String × Expr)) :
    Sql.slots ((objectOf pairs).pieces spelling) =
      Sql.slots (pairs.flatMap fun pair => pair.2.pieces spelling) := by
  rw [← slots_pairPieces, objectOf]
  split
  · rw [Sql.Expr.pieces, Sql.slots_objectCall]
  · rw [Sql.Expr.pieces, Sql.slots_fixed, Sql.slots_append, Sql.slots_joined rfl,
      List.flatMap_map, Sql.slots_close, Sql.slots_nil, List.append_nil]
    conv_rhs => rw [← Sql.flatten_toChunks maxPairsPerObject (Sql.pairPieces spelling pairs),
      List.flatten_eq_flatMap, List.flatMap_assoc]
    exact congrArg (List.flatMap · _) (funext (Sql.slots_objectCall _))

theorem plain_pairPieces {pairs : List (String × Expr)}
    (h : ∀ p ∈ pairs.flatMap fun pair => pair.2.pieces spelling, p.Plain) :
    ∀ part ∈ Sql.pairPieces spelling pairs, ∀ p ∈ part, p.Plain := by
  induction pairs with
  | nil => exact List.forall_mem_nil _
  | cons pair pairs ih =>
    rw [List.flatMap_cons, List.forall_mem_append] at h
    rw [Sql.pairPieces, List.forall_mem_cons]
    refine ⟨?_, ih h.2⟩
    rw [List.forall_mem_cons, List.forall_mem_cons]
    exact ⟨trivial, trivial, h.1⟩

theorem plain_objectCall {function : String} {parts : List (List Piece)}
    (h : ∀ part ∈ parts, ∀ p ∈ part, p.Plain) :
    ∀ p ∈ Sql.objectCall function parts, p.Plain := by
  simp only [Sql.objectCall, List.forall_mem_cons, List.forall_mem_append]
  exact ⟨trivial, plain_joined_comma h, trivial, List.forall_mem_nil _⟩

theorem plain_objectOf {pairs : List (String × Expr)}
    (h : ∀ p ∈ pairs.flatMap fun pair => pair.2.pieces spelling, p.Plain) :
    ∀ p ∈ (objectOf pairs).pieces spelling, p.Plain := by
  have hparts := plain_pairPieces h
  unfold objectOf
  split
  · exact plain_objectCall hparts
  · simp only [Sql.Expr.pieces, List.forall_mem_cons, List.forall_mem_append]
    refine ⟨trivial, ?_, trivial, List.forall_mem_nil _⟩
    rintro p hp
    rcases Sql.mem_joined hp with rfl | ⟨part, hpart, hp⟩
    · trivial
    · obtain ⟨chunk, hchunk, rfl⟩ := List.mem_map.mp hpart
      refine plain_objectCall (fun part hpart => hparts part ?_) p hp
      rw [← Sql.flatten_toChunks maxPairsPerObject (Sql.pairPieces spelling pairs)]
      exact List.mem_flatten_of_mem hchunk hpart

theorem plain_scalar {s : Sql.Scalar Alias ColumnName} (hs : ∀ p ∈ s.pieces spelling, p.Plain)
    (t : Transform) : ∀ p ∈ (transform s t).pieces spelling, p.Plain := by
  cases t <;> simp only [transform, Sql.Scalar.pieces, List.forall_mem_cons,
    List.forall_mem_append] <;> exact ⟨trivial, hs, trivial, List.forall_mem_nil _⟩

theorem plain_columnValue {column : ColumnName} (hcolumn : IsName column.name)
    (transforms : List Transform) (default : Option GenericValue) (a : Alias) :
    ∀ p ∈ (columnValue column transforms default a).pieces spelling, p.Plain := by
  have hscalar : ∀ p ∈ (transforms.foldl transform (.column ⟨a, column⟩)).pieces spelling,
      p.Plain := by
    have hbase : ∀ p ∈ (Sql.Scalar.column ⟨a, column⟩ : Sql.Scalar Alias ColumnName).pieces
        spelling, p.Plain := List.forall_mem_singleton.mpr (plain_col hcolumn)
    generalize (Sql.Scalar.column ⟨a, column⟩ : Sql.Scalar Alias ColumnName) = s at hbase
    induction transforms generalizing s with
    | nil => exact hbase
    | cons t transforms ih => exact ih _ (plain_scalar hbase t)
  unfold columnValue
  split
  · simp only [Sql.Expr.pieces, Sql.Scalar.pieces, List.forall_mem_cons, List.forall_mem_append]
    exact ⟨trivial, hscalar, trivial, trivial, trivial, List.forall_mem_nil _⟩
  · exact hscalar

theorem isName_orderClause {orderBy : Option (List OrderBy)}
    (h : ∀ o ∈ orderBy.getD [], IsName o.column.name) (a : Alias) :
    ∀ o ∈ orderClause orderBy a, IsName o.column.column.name := by
  rintro o ho
  obtain ⟨o', ho', rfl⟩ := List.mem_map.mp ho
  exact h o' ho'

theorem plain_orderPieces {order : List (Sql.Order Alias ColumnName)}
    (horder : ∀ o ∈ order, IsName o.column.column.name) {rest : List Piece}
    (hrest : ∀ p ∈ rest, p.Plain) : ∀ p ∈ Sql.orderPieces spelling order rest, p.Plain := by
  unfold Sql.orderPieces
  split
  · exact hrest
  · rw [List.forall_mem_cons, List.forall_mem_append]
    refine ⟨trivial, plain_joined_comma ?_, hrest⟩
    rintro part hpart
    obtain ⟨o, ho, rfl⟩ := List.mem_map.mp hpart
    simp only [Sql.Order.pieces, List.forall_mem_cons]
    refine ⟨plain_col (horder o ho), ?_, List.forall_mem_nil _⟩
    split <;> trivial

theorem plain_fold {op : AggregateOp} (hop : op.Structured) (a : Alias) :
    ∀ p ∈ (aggFunction op a).pieces spelling, p.Plain := by
  cases op <;> simp only [aggFunction, Sql.Fold.pieces, List.forall_mem_cons]
  case count | ids => exact ⟨trivial, List.forall_mem_nil _⟩
  case sum | avg | min | max => exact ⟨trivial, plain_col hop, trivial, List.forall_mem_nil _⟩

theorem plain_idsAgg {column : ColumnName} (hcolumn : IsName column.name) (a : Alias) :
    ∀ p ∈ (idsAgg a column).pieces spelling, p.Plain := by
  simp only [idsAgg, Sql.Fold.pieces, List.forall_mem_cons]
  exact ⟨trivial, plain_col hcolumn, trivial, List.forall_mem_nil _⟩

section Subqueries

variable {source : Sql.From Alias ColumnName TableRef} {cond : Cond}
  {order : List (Sql.Order Alias ColumnName)}

theorem plain_tableSource {table : TableName} (hschema : IsName schema.name)
    (htable : IsName table.name) (a : Alias) :
    ∀ p ∈ (Sql.From.table (schema, table) a).pieces spelling, p.Plain := by
  simp only [Sql.From.pieces, List.forall_mem_cons]
  exact ⟨plain_table hschema htable, trivial, plain_row a, List.forall_mem_nil _⟩

theorem plain_throughSource {table : TableName} {farPk : ColumnName} {through : Through}
    (hschema : IsName schema.name) (htable : IsName table.name) (hfar : IsName farPk.name)
    (hthrough : through.Structured) (a junction : Alias) :
    ∀ p ∈ (Sql.From.joined (schema, table) a (schema, through.table) junction
      ⟨junction, through.rightKey⟩ ⟨a, farPk⟩).pieces spelling, p.Plain := by
  simp only [Sql.From.pieces, List.forall_mem_cons]
  exact ⟨plain_table hschema htable, trivial, plain_row a, trivial,
    plain_table hschema hthrough.table, trivial, plain_row junction, trivial,
    plain_col hthrough.rightKey, trivial, plain_col hfar, List.forall_mem_nil _⟩

theorem plain_exprFold {fold : Sql.Fold Alias ColumnName}
    (hfold : ∀ p ∈ fold.pieces spelling, p.Plain) (hsource : ∀ p ∈ source.pieces spelling, p.Plain)
    (hcond : ∀ p ∈ cond.pieces spelling, p.Plain) :
    ∀ p ∈ (Sql.Expr.fold fold source cond).pieces spelling, p.Plain := by
  simp only [Sql.Expr.pieces, List.forall_mem_cons, List.forall_mem_append]
  exact ⟨trivial, hfold, trivial, hsource, trivial, hcond, trivial, List.forall_mem_nil _⟩

theorem plain_exprFirst (hsource : ∀ p ∈ source.pieces spelling, p.Plain)
    (he : ∀ p ∈ e.pieces spelling, p.Plain) (hcond : ∀ p ∈ cond.pieces spelling, p.Plain)
    (horder : ∀ o ∈ order, IsName o.column.column.name) :
    ∀ p ∈ (Sql.Expr.first e source cond order).pieces spelling, p.Plain := by
  have hend := plain_orderPieces horder
    (List.forall_mem_singleton.mpr (plain_fixed " LIMIT 1)" [.word "LIMIT", .number "1",
      .symbol ')']))
  simp only [Sql.Expr.pieces, List.forall_mem_cons, List.forall_mem_append]
  exact ⟨trivial, he, trivial, hsource, trivial, hcond, hend⟩

theorem plain_exprArray {rows : Sql.Select Alias ColumnName TableRef}
    (hsource : ∀ p ∈ rows.source.pieces spelling, p.Plain)
    (he : ∀ p ∈ e.pieces spelling, p.Plain) (hcond : ∀ p ∈ rows.cond.pieces spelling, p.Plain)
    (hrowsOrder : ∀ o ∈ rows.order, IsName o.column.column.name)
    (horder : ∀ o ∈ order, IsName o.column.column.name) (derived : Alias) :
    ∀ p ∈ (Sql.Expr.array e rows derived order).pieces spelling, p.Plain := by
  have hlimit : ∀ p ∈ (Sql.limitPieces rows.limit : List Piece), p.Plain := by
    cases rows.limit with
    | none => exact List.forall_mem_nil _
    | some n =>
      simp only [Sql.limitPieces, List.forall_mem_cons]
      exact ⟨trivial, trivial, List.forall_mem_nil _⟩
  have hrows : ∀ p ∈ rows.pieces spelling, p.Plain := by
    simp only [Sql.Select.pieces, List.forall_mem_cons, List.forall_mem_append]
    exact ⟨trivial, rows.row.enclosed, trivial, hsource, trivial, hcond,
      plain_orderPieces hrowsOrder hlimit⟩
  simp only [Sql.Expr.pieces, List.forall_mem_cons, List.forall_mem_append]
  refine ⟨trivial, he, plain_orderPieces horder ?_⟩
  simp only [List.forall_mem_cons, List.forall_mem_append]
  exact ⟨trivial, hrows, trivial, plain_row derived, trivial, List.forall_mem_nil _⟩

end Subqueries

section Relations

variable (hcatalog : Writable pks colTypes) (hschema : IsName schema.name)

include hcatalog hschema

theorem directAggregate_emits {aggregate : Aggregate} {foreignKey : ColumnName}
    (hkey : aggregate.key = .direct foreignKey) (haggregate : aggregate.Structured)
    (hpk : ∀ c ∈ pk, IsName c.name)
    (h : aggregateValue schema pks colTypes aggregate parent pk b = .ok (e, b')) :
    Emits colTypes b.params (aggregateParameters aggregate) (e.pieces spelling) b'.params := by
  obtain ⟨parentPk, fold, conds, rfl, hids, hfold, hconds, rfl⟩ := directAggregate_spec hkey h
  have hforeign : IsName foreignKey.name := by
    have hkey' := haggregate.key
    rwa [hkey] at hkey'
  have hemits := filters_emits hcatalog haggregate.filters hconds
  have hplainFold : ∀ p ∈ fold.pieces spelling, p.Plain := by
    by_cases hop : ∃ elementType, aggregate.op = .ids elementType
    · obtain ⟨elementType, hop⟩ := hop
      obtain ⟨tablePk, htablePk, rfl⟩ := hids elementType hop
      exact plain_idsAgg (hcatalog.keys htablePk) _
    · rw [hfold fun elementType hop' => hop ⟨elementType, hop'⟩]
      exact plain_fold haggregate.op _
  have hwanted : aggregateParameters aggregate =
      filtersParameters aggregate.table aggregate.filters := by
    simp only [aggregateParameters, hkey]
  rw [hwanted]
  refine hemits.framed ?_ ?_
  · rw [Sql.slots_exprFold, slots_andAll]
    rfl
  · exact plain_exprFold hplainFold (plain_tableSource hschema haggregate.table _)
      (plain_andAll (plain_equal hforeign (hpk parentPk rfl)) hemits.plain)

theorem throughAggregate_emits {aggregate : Aggregate} {through : Through}
    (hkey : aggregate.key = .through through) (haggregate : aggregate.Structured)
    (hpk : ∀ c ∈ pk, IsName c.name)
    (h : aggregateValue schema pks colTypes aggregate parent pk b = .ok (e, b')) :
    Emits colTypes b.params (aggregateParameters aggregate) (e.pieces spelling) b'.params := by
  obtain ⟨parentPk, farPk, fold, junctionConds, conds, b₁, rfl, hfar, hfold, hjunction, hconds,
    rfl⟩ := throughAggregate_spec hkey h
  have hthrough : through.Structured := by
    have hkey' := haggregate.key
    rwa [hkey] at hkey'
  have hfar' := hcatalog.keys hfar
  have hown := filters_emits hcatalog haggregate.filters hconds
  have hlink := filters_emits hcatalog hthrough.filters hjunction
  have hplainFold : ∀ p ∈ fold.pieces spelling, p.Plain := by
    have hop := haggregate.op
    rw [hfold]
    split
    · exact plain_idsAgg hfar' _
    · exact plain_fold hop _
  have hequal : ∀ p ∈ (equal b.next.fresh through.leftKey parent parentPk).pieces spelling,
      p.Plain := plain_equal hthrough.leftKey (hpk parentPk rfl)
  simp only [aggregateParameters, hkey]
  split
  · refine (hlink.append hown).framed ?_ ?_
    · rw [Sql.slots_exprFold, slots_andAll, Sql.slots_inSelect, slots_andAll, Sql.slots_append]
      rfl
    · refine plain_exprFold hplainFold (plain_tableSource hschema haggregate.table _)
        (plain_andAll ?_ hown.plain)
      simp only [Sql.Cond.pieces, List.forall_mem_cons, List.forall_mem_append]
      exact ⟨plain_col hfar', trivial, plain_col hthrough.rightKey, trivial,
        plain_table hschema hthrough.table, trivial, plain_row _, trivial,
        plain_andAll hequal hlink.plain, trivial, List.forall_mem_nil _⟩
  · -- The junction's conditions are bound first and written last.
    refine (hlink.swap hown).framed ?_ ?_
    · rw [Sql.slots_exprFold, slots_andAll, List.flatMap_append]
      rfl
    · refine plain_exprFold hplainFold
        (plain_throughSource hschema haggregate.table hfar' hthrough _ _)
        (plain_andAll hequal ?_)
      rw [List.flatMap_append, List.forall_mem_append]
      exact ⟨hown.plain, hlink.plain⟩

theorem aggregate_emits {aggregate : Aggregate} (haggregate : aggregate.Structured)
    (hpk : ∀ c ∈ pk, IsName c.name)
    (h : aggregateValue schema pks colTypes aggregate parent pk b = .ok (e, b')) :
    Emits colTypes b.params (aggregateParameters aggregate) (e.pieces spelling) b'.params := by
  cases hkey : aggregate.key with
  | direct foreignKey => exact directAggregate_emits hcatalog hschema hkey haggregate hpk h
  | through through => exact throughAggregate_emits hcatalog hschema hkey haggregate hpk h

section Joins

variable {name : FieldName} {options : Options} {join : Join} {fields : List Field}
  (hjoin : join.Structured)
  (hfields : ∀ {parent pk b b' pairs}, (∀ c ∈ pk, IsName c.name) →
    pairsOf schema pks colTypes fields parent pk b = .ok (pairs, b') →
    Emits colTypes b.params (fieldsParameters fields)
      (pairs.flatMap fun pair => pair.2.pieces spelling) b'.params)

include hjoin hfields

omit hschema in
theorem related_emits {childPk : ColumnName} {a a' : Alias} {b₁ b₂ : Builder} {conds : List Cond}
    (hchild : pks join.table = some childPk)
    (hpairs : pairsOf schema pks colTypes fields a (some childPk) b = .ok (pairs, b₁))
    (hconds : filters colTypes join.filters a' join.table b₂ = .ok (conds, b'))
    (hparams : b₂.params = b₁.params) :
    Emits colTypes b.params (fieldsParameters fields ++
        filtersParameters join.table join.filters)
      ((pairs.flatMap fun pair => pair.2.pieces spelling) ++
        conds.flatMap fun cond => cond.pieces spelling) b'.params := by
  have hobject := hfields (by rintro c ⟨⟩; exact hcatalog.keys hchild) hpairs
  have hown := filters_emits hcatalog hjoin.filters hconds
  rw [hparams] at hown
  exact hobject.append hown

theorem join_emits (hpk : ∀ c ∈ pk, IsName c.name)
    (h : fieldValue schema pks colTypes (.join name options join fields) parent pk b =
      .ok (e, b')) :
    Emits colTypes b.params (fieldsParameters fields ++ joinParameters join)
      (e.pieces spelling) b'.params := by
  have hkind := hjoin.kind
  cases hjoinKind : join.kind with
  | belongsTo column =>
    rw [hjoinKind] at hkind
    obtain ⟨targetPk, pairs, conds, b₁, htarget, hpairs, hconds, rfl⟩ := belongsTo_spec hjoinKind h
    have hemits := related_emits hcatalog hjoin hfields htarget hpairs hconds rfl
    obtain ⟨hpairs', hconds'⟩ := List.forall_mem_append.mp hemits.plain
    simp only [joinParameters, hjoinKind, List.append_nil]
    refine hemits.framed ?_ ?_
    · rw [Sql.slots_exprFirst, slots_objectOf, slots_andAll, Sql.slots_append]
      rfl
    · exact plain_exprFirst (plain_tableSource hschema hjoin.table _) (plain_objectOf hpairs')
        (plain_andAll (plain_equal (hcatalog.keys htarget) hkind) hconds') (List.forall_mem_nil _)
  | hasOne foreignKey =>
    rw [hjoinKind] at hkind
    obtain ⟨parentPk, childPk, pairs, conds, b₁, rfl, hchild, hpairs, hconds, rfl⟩ :=
      hasOne_spec hjoinKind h
    have hemits := related_emits hcatalog hjoin hfields hchild hpairs hconds rfl
    obtain ⟨hpairs', hconds'⟩ := List.forall_mem_append.mp hemits.plain
    simp only [joinParameters, hjoinKind, List.append_nil]
    refine hemits.framed ?_ ?_
    · rw [Sql.slots_exprFirst, slots_objectOf, slots_andAll, Sql.slots_append]
      rfl
    · exact plain_exprFirst (plain_tableSource hschema hjoin.table _) (plain_objectOf hpairs')
        (plain_andAll (plain_equal hkind (hpk parentPk rfl)) hconds')
        (isName_orderClause hjoin.orderBy _)
  | hasMany foreignKey =>
    rw [hjoinKind] at hkind
    obtain ⟨parentPk, childPk, pairs, conds, b₁, rfl, hchild, hpairs, hconds, rfl⟩ :=
      hasMany_spec hjoinKind h
    have hemits := related_emits hcatalog hjoin hfields hchild hpairs hconds rfl
    obtain ⟨hpairs', hconds'⟩ := List.forall_mem_append.mp hemits.plain
    simp only [joinParameters, hjoinKind, List.append_nil]
    refine hemits.framed ?_ ?_
    · rw [Sql.slots_exprArray, slots_objectOf, slots_andAll, Sql.slots_append]
      rfl
    · exact plain_exprArray (plain_tableSource hschema hjoin.table _) (plain_objectOf hpairs')
        (plain_andAll (plain_equal hkind (hpk parentPk rfl)) hconds')
        (isName_orderClause hjoin.orderBy _) (isName_orderClause hjoin.orderBy _) _
  | manyToMany through =>
    rw [hjoinKind] at hkind
    obtain ⟨parentPk, farPk, pairs, conds, junctionConds, b₁, b₂, rfl, hfar, hpairs, hconds,
      hjunction, rfl⟩ := manyToMany_spec hjoinKind h
    have hemits := (related_emits hcatalog hjoin hfields hfar hpairs hconds rfl).append
      (filters_emits hcatalog hkind.filters hjunction)
    obtain ⟨hrelated, hjunction'⟩ := List.forall_mem_append.mp hemits.plain
    obtain ⟨hpairs', hconds'⟩ := List.forall_mem_append.mp hrelated
    simp only [joinParameters, hjoinKind]
    rw [← List.append_assoc]
    refine hemits.framed ?_ ?_
    · rw [Sql.slots_exprArray, slots_objectOf, slots_andAll, Sql.slots_append, Sql.slots_append,
        List.append_assoc, List.flatMap_append, Sql.slots_append]
      rfl
    · refine plain_exprArray
        (plain_throughSource hschema hjoin.table (hcatalog.keys hfar) hkind _ _)
        (plain_objectOf hpairs') (plain_andAll (plain_equal hkind.leftKey (hpk parentPk rfl)) ?_)
        (isName_orderClause hjoin.orderBy _) (isName_orderClause hjoin.orderBy _) _
      rw [List.flatMap_append, List.forall_mem_append]
      exact ⟨hconds', hjunction'⟩

end Joins

omit hschema hcatalog in
theorem pairsOf_emits_of {fields : List Field} (hfields : FieldsStructured fields)
    (hpk : ∀ c ∈ pk, IsName c.name)
    (hvalue : ∀ g ∈ fields, ∀ {parent pk b e b'}, g.Structured → (∀ c ∈ pk, IsName c.name) →
      fieldValue schema pks colTypes g parent pk b = .ok (e, b') →
      Emits colTypes b.params (fieldParameters g) (e.pieces spelling) b'.params)
    (h : pairsOf schema pks colTypes fields parent pk b = .ok (pairs, b')) :
    Emits colTypes b.params (fieldsParameters fields)
      (pairs.flatMap fun pair => pair.2.pieces spelling) b'.params := by
  induction fields generalizing b pairs with
  | nil =>
    obtain ⟨rfl, rfl⟩ := build_pure.mp h
    exact .none rfl (List.forall_mem_nil _)
  | cons g fields ih =>
    obtain ⟨e, b₁, he, h⟩ := build_bind.mp h
    obtain ⟨rest, b₂, hrest, h⟩ := build_bind.mp h
    obtain ⟨rfl, rfl⟩ := build_pure.mp h
    exact (hvalue g List.mem_cons_self hfields.1 hpk he).append
      (ih hfields.2 (fun g' hg' => hvalue g' (List.mem_cons_of_mem _ hg')) hrest)

theorem fieldValue_emits (field : Field) : ∀ {parent : Alias} {pk : Option ColumnName}
    {b : Builder} {e : Expr} {b' : Builder}, field.Structured → (∀ c ∈ pk, IsName c.name) →
    fieldValue schema pks colTypes field parent pk b = .ok (e, b') →
    Emits colTypes b.params (fieldParameters field) (e.pieces spelling) b'.params := by
  induction field using Field.induct with
  | node field ih =>
    intro parent pk b e b' hfield hpk h
    cases field with
    | column name options source =>
      obtain ⟨rfl, rfl⟩ := build_pure.mp h
      refine .none ?_ (plain_columnValue hfield _ _ _)
      unfold columnValue
      split <;> exact Sql.slots_scalar _
    | geo name options source =>
      obtain ⟨rfl, rfl⟩ := build_pure.mp h
      refine .none rfl ?_
      have hlat : (Sql.Col.piece spelling ⟨parent, source.lat⟩ : Piece).Plain := plain_col hfield.1
      have hlon : (Sql.Col.piece spelling ⟨parent, source.lon⟩ : Piece).Plain := plain_col hfield.2
      have hpoint : ∀ part ∈ Sql.pairPieces spelling
          ([("lat", .scalar (.column ⟨parent, source.lat⟩)),
            ("lon", .scalar (.column ⟨parent, source.lon⟩))] : List (String × Expr)),
          ∀ p ∈ part, p.Plain := by
        refine plain_pairPieces ?_
        simp only [List.flatMap_cons, List.flatMap_nil, Sql.Expr.pieces, Sql.Scalar.pieces,
          List.forall_mem_append, List.forall_mem_cons]
        exact ⟨⟨hlat, List.forall_mem_nil _⟩, ⟨hlon, List.forall_mem_nil _⟩, List.forall_mem_nil _⟩
      simp only [geoValue, Sql.Expr.pieces, List.forall_mem_cons, List.forall_mem_append]
      exact ⟨trivial, hlat, trivial, hlon, trivial, plain_objectCall hpoint, trivial,
        List.forall_mem_nil _⟩
    | constant name options value =>
      obtain ⟨rfl, rfl⟩ := build_pure.mp h
      unfold literalOrNull
      split <;> exact .none rfl (List.forall_mem_singleton.mpr trivial)
    | aggregate name options source =>
      exact aggregate_emits hcatalog hschema hfield hpk h
    | group name options fields =>
      obtain ⟨pairs, b₁, hpairs, h⟩ := build_bind.mp h
      obtain ⟨rfl, rfl⟩ := build_pure.mp h
      have hemits := pairsOf_emits_of hfield hpk ih hpairs
      exact hemits.framed (slots_objectOf pairs) (plain_objectOf hemits.plain)
    | join name options join fields =>
      exact join_emits hcatalog hschema hfield.1
        (fun hpk hpairs => pairsOf_emits_of hfield.2 hpk ih hpairs) hpk h

theorem pairsOf_emits {fields : List Field} (hfields : FieldsStructured fields)
    (hpk : ∀ c ∈ pk, IsName c.name)
    (h : pairsOf schema pks colTypes fields parent pk b = .ok (pairs, b')) :
    Emits colTypes b.params (fieldsParameters fields)
      (pairs.flatMap fun pair => pair.2.pieces spelling) b'.params :=
  pairsOf_emits_of hfields hpk (fun g _ => fieldValue_emits hcatalog hschema g) h

end Relations

end Shapes

end Flusso.Document
