import Flusso.Document.Building
import Flusso.Document.Contents
import Flusso.Sql.Rules

/-! # The conditions the builder emits

Evaluated with the parameters collected by the end, a filter's condition passes
the rows the filter passes, and fails those it fails outright.
-/

namespace Flusso.Document

section Meaning

variable {S : Type} [Postgres S] [Sql.Values S]

abbrev Session (S : Type) := Sql.Session Alias ColumnName TableRef S
abbrev Scope (S : Type) := Sql.Scope Alias ColumnName TableRef S

/-- What raw filter texts mean to the server; none for one it does not accept. -/
abbrev RawTexts (S : Type) := String → Option (Scope S → Option (Option Bool))

/-- A database with the bound parameters of a query. -/
def session (db : Database S) (raw : RawTexts S)
    (params : List GenericValue) : Session S where
  rows t := (db t.1 t.2).map Table.rows
  sqlType t column := storedType db t.1 t.2 column
  param n sqlType := (params[n - 1]?).bind (Postgres.cast sqlType)
  raw := raw

/-- The primary keys and types a query is built with are the catalog's. -/
structure Catalog (db : Database S) (schema : DatabaseSchema)
    (pks : TableName → Option ColumnName) (colTypes : TableName → ColumnName → Option String) :
    Prop where
  pks : ∀ table pk, pks table = some pk → keyColumn db schema table = some pk
  types : ∀ table column sqlType, colTypes table column = some sqlType →
    typeName db schema table column = sqlType

/-- The operands a filter compares columns with. -/
def operandsOf : Filter → List (ColumnName × String)
  | .raw _ | .nullCheck _ _ => []
  | .valueOp column _ (.single v) => [(column, v)]
  | .valueOp column _ (.list vs) => vs.map fun v => (column, v)
  | .valueOp column _ (.range lower upper) => [(column, lower), (column, upper)]

/-- A filter that is not raw, and whose operands spell values of their columns. -/
def Spelled (db : Database S) (schema : DatabaseSchema) (table : TableName) (f : Filter) : Prop :=
  (∀ sql, f ≠ .raw sql) ∧
    ∀ operand ∈ operandsOf f, (operandOf db schema table operand.1 operand.2).isSome = true

/-- A filter that can be evaluated: besides, it lists some value where it lists any. -/
structure Readable (db : Database S) (schema : DatabaseSchema) (table : TableName) (f : Filter) :
    Prop where
  spelled : Spelled db schema table f
  listed : ∀ column op, f ≠ .valueOp column op (.list [])

variable {db : Database S} {schema : DatabaseSchema} {pks : TableName → Option ColumnName}
  {colTypes : TableName → ColumnName → Option String} (hcatalog : Catalog db schema pks colTypes)
  {raw : RawTexts S} {params : List GenericValue} {table : TableName}
  {b b' : Builder} {scope : Scope S} {a : Alias} {row : Row S}

section Params

variable (raw)

include hcatalog
omit [Sql.Values S]

theorem typedPlaceholder_eval {value : GenericValue} {column : ColumnName} {p : Sql.Param}
    (h : typedPlaceholder colTypes value table column b = .ok (p, b'))
    (hparams : b'.params <+: params) :
    p.eval (session db raw params) = Postgres.cast (typeName db schema table column) value := by
  obtain ⟨hindex, htype, rfl, -⟩ := typedPlaceholder_spec h
  have hget : params[b.params.length]? = some value := by
    obtain ⟨rest, rfl⟩ := hparams
    simp
  rw [hcatalog.types _ _ _ htype]
  simp only [Sql.Param.eval, session, hindex, Nat.add_sub_cancel, hget, Option.bind_some]

theorem typedParam_eval {v : String} {column : ColumnName} {p : Sql.Param}
    (h : typedParam colTypes v table column b = .ok (p, b')) (hparams : b'.params <+: params) :
    p.eval (session db raw params) = operandOf db schema table column v :=
  typedPlaceholder_eval hcatalog raw h hparams

theorem typedPlaceholders_eval {β : Type} {value : β → GenericValue} {vs : List β}
    {column : ColumnName} {ps : List Sql.Param}
    (h : vs.mapM (fun v => typedPlaceholder colTypes (value v) table column) b = .ok (ps, b'))
    (hparams : b'.params <+: params) {operands : List S}
    (hoperands : vs.mapM (fun v => Postgres.cast (typeName db schema table column) (value v)) =
      some operands) :
    ps.mapM (Sql.Param.eval (session db raw params)) = some operands := by
  obtain ⟨-, hall⟩ := mapM_build (fun v _ _ _ _ h => typedPlaceholder_grows h) h
  clear h
  induction hall generalizing operands with
  | nil => exact hoperands
  | cons hp _ ih =>
    obtain ⟨b₁, b₂, -, hp, hgrows⟩ := hp
    rw [List.mapM_cons] at hoperands ⊢
    rw [typedPlaceholder_eval hcatalog raw hp (hgrows.params.trans hparams)]
    obtain ⟨v, hv, hoperands⟩ := Option.bind_eq_some_iff.mp hoperands
    obtain ⟨vs, hvs, hoperands⟩ := Option.bind_eq_some_iff.mp hoperands
    cases hoperands
    simp [hv, ih hvs]

omit hcatalog in
theorem params_ne_nil {β : Type} {value : β → GenericValue} {vs : List β} {ps : List Sql.Param}
    (h : vs.mapM (fun v => typedPlaceholder colTypes (value v) table column) b = .ok (ps, b'))
    (hne : vs ≠ []) : ps ≠ [] := by
  obtain ⟨-, hall⟩ := mapM_build (fun v _ _ _ _ h => typedPlaceholder_grows h) h
  rintro rfl
  cases hall
  exact hne rfl

theorem typedParams_eval {vs : List String} {column : ColumnName} {ps : List Sql.Param}
    (h : vs.mapM (fun v => typedParam colTypes v table column) b = .ok (ps, b'))
    (hparams : b'.params <+: params) {operands : List S}
    (hoperands : vs.mapM (operandOf db schema table column) = some operands) :
    ps.mapM (Sql.Param.eval (session db raw params)) = some operands :=
  typedPlaceholders_eval hcatalog raw h hparams hoperands

end Params

section Filters

variable {column : ColumnName} {op : FilterOp} {fs : List Filter} {conds : List Cond} {cond : Cond}
  {t : TableRef}

omit [Postgres S] [Sql.Values S] in
theorem exists_operands {f : String → Option S} {vs : List String}
    (h : ∀ v ∈ vs, (f v).isSome = true) : ∃ ws, vs.mapM f = some ws ∧
      (∀ p, ws.any p = vs.any fun v => (f v).any p) ∧
        ∀ p, ws.all p = vs.all fun v => (f v).any p := by
  induction vs with
  | nil => exact ⟨[], rfl, fun _ => rfl, fun _ => rfl⟩
  | cons v vs ih =>
    obtain ⟨w, hw⟩ := Option.isSome_iff_exists.mp (h v List.mem_cons_self)
    obtain ⟨ws, hws, hany, hall⟩ := ih fun v' hv' => h v' (List.mem_cons_of_mem _ hv')
    refine ⟨w :: ws, by simp [List.mapM_cons, hw, hws], fun p => ?_, fun p => ?_⟩
    · simp [List.any_cons, hw, hany]
    · simp [List.all_cons, hw, hall]

omit [Postgres S] [Sql.Values S] in
theorem column_eval (hscope : scope a = some (t, row)) :
    (⟨a, column⟩ : Col).eval scope = some (row column) := by
  simp [Sql.Col.eval, hscope]

include hcatalog

theorem valueOp_decides {value : FilterValue} (hscope : scope a = some (t, row))
    (h : valueOp colTypes column op value a table b = .ok (cond, b'))
    (hread : Readable db schema table (.valueOp column op value)) (hparams : b'.params <+: params) :
    Sql.Decides (session db raw params) scope cond
      (passes db schema table row (.valueOp column op value))
      (fails db schema table row (.valueOp column op value)) := by
  have hcol : (⟨a, column⟩ : Col).eval scope = some (row column) := column_eval hscope
  cases value with
  | single v =>
    rw [valueOp_single] at h
    cases hop : comparison op with
    | none =>
      rw [hop] at h
      cases h
    | some compared =>
      rw [hop] at h
      obtain ⟨p, b₁, hp, h⟩ := build_bind.mp h
      obtain ⟨rfl, rfl⟩ := build_pure.mp h
      obtain ⟨w, hw⟩ := Option.isSome_iff_exists.mp (hread.spelled.2 (column, v) List.mem_cons_self)
      have hparam := (typedParam_eval hcatalog raw hp hparams).trans hw
      have hpasses : passes db schema table row (.valueOp column op (.single v)) =
          decide (Sql.Values.compare compared (row column) w = some true) := by
        cases op <;> cases hop <;> simp [passes, comparison, satisfies, hw]
      have hfails : fails db schema table row (.valueOp column op (.single v)) =
          decide (Sql.Values.compare compared (row column) w = some false) := by
        cases op <;> cases hop <;> simp [fails, comparison, refutes, hw]
      rw [hpasses, hfails]
      exact Sql.decides_compare hcol hparam
  | list vs =>
    rw [valueOp_list] at h
    have hne : vs ≠ [] := fun h => hread.listed column op (by rw [h])
    obtain ⟨ws, hws, hany, hall⟩ := exists_operands fun v hv =>
      hread.spelled.2 (column, v) (List.mem_map_of_mem hv)
    split at h
    · next hop =>
      obtain ⟨ps, b₁, hps, h⟩ := build_bind.mp h
      obtain ⟨rfl, rfl⟩ := build_pure.mp h
      have heval := typedParams_eval hcatalog raw hps hparams hws
      subst hop
      have hdecides : Sql.Decides _ _ (.within false _ ps) _ _ :=
        Sql.decides_within (params_ne_nil hps hne) hcol heval
      simp only [Bool.false_eq_true, if_false, hany, hall] at hdecides
      exact hdecides
    · split at h
      · next hop =>
        obtain ⟨ps, b₁, hps, h⟩ := build_bind.mp h
        obtain ⟨rfl, rfl⟩ := build_pure.mp h
        have heval := typedParams_eval hcatalog raw hps hparams hws
        subst hop
        have hdecides : Sql.Decides _ _ (.within true _ ps) _ _ :=
          Sql.decides_within (params_ne_nil hps hne) hcol heval
        simp only [if_true, hany, hall] at hdecides
        exact hdecides
      · cases h
  | range lower upper =>
    rw [valueOp_range] at h
    split at h
    · next hop =>
      obtain ⟨p, b₁, hp, h⟩ := build_bind.mp h
      obtain ⟨p', b₂, hp', h⟩ := build_bind.mp h
      obtain ⟨rfl, rfl⟩ := build_pure.mp h
      have hsecond := (typedPlaceholder_grows hp').params.trans hparams
      obtain ⟨l, hl⟩ :=
        Option.isSome_iff_exists.mp (hread.spelled.2 (column, lower) List.mem_cons_self)
      obtain ⟨u, hu⟩ := Option.isSome_iff_exists.mp
        (hread.spelled.2 (column, upper) (List.mem_cons_of_mem _ List.mem_cons_self))
      have hlower := (typedParam_eval hcatalog raw hp hsecond).trans hl
      have hupper := (typedParam_eval hcatalog raw hp' hparams).trans hu
      subst hop
      have hdecides := Sql.decides_between hcol hlower hupper
      simpa [passes, fails, satisfies, refutes, hl, hu] using hdecides
    · cases h

theorem filter_decides {f : Filter} (hscope : scope a = some (t, row))
    (h : filter colTypes f a table b = .ok (cond, b')) (hread : Readable db schema table f)
    (hparams : b'.params <+: params) :
    Sql.Decides (session db raw params) scope cond (passes db schema table row f)
      (fails db schema table row f) := by
  cases f with
  | raw sql => exact absurd rfl (hread.spelled.1 sql)
  | nullCheck column op =>
    obtain ⟨rfl, rfl⟩ := build_pure.mp h
    have hdecides : Sql.Decides (session db raw params) scope
        (.isNull (op = .isNotNull) ⟨a, column⟩) _ _ := Sql.decides_isNull (column_eval hscope)
    cases op
    · simpa [passes, fails] using hdecides
    · simpa [passes, fails] using hdecides
  | valueOp column op value => exact valueOp_decides hcatalog hscope h hread hparams

/-- The conditions of a filter list, joined to another, pass the rows that pass every filter. -/
theorem filters_decides {fs : Option (List Filter)} {base : Cond} {p q : Bool}
    (hscope : scope a = some (t, row)) (h : filters colTypes fs a table b = .ok (conds, b'))
    (hread : ∀ f ∈ fs.getD [], Readable db schema table f) (hparams : b'.params <+: params)
    (hbase : Sql.Decides (session db raw params) scope base p q) :
    Sql.Decides (session db raw params) scope (andAll base conds)
      (p && passesAll db schema table fs row) (q || failsAny db schema table fs row) := by
  obtain ⟨-, hall⟩ := mapM_build (fun _ _ _ _ _ h => filter_grows h) h
  clear h
  unfold passesAll failsAny
  generalize fs.getD [] = fs at hread hall
  induction hall generalizing base p q with
  | nil => simpa [andAll] using hbase
  | @cons f cond fs conds hf _ ih =>
    obtain ⟨b₁, b₂, -, hf, hgrows⟩ := hf
    have hcond : Sql.Decides (session db raw params) _ _ _ _ := filter_decides hcatalog hscope hf
      (hread f List.mem_cons_self) (hgrows.params.trans hparams)
    have hrest := ih (hbase.and hcond.paren) fun f' hf' => hread f' (List.mem_cons_of_mem _ hf')
    rw [List.all_cons, List.any_cons, ← Bool.and_assoc, ← Bool.or_assoc]
    exact hrest

end Filters

end Meaning

end Flusso.Document
