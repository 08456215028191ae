import Flusso.Document.Query
import Flusso.Foundation.Attempts
import Mathlib.Data.List.Forall2

/-! # What the builder emits

The builder only adds parameters and aliases. For each kind of relation, the
expression it comes to and the aliases the expression is over.
-/

namespace Flusso.Document

section Build

variable {β γ : Type} {b b' b'' : Builder}

theorem build_bind {m : Build β} {f : β → Build γ} {r : γ × Builder} :
    (m >>= f) b = .ok r ↔ ∃ x b', m b = .ok (x, b') ∧ f x b' = .ok r := by
  change (m b >>= fun p => f p.1 p.2) = .ok r ↔ _
  rw [Attempts.bind_ok]
  exact ⟨fun ⟨⟨x, b'⟩, h⟩ => ⟨x, b', h⟩, fun ⟨x, b', h⟩ => ⟨(x, b'), h⟩⟩

theorem build_pure {x y : β} : (pure x : Build β) b = .ok (y, b') ↔ x = y ∧ b = b' := by
  change Except.ok (x, b) = .ok (y, b') ↔ _
  simp

theorem build_map {m : Build β} {f : β → γ} {r : γ} :
    (f <$> m) b = .ok (r, b') ↔ ∃ x, m b = .ok (x, b') ∧ f x = r := by
  rw [map_eq_pure_bind, build_bind]
  simp only [build_pure]
  exact ⟨fun ⟨x, b₁, hm, hf, hb⟩ => ⟨x, hb ▸ hm, hf⟩, fun ⟨x, hm, hf⟩ => ⟨x, b', hm, hf, rfl⟩⟩

/-- Parameters and aliases are only added. -/
structure Grows (b b' : Builder) : Prop where
  seq : b.seq ≤ b'.seq
  params : b.params <+: b'.params

theorem Grows.refl (b : Builder) : Grows b b := ⟨le_rfl, List.prefix_rfl⟩

theorem Grows.trans (h : Grows b b') (h' : Grows b' b'') : Grows b b'' :=
  ⟨h.seq.trans h'.seq, h.params.trans h'.params⟩

/-- The builder once the next alias is handed out. -/
def Builder.next (b : Builder) : Builder := ⟨b.params, b.seq + 1⟩

/-- The alias handed out next. -/
def Builder.fresh (b : Builder) : Alias := .rel (b.seq + 1)

theorem newAlias_spec {a : Alias} (h : newAlias b = .ok (a, b')) : a = b.fresh ∧ b' = b.next := by
  cases h
  exact ⟨rfl, rfl⟩

theorem Builder.grows_next (b : Builder) : Grows b b.next := ⟨Nat.le_succ _, List.prefix_rfl⟩

theorem pkOf_spec {pks : TableName → Option ColumnName} {table : TableName} {pk : ColumnName}
    (h : pkOf pks table b = .ok (pk, b')) : pks table = some pk ∧ b = b' := by
  unfold pkOf at h
  cases hpk : pks table with
  | none =>
    rw [hpk] at h
    cases h
  | some pk' =>
    rw [hpk] at h
    obtain ⟨rfl, rfl⟩ := build_pure.mp h
    exact ⟨rfl, rfl⟩

theorem requirePk_spec {parentPk : Option ColumnName} {pk : ColumnName}
    (h : requirePk parentPk b = .ok (pk, b')) : parentPk = some pk ∧ b = b' := by
  cases parentPk with
  | none => cases h
  | some pk' =>
    obtain ⟨rfl, rfl⟩ := build_pure.mp h
    exact ⟨rfl, rfl⟩

theorem placeholder_spec {value : GenericValue} {n : ℕ} (h : placeholder value b = .ok (n, b')) :
    n = b.params.length + 1 ∧ b' = ⟨b.params ++ [value], b.seq⟩ ∧
      value.isBindableScalar = true := by
  unfold placeholder at h
  split at h
  · next hbind =>
    cases h
    exact ⟨rfl, rfl, hbind⟩
  · cases h

variable {colTypes : TableName → ColumnName → Option String} {table : TableName}
  {column : ColumnName}

theorem typedPlaceholder_spec {value : GenericValue} {p : Sql.Param}
    (h : typedPlaceholder colTypes value table column b = .ok (p, b')) :
    p.index = b.params.length + 1 ∧ colTypes table column = some p.sqlType ∧
      b' = ⟨b.params ++ [value], b.seq⟩ ∧ value.isBindableScalar = true := by
  unfold typedPlaceholder at h
  cases htype : colTypes table column with
  | none =>
    rw [htype] at h
    cases h
  | some sqlType =>
    rw [htype] at h
    obtain ⟨n, b₁, hn, h⟩ := build_bind.mp h
    obtain ⟨rfl, rfl⟩ := build_pure.mp h
    obtain ⟨hindex, hb, hbind⟩ := placeholder_spec hn
    exact ⟨hindex, rfl, hb, hbind⟩

theorem typedPlaceholder_grows {value : GenericValue} {p : Sql.Param}
    (h : typedPlaceholder colTypes value table column b = .ok (p, b')) : Grows b b' := by
  obtain ⟨-, -, rfl, -⟩ := typedPlaceholder_spec h
  exact ⟨le_rfl, List.prefix_append _ _⟩

theorem mapM_build {f : β → Build γ} {l : List β} {out : List γ}
    (hgrows : ∀ x ∈ l, ∀ b y b', f x b = .ok (y, b') → Grows b b')
    (h : l.mapM f b = .ok (out, b')) : Grows b b' ∧
      List.Forall₂ (fun x y => ∃ b₁ b₂, Grows b b₁ ∧ f x b₁ = .ok (y, b₂) ∧ Grows b₂ b') l out := by
  induction l generalizing b out with
  | nil =>
    obtain ⟨rfl, rfl⟩ := build_pure.mp h
    exact ⟨.refl b, .nil⟩
  | cons x l ih =>
    rw [List.mapM_cons] at h
    obtain ⟨y, b₁, hy, h⟩ := build_bind.mp h
    obtain ⟨ys, b₂, hys, h⟩ := build_bind.mp h
    obtain ⟨rfl, rfl⟩ := build_pure.mp h
    have hfirst := hgrows x List.mem_cons_self b y b₁ hy
    obtain ⟨hrest, hall⟩ := ih (fun x' hx' => hgrows x' (List.mem_cons_of_mem _ hx')) hys
    refine ⟨hfirst.trans hrest, .cons ⟨b, b₁, .refl b, hy, hrest⟩ ?_⟩
    exact hall.imp fun x' y' ⟨c, c', hc, hf, hc'⟩ => ⟨c, c', hfirst.trans hc, hf, hc'⟩

section Growth

variable {column : ColumnName} {op : FilterOp} {cond : Cond} {a : Alias}

theorem valueOp_single {v : String} : valueOp colTypes column op (.single v) a table =
    match comparison op with
    | some compared => do
      return .compare compared ⟨a, column⟩ (.param (← typedParam colTypes v table column))
    | none => throw (.arity op) := by
  cases op <;> rfl

theorem valueOp_list {vs : List String} : valueOp colTypes column op (.list vs) a table =
    let params := vs.mapM fun v => typedParam colTypes v table column
    if op = .isIn then do return .within false ⟨a, column⟩ (← params)
    else if op = .notIn then do return .within true ⟨a, column⟩ (← params)
    else throw (.arity op) := by
  cases op <;> rfl

theorem valueOp_range {lower upper : String} :
    valueOp colTypes column op (.range lower upper) a table =
      if op = .between then do
        let lower ← typedParam colTypes lower table column
        return .between ⟨a, column⟩ lower (← typedParam colTypes upper table column)
      else throw (.arity op) := by
  cases op <;> rfl

theorem valueOp_grows {value : FilterValue}
    (h : valueOp colTypes column op value a table b = .ok (cond, b')) : Grows b b' := by
  have hlist : ∀ {vs : List String} {ps : List Sql.Param} {b' : Builder},
      vs.mapM (fun v => typedParam colTypes v table column) b = .ok (ps, b') → Grows b b' :=
    fun h => (mapM_build (fun _ _ _ _ _ h => typedPlaceholder_grows h) h).1
  cases value with
  | single v =>
    rw [valueOp_single] at h
    split at h
    · obtain ⟨p, b₁, hp, h⟩ := build_bind.mp h
      obtain ⟨rfl, rfl⟩ := build_pure.mp h
      exact typedPlaceholder_grows hp
    · cases h
  | list vs =>
    rw [valueOp_list] at h
    split at h
    · obtain ⟨ps, b₁, hps, h⟩ := build_bind.mp h
      obtain ⟨rfl, rfl⟩ := build_pure.mp h
      exact hlist hps
    · split at h
      · obtain ⟨ps, b₁, hps, h⟩ := build_bind.mp h
        obtain ⟨rfl, rfl⟩ := build_pure.mp h
        exact hlist hps
      · cases h
  | range lower upper =>
    rw [valueOp_range] at h
    split at h
    · obtain ⟨p, b₁, hp, h⟩ := build_bind.mp h
      obtain ⟨p', b₂, hp', h⟩ := build_bind.mp h
      obtain ⟨rfl, rfl⟩ := build_pure.mp h
      exact (typedPlaceholder_grows hp).trans (typedPlaceholder_grows hp')
    · cases h

theorem filter_grows {f : Filter} (h : filter colTypes f a table b = .ok (cond, b')) :
    Grows b b' := by
  cases f with
  | raw sql =>
    obtain ⟨rfl, rfl⟩ := build_pure.mp h
    exact .refl b
  | nullCheck column op =>
    obtain ⟨rfl, rfl⟩ := build_pure.mp h
    exact .refl b
  | valueOp column op value => exact valueOp_grows h

theorem filters_grows {fs : Option (List Filter)} {conds : List Cond}
    (h : filters colTypes fs a table b = .ok (conds, b')) : Grows b b' :=
  (mapM_build (fun _ _ _ _ _ h => filter_grows h) h).1

end Growth

end Build

section Shapes

variable {schema : DatabaseSchema} {pks : TableName → Option ColumnName}
  {colTypes : TableName → ColumnName → Option String} {b b' : Builder} {parent : Alias}
  {pk : Option ColumnName} {e : Expr} {pairs : List (String × Expr)}

theorem directAggregate_spec {aggregate : Aggregate} {foreignKey : ColumnName}
    (hkey : aggregate.key = .direct foreignKey)
    (h : aggregateValue schema pks colTypes aggregate parent pk b = .ok (e, b')) :
    ∃ parentPk fold conds, pk = some parentPk ∧
      (∀ elementType, aggregate.op = .ids elementType → ∃ tablePk,
        pks aggregate.table = some tablePk ∧ fold = idsAgg b.fresh tablePk) ∧
      ((∀ elementType, aggregate.op ≠ .ids elementType) →
        fold = aggFunction aggregate.op b.fresh) ∧
      filters colTypes aggregate.filters b.fresh aggregate.table b.next = .ok (conds, b') ∧
      e = .fold fold (.table (schema, aggregate.table) b.fresh)
        (andAll (equal b.fresh foreignKey parent parentPk) conds) := by
  unfold aggregateValue at h
  obtain ⟨parentPk, b₁, hpk, h⟩ := build_bind.mp h
  obtain ⟨rfl, rfl⟩ := requirePk_spec hpk
  rw [hkey] at h
  obtain ⟨a, b₁, ha, h⟩ := build_bind.mp h
  obtain ⟨rfl, rfl⟩ := newAlias_spec ha
  cases hop : aggregate.op with
  | ids elementType =>
    rw [hop] at h
    obtain ⟨fold, b₂, hfold, h⟩ := build_bind.mp h
    obtain ⟨tablePk, hpkOf, rfl⟩ := build_map.mp hfold
    obtain ⟨htable, rfl⟩ := pkOf_spec hpkOf
    obtain ⟨conds, b₃, hconds, h⟩ := build_bind.mp h
    obtain ⟨rfl, rfl⟩ := build_pure.mp h
    exact ⟨parentPk, _, conds, rfl, fun _ _ => ⟨tablePk, htable, rfl⟩,
      fun h => absurd rfl (h elementType), hconds, rfl⟩
  | _ =>
    rw [hop] at h
    obtain ⟨fold, b₂, hfold, h⟩ := build_bind.mp h
    obtain ⟨rfl, rfl⟩ := build_pure.mp hfold
    obtain ⟨conds, b₃, hconds, h⟩ := build_bind.mp h
    obtain ⟨rfl, rfl⟩ := build_pure.mp h
    exact ⟨parentPk, _, conds, rfl, fun _ h => (by cases h), fun _ => rfl, hconds, rfl⟩

theorem throughAggregate_spec {aggregate : Aggregate} {through : Through}
    (hkey : aggregate.key = .through through)
    (h : aggregateValue schema pks colTypes aggregate parent pk b = .ok (e, b')) :
    ∃ parentPk farPk fold junctionConds conds b₁, pk = some parentPk ∧
      pks aggregate.table = some farPk ∧
      (fold = match aggregate.op with
        | .ids _ => idsAgg b.fresh farPk
        | op => aggFunction op b.fresh) ∧
      filters colTypes through.filters b.next.fresh through.table b.next.next =
        .ok (junctionConds, b₁) ∧
      filters colTypes aggregate.filters b.fresh aggregate.table b₁ = .ok (conds, b') ∧
      e = if aggregate.distinct then
        .fold fold (.table (schema, aggregate.table) b.fresh)
          (andAll (.inSelect ⟨b.fresh, farPk⟩ ⟨b.next.fresh, through.rightKey⟩
            (schema, through.table) b.next.fresh
            (andAll (equal b.next.fresh through.leftKey parent parentPk) junctionConds)) conds)
        else
          .fold fold
            (.joined (schema, aggregate.table) b.fresh (schema, through.table) b.next.fresh
              ⟨b.next.fresh, through.rightKey⟩ ⟨b.fresh, farPk⟩)
            (andAll (equal b.next.fresh through.leftKey parent parentPk)
              (conds ++ junctionConds)) := by
  unfold aggregateValue at h
  obtain ⟨parentPk, b₁, hpk, h⟩ := build_bind.mp h
  obtain ⟨rfl, rfl⟩ := requirePk_spec hpk
  rw [hkey] at h
  obtain ⟨farPk, b₁, hpkOf, h⟩ := build_bind.mp h
  obtain ⟨hfar, rfl⟩ := pkOf_spec hpkOf
  obtain ⟨a, b₁, ha, h⟩ := build_bind.mp h
  obtain ⟨rfl, rfl⟩ := newAlias_spec ha
  obtain ⟨junction, b₁, hj, h⟩ := build_bind.mp h
  obtain ⟨rfl, rfl⟩ := newAlias_spec hj
  obtain ⟨junctionConds, b₂, hjunction, h⟩ := build_bind.mp h
  obtain ⟨conds, b₃, hconds, h⟩ := build_bind.mp h
  refine ⟨parentPk, farPk, _, junctionConds, conds, b₂, rfl, hfar, rfl, hjunction, ?_⟩
  split at h
  · next hdistinct =>
    obtain ⟨rfl, rfl⟩ := build_pure.mp h
    exact ⟨hconds, (if_pos hdistinct).symm⟩
  · next hdistinct =>
    obtain ⟨rfl, rfl⟩ := build_pure.mp h
    exact ⟨hconds, (if_neg hdistinct).symm⟩

theorem aggregateValue_grows {aggregate : Aggregate}
    (h : aggregateValue schema pks colTypes aggregate parent pk b = .ok (e, b')) : Grows b b' := by
  cases hkey : aggregate.key with
  | direct foreignKey =>
    obtain ⟨_, _, _, -, -, -, hconds, -⟩ := directAggregate_spec hkey h
    exact b.grows_next.trans (filters_grows hconds)
  | through through =>
    obtain ⟨_, _, _, _, _, _, -, -, -, hjunction, hconds, -⟩ := throughAggregate_spec hkey h
    exact (b.grows_next.trans b.next.grows_next).trans
      ((filters_grows hjunction).trans (filters_grows hconds))

section Joins

variable {name : FieldName} {options : Options} {join : Join} {fields : List Field}

theorem belongsTo_spec {column : ColumnName} (hkind : join.kind = .belongsTo column)
    (h : fieldValue schema pks colTypes (.join name options join fields) parent pk b =
      .ok (e, b')) :
    ∃ targetPk pairs conds b₁, pks join.table = some targetPk ∧
      pairsOf schema pks colTypes fields b.fresh (some targetPk) b.next = .ok (pairs, b₁) ∧
      filters colTypes join.filters b.fresh join.table b₁ = .ok (conds, b') ∧
      e = .first (objectOf pairs) (.table (schema, join.table) b.fresh)
        (andAll (equal b.fresh targetPk parent column) conds) [] := by
  rw [fieldValue, hkind] at h
  obtain ⟨targetPk, b₁, hpkOf, h⟩ := build_bind.mp h
  obtain ⟨htarget, rfl⟩ := pkOf_spec hpkOf
  obtain ⟨a, b₁, ha, h⟩ := build_bind.mp h
  obtain ⟨rfl, rfl⟩ := newAlias_spec ha
  obtain ⟨pairs, b₁, hpairs, h⟩ := build_bind.mp h
  obtain ⟨conds, b₂, hconds, h⟩ := build_bind.mp h
  obtain ⟨rfl, rfl⟩ := build_pure.mp h
  exact ⟨targetPk, pairs, conds, b₁, htarget, hpairs, hconds, rfl⟩

theorem hasOne_spec {foreignKey : ColumnName} (hkind : join.kind = .hasOne foreignKey)
    (h : fieldValue schema pks colTypes (.join name options join fields) parent pk b =
      .ok (e, b')) :
    ∃ parentPk childPk pairs conds b₁, pk = some parentPk ∧ pks join.table = some childPk ∧
      pairsOf schema pks colTypes fields b.fresh (some childPk) b.next = .ok (pairs, b₁) ∧
      filters colTypes join.filters b.fresh join.table b₁ = .ok (conds, b') ∧
      e = .first (objectOf pairs) (.table (schema, join.table) b.fresh)
        (andAll (equal b.fresh foreignKey parent parentPk) conds)
        (orderClause join.orderBy b.fresh) := by
  rw [fieldValue, hkind] at h
  obtain ⟨parentPk, b₁, hpk, h⟩ := build_bind.mp h
  obtain ⟨rfl, rfl⟩ := requirePk_spec hpk
  obtain ⟨childPk, b₁, hpkOf, h⟩ := build_bind.mp h
  obtain ⟨hchild, rfl⟩ := pkOf_spec hpkOf
  obtain ⟨a, b₁, ha, h⟩ := build_bind.mp h
  obtain ⟨rfl, rfl⟩ := newAlias_spec ha
  obtain ⟨pairs, b₁, hpairs, h⟩ := build_bind.mp h
  obtain ⟨conds, b₂, hconds, h⟩ := build_bind.mp h
  obtain ⟨rfl, rfl⟩ := build_pure.mp h
  exact ⟨parentPk, childPk, pairs, conds, b₁, rfl, hchild, hpairs, hconds, rfl⟩

theorem hasMany_spec {foreignKey : ColumnName} (hkind : join.kind = .hasMany foreignKey)
    (h : fieldValue schema pks colTypes (.join name options join fields) parent pk b =
      .ok (e, b')) :
    ∃ parentPk childPk pairs conds b₁, pk = some parentPk ∧ pks join.table = some childPk ∧
      pairsOf schema pks colTypes fields b.fresh (some childPk) b.next = .ok (pairs, b₁) ∧
      filters colTypes join.filters b₁.fresh join.table b₁.next = .ok (conds, b') ∧
      e = .array (objectOf pairs)
        ⟨b₁.fresh, .table (schema, join.table) b₁.fresh,
          andAll (equal b₁.fresh foreignKey parent parentPk) conds,
          orderClause join.orderBy b₁.fresh, join.limit⟩
        b.fresh (orderClause join.orderBy b.fresh) := by
  rw [fieldValue, hkind] at h
  obtain ⟨parentPk, b₁, hpk, h⟩ := build_bind.mp h
  obtain ⟨rfl, rfl⟩ := requirePk_spec hpk
  obtain ⟨childPk, b₁, hpkOf, h⟩ := build_bind.mp h
  obtain ⟨hchild, rfl⟩ := pkOf_spec hpkOf
  obtain ⟨derived, b₁, hderived, h⟩ := build_bind.mp h
  obtain ⟨rfl, rfl⟩ := newAlias_spec hderived
  obtain ⟨pairs, b₁, hpairs, h⟩ := build_bind.mp h
  obtain ⟨inner, b₂, hinner, h⟩ := build_bind.mp h
  obtain ⟨rfl, rfl⟩ := newAlias_spec hinner
  obtain ⟨conds, b₂, hconds, h⟩ := build_bind.mp h
  obtain ⟨rfl, rfl⟩ := build_pure.mp h
  exact ⟨parentPk, childPk, pairs, conds, b₁, rfl, hchild, hpairs, hconds, rfl⟩

theorem manyToMany_spec {through : Through} (hkind : join.kind = .manyToMany through)
    (h : fieldValue schema pks colTypes (.join name options join fields) parent pk b =
      .ok (e, b')) :
    ∃ parentPk farPk pairs conds junctionConds b₁ b₂, pk = some parentPk ∧
      pks join.table = some farPk ∧
      pairsOf schema pks colTypes fields b.fresh (some farPk) b.next = .ok (pairs, b₁) ∧
      filters colTypes join.filters b₁.fresh join.table b₁.next.next = .ok (conds, b₂) ∧
      filters colTypes through.filters b₁.next.fresh through.table b₂ =
        .ok (junctionConds, b') ∧
      e = .array (objectOf pairs)
        ⟨b₁.fresh, .joined (schema, join.table) b₁.fresh (schema, through.table) b₁.next.fresh
            ⟨b₁.next.fresh, through.rightKey⟩ ⟨b₁.fresh, farPk⟩,
          andAll (equal b₁.next.fresh through.leftKey parent parentPk) (conds ++ junctionConds),
          orderClause join.orderBy b₁.fresh, join.limit⟩
        b.fresh (orderClause join.orderBy b.fresh) := by
  rw [fieldValue, hkind] at h
  obtain ⟨parentPk, b₁, hpk, h⟩ := build_bind.mp h
  obtain ⟨rfl, rfl⟩ := requirePk_spec hpk
  obtain ⟨farPk, b₁, hpkOf, h⟩ := build_bind.mp h
  obtain ⟨hfar, rfl⟩ := pkOf_spec hpkOf
  obtain ⟨derived, b₁, hderived, h⟩ := build_bind.mp h
  obtain ⟨rfl, rfl⟩ := newAlias_spec hderived
  obtain ⟨pairs, b₁, hpairs, h⟩ := build_bind.mp h
  obtain ⟨far, b₂, ha, h⟩ := build_bind.mp h
  obtain ⟨rfl, rfl⟩ := newAlias_spec ha
  obtain ⟨junction, b₂, hj, h⟩ := build_bind.mp h
  obtain ⟨rfl, rfl⟩ := newAlias_spec hj
  obtain ⟨conds, b₂, hconds, h⟩ := build_bind.mp h
  obtain ⟨junctionConds, b₃, hjunction, h⟩ := build_bind.mp h
  obtain ⟨rfl, rfl⟩ := build_pure.mp h
  exact ⟨parentPk, farPk, pairs, conds, junctionConds, b₁, b₂, rfl, hfar, hpairs, hconds,
    hjunction, rfl⟩

theorem joinValue_grows
    (hfields : ∀ {parent pk b b' pairs},
      pairsOf schema pks colTypes fields parent pk b = .ok (pairs, b') → Grows b b')
    (h : fieldValue schema pks colTypes (.join name options join fields) parent pk b =
      .ok (e, b')) : Grows b b' := by
  cases hkind : join.kind with
  | belongsTo column =>
    obtain ⟨_, _, _, _, -, hpairs, hconds, -⟩ := belongsTo_spec hkind h
    exact b.grows_next.trans ((hfields hpairs).trans (filters_grows hconds))
  | hasOne foreignKey =>
    obtain ⟨_, _, _, _, _, -, -, hpairs, hconds, -⟩ := hasOne_spec hkind h
    exact b.grows_next.trans ((hfields hpairs).trans (filters_grows hconds))
  | hasMany foreignKey =>
    obtain ⟨_, _, _, _, b₁, -, -, hpairs, hconds, -⟩ := hasMany_spec hkind h
    exact b.grows_next.trans
      ((hfields hpairs).trans (b₁.grows_next.trans (filters_grows hconds)))
  | manyToMany through =>
    obtain ⟨_, _, _, _, _, b₁, _, -, -, hpairs, hconds, hjunction, -⟩ := manyToMany_spec hkind h
    exact b.grows_next.trans ((hfields hpairs).trans ((b₁.grows_next.trans
      b₁.next.grows_next).trans ((filters_grows hconds).trans (filters_grows hjunction))))

end Joins

theorem pairsOf_grows_of {fields : List Field}
    (hfields : ∀ g ∈ fields, ∀ {parent pk b e b'},
      fieldValue schema pks colTypes g parent pk b = .ok (e, b') → Grows b b')
    (h : pairsOf schema pks colTypes fields parent pk b = .ok (pairs, b')) : Grows b b' := by
  induction fields generalizing b pairs with
  | nil =>
    obtain ⟨-, rfl⟩ := build_pure.mp h
    exact .refl b
  | cons g fields ih =>
    obtain ⟨e, b₁, he, h⟩ := build_bind.mp h
    obtain ⟨rest, b₂, hrest, h⟩ := build_bind.mp h
    obtain ⟨-, rfl⟩ := build_pure.mp h
    exact (hfields g List.mem_cons_self he).trans
      (ih (fun g' hg' => hfields g' (List.mem_cons_of_mem _ hg')) hrest)

theorem fieldValue_grows (field : Field) : ∀ {parent : Alias} {pk : Option ColumnName}
    {b : Builder} {e : Expr} {b' : Builder},
    fieldValue schema pks colTypes field parent pk b = .ok (e, b') → Grows b b' := by
  induction field using Field.induct with
  | node field ih =>
    intro parent pk b e b' h
    cases field with
    | column =>
      obtain ⟨-, rfl⟩ := build_pure.mp h
      exact .refl b
    | geo =>
      obtain ⟨-, rfl⟩ := build_pure.mp h
      exact .refl b
    | constant =>
      obtain ⟨-, rfl⟩ := build_pure.mp h
      exact .refl b
    | aggregate => exact aggregateValue_grows h
    | group =>
      obtain ⟨pairs, b₁, hpairs, h⟩ := build_bind.mp h
      obtain ⟨-, rfl⟩ := build_pure.mp h
      exact pairsOf_grows_of ih hpairs
    | join => exact joinValue_grows (pairsOf_grows_of ih) h

theorem pairsOf_grows {fields : List Field}
    (h : pairsOf schema pks colTypes fields parent pk b = .ok (pairs, b')) : Grows b b' :=
  pairsOf_grows_of (fun g _ => fieldValue_grows g) h

end Shapes

end Flusso.Document
