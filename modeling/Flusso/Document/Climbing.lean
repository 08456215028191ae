import Flusso.Document.Links

/-! # Climbing finds the root

One hop from a key that selects a row finds the parents it is linked to, as long
as the columns on the way read back as values that select what the columns hold.
By induction along the path the root at the end of a chain is found.
-/

namespace Flusso.Document

open Cdc

section Values

variable {S : Type} [Postgres S]

/-- A value that can be bound against a column of a type. -/
def Usable (S : Type) [Postgres S] (sqlType : String) (v : GenericValue) : Prop :=
  v.isBindableScalar = true ∧ ∃ t : S, Postgres.cast sqlType v = some t

/-- A bound value selects a stored one: `column = $n::type` is true where the column holds it. -/
def Selects (sqlType : String) (v : GenericValue) (s : S) : Prop :=
  v.isBindableScalar = true ∧ ∃ t, Postgres.cast sqlType v = some t ∧ Postgres.equals s t = true

/-- Every value equal to a read one selects what it was read from. -/
def ReadsAs (sqlType : String) (v : GenericValue) (s : S) : Prop :=
  ∀ w, (v == w) = true → Selects sqlType w s

/-- A value read from a stored one selects it, or it is null and so is the stored one. -/
def Legible (sqlType : String) (v : GenericValue) (s : S) : Prop :=
  v.isNull = true ∧ (∀ u, Postgres.equals s u = false) ∨
    v.isNull = false ∧ ReadsAs sqlType v s

/-- Some of the values found is one a parent's key reads as. -/
def Finds (sqlType : String) (vs : List GenericValue) (s : S) : Prop :=
  ∃ v ∈ vs, ReadsAs sqlType v s

variable {sqlType : String} {v w : GenericValue} {s u : S} {vs : List GenericValue}

theorem Selects.usable (h : Selects sqlType v s) : Usable S sqlType v :=
  ⟨h.1, h.2.imp fun _ ht => ht.1⟩

theorem ReadsAs.selects (h : ReadsAs sqlType v s) : Selects sqlType v s := h v BEq.rfl

theorem ReadsAs.congr (h : ReadsAs sqlType v s) (hw : (v == w) = true) : ReadsAs sqlType w s :=
  fun x hx => h x (GenericValue.beq_trans hw hx)

variable [LawfulPostgres S]

theorem Selects.of_equals (h : Selects sqlType v s) (hu : Postgres.equals u s = true) :
    Selects sqlType v u := by
  obtain ⟨hv, t, ht, hst⟩ := h
  exact ⟨hv, t, ht, LawfulPostgres.trans hu hst⟩

theorem ReadsAs.of_equals (h : ReadsAs sqlType v s) (hu : Postgres.equals u s = true) :
    ReadsAs sqlType v u := fun w hw => (h w hw).of_equals hu

omit [LawfulPostgres S] in
theorem Legible.readsAs (h : Legible sqlType v s) (hu : Postgres.equals s u = true) :
    v.isNull = false ∧ ReadsAs sqlType v s := by
  rcases h with ⟨-, hnull⟩ | h
  · rw [hnull u] at hu
    cases hu
  · exact h

omit [LawfulPostgres S] in
theorem Legible.usable (h : Legible sqlType v s) (hv : v.isNull = false) :
    Usable S sqlType v := by
  rcases h with ⟨hnull, -⟩ | h
  · rw [hv] at hnull
    cases hnull
  · exact h.2.selects.usable

omit [LawfulPostgres S] in
theorem Finds.eraseDups (h : Finds sqlType vs s) : Finds sqlType vs.eraseDups s := by
  obtain ⟨v, hv, hreads⟩ := h
  obtain ⟨w, hw, heq⟩ := Attempts.exists_mem_eraseDups hv
  exact ⟨w, hw, hreads.congr heq⟩

end Values

section Hops

variable {S : Type} [Postgres S] (db : Database S) (schema : DatabaseSchema)

/-- What a column reads back as selects, against another column, what the column holds. -/
def ColumnLegible (source : TableName × ColumnName) (target : TableName × ColumnName)
    (sqlType : String) : Prop :=
  (∃ sourceType, columnType db schema source.1 source.2 = .ok sourceType) ∧
  columnType db schema target.1 target.2 = .ok sqlType ∧
  ∀ row ∈ rowsOf db schema source.1,
    Legible sqlType (Postgres.decodeColumn (row source.2)) (row source.2)

/-- The column whose values a hop returns. -/
def told (relation : Relation) (parentTable : TableName) (parentPk : ColumnName) :
    TableName × ColumnName :=
  match relation.key with
  | .direct foreignKey => (relation.table, foreignKey)
  | .ofParent _ => (parentTable, parentPk)
  | .through through => (through.table, through.leftKey)

/-- A key whose columns a table has, with values that can be bound against them. -/
def KeyUsable (table : TableName) (key : RowKey GenericValue) : Prop :=
  ∀ entry ∈ key, ∃ sqlType, columnType db schema table entry.1 = .ok sqlType ∧
    Usable S sqlType entry.2

/-- A key that selects a row of a table. -/
def KeySelects (table : TableName) (key : RowKey GenericValue) (row : Row S) : Prop :=
  ∀ entry ∈ key, ∃ sqlType, columnType db schema table entry.1 = .ok sqlType ∧
    Selects sqlType entry.2 (row entry.1)

/-- A hop from the related table can evaluate a key. -/
def Answerable (relation : Relation) (parentTable : TableName) (key : RowKey GenericValue) :
    Prop :=
  match relation.key with
  | .direct _ => KeyUsable db schema relation.table key
  | .ofParent column => ∃ v sqlType, localTargetValue relation key = .ok v ∧
      columnType db schema parentTable column = .ok sqlType ∧ Usable S sqlType v
  | .through through => ∃ v sqlType, singleFarKey key = .ok v ∧
      columnType db schema through.table through.rightKey = .ok sqlType ∧ Usable S sqlType v

/-- A key stands for a row in a hop from the related table; across a direct link the row itself
is looked up. -/
def StandsFor (relation : Relation) (parentTable : TableName) (key : RowKey GenericValue)
    (pk : ColumnName) (row : Row S) : Prop :=
  match relation.key with
  | .direct _ => row ∈ rowsOf db schema relation.table ∧ KeySelects db schema relation.table key row
  | .ofParent column => ∃ v sqlType, localTargetValue relation key = .ok v ∧
      columnType db schema parentTable column = .ok sqlType ∧ Selects sqlType v (row pk)
  | .through through => ∃ v sqlType, singleFarKey key = .ok v ∧
      columnType db schema through.table through.rightKey = .ok sqlType ∧
      Selects sqlType v (row pk)

variable {db schema} {table : TableName} {select : ColumnName} {key : RowKey GenericValue}

omit [Postgres S] in
theorem mem_rowsOf_of_tableOf {t : Table S} (h : tableOf db schema table = .ok t) {row : Row S} :
    row ∈ rowsOf db schema table ↔ row ∈ t.rows := by
  unfold tableOf at h
  split at h
  · next hdb =>
    cases h
    simp [rowsOf, hdb]
  · cases h

theorem reverseQuery_spec (hkey : KeyUsable db schema table key)
    (hselect : ∃ sqlType, columnType db schema table select = .ok sqlType) :
    ∃ vs, reverseQuery db schema table select key = .ok vs ∧
      (∀ v ∈ vs, ∃ row ∈ rowsOf db schema table,
        v = Postgres.decodeColumn (row select) ∧ v.isNull = false) ∧
      ∀ row ∈ rowsOf db schema table, KeySelects db schema table key row →
        (Postgres.decodeColumn (row select)).isNull = false →
        ∃ v ∈ vs, (Postgres.decodeColumn (row select) == v) = true := by
  have hoperands : ∀ entry ∈ key, ∃ o, operand db schema table entry = .ok o := by
    intro entry hentry
    obtain ⟨sqlType, htype, hbind, t, hcast⟩ := hkey entry hentry
    exact ⟨(entry.1, t), by simp only [operand, htype, bind, Except.bind, hbind, if_true, hcast]⟩
  obtain ⟨operands, hoperands⟩ := Attempts.exists_mapM hoperands
  obtain ⟨selectType, hselect⟩ := hselect
  obtain ⟨t, ht, -⟩ := Attempts.bind_ok.mp hselect
  have hquery : reverseQuery db schema table select key =
      .ok (((t.rows.filter (matchesKey operands)).map fun row =>
        Postgres.decodeColumn (row select)).filter fun v => !v.isNull).eraseDups := by
    simp only [reverseQuery, hoperands, hselect, ht, bind, Except.bind, pure, Except.pure]
  refine ⟨_, hquery, ?_, ?_⟩
  · intro v hv
    obtain ⟨hv, hnull⟩ := List.mem_filter.mp (Attempts.mem_of_mem_eraseDups hv)
    obtain ⟨row, hrow, rfl⟩ := List.mem_map.mp hv
    exact ⟨row, (mem_rowsOf_of_tableOf ht).mpr (List.mem_of_mem_filter hrow), rfl,
      by simpa using hnull⟩
  · intro row hrow hselects hnull
    apply Attempts.exists_mem_eraseDups
    rw [List.mem_filter, List.mem_map]
    refine ⟨⟨row, List.mem_filter.mpr ⟨(mem_rowsOf_of_tableOf ht).mp hrow, ?_⟩, rfl⟩, by simp [hnull]⟩
    rw [matchesKey, List.all_eq_true]
    intro o ho
    obtain ⟨entry, hentry, hoperand⟩ := Attempts.mem_of_mapM hoperands ho
    obtain ⟨sqlType, htype, hbind, t', hcast, hequals⟩ := hselects entry hentry
    simp only [operand, htype, bind, Except.bind, hbind, if_true, hcast] at hoperand
    cases hoperand
    exact hequals

variable {relation : Relation} {parentTable : TableName} {parentPk : ColumnName}
  {target : TableName × ColumnName} {sqlType : String}

theorem columnLegible_usable {source : TableName × ColumnName}
    (h : ColumnLegible db schema source target sqlType) {v : GenericValue}
    (hv : ∃ row ∈ rowsOf db schema source.1,
      v = Postgres.decodeColumn (row source.2) ∧ v.isNull = false) : Usable S sqlType v := by
  obtain ⟨row, hrow, rfl, hnull⟩ := hv
  exact (h.2.2 row hrow).usable hnull

variable [LawfulPostgres S]

/-- A hop from the related table: it succeeds, and from a key that stands for a row it finds the
parent the row is linked to. -/
theorem reverseHop_spec {t : TableName} (hkey : Answerable db schema relation parentTable key)
    (hjunction : ∀ through, relation.key = .through through → t ≠ through.table)
    (htold : ColumnLegible db schema (told relation parentTable parentPk) target sqlType) :
    ∃ vs, reverseHop db schema relation t parentTable parentPk key = .ok vs ∧
      (∀ v ∈ vs, Usable S sqlType v) ∧
      ∀ (row parent : Row S) (pk : ColumnName), StandsFor db schema relation parentTable key pk row →
        tablePrimaryKey db schema relation.table = .ok pk →
        parent ∈ rowsOf db schema parentTable →
        Postgres.equals (parent parentPk) (parent parentPk) = true →
        Linked db schema relation (some parentPk) parent row →
        Finds sqlType vs (parent parentPk) := by
  unfold Answerable at hkey
  unfold told at htold
  unfold reverseHop StandsFor Linked
  cases hrelation : relation.key with
  | direct foreignKey =>
    rw [hrelation] at hkey htold
    obtain ⟨vs, hvs, hfrom, hto⟩ := reverseQuery_spec hkey htold.1
    refine ⟨vs, hvs, fun v hv => columnLegible_usable htold (hfrom v hv), ?_⟩
    rintro row parent pk ⟨hmem, hselects⟩ - - - ⟨parentPk', hpk, hlink⟩
    cases Option.some.inj hpk
    obtain ⟨hnull, hreads⟩ := (htold.2.2 row hmem).readsAs hlink
    obtain ⟨v, hv, heq⟩ := hto row hmem hselects hnull
    exact ⟨v, hv, (hreads.congr heq).of_equals (LawfulPostgres.symm hlink)⟩
  | ofParent column =>
    rw [hrelation] at hkey htold
    obtain ⟨v, columnSqlType, hlocal, htype, husable⟩ := hkey
    have hkey' : KeyUsable db schema parentTable [(column, v)] := by
      intro entry hentry
      cases List.mem_singleton.mp hentry
      exact ⟨columnSqlType, htype, husable⟩
    obtain ⟨vs, hvs, hfrom, hto⟩ := reverseQuery_spec hkey' htold.1
    refine ⟨vs, by simp only [reverseLocal, hlocal, bind, Except.bind, hvs],
      fun v hv => columnLegible_usable htold (hfrom v hv), ?_⟩
    rintro row parent pk ⟨v', columnSqlType', hlocal', htype', hselects⟩ hpk hparent hself
      ⟨pk', hpk', hlink⟩
    rw [hlocal] at hlocal'
    cases hlocal'
    rw [hpk] at hpk'
    cases hpk'
    obtain ⟨hnull, hreads⟩ := (htold.2.2 parent hparent).readsAs hself
    have hselects' : KeySelects db schema parentTable [(column, v)] parent := by
      intro entry hentry
      cases List.mem_singleton.mp hentry
      exact ⟨columnSqlType', htype', hselects.of_equals (LawfulPostgres.symm hlink)⟩
    obtain ⟨w, hw, heq⟩ := hto parent hparent hselects' hnull
    exact ⟨w, hw, hreads.congr heq⟩
  | through through =>
    rw [hrelation] at hkey htold
    obtain ⟨v, rightType, hsingle, htype, husable⟩ := hkey
    have hkey' : KeyUsable db schema through.table [(through.rightKey, v)] := by
      intro entry hentry
      cases List.mem_singleton.mp hentry
      exact ⟨rightType, htype, husable⟩
    obtain ⟨vs, hvs, hfrom, hto⟩ := reverseQuery_spec hkey' htold.1
    refine ⟨vs, by simp only [if_neg (hjunction through hrelation), reverseThroughFar, hsingle,
      bind, Except.bind, hvs], fun v hv => columnLegible_usable htold (hfrom v hv), ?_⟩
    rintro row parent pk ⟨v', rightType', hsingle', htype', hselects⟩ hpk - -
      ⟨parentPk', hparentPk, farPk, hfar, junction, hmem, hright, hleft⟩
    rw [hsingle] at hsingle'
    cases hsingle'
    cases Option.some.inj hparentPk
    rw [hpk] at hfar
    cases hfar
    obtain ⟨hnull, hreads⟩ := (htold.2.2 junction hmem).readsAs hleft
    have hselects' : KeySelects db schema through.table [(through.rightKey, v)] junction := by
      intro entry hentry
      cases List.mem_singleton.mp hentry
      exact ⟨rightType', htype', hselects.of_equals hright⟩
    obtain ⟨w, hw, heq⟩ := hto junction hmem hselects' hnull
    exact ⟨w, hw, (hreads.congr heq).of_equals (LawfulPostgres.symm hleft)⟩

/-- A hop from the junction: it succeeds, and finds the parent of a junction row whose left key
the row key carries, or which is still there to be looked up. -/
theorem reverseThroughJunction_spec {through : Through} {p : ColumnName}
    (hkey : KeyUsable db schema through.table key)
    (hleft : ∀ entry ∈ key, entry.1 = through.leftKey → Usable S sqlType entry.2)
    (htold : ColumnLegible db schema (through.table, through.leftKey) target sqlType) :
    ∃ vs, reverseThroughJunction db schema through key = .ok vs ∧
      (∀ v ∈ vs, Usable S sqlType v) ∧
      ∀ (row parent : Row S),
        (∀ entry ∈ key, entry.1 = through.leftKey → ReadsAs sqlType entry.2 (row through.leftKey)) →
        ((∃ entry ∈ key, entry.1 = through.leftKey) ∨
          row ∈ rowsOf db schema through.table ∧ KeySelects db schema through.table key row) →
        Postgres.equals (row through.leftKey) (parent p) = true → Finds sqlType vs (parent p) := by
  unfold reverseThroughJunction
  cases hfind : key.find? fun entry => entry.1 = through.leftKey with
  | some entry =>
    have hmem := List.mem_of_find?_eq_some hfind
    have hcolumn : entry.1 = through.leftKey := by simpa using List.find?_some hfind
    refine ⟨[entry.2], rfl, ?_, ?_⟩
    · intro v hv
      cases List.mem_singleton.mp hv
      exact hleft entry hmem hcolumn
    · intro row parent hreads _ hlink
      exact ⟨entry.2, List.mem_singleton.mpr rfl,
        (hreads entry hmem hcolumn).of_equals (LawfulPostgres.symm hlink)⟩
  | none =>
    obtain ⟨vs, hvs, hfrom, hto⟩ := reverseQuery_spec hkey htold.1
    refine ⟨vs, hvs, fun v hv => columnLegible_usable htold (hfrom v hv), ?_⟩
    rintro row parent - (⟨entry, hentry, hcolumn⟩ | ⟨hmem, hselects⟩) hlink
    · have := List.find?_eq_none.mp hfind entry hentry
      simp [hcolumn] at this
    · obtain ⟨hnull, hreads⟩ := (htold.2.2 row hmem).readsAs hlink
      obtain ⟨v, hv, heq⟩ := hto row hmem hselects hnull
      exact ⟨v, hv, (hreads.congr heq).of_equals (LawfulPostgres.symm hlink)⟩

omit [LawfulPostgres S] in
theorem withOldParent_usable {vs : List GenericValue} {image : RowImage GenericValue}
    {link : ColumnName} (hvs : ∀ v ∈ vs, Usable S sqlType v)
    (hold : ∀ v, image.get link = some v → v.isNull = false → Usable S sqlType v) :
    ∀ v ∈ withOldParent vs image link, Usable S sqlType v := by
  intro v hv
  unfold withOldParent at hv
  split at hv
  · next old himage =>
    split at hv
    · next hadd =>
      rcases List.mem_append.mp hv with hv | hv
      · exact hvs v hv
      · cases List.mem_singleton.mp hv
        exact hold _ himage (by simpa using (Bool.and_eq_true_iff.mp hadd).1)
    · exact hvs v hv
  · exact hvs v hv

omit [LawfulPostgres S] in
theorem Finds.withOldParent {vs : List GenericValue} {s : S} {image : RowImage GenericValue}
    {link : ColumnName} (h : Finds sqlType vs s) :
    Finds sqlType (withOldParent vs image link) s := by
  obtain ⟨v, hv, hreads⟩ := h
  refine ⟨v, ?_, hreads⟩
  unfold Document.withOldParent
  split
  · split
    · exact List.mem_append_left _ hv
    · exact hv
  · exact hv

omit [LawfulPostgres S] in
theorem finds_withOldParent {vs : List GenericValue} {image : RowImage GenericValue}
    {link : ColumnName} {v : GenericValue} {s : S} (himage : image.get link = some v)
    (hnull : v.isNull = false) (hreads : ReadsAs sqlType v s) :
    Finds sqlType (Document.withOldParent vs image link) s := by
  unfold Document.withOldParent
  rw [himage]
  by_cases hmem : vs.contains v = true
  · obtain ⟨w, hw, heq⟩ := List.contains_iff_exists_mem_beq.mp hmem
    refine ⟨w, ?_, hreads.congr heq⟩
    simp only [hmem, Bool.not_true, Bool.and_false, Bool.false_eq_true, if_false]
    exact hw
  · refine ⟨v, ?_, hreads⟩
    have hadd : (!v.isNull && !vs.contains v) = true := by simp [hnull, hmem]
    simp only [hadd, if_true]
    exact List.mem_append_right _ (List.mem_singleton.mpr rfl)

end Hops

section Climb

variable {S : Type} [Postgres S] (db : Database S) (index : IndexSchema)

/-- The column the next hop compares a key of a table with; at the root, its key column. -/
def asked (table : TableName) (pk : ColumnName) : List Relation → TableName × ColumnName
  | [] => (table, pk)
  | relation :: above =>
    match relation.key with
    | .direct _ => (table, pk)
    | .ofParent column =>
      match above with
      | [] => (index.table, column)
      | parent :: _ => (parent.table, column)
    | .through through => (through.table, through.rightKey)

/-- A path can be climbed: no relation on it goes through its own table, and every column read
on the way reads back as values that select what it holds in the column compared next. -/
def Climbable : List Relation → Prop
  | [] => True
  | relation :: above =>
    (∀ through, relation.key = .through through → relation.table ≠ through.table) ∧
    (∃ parentTable parentPk sqlType, parentOf db index above = .ok (parentTable, parentPk) ∧
      ColumnLegible db index.dbSchema (told relation parentTable parentPk)
        (asked index parentTable parentPk above) sqlType) ∧
    Climbable above

variable {db index}

omit [Postgres S] in
theorem fst_parentOf {above : List Relation} {parent : TableName × ColumnName}
    (h : parentOf db index above = .ok parent) :
    parent.1 = match above with
      | [] => index.table
      | relation :: _ => relation.table := by
  cases above with
  | nil =>
    cases hpk : index.primaryKey with
    | none =>
      simp only [parentOf, hpk] at h
      cases h
    | some pk =>
      simp only [parentOf, hpk] at h
      cases h
      rfl
  | cons relation above =>
    obtain ⟨pk, -, h⟩ := Attempts.bind_ok.mp h
    cases h
    rfl

theorem answerable_single {relation : Relation} {above : List Relation} {pk : ColumnName}
    {parent : TableName × ColumnName} {v : GenericValue} {sqlType : String}
    (hparent : parentOf db index above = .ok parent)
    (htype : columnType db index.dbSchema (asked index relation.table pk (relation :: above)).1
      (asked index relation.table pk (relation :: above)).2 = .ok sqlType)
    (hv : Usable S sqlType v) :
    Answerable db index.dbSchema relation parent.1 [(pk, v)] := by
  unfold Answerable
  have hfst := fst_parentOf hparent
  cases hrelation : relation.key with
  | direct foreignKey =>
    simp only [asked, hrelation] at htype
    intro entry hentry
    cases List.mem_singleton.mp hentry
    exact ⟨sqlType, htype, hv⟩
  | ofParent column =>
    simp only [asked, hrelation] at htype
    refine ⟨v, sqlType, localTargetValue_single relation pk v, ?_, hv⟩
    rw [hfst]
    cases above <;> exact htype
  | through through =>
    simp only [asked, hrelation] at htype
    exact ⟨v, sqlType, rfl, htype, hv⟩

/-- A single-column key that selects a row stands for it in the next hop; across a direct link
the row is to be there. -/
theorem standsFor_single {relation : Relation} {above : List Relation} {pk : ColumnName}
    {parent : TableName × ColumnName} {v : GenericValue} {sqlType : String} {row : Row S}
    (hparent : parentOf db index above = .ok parent)
    (htype : columnType db index.dbSchema (asked index relation.table pk (relation :: above)).1
      (asked index relation.table pk (relation :: above)).2 = .ok sqlType)
    (hmem : ∀ foreignKey, relation.key = .direct foreignKey →
      row ∈ rowsOf db index.dbSchema relation.table) (hv : Selects sqlType v (row pk)) :
    StandsFor db index.dbSchema relation parent.1 [(pk, v)] pk row := by
  unfold StandsFor
  have hfst := fst_parentOf hparent
  cases hrelation : relation.key with
  | direct foreignKey =>
    simp only [asked, hrelation] at htype
    refine ⟨hmem foreignKey hrelation, fun entry hentry => ?_⟩
    cases List.mem_singleton.mp hentry
    exact ⟨sqlType, htype, hv⟩
  | ofParent column =>
    simp only [asked, hrelation] at htype
    refine ⟨v, sqlType, localTargetValue_single relation pk v, ?_, hv⟩
    rw [hfst]
    cases above <;> exact htype
  | through through =>
    simp only [asked, hrelation] at htype
    exact ⟨v, sqlType, rfl, htype, hv⟩

theorem hopParents_none {schema : DatabaseSchema} {relation : Relation}
    {currentTable parentTable : TableName} {parentPk : ColumnName} {key : RowKey GenericValue} :
    hopParents db schema none relation currentTable parentTable parentPk key =
      reverseHop db schema relation currentTable parentTable parentPk key := by
  unfold hopParents
  cases reverseHop db schema relation currentTable parentTable parentPk key <;> rfl

variable [LawfulPostgres S]

/-- From keys that can be evaluated a climbable path leads to root keys, and from a key that
selects a row it leads to the root the row hangs on. -/
theorem climb_spec {above : List Relation} {table : TableName} {pk : ColumnName}
    {sqlType : String} {keys : List (RowKey GenericValue)}
    (hparent : parentOf db index above = .ok (table, pk))
    (htype : columnType db index.dbSchema (asked index table pk above).1
      (asked index table pk above).2 = .ok sqlType)
    (hclimb : Climbable db index above)
    (hkeys : ∀ key ∈ keys, ∃ v, key = [(pk, v)] ∧ Usable S sqlType v) :
    ∃ out rootPk rootType, climb db index none table above keys = .ok out ∧
      index.primaryKey = some rootPk ∧
      columnType db index.dbSchema index.table rootPk = .ok rootType ∧
      (∀ key ∈ out, ∃ v, key = [(rootPk, v)]) ∧
      ∀ root row, Chain db index root above table pk row →
        (∃ v, [(pk, v)] ∈ keys ∧ ReadsAs sqlType v (row pk)) →
        ∃ v, [(rootPk, v)] ∈ out ∧ ReadsAs rootType v (root rootPk) := by
  induction above generalizing table pk sqlType keys with
  | nil =>
    cases hpk : index.primaryKey with
    | none =>
      simp only [parentOf, hpk] at hparent
      cases hparent
    | some rootPk =>
      simp only [parentOf, hpk] at hparent
      cases hparent
      refine ⟨keys, pk, sqlType, rfl, rfl, htype, fun key hkey => ?_, ?_⟩
      · obtain ⟨v, rfl, -⟩ := hkeys key hkey
        exact ⟨v, rfl⟩
      · rintro root row hchain hv
        cases hchain
        exact hv
  | cons relation above ih =>
    obtain ⟨hself, ⟨parentTable, parentPk, parentType, hparent', htold⟩, hclimb⟩ := hclimb
    obtain ⟨pk', hpk, hparent⟩ := Attempts.bind_ok.mp hparent
    cases hparent
    have hop : ∀ v, Usable S sqlType v → ∃ vs,
        hopParents db index.dbSchema none relation relation.table parentTable parentPk [(pk, v)] =
          .ok vs ∧
        (∀ w ∈ vs, Usable S parentType w) ∧
        ∀ row parent : Row S, ReadsAs sqlType v (row pk) →
          row ∈ rowsOf db index.dbSchema relation.table →
          parent ∈ rowsOf db index.dbSchema parentTable →
          Postgres.equals (parent parentPk) (parent parentPk) = true →
          Linked db index.dbSchema relation (some parentPk) parent row →
          Finds parentType vs (parent parentPk) := by
      intro v hv
      obtain ⟨vs, hvs, husable, hfinds⟩ := reverseHop_spec (t := relation.table)
        (answerable_single hparent' htype hv) hself htold
      refine ⟨vs, by rw [hopParents_none, hvs], husable, ?_⟩
      intro row parent hreads hmem hparentMem hparentSelf hlink
      exact hfinds row parent pk (standsFor_single hparent' htype (fun _ _ => hmem) hreads.selects) hpk
        hparentMem hparentSelf hlink
    have hall : ∀ key ∈ keys, ∃ vs, hopParents db index.dbSchema none relation relation.table
        parentTable parentPk key = .ok vs := by
      intro key hkey
      obtain ⟨v, rfl, hv⟩ := hkeys key hkey
      exact (hop v hv).imp fun _ h => h.1
    obtain ⟨parents, hparents⟩ := Attempts.exists_mapM hall
    have hnext : ∀ key ∈ parents.flatten.eraseDups.map fun v => [(parentPk, v)],
        ∃ v, key = [(parentPk, v)] ∧ Usable S parentType v := by
      intro key hkey
      obtain ⟨w, hw, rfl⟩ := List.mem_map.mp hkey
      obtain ⟨vs, hvs, hw⟩ := List.mem_flatten.mp (Attempts.mem_of_mem_eraseDups hw)
      obtain ⟨key, hkey, hfrom⟩ := Attempts.mem_of_mapM hparents hvs
      obtain ⟨v, rfl, hv⟩ := hkeys key hkey
      obtain ⟨vs', hvs', husable, -⟩ := hop v hv
      rw [hfrom] at hvs'
      cases hvs'
      exact ⟨w, rfl, husable w hw⟩
    obtain ⟨out, rootPk, rootType, hout, hrootPk, hrootType, hsingle, hroots⟩ :=
      ih hparent' htold.2.1 hclimb hnext
    refine ⟨out, rootPk, rootType, ?_, hrootPk, hrootType, hsingle, ?_⟩
    · simp only [climb, hparent', hparents, bind, Except.bind, hout]
    · rintro root row hchain ⟨v, hv, hreads⟩
      cases hchain with
      | @hop _ _ parentTable' parentPk' parent _ _ hupper _ hmem _ hlink =>
        have heq := hupper.parentOf_eq
        rw [hparent'] at heq
        cases heq
        obtain ⟨v', hkey, hv'⟩ := hkeys _ hv
        cases hkey
        obtain ⟨vs, hvs, -, hfinds⟩ := hop v hv'
        obtain ⟨vs', hmem', hfrom⟩ := Attempts.mem_mapM hparents hv
        rw [hvs] at hfrom
        cases hfrom
        obtain ⟨w, hw, hw'⟩ := hfinds row parent hreads hmem hupper.mem hupper.self hlink
        have hflat : Finds parentType parents.flatten (parent parentPk) :=
          ⟨w, List.mem_flatten.mpr ⟨vs, hmem', hw⟩, hw'⟩
        obtain ⟨w, hw, hw'⟩ := hflat.eraseDups
        exact hroots root parent hupper ⟨w, List.mem_map.mpr ⟨w, hw, rfl⟩, hw'⟩

/-- A path whose first hop succeeds leads to root key values, and to the root of a chain when
the first hop finds the chain's end. -/
theorem resolvePath_spec {table : TableName} {key : RowKey GenericValue}
    {before : Option (RowImage GenericValue)} {path above : List Relation} {relation : Relation}
    {parentTable : TableName} {parentPk : ColumnName} {parentType : String}
    {vs : List GenericValue} (hpath : path.reverse = relation :: above)
    (hparent : parentOf db index above = .ok (parentTable, parentPk))
    (htype : columnType db index.dbSchema (asked index parentTable parentPk above).1
      (asked index parentTable parentPk above).2 = .ok parentType)
    (hclimb : Climbable db index above)
    (hhop : hopParents db index.dbSchema before relation table parentTable parentPk key = .ok vs)
    (husable : ∀ v ∈ vs, Usable S parentType v) :
    ∃ roots rootPk rootType, resolvePath db index table key before path = .ok roots ∧
      index.primaryKey = some rootPk ∧
      columnType db index.dbSchema index.table rootPk = .ok rootType ∧
      ∀ root parent, Chain db index root above parentTable parentPk parent →
        Finds parentType vs (parent parentPk) → Finds rootType roots (root rootPk) := by
  have hkeys : ∀ key ∈ vs.eraseDups.map fun v => [(parentPk, v)],
      ∃ v, key = [(parentPk, v)] ∧ Usable S parentType v := by
    intro key hkey
    obtain ⟨v, hv, rfl⟩ := List.mem_map.mp hkey
    exact ⟨v, rfl, husable v (Attempts.mem_of_mem_eraseDups hv)⟩
  obtain ⟨out, rootPk, rootType, hout, hrootPk, hrootType, hsingle, hroots⟩ :=
    climb_spec hparent htype hclimb hkeys
  have hresolve : resolvePath db index table key before path =
      .ok (out.filterMap fun key => key.head?.map Prod.snd) := by
    simp only [resolvePath, hpath, climb, hparent, List.mapM_cons, List.mapM_nil, hhop, bind,
      Except.bind, pure, Except.pure, List.flatten_cons, List.flatten_nil, List.append_nil, hout]
  refine ⟨_, rootPk, rootType, hresolve, hrootPk, hrootType, ?_⟩
  intro root parent hchain hfinds
  obtain ⟨v, hv, hreads⟩ := hfinds.eraseDups
  obtain ⟨w, hw, hw'⟩ := hroots root parent hchain ⟨v, List.mem_map.mpr ⟨v, hv, rfl⟩, hreads⟩
  exact ⟨w, List.mem_filterMap.mpr ⟨_, hw, rfl⟩, hw'⟩

end Climb

end Flusso.Document
