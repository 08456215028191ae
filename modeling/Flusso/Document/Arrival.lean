import Flusso.Document.Changes

/-! # Where a change enters a path

The first hop starts from the decoded key and pre-image of a change. It finds
the parent of the new version of the row in the database, and the parent of the
old one in the key or the pre-image.
-/

namespace Flusso.Document

open Cdc Pgoutput

section Keys

variable {k k' : RowKey GenericValue}

theorem exists_left_of_beq (h : (k == k') = true) {entry : ColumnName × GenericValue}
    (hentry : entry ∈ k') : ∃ e ∈ k, e.1 = entry.1 ∧ (e.2 == entry.2) = true := by
  induction k' generalizing k with
  | nil => cases hentry
  | cons e' k' ih =>
    cases k with
    | nil => cases h
    | cons e k =>
      simp only [List.cons_beq_cons, Bool.and_eq_true] at h
      rcases List.mem_cons.mp hentry with rfl | hentry
      · exact ⟨e, List.mem_cons_self, by simpa using (Bool.and_eq_true_iff.mp h.1).1,
          (Bool.and_eq_true_iff.mp h.1).2⟩
      · obtain ⟨e, he, heq⟩ := ih h.2 hentry
        exact ⟨e, List.mem_cons_of_mem _ he, heq⟩

end Keys

section Legible

variable {S : Type} [Postgres S] (db : Database S) (index : IndexSchema) (rel : Pgoutput.Relation)

/-- The decoded key of a row selects it in its own table. -/
def KeyLegible (row : Row S) : Prop :=
  ∀ column ∈ rel.columns, rel.keys column = true → ∃ sqlType,
    columnType db index.dbSchema rel.table column.name = .ok sqlType ∧
      ReadsAs sqlType (cellValue column (row column.name)) (row column.name)

/-- What a row version shows the first hop of a path reads as what the row holds: its key in its
own table and in the column compared with it, and its link in the parent's next column. -/
structure RowLegible (relation : Relation) (above : List Relation) (parentType : String)
    (row : Row S) : Prop where
  key : KeyLegible db index rel row
  target : relation.table = rel.table →
    ∀ pk, tablePrimaryKey db index.dbSchema rel.table = .ok pk →
      ∃ sqlType, columnType db index.dbSchema (asked index rel.table pk (relation :: above)).1
          (asked index rel.table pk (relation :: above)).2 = .ok sqlType ∧
        ∀ column ∈ rel.columns, column.name = pk →
          ReadsAs sqlType (cellValue column (row pk)) (row pk)
  link : ∀ link, linkOnRow relation rel.table = some link →
    ∀ column ∈ rel.columns, column.name = link →
      Legible parentType (cellValue column (row link)) (row link)

/-- The old link of a row reaches the resolver: the identity carries it, and a direct link comes
with a pre-image, that is, the identity carries a column beyond the key. -/
def LinkCarried (relation : Relation) : Prop :=
  ∀ link, linkOnRow relation rel.table = some link →
    (∃ column ∈ rel.columns, column.isKey = true ∧ column.name = link) ∧
    ∀ foreignKey, relation.key = .direct foreignKey →
      ∃ column ∈ rel.columns, column.isKey = true ∧ rel.keys column = false

end Legible

section FirstHop

variable {S : Type} [Postgres S] {db : Database S} {index : IndexSchema}
  {rel : Pgoutput.Relation} {relation : Relation} {above : List Relation}
  {parentTable : TableName} {parentPk : ColumnName} {parentType : String} {row : Row S}

theorem KeyLegible.keyUsable (h : KeyLegible db index rel row) :
    KeyUsable db index.dbSchema rel.table (keyOf rel row) := by
  intro entry hentry
  obtain ⟨column, hmem, hkeys, rfl⟩ := mem_keyOf.mp hentry
  obtain ⟨sqlType, htype, hreads⟩ := h column hmem hkeys
  exact ⟨sqlType, htype, hreads.selects.usable⟩

theorem KeyLegible.keySelects (h : KeyLegible db index rel row) :
    KeySelects db index.dbSchema rel.table (keyOf rel row) row := by
  intro entry hentry
  obtain ⟨column, hmem, hkeys, rfl⟩ := mem_keyOf.mp hentry
  obtain ⟨sqlType, htype, hreads⟩ := h column hmem hkeys
  exact ⟨sqlType, htype, hreads.selects⟩

theorem not_isNull_of_bindable {v : GenericValue} (h : v.isBindableScalar = true) :
    v.isNull = false := by
  cases v <;> first | rfl | cases h

theorem get_imageOf {schema : DatabaseSchema} {table : TableName}
    (ha : Announced rel db schema table) {image : RowImage GenericValue}
    (himage : imageOf rel row = some image) {column : Pgoutput.Column}
    (hmem : column ∈ rel.columns) (hkey : column.isKey = true) :
    image.get column.name = some (cellValue column (row column.name)) := by
  unfold imageOf at himage
  split at himage
  · cases himage
    have hfind : ((rel.columns.filter Pgoutput.Column.isKey).map fun c =>
        (c.name, cellValue c (row c.name))).find? (fun entry => entry.1 = column.name) =
        some (column.name, cellValue column (row column.name)) := by
      rw [List.find?_map]
      have hcolumn : (rel.columns.filter Pgoutput.Column.isKey).find?
          ((fun entry => decide (entry.1 = column.name)) ∘
            fun c => (c.name, cellValue c (row c.name))) = some column := by
        cases hfound : (rel.columns.filter Pgoutput.Column.isKey).find?
            ((fun entry => decide (entry.1 = column.name)) ∘
              fun c => (c.name, cellValue c (row c.name))) with
        | none =>
          have := List.find?_eq_none.mp hfound column (List.mem_filter.mpr ⟨hmem, hkey⟩)
          simp at this
        | some found =>
          have hname := List.find?_some hfound
          have hfoundMem := List.mem_of_mem_filter (List.mem_of_find?_eq_some hfound)
          rw [ha.column_unique hfoundMem hmem (by simpa using hname)]
      rw [hcolumn]
      rfl
    rw [RowImage.get, hfind]
    rfl
  · cases himage

theorem exists_imageOf {column : Pgoutput.Column} (row : Row S) (hmem : column ∈ rel.columns)
    (hkey : column.isKey = true) (hkeys : rel.keys column = false) :
    ∃ image, imageOf rel row = some image := by
  have hany : ((rel.columns.filter Pgoutput.Column.isKey).any fun c => !rel.keys c) = true :=
    List.any_eq_true.mpr ⟨column, List.mem_filter.mpr ⟨hmem, hkey⟩, by simp [hkeys]⟩
  exact ⟨_, by rw [imageOf, if_pos hany]⟩

theorem RowLegible.image_usable (h : RowLegible db index rel relation above parentType row)
    (ha : Announced rel db index.dbSchema rel.table) {image : RowImage GenericValue}
    (himage : imageOf rel row = some image) {link : ColumnName}
    (hlink : linkOnRow relation rel.table = some link) :
    ∀ v, image.get link = some v → v.isNull = false → Usable S parentType v := by
  intro v hget hnull
  have hfound : ∃ column ∈ rel.columns, column.isKey = true ∧ column.name = link := by
    unfold imageOf at himage
    split at himage
    · cases himage
      obtain ⟨entry, hentry, -⟩ := Option.map_eq_some_iff.mp hget
      have hname := List.find?_some hentry
      obtain ⟨column, hcolumn, rfl⟩ := List.mem_map.mp (List.mem_of_find?_eq_some hentry)
      exact ⟨column, List.mem_of_mem_filter hcolumn, (List.mem_filter.mp hcolumn).2,
        by simpa using hname⟩
    · cases himage
  obtain ⟨column, hmem, hkey, rfl⟩ := hfound
  rw [get_imageOf ha himage hmem hkey] at hget
  cases hget
  exact (h.link _ hlink column hmem rfl).usable hnull

/-- What the first hop from a changed row finds: the parents of the version its key is of, when
that is still there, and the parents of an old version that is carried along. -/
structure Arrives (db : Database S) (index : IndexSchema) (rel : Pgoutput.Relation)
    (relation : Relation) (above : List Relation) (parentTable : TableName)
    (parentPk : ColumnName) (parentType : String) (before : Option (RowImage GenericValue))
    (row : Row S) (vs : List GenericValue) : Prop where
  usable : ∀ v ∈ vs, Usable S parentType v
  current : ∀ parent ∈ rowsOf db index.dbSchema parentTable,
    Postgres.equals (parent parentPk) (parent parentPk) = true →
    row ∈ rowsOf db index.dbSchema rel.table →
    Touches db index.dbSchema relation (some parentPk) parent rel.table row →
    Finds parentType vs (parent parentPk)
  old : ∀ old, before = imageOf rel old → (keyOf rel old == keyOf rel row) = true →
    RowLegible db index rel relation above parentType old → LinkCarried rel relation →
    ∀ parent ∈ rowsOf db index.dbSchema parentTable,
      Postgres.equals (parent parentPk) (parent parentPk) = true →
      Touches db index.dbSchema relation (some parentPk) parent rel.table old →
      Finds parentType vs (parent parentPk)

variable [LawfulPostgres S] {before : Option (RowImage GenericValue)}

theorem finds_old_link (ha : Announced rel db index.dbSchema rel.table) {old parent : Row S}
    (hold : RowLegible db index rel relation above parentType old) {link : ColumnName}
    (hlink : linkOnRow relation rel.table = some link) {image : RowImage GenericValue}
    (himage : imageOf rel old = some image) {column : Pgoutput.Column}
    (hmem : column ∈ rel.columns) (hkey : column.isKey = true) (hname : column.name = link)
    (hparent : Postgres.equals (old link) (parent parentPk) = true) {vs : List GenericValue} :
    Finds parentType (withOldParent vs image link) (parent parentPk) := by
  subst hname
  obtain ⟨hnull, hreads⟩ := (hold.link _ hlink column hmem rfl).readsAs hparent
  exact finds_withOldParent (get_imageOf ha himage hmem hkey) hnull
    (hreads.of_equals (LawfulPostgres.symm hparent))

theorem arrives_target (ha : Announced rel db index.dbSchema rel.table)
    (htable : relation.table = rel.table)
    (hself : ∀ through, relation.key = .through through → relation.table ≠ through.table)
    (hpk : ∃ pk, tablePrimaryKey db index.dbSchema relation.table = .ok pk)
    (hparent : parentOf db index above = .ok (parentTable, parentPk))
    {target : TableName × ColumnName}
    (htold : ColumnLegible db index.dbSchema (told relation parentTable parentPk) target parentType)
    (hrow : RowLegible db index rel relation above parentType row)
    (hbefore : ∀ image, before = some image → ∃ old, imageOf rel old = some image ∧
      RowLegible db index rel relation above parentType old) :
    ∃ vs, hopParents db index.dbSchema before relation rel.table parentTable parentPk
        (keyOf rel row) = .ok vs ∧
      Arrives db index rel relation above parentTable parentPk parentType before row vs := by
  obtain ⟨pk, hpk⟩ := hpk
  rw [htable] at hpk
  have hnotJunction : ∀ through, relation.key = .through through → rel.table ≠ through.table :=
    fun through hkey => htable ▸ hself through hkey
  obtain ⟨column, hmem, hname, hkeys, hkeyOf⟩ := ha.keyOf_single hpk row
  obtain ⟨sqlType, htype, hreads⟩ := hrow.target htable pk hpk
  have htype' : columnType db index.dbSchema (asked index relation.table pk (relation :: above)).1
      (asked index relation.table pk (relation :: above)).2 = .ok sqlType := by
    rw [htable]
    exact htype
  obtain ⟨vs, hvs, husable, hfinds⟩ := reverseHop_spec
    (answerable_single hparent htype' (hreads column hmem hname).selects.usable) hnotJunction htold
  rw [← hkeyOf] at hvs hfinds
  -- Save across a direct link, an old version is found by the key it shares with the new one.
  have hcurrent : ∀ y : Row S, RowLegible db index rel relation above parentType y →
      (keyOf rel y == keyOf rel row) = true →
      (∀ foreignKey, relation.key = .direct foreignKey → y ∈ rowsOf db index.dbSchema rel.table) →
      ∀ parent ∈ rowsOf db index.dbSchema parentTable,
        Postgres.equals (parent parentPk) (parent parentPk) = true →
        Touches db index.dbSchema relation (some parentPk) parent rel.table y →
        Finds parentType vs (parent parentPk) := by
    intro y hy hsame hthere parent hparentMem hparentSelf htouch
    have hlinked : Linked db index.dbSchema relation (some parentPk) parent y := by
      rcases htouch with ⟨-, hlinked⟩ | ⟨through, hkey, hthrough, -⟩
      · exact hlinked
      · exact absurd hthrough.symm (hnotJunction through hkey)
    refine hfinds y parent pk ?_ (htable ▸ hpk) hparentMem hparentSelf hlinked
    obtain ⟨column', hmem', hname', -, hkeyOf'⟩ := ha.keyOf_single hpk y
    obtain ⟨sqlType', htypeY, hreadsY⟩ := hy.target htable pk hpk
    rw [htype] at htypeY
    cases htypeY
    rw [hkeyOf, hkeyOf'] at hsame
    simp only [List.cons_beq_cons, Bool.and_eq_true] at hsame
    rw [hkeyOf]
    exact standsFor_single hparent htype' (fun foreignKey hkey => htable ▸ hthere foreignKey hkey)
      ((hreadsY column' hmem' hname').congr (Bool.and_eq_true_iff.mp hsame.1).2).selects
  cases hrelation : relation.key with
  | direct foreignKey =>
    have hlink : linkOnRow relation rel.table = some foreignKey := by
      simp only [linkOnRow, hrelation]
    cases before with
    | none =>
      refine ⟨vs, by rw [hopParents_none, hvs], husable, fun parent hp hs hthere =>
        hcurrent row hrow BEq.rfl (fun _ _ => hthere) parent hp hs, ?_⟩
      intro old himage _ _ hcarried
      obtain ⟨c, hc, hckey, hbeyond⟩ := (hcarried foreignKey hlink).2 foreignKey hrelation
      obtain ⟨image, himage'⟩ := exists_imageOf old hc hckey hbeyond
      rw [himage'] at himage
      cases himage
    | some image =>
      obtain ⟨x, himage, hx⟩ := hbefore image rfl
      refine ⟨withOldParent vs image foreignKey, ?_, ?_, ?_, ?_⟩
      · simp only [hopParents, hvs, hlink, bind, Except.bind, pure, Except.pure]
      · exact withOldParent_usable husable (hx.image_usable ha himage hlink)
      · intro parent hp hs hthere htouch
        exact (hcurrent row hrow BEq.rfl (fun _ _ => hthere) parent hp hs htouch).withOldParent
      · intro old himage' _ hold hcarried parent _ _ htouch
        obtain ⟨⟨c, hc, hckey, hcname⟩, -⟩ := hcarried foreignKey hlink
        have hequals : Postgres.equals (old foreignKey) (parent parentPk) = true := by
          rcases htouch with ⟨-, hlinked⟩ | ⟨through, hkey, -⟩
          · simp only [Linked, hrelation] at hlinked
            obtain ⟨parentPk', hpk', hequals⟩ := hlinked
            cases Option.some.inj hpk'
            exact hequals
          · rw [hrelation] at hkey
            cases hkey
        exact finds_old_link ha hold hlink himage'.symm hc hckey hcname hequals
  | ofParent _ | through _ =>
    have hlink : linkOnRow relation rel.table = none := by
      simp only [linkOnRow, hrelation, ite_eq_right_iff, reduceCtorEq]
      try exact hnotJunction _ hrelation
    have hhop : hopParents db index.dbSchema before relation rel.table parentTable parentPk
        (keyOf rel row) = .ok vs := by
      simp only [hopParents, hvs, hlink, bind, Except.bind, pure, Except.pure]
    refine ⟨vs, hhop, husable, ?_, ?_⟩
    · intro parent hp hs hthere
      exact hcurrent row hrow BEq.rfl (fun _ _ => hthere) parent hp hs
    · intro old _ hsame hold _
      exact hcurrent old hold hsame (fun _ hkey => by rw [hrelation] at hkey; cases hkey)

theorem arrives_junction (ha : Announced rel db index.dbSchema rel.table) {through : Through}
    (hrelation : relation.key = .through through) (htable : through.table = rel.table)
    (hself : relation.table ≠ through.table) {target : TableName × ColumnName}
    (htold : ColumnLegible db index.dbSchema (told relation parentTable parentPk) target parentType)
    (hrow : RowLegible db index rel relation above parentType row)
    (hbefore : ∀ image, before = some image → ∃ old, imageOf rel old = some image ∧
      RowLegible db index rel relation above parentType old) :
    ∃ vs, hopParents db index.dbSchema before relation rel.table parentTable parentPk
        (keyOf rel row) = .ok vs ∧
      Arrives db index rel relation above parentTable parentPk parentType before row vs := by
  have hlink : linkOnRow relation rel.table = some through.leftKey := by
    simp only [linkOnRow, hrelation, htable, if_true]
  have hleft : ∀ y : Row S, RowLegible db index rel relation above parentType y →
      ∀ entry ∈ keyOf rel y, entry.1 = through.leftKey →
        ReadsAs parentType entry.2 (y through.leftKey) := by
    intro y hy entry hentry hname
    obtain ⟨column, hmem, hkeys, rfl⟩ := mem_keyOf.mp hentry
    dsimp only at hname ⊢
    obtain ⟨sqlType, -, hreads⟩ := hy.key column hmem hkeys
    have hnull := not_isNull_of_bindable hreads.selects.1
    have hlegible := hy.link _ hlink column hmem hname
    rw [hname] at hnull ⊢
    rcases hlegible with ⟨hnull', -⟩ | ⟨-, hreads'⟩
    · rw [hnull] at hnull'
      cases hnull'
    · exact hreads'
  simp only [told, hrelation] at htold
  obtain ⟨vs, hvs, husable, hfinds⟩ := reverseThroughJunction_spec (p := parentPk)
    (htable ▸ hrow.key.keyUsable)
    (fun entry hentry hname => (hleft row hrow entry hentry hname).selects.usable) htold
  have hhop : reverseHop db index.dbSchema relation rel.table parentTable parentPk
      (keyOf rel row) = .ok vs := by
    simp only [reverseHop, hrelation, htable, if_true]
    exact hvs
  have hequals : ∀ y parent : Row S,
      Touches db index.dbSchema relation (some parentPk) parent rel.table y →
      Postgres.equals (y through.leftKey) (parent parentPk) = true := by
    rintro y parent (⟨hrel, -⟩ | ⟨through', hkey, -, pk, hpk, hequals⟩)
    · exact absurd (hrel.trans htable.symm) hself
    · rw [hrelation] at hkey
      cases hkey
      cases Option.some.inj hpk
      exact hequals
  have hcurrent : ∀ parent : Row S, row ∈ rowsOf db index.dbSchema rel.table →
      Touches db index.dbSchema relation (some parentPk) parent rel.table row →
      Finds parentType vs (parent parentPk) := by
    intro parent hthere htouch
    refine hfinds row parent (hleft row hrow) (Or.inr ⟨htable ▸ hthere, ?_⟩)
      (hequals row parent htouch)
    exact htable ▸ hrow.key.keySelects
  -- An old version is found by a left key in the row key, or by the pre-image that holds it.
  have hkeyed : ∀ old : Row S, (keyOf rel old == keyOf rel row) = true →
      RowLegible db index rel relation above parentType old →
      (∃ entry ∈ keyOf rel row, entry.1 = through.leftKey) → ∀ parent : Row S,
      Touches db index.dbSchema relation (some parentPk) parent rel.table old →
      Finds parentType vs (parent parentPk) := by
    intro old hsame hold hcarries parent htouch
    refine hfinds old parent ?_ (Or.inl hcarries) (hequals old parent htouch)
    intro entry hentry hname
    obtain ⟨e, he, hename, heq⟩ := exists_left_of_beq hsame hentry
    exact (hleft old hold e he (hename.trans hname)).congr heq
  have hbeyond : ∀ old : Row S, (keyOf rel old == keyOf rel row) = true →
      LinkCarried rel relation → (∃ entry ∈ keyOf rel row, entry.1 = through.leftKey) ∨
        ∃ image, imageOf rel old = some image := by
    intro old hsame hcarried
    obtain ⟨⟨column, hmem, hkey, hname⟩, -⟩ := hcarried _ hlink
    cases hkeys : rel.keys column with
    | true =>
      exact Or.inl ⟨_, mem_keyOf.mpr ⟨column, hmem, hkeys, rfl⟩, hname⟩
    | false => exact Or.inr (exists_imageOf old hmem hkey hkeys)
  cases before with
  | none =>
    refine ⟨vs, by rw [hopParents_none, hhop], husable, fun parent _ _ => hcurrent parent, ?_⟩
    intro old himage hsame hold hcarried parent _ _ htouch
    rcases hbeyond old hsame hcarried with hcarries | ⟨image, himage'⟩
    · exact hkeyed old hsame hold hcarries parent htouch
    · rw [himage'] at himage
      cases himage
  | some image =>
    obtain ⟨x, himage, hx⟩ := hbefore image rfl
    refine ⟨withOldParent vs image through.leftKey, ?_, ?_, ?_, ?_⟩
    · simp only [hopParents, hhop, hlink, bind, Except.bind, pure, Except.pure]
    · exact withOldParent_usable husable (hx.image_usable ha himage hlink)
    · intro parent _ _ hthere htouch
      exact (hcurrent parent hthere htouch).withOldParent
    · intro old himage' hsame hold hcarried parent _ _ htouch
      obtain ⟨⟨column, hmem, hkey, hname⟩, -⟩ := hcarried _ hlink
      exact finds_old_link ha hold hlink himage'.symm hmem hkey hname (hequals old parent htouch)

/-- The first hop of a path to a changed row. -/
theorem exists_arrives (ha : Announced rel db index.dbSchema rel.table)
    (hhit : hits relation rel.table = true)
    (hself : ∀ through, relation.key = .through through → relation.table ≠ through.table)
    (hpk : ∃ pk, tablePrimaryKey db index.dbSchema relation.table = .ok pk)
    (hparent : parentOf db index above = .ok (parentTable, parentPk))
    {target : TableName × ColumnName}
    (htold : ColumnLegible db index.dbSchema (told relation parentTable parentPk) target parentType)
    (hrow : RowLegible db index rel relation above parentType row)
    (hbefore : ∀ image, before = some image → ∃ old, imageOf rel old = some image ∧
      RowLegible db index rel relation above parentType old) :
    ∃ vs, hopParents db index.dbSchema before relation rel.table parentTable parentPk
        (keyOf rel row) = .ok vs ∧
      Arrives db index rel relation above parentTable parentPk parentType before row vs := by
  by_cases htable : relation.table = rel.table
  · exact arrives_target ha htable hself hpk hparent htold hrow hbefore
  · obtain ⟨through, hrelation, hthrough⟩ : ∃ through, relation.key = .through through ∧
        through.table = rel.table := by
      unfold hits at hhit
      cases hrelation : relation.key with
      | through through =>
        simp only [hrelation, htable, decide_false, Bool.false_or, decide_eq_true_eq] at hhit
        exact ⟨through, rfl, hhit⟩
      | direct foreignKey => simp [hrelation, htable] at hhit
      | ofParent column => simp [hrelation, htable] at hhit
    exact arrives_junction ha hrelation hthrough (hself through hrelation) htold hrow hbefore

end FirstHop

end Flusso.Document
