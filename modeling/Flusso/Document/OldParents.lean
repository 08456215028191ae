import Flusso.Cdc.ReplicaIdentity
import Flusso.Document.RootPaths

/-! # Old parents

What the check of the replica identity promises: a deleted or re-parented row is
traced to the document that held it. The resolver keeps the promise where a
pre-image comes with the change; a direct link inside the primary key has none
unless the identity carries more than the key, and the row is gone by then.
-/

namespace Flusso.Document

open Cdc Pgoutput

section Promise

/-- A link column of a relation on the rows of a table that is not reported as uncarried. -/
def Unreported (spec : SourceSpec) (rel : Pgoutput.Relation) (relation : Relation)
    (link : ColumnName) : Prop :=
  linkOnRow relation rel.table = some link ∧
    link ∉ uncarried rel.carries rel.primaryKey
      (preImageColumns spec rel.dbSchema rel.table)

/-- Each delete, and each update of a link column that is not reported, resolves to the root
whose document held the row across that link, as the link's path stands after the change. -/
def OldParentsResolved (S : Type) [Postgres S] (spec : SourceSpec) (rel : Pgoutput.Relation) :
    Prop :=
  ∀ (db db' : Database S) (change : RowChange S) (old : Row S), Observed spec rel db db' change →
    change.old = some old → ∃ events, change.events rel = .ok events ∧
      ∀ entry ∈ spec.indexes, entry.2.dbSchema = rel.dbSchema →
      ∀ path ∈ findPaths rel.table [] entry.2.fields,
      ∀ relation above, path.reverse = relation :: above →
      ∀ link, Unreported spec rel relation link →
      (∀ new, change.new = some new → old link ≠ new link) →
      ∀ root parentTable parentPk parent, Chain db' entry.2 root above parentTable parentPk parent →
        Touches db entry.2.dbSchema relation (some parentPk) parent rel.table old →
        ∃ event ∈ events, Resolved db' spec entry.1 entry.2 root event

/-- A link column that is not reported does not lead from an index's root table to itself, and
a direct one has an identity column beyond the key beside it. -/
def Kept (spec : SourceSpec) (rel : Pgoutput.Relation) : Prop :=
  ∀ entry ∈ spec.indexes, entry.2.dbSchema = rel.dbSchema →
    ∀ path ∈ findPaths rel.table [] entry.2.fields,
    ∀ relation above, path.reverse = relation :: above →
    ∀ link, Unreported spec rel relation link → entry.2.table ≠ rel.table ∧
      ∀ foreignKey, relation.key = .direct foreignKey →
        ∃ column ∈ rel.columns, column.isKey = true ∧ rel.keys column = false

end Promise

section Sufficiency

variable {spec : SourceSpec} {rel : Pgoutput.Relation} {relation : Relation} {link : ColumnName}

theorem rowLink_mem_collectLinkColumns {table : TableName} {relation : Relation}
    {l : TableName × ColumnName} (hlink : rowLink relation = some l) (field : Field) :
    ∀ {above path rest : List Relation}, path ∈ fieldPaths table above field →
      path.reverse = relation :: rest → l ∈ fieldLinkColumns field := by
  induction field using Field.induct with
  | node field ih =>
    intro above path rest hpath hreverse
    have below : ∀ {above' : List Relation}, path ∈ findPaths table above' field.children →
        l ∈ collectLinkColumns field.children := by
      intro above' hpath
      obtain ⟨g, hg, hpath⟩ := mem_findPaths.mp hpath
      exact mem_collectLinkColumns_of_mem hg (ih g hg hpath hreverse)
    have here : ∀ {r : Relation}, path = above ++ [r] → l ∈ (rowLink r).toList := by
      rintro r rfl
      simp only [List.reverse_append, List.reverse_cons, List.reverse_nil, List.nil_append,
        List.cons_append, List.cons.injEq] at hreverse
      rw [hreverse.1, hlink]
      exact List.mem_singleton.mpr rfl
    cases field with
    | group name options fields =>
      rw [fieldPaths] at hpath
      exact below hpath
    | join name options source fields =>
      rw [fieldPaths, List.mem_append] at hpath
      rw [fieldLinkColumns, List.mem_append]
      rcases hpath with hpath | hpath
      · split at hpath
        · exact Or.inl (here (List.mem_singleton.mp hpath))
        · cases hpath
      · exact Or.inr (below hpath)
    | aggregate name options source =>
      rw [fieldPaths] at hpath
      split at hpath
      · exact here (List.mem_singleton.mp hpath)
      · cases hpath
    | column => cases hpath
    | geo => cases hpath
    | constant => cases hpath

theorem rowLink_of_linkOnRow {table : TableName} (hhit : hits relation table = true)
    (hlink : linkOnRow relation table = some link) : rowLink relation = some (table, link) := by
  cases hkey : relation.key with
  | direct foreignKey =>
    rw [linkOnRow, hkey] at hlink
    cases hlink
    have htable : relation.table = table := by simpa [hits, hkey] using hhit
    rw [rowLink, hkey, ← htable]
  | through through =>
    rw [linkOnRow, hkey] at hlink
    obtain ⟨htable, hlink⟩ := Option.ite_none_right_eq_some.mp hlink
    rw [rowLink, hkey, htable, ← Option.some.inj hlink]
  | ofParent column =>
    rw [linkOnRow, hkey] at hlink
    cases hlink

/-- A link that is not reported is carried, to a pre-image where it is direct. -/
theorem Kept.linkCarried (hkept : Kept spec rel) {entry : IndexName × IndexSchema}
    (hentry : entry ∈ spec.indexes) (hschema : entry.2.dbSchema = rel.dbSchema)
    {path above : List Relation} (hpath : path ∈ findPaths rel.table [] entry.2.fields)
    (hreverse : path.reverse = relation :: above)
    (hunreported : Unreported spec rel relation link) : LinkCarried rel relation := by
  intro link' hlink'
  obtain ⟨hlink, hreported⟩ := hunreported
  rw [hlink] at hlink'
  cases hlink'
  obtain ⟨relation', above', hreverse', hhit⟩ := exists_path_end hpath
  rw [hreverse] at hreverse'
  cases hreverse'
  obtain ⟨field, hfield, hfieldPath⟩ := mem_findPaths.mp hpath
  have hrequired : link ∈ preImageColumns spec rel.dbSchema rel.table := by
    rw [← hschema]
    exact mem_preImageColumns hentry (mem_collectLinkColumns_of_mem hfield
      (rowLink_mem_collectLinkColumns (rowLink_of_linkOnRow hhit hlink) field hfieldPath
        hreverse))
  exact ⟨(carried_of_not_mem_uncarried hrequired hreported).2,
    (hkept entry hentry hschema path hpath relation above hreverse link ⟨hlink, hreported⟩).2⟩

variable {S : Type} [Postgres S] [LawfulPostgres S]

theorem oldParentsResolved_of_kept (hkept : Kept spec rel) : OldParentsResolved S spec rel := by
  intro db db' change old hobs hold
  obtain ⟨events, hevents, hall, -, holds⟩ := hobs.announced.events_spec hobs.sent
  refine ⟨events, hevents, ?_⟩
  intro entry hentry hschema path hpath relation above hreverse link hunreported hchanged root
    parentTable parentPk parent hchain htouch
  obtain ⟨htable, -⟩ := hkept entry hentry hschema path hpath relation above hreverse link
    hunreported
  have hready := (hobs.ready entry hentry hschema).path htable path hpath relation above hreverse
  have hcarried := hkept.linkCarried hentry hschema hpath hreverse hunreported
  obtain ⟨column, hmem, hkey, hname⟩ := (hcarried link hunreported.1).1
  -- A changed link column is an identity column, so the old version is sent.
  rcases holds old hold with ⟨event, hevent, hsame, himage⟩ | ⟨new, hnew, hidentity⟩
  · obtain ⟨heventTable, ⟨row, hrow, hrowKey⟩, -⟩ := hall event hevent
    refine ⟨event, hevent, ?_⟩
    rw [Resolved, heventTable, hrowKey, himage]
    have hbefore : ∀ image, imageOf rel old = some image → ∃ x,
        change.Version x ∧ imageOf rel x = some image := fun _ h => ⟨old, Or.inl hold, h⟩
    refine hobs.resolved_path hrow hbefore hentry hschema htable hpath hreverse hchain ?_
    intro parentType vs harrives htype
    have hlegible := hready.legible _ _ _ hchain.parentOf_eq htype old (Or.inl hold)
    have htouch' := (hschema ▸ hobs.applied.survives hold :
      Survives db db' entry.2.dbSchema rel.table old).touches htouch
    exact harrives.old old rfl (hrowKey ▸ hsame) hlegible hcarried parent hchain.mem hchain.self
      htouch'
  · exact absurd (hname ▸ hidentity column hmem hkey) (hchanged new hnew)

end Sufficiency

section Necessity

/-- A table whose rows are the children of others: every path to it ends in a direct link and
passes it only there, from an index over another table that can be resolved. -/
structure ChildTable (spec : SourceSpec) (rel : Pgoutput.Relation) : Prop where
  nodup : (rel.columns.map Pgoutput.Column.name).Nodup
  primaryKey : ∃ pk, rel.primaryKey = [pk]
  carried : rel.primaryKeyIsCarried = true
  elsewhere : ∀ entry ∈ spec.indexes, entry.2.dbSchema ≠ rel.dbSchema →
    ¬ ReadsTable entry.2 rel.table
  root : ∀ entry ∈ spec.indexes, entry.2.table ≠ rel.table
  path : ∀ entry ∈ spec.indexes, ∀ path ∈ findPaths rel.table [] entry.2.fields,
    entry.2.primaryKey.isSome = true ∧ ∀ relation above, path.reverse = relation :: above →
      (∃ foreignKey, relation.key = .direct foreignKey) ∧
        ∀ r ∈ above, hits r rel.table = false ∧
          ∀ through, r.key = .through through → r.table ≠ through.table

variable {spec : SourceSpec} {rel : Pgoutput.Relation}

theorem cellValue_a (column : Pgoutput.Column) :
    cellValue column (some "a") = .string "a" := by
  change typedValue "a" column.typeOid = .string "a"
  unfold typedValue
  dsimp only
  split <;> rfl

section Gone

variable {S : Type} [Postgres S] {db : Database S} {index : IndexSchema}

theorem climb_nil {before : Option (RowImage GenericValue)} {table : TableName}
    {path : List Relation} {keys : List (RowKey GenericValue)}
    (h : climb db index before table path [] = .ok keys) : keys = [] := by
  induction path generalizing before table with
  | nil =>
    cases h
    rfl
  | cons relation above ih =>
    obtain ⟨parent, -, h⟩ := Attempts.bind_ok.mp h
    exact ih h

/-- Across a direct link of rows that are gone a path without a pre-image leads nowhere. -/
theorem resolvePath_gone {table : TableName} {key : RowKey GenericValue}
    {path above : List Relation} {relation : Relation} {foreignKey : ColumnName}
    {roots : List GenericValue} (hreverse : path.reverse = relation :: above)
    (hkey : relation.key = .direct foreignKey) (htable : relation.table = table)
    (hgone : rowsOf db index.dbSchema table = [])
    (h : resolvePath db index table key none path = .ok roots) : roots = [] := by
  obtain ⟨keys, hkeys, h⟩ := Attempts.bind_ok.mp h
  rw [hreverse] at hkeys
  obtain ⟨parent, -, hkeys⟩ := Attempts.bind_ok.mp hkeys
  obtain ⟨parents, hparents, hkeys⟩ := Attempts.bind_ok.mp hkeys
  have hempty : parents.flatten = [] := by
    rw [List.flatten_eq_nil_iff]
    intro vs hvs
    obtain ⟨k, hk, hhop⟩ := Attempts.mem_of_mapM hparents hvs
    rw [hopParents_none] at hhop
    simp only [reverseHop, hkey, reverseDirect, htable] at hhop
    obtain ⟨operands, -, hhop⟩ := Attempts.bind_ok.mp hhop
    obtain ⟨selectType, -, hhop⟩ := Attempts.bind_ok.mp hhop
    obtain ⟨t, ht, hhop⟩ := Attempts.bind_ok.mp hhop
    have hrows : t.rows = [] := by
      rw [List.eq_nil_iff_forall_not_mem]
      intro row hrow
      have := (mem_rowsOf_of_tableOf ht).mpr hrow
      rw [hgone] at this
      cases this
    rw [hrows] at hhop
    cases hhop
    rfl
  rw [hempty] at hkeys
  have hnil := climb_nil hkeys
  subst hnil
  cases h
  rfl

end Gone

theorem chain_original {index : IndexSchema} {rootPk : ColumnName} (key : ColumnName)
    {table : TableName} (rows : List (Row (Option String))) (hpk : index.primaryKey = some rootPk)
    (htable : index.table ≠ table) {above : List Relation}
    (habove : ∀ r ∈ above, hits r table = false) :
    ∃ parentTable parentPk, Chain (withRows key index.dbSchema table rows) index original above
      parentTable parentPk original := by
  have hmem : ∀ t, t ≠ table →
      original ∈ rowsOf (withRows key index.dbSchema table rows) index.dbSchema t := by
    intro t ht
    simp [rowsOf, withRows, ht]
  induction above with
  | nil => exact ⟨_, _, .root hpk (hmem _ htable) (equals_original _ _)⟩
  | cons relation above ih =>
    obtain ⟨parentTable, parentPk, hchain⟩ := ih fun r hr => habove r (List.mem_cons_of_mem _ hr)
    have hmiss := habove relation List.mem_cons_self
    simp only [hits, Bool.or_eq_false_iff, decide_eq_false_iff_not] at hmiss
    refine ⟨relation.table, key, .hop hchain rfl (hmem _ hmiss.1) (equals_original _ _) ?_⟩
    refine linked_original (fun through hkey => hmem _ ?_) rfl fun _ _ => rfl
    simpa [hkey] using hmiss.2

/-- The only row of a child table is deleted. -/
theorem ChildTable.observed_delete (hchild : ChildTable spec rel) {pk : ColumnName}
    (hprimary : rel.primaryKey = [pk]) :
    Observed spec rel (withRows pk rel.dbSchema rel.table [original])
      (withRows pk rel.dbSchema rel.table []) (.delete original) := by
  have hpresent : ∀ rows ⊆ [original], ∀ column s t,
      ∀ row ∈ rowsOf (withRows pk rel.dbSchema rel.table rows) s t,
        Postgres.equals (row column) (row column) = true := by
    intro rows hrows column
    apply withRows_present
    intro row hrow
    cases List.mem_singleton.mp (hrows hrow)
    rfl
  have hbefore := hpresent [original] (by simp)
  have hafter := hpresent [] (by simp)
  refine ⟨?_, ?_, trivial, ⟨?_, ?_⟩, ?_, hchild.elsewhere, ?_⟩
  · refine ⟨rfl, hchild.nodup, ⟨_, rfl, hprimary.symm⟩, hchild.carried⟩
  · refine ⟨fun s t hne => ?_, ⟨_, _, [], [], rfl, rfl, rfl, rfl, ?_, ?_⟩⟩
    · simp only [withRows, if_neg hne]
    · simp [RowChange.old]
    · simp [RowChange.new]
  · exact fun t pk _ => hbefore pk _ t
  · exact fun t pk _ => hafter pk _ t
  · rintro entry - pk - d (rfl | rfl)
    · exact hbefore pk _ _
    · exact hafter pk _ _
  · intro entry hentry' _
    refine withRows_textual.ready ?_ ?_ ?_ ?_
    · rintro row (hrow | hrow) column _
      · cases hrow
        exact cellValue_a column
      · cases hrow
    · rintro row (hrow | hrow)
      · cases hrow
        exact fun _ _ _ => rfl
      · cases hrow
    · rintro _ - row (hrow | hrow)
      · cases hrow
        rfl
      · cases hrow
    · intro path' hpath'
      obtain ⟨hpk', hends'⟩ := hchild.path entry hentry' path' hpath'
      refine ⟨hpk', fun r hr => ?_⟩
      obtain ⟨end', above', hreverse', -⟩ := exists_path_end hpath'
      obtain ⟨⟨fk, hfk⟩, habove⟩ := hends' end' above' hreverse'
      rw [← List.mem_reverse, hreverse'] at hr
      rcases List.mem_cons.mp hr with rfl | hr
      · intro through hthrough
        rw [hfk] at hthrough
        cases hthrough
      · exact (habove r hr).2

/-- Where old parents of a child table are resolved, its identity carries a column beyond the
key. -/
theorem kept_of_oldParentsResolved (hchild : ChildTable spec rel)
    (h : OldParentsResolved (Option String) spec rel) : Kept spec rel := by
  rintro ⟨name, index⟩ hentry hschema path hpath relation above hreverse link hunreported
  refine ⟨hchild.root _ hentry, fun foreignKey hdirect => ?_⟩
  by_contra hbeyond
  obtain ⟨hpk, hends⟩ := hchild.path _ hentry path hpath
  obtain ⟨rootPk, hrootPk⟩ := Option.isSome_iff_exists.mp hpk
  obtain ⟨pk, hprimary⟩ := hchild.primaryKey
  have himage : imageOf rel (original) = none := by
    refine if_neg fun hany => hbeyond ?_
    obtain ⟨column, hcolumn, hkeys⟩ := List.any_eq_true.mp hany
    obtain ⟨hmem, hkey⟩ := List.mem_filter.mp hcolumn
    exact ⟨column, hmem, hkey, by simpa using hkeys⟩
  let before := withRows pk rel.dbSchema rel.table [original]
  let after := withRows pk rel.dbSchema rel.table []
  have hobs : Observed spec rel before after (.delete original) := hchild.observed_delete hprimary
  obtain ⟨events, hevents, hresolved⟩ := h before after _ original hobs rfl
  obtain ⟨parentTable, parentPk, hchain⟩ := chain_original pk [] hrootPk
    (hchild.root _ hentry) fun r hr => ((hends relation above hreverse).2 r hr).1
  have htable : relation.table = rel.table := by
    obtain ⟨relation', above', hreverse', hhit⟩ := exists_path_end hpath
    rw [hreverse] at hreverse'
    cases hreverse'
    simpa [hits, hdirect] using hhit
  have htouch : Touches before index.dbSchema relation (some parentPk) original rel.table
      original := by
    refine Or.inl ⟨htable, ?_⟩
    unfold Linked
    rw [hdirect]
    exact ⟨parentPk, rfl, equals_original _ _⟩
  rw [hschema] at hchain
  obtain ⟨event, hevent, ids, hids, key, hid, -⟩ := hresolved _ hentry hschema path hpath relation
    above hreverse link hunreported (fun _ hnew => by cases hnew) original parentTable parentPk
    original hchain htouch
  -- No path finds a parent: each ends in a direct link of the row that is gone.
  obtain ⟨events', hevents', hall, -, -⟩ := hobs.announced.events_spec hobs.sent
  rw [hevents] at hevents'
  cases hevents'
  obtain ⟨heventTable, -, heventBefore⟩ := hall event hevent
  have hnone : event.before = none := by
    rcases heventBefore with hnone | ⟨old, hold, himage'⟩
    · exact hnone
    · cases hold
      rw [himage', himage]
  rw [heventTable, hnone] at hids
  obtain ⟨found, hindex, hid⟩ := exists_resolveIndex_of_mem_resolve hids hid hentry
  change index.primaryKey = some rootPk at hrootPk
  simp only [resolveIndex, if_neg (hchild.root _ hentry), if_neg (List.ne_nil_of_mem hpath),
    hrootPk] at hindex
  obtain ⟨roots, hroots, hindex⟩ := Attempts.bind_ok.mp hindex
  have hempty : roots.flatten = [] := by
    rw [List.flatten_eq_nil_iff]
    intro vs hvs
    obtain ⟨path', hpath', hvs⟩ := Attempts.mem_of_mapM hroots hvs
    obtain ⟨end', above', hreverse', hhit⟩ := exists_path_end hpath'
    obtain ⟨⟨fk, hfk⟩, -⟩ := (hchild.path _ hentry path' hpath').2 end' above' hreverse'
    refine resolvePath_gone hreverse' hfk ?_ ?_ hvs
    · simpa [hits, hfk] using hhit
    · change index.dbSchema = rel.dbSchema at hschema
      simp [rowsOf, after, withRows, hschema]
  rw [hempty] at hindex
  cases hindex
  cases hid

/-- The promise of the replica-identity check is kept under the condition, in every database, and
for child tables only there. -/
theorem oldParentsResolved_iff (spec : SourceSpec) (rel : Pgoutput.Relation) :
    (Kept spec rel →
      ∀ (S : Type) [Postgres S] [LawfulPostgres S], OldParentsResolved S spec rel) ∧
    (ChildTable spec rel →
      (∀ (S : Type) [Postgres S] [LawfulPostgres S], OldParentsResolved S spec rel) →
        Kept spec rel) :=
  ⟨fun h _ _ _ => oldParentsResolved_of_kept h, fun hchild h =>
    kept_of_oldParentsResolved hchild (h _)⟩

end Necessity

section Profiles

/-- A table keyed by the column that names its parent, under its default identity. -/
def profiles : Pgoutput.Relation :=
  ⟨1, ⟨"public"⟩, ⟨"profiles"⟩, [⟨⟨"parent_id"⟩, true, 23⟩], [⟨"parent_id"⟩]⟩

def profileLink : Relation :=
  .join ⟨⟨"profiles"⟩, .hasMany ⟨"parent_id"⟩, ⟨"id"⟩, false, none, none, none⟩

theorem profiles_path : findPaths profiles.table []
    (childrenIndex ⟨"users"⟩ ⟨"profiles"⟩).fields = [[profileLink]] := by
  simp [childrenIndex, profiles, findPaths, fieldPaths, hits, Relation.table, profileLink]

theorem profiles_childTable :
    ChildTable (childrenSpec ⟨"users"⟩ ⟨"profiles"⟩) profiles := by
  refine ⟨by decide, ⟨_, rfl⟩, by decide, ?_, ?_, ?_⟩
  · intro entry hentry hne
    cases List.mem_singleton.mp hentry
    exact absurd rfl hne
  · intro entry hentry
    cases List.mem_singleton.mp hentry
    decide
  · intro entry hentry path hpath
    cases List.mem_singleton.mp hentry
    cases List.mem_singleton.mp (profiles_path ▸ hpath)
    refine ⟨rfl, fun relation above hreverse => ?_⟩
    cases hreverse
    exact ⟨⟨_, rfl⟩, nofun⟩

theorem profiles_unreported : Unreported (childrenSpec ⟨"users"⟩ ⟨"profiles"⟩) profiles
    profileLink ⟨"parent_id"⟩ := ⟨rfl, by decide⟩

theorem not_kept_profiles : ¬ Kept (childrenSpec ⟨"users"⟩ ⟨"profiles"⟩) profiles := by
  intro hkept
  have hpath : [profileLink] ∈ findPaths profiles.table []
      (childrenIndex ⟨"users"⟩ ⟨"profiles"⟩).fields := by
    rw [profiles_path]
    exact List.mem_singleton.mpr rfl
  obtain ⟨-, hbeyond⟩ := hkept _ (List.mem_singleton.mpr rfl) rfl _ hpath _ [] rfl _
    profiles_unreported
  obtain ⟨column, hmem, -, hkeys⟩ := hbeyond ⟨"parent_id"⟩ rfl
  cases List.mem_singleton.mp hmem
  cases hkeys

/-- The link column of profiles is not reported, and a deleted profile is not traced to its
user. -/
theorem not_oldParentsResolved_profiles :
    uncarried profiles.carries profiles.primaryKey (preImageColumns
      (childrenSpec ⟨"users"⟩ ⟨"profiles"⟩) ⟨"public"⟩ ⟨"profiles"⟩) = [] ∧
    ¬ OldParentsResolved (Option String) (childrenSpec ⟨"users"⟩ ⟨"profiles"⟩) profiles :=
  ⟨by decide, fun h => not_kept_profiles (kept_of_oldParentsResolved profiles_childTable h)⟩

/-- A table keyed by an id, whose full identity carries the parent as well. -/
def addresses : Pgoutput.Relation :=
  ⟨2, ⟨"public"⟩, ⟨"addresses"⟩, [⟨⟨"id"⟩, true, 23⟩, ⟨⟨"parent_id"⟩, true, 23⟩], [⟨"id"⟩]⟩

theorem oldParentsResolved_iff_profiles :
    (∀ (S : Type) [Postgres S] [LawfulPostgres S],
      OldParentsResolved S (childrenSpec ⟨"users"⟩ ⟨"addresses"⟩) addresses) ∧
    ¬ ∀ (S : Type) [Postgres S] [LawfulPostgres S],
      OldParentsResolved S (childrenSpec ⟨"users"⟩ ⟨"profiles"⟩) profiles := by
  constructor
  · apply (oldParentsResolved_iff _ _).1
    intro entry hentry _ path _ relation above _ link _
    cases List.mem_singleton.mp hentry
    exact ⟨by decide, fun _ _ => ⟨⟨⟨"parent_id"⟩, true, 23⟩, by simp [addresses], rfl, by decide⟩⟩
  · exact fun h => not_kept_profiles ((oldParentsResolved_iff _ _).2 profiles_childTable h)

end Profiles

end Flusso.Document
