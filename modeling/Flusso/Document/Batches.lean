import Flusso.Document.Batched
import Flusso.Document.Constants
import Flusso.Document.Meaning

/-! # Batches agree with single documents

A batch asks index by index and chunk by chunk, and gives each id one document. It
is the document the id gets alone, unless the row of the id reads back as another
key: then the batch deletes what it should have written.
-/

namespace Flusso.Document

section Keys

variable {spec : SourceSpec} {ids : List (DocumentId GenericValue)} {id : DocumentId GenericValue}

theorem schemaOf_eq_ok {index : IndexName} :
    schemaOf spec index = .ok schema ↔ spec.schema index = some schema := by
  unfold schemaOf
  cases spec.schema index <;> simp

theorem loneKey_eq_some {entry : GenericValue × DocumentId GenericValue}
    (h : loneKey id = some entry) : entry.2 = id ∧ ∃ column, id.key = [(column, entry.1)] := by
  unfold loneKey at h
  split at h
  · next column value hkey =>
    cases h
    exact ⟨rfl, column, hkey⟩
  · cases h

theorem mapM_loneKey {keyed : List (GenericValue × DocumentId GenericValue)}
    (h : ids.mapM loneKey = some keyed) :
    keyed.map Prod.snd = ids ∧ ∀ entry ∈ keyed, loneKey entry.2 = some entry := by
  induction ids generalizing keyed with
  | nil =>
    cases h
    exact ⟨rfl, List.forall_mem_nil _⟩
  | cons id ids ih =>
    rw [List.mapM_cons] at h
    obtain ⟨entry, hentry, h⟩ := Option.bind_eq_some_iff.mp h
    obtain ⟨entries, hentries, h⟩ := Option.bind_eq_some_iff.mp h
    cases h
    obtain ⟨hids, hall⟩ := ih hentries
    obtain ⟨hid, -⟩ := loneKey_eq_some hentry
    rw [List.map_cons, hids, hid, List.forall_mem_cons, hid]
    exact ⟨rfl, hentry, hall⟩

end Keys

section Batches

variable {S : Type} [Postgres S] [Sql.Values S] [Decimals] [Times] {pool : Pool S}
  {spec : SourceSpec} {ids : List (DocumentId GenericValue)} {id : DocumentId GenericValue}
  {schema : IndexSchema} {pkColumn : ColumnName} {v : GenericValue} {w : S}

/-- The documents of an index are fetched together, by its key column. -/
structure Batched (spec : SourceSpec) (ids : List (DocumentId GenericValue)) (index : IndexName)
    (schema : IndexSchema) (pkColumn : ColumnName) : Prop where
  declared : spec.schema index = some schema
  primaryKey : schema.primaryKey = some pkColumn
  lone : ∀ id ∈ ids, id.index = index → (loneKey id).isSome = true

/-- The row of an id that is fetched with others reads back as another key. -/
def Misread (pool : Pool S) (spec : SourceSpec) (ids : List (DocumentId GenericValue))
    (id : DocumentId GenericValue) : Prop :=
  ∃ schema pkColumn v row, Batched spec ids id.index schema pkColumn ∧ id.key = [(pkColumn, v)] ∧
    namedBy pool.db schema pkColumn v = some row ∧
      ¬ (Postgres.decodeColumn (row pkColumn) == v) = true

/-- What a batch may be asked for: ids of one index differ in their key values, each is built alone
without error, and where they are fetched together their keys are of the key column. -/
structure Buildable (pool : Pool S) (spec : SourceSpec) (ids : List (DocumentId GenericValue)) :
    Prop where
  distinct : ids.Pairwise fun id id' => id.index = id'.index →
    ¬ (id.key.map Prod.snd == id'.key.map Prod.snd) = true
  built : ∀ id ∈ ids, ∃ document, build pool spec id = .ok document
  keyed : ∀ id ∈ ids, ∀ schema pkColumn, Batched spec ids id.index schema pkColumn →
    KeyColumn pool.db schema pkColumn ∧ ∃ v w, id.key = [(pkColumn, v)] ∧
      Postgres.cast (S := S) (typeName pool.db schema.dbSchema schema.table pkColumn) v = some w

/-- A document of a batch: the one its id gets alone, but a tombstone for a misread id. -/
def IsOf (pool : Pool S) (spec : SourceSpec) (ids : List (DocumentId GenericValue))
    (id : DocumentId GenericValue) (document : Document GenericValue) : Prop :=
  document.id = id ∧ ∃ single, build pool spec id = .ok single ∧
    (document = single ∨ document = .delete id) ∧ (document = single ↔ ¬ Misread pool spec ids id)

theorem isOf_single (hbuilt : ∃ document, build pool spec id = .ok document)
    (hmisread : ¬ Misread pool spec ids id) (hid : ∀ document, build pool spec id = .ok document →
      document.id = id) :
    ∃ document, build pool spec id = .ok document ∧ IsOf pool spec ids id document := by
  obtain ⟨document, hdocument⟩ := hbuilt
  exact ⟨document, hdocument, hid document hdocument, document, hdocument, .inl rfl,
    iff_of_true rfl hmisread⟩

theorem build_id {document : Document GenericValue} (h : build pool spec id = .ok document) :
    document.id = id := by
  obtain ⟨schema, -, h⟩ := Attempts.bind_ok.mp h
  obtain ⟨query, -, h⟩ := Attempts.bind_ok.mp h
  obtain ⟨rows, -, h⟩ := Attempts.bind_ok.mp h
  cases rows with
  | nil =>
    cases h
    rfl
  | cons row rows =>
    cases h
    rfl

theorem buildQuery_of_build {document : Document GenericValue}
    (hschema : spec.schema id.index = some schema) (h : build pool spec id = .ok document) :
    ∃ query, buildQuery pool.db schema id.key = .ok query := by
  obtain ⟨schema', hschema', h⟩ := Attempts.bind_ok.mp h
  rw [schemaOf, hschema] at hschema'
  cases hschema'
  obtain ⟨query, hquery, -⟩ := Attempts.bind_ok.mp h
  exact ⟨query, mapError_ok.mp hquery⟩

omit [Decimals] [Times] in
theorem batched_of_mapM {index : IndexName} {keyed : List (GenericValue × DocumentId GenericValue)}
    (hschema : spec.schema index = some schema) (hprimaryKey : schema.primaryKey = some pkColumn)
    (hkeyed : (ids.filter fun id => id.index = index).mapM loneKey = some keyed) :
    Batched spec ids index schema pkColumn := by
  obtain ⟨hids, hlone⟩ := mapM_loneKey hkeyed
  refine ⟨hschema, hprimaryKey, fun id hid hindex => ?_⟩
  have hgroup : id ∈ keyed.map Prod.snd := by
    rw [hids]
    exact List.mem_filter.mpr ⟨hid, decide_eq_true hindex⟩
  obtain ⟨entry, hentry, rfl⟩ := List.mem_map.mp hgroup
  exact Option.isSome_iff_exists.mpr ⟨entry, hlone entry hentry⟩

theorem Buildable.named {entry : GenericValue × DocumentId GenericValue}
    (h : Buildable pool spec ids) (hid : entry.2 ∈ ids)
    (hbatched : Batched spec ids entry.2.index schema pkColumn)
    (hlone : loneKey entry.2 = some entry) :
    KeyColumn pool.db schema pkColumn ∧ entry.2.key = [(pkColumn, entry.1)] ∧ ∃ w : S,
      Postgres.cast (typeName pool.db schema.dbSchema schema.table pkColumn) entry.1 = some w := by
  obtain ⟨hkey, v, w, hv, hw⟩ := h.keyed entry.2 hid schema pkColumn hbatched
  obtain ⟨-, column, hcolumn⟩ := loneKey_eq_some hlone
  rw [hcolumn, List.cons.injEq, Prod.mk.injEq] at hv
  obtain ⟨⟨rfl, rfl⟩, -⟩ := hv
  exact ⟨hkey, hcolumn, w, hw⟩

theorem Buildable.pairwise {keyed : List (GenericValue × DocumentId GenericValue)}
    {index : IndexName} (h : Buildable pool spec ids) (hsub : (keyed.map Prod.snd).Sublist ids)
    (hindex : ∀ entry ∈ keyed, entry.2.index = index)
    (hlone : ∀ entry ∈ keyed, loneKey entry.2 = some entry) :
    keyed.Pairwise fun entry entry' => ¬ (entry.1 == entry'.1) = true := by
  refine (List.pairwise_map.mp (h.distinct.sublist hsub)).imp_of_mem ?_
  intro entry entry' hentry hentry' hne heq
  obtain ⟨-, column, hcolumn⟩ := loneKey_eq_some (hlone entry hentry)
  obtain ⟨-, column', hcolumn'⟩ := loneKey_eq_some (hlone entry' hentry')
  apply hne ((hindex entry hentry).trans (hindex entry' hentry').symm)
  rw [hcolumn, hcolumn']
  simpa using heq

variable [Sql.LawfulValues S]

theorem isOf_outcome (hbatched : Batched spec ids id.index schema pkColumn)
    (hkey : KeyColumn pool.db schema pkColumn) (hid : id.key = [(pkColumn, v)])
    (hcast : Postgres.cast (typeName pool.db schema.dbSchema schema.table pkColumn) v = some w)
    (hbuilt : ∃ document, build pool spec id = .ok document) :
    IsOf pool spec ids id
      (outcome id ((foundAgain pool.db schema pkColumn v).map (contents pool schema))) := by
  have hsingle := build_eq hbatched.declared hkey.fits hid hcast hbuilt
  have hmisread : Misread pool spec ids id ↔ ∃ row, namedBy pool.db schema pkColumn v = some row ∧
      ¬ (Postgres.decodeColumn (row pkColumn) == v) = true := by
    constructor
    · rintro ⟨schema', pkColumn', v', row, hbatched', hid', hrow, hne⟩
      obtain rfl : schema = schema' :=
        Option.some.inj (hbatched.declared.symm.trans hbatched'.declared)
      rw [hid, List.cons.injEq, Prod.mk.injEq] at hid'
      obtain ⟨⟨rfl, rfl⟩, -⟩ := hid'
      exact ⟨row, hrow, hne⟩
    · rintro ⟨row, hrow, hne⟩
      exact ⟨schema, pkColumn, v, row, hbatched, hid, hrow, hne⟩
  refine ⟨?_, _, hsingle, ?_⟩
  · cases foundAgain pool.db schema pkColumn v <;> rfl
  · rw [hmisread, foundAgain]
    cases namedBy pool.db schema pkColumn v with
    | none => simp [outcome]
    | some row =>
      by_cases hback : (Postgres.decodeColumn (row pkColumn) == v) = true
      · simp [Option.filter, hback, outcome]
      · simp [Option.filter, hback, outcome]

theorem buildKeyed_isOf {chunk : List (GenericValue × DocumentId GenericValue)}
    (h : Buildable pool spec ids) (hne : chunk ≠ [])
    (hchunk : ∀ entry ∈ chunk, entry.2 ∈ ids ∧ Batched spec ids entry.2.index schema pkColumn ∧
      loneKey entry.2 = some entry)
    (hdistinct : chunk.Pairwise fun entry entry' => ¬ (entry.1 == entry'.1) = true) :
    ∃ documents, buildKeyed pool schema pkColumn chunk = .ok documents ∧
      List.Forall₂ (fun entry => IsOf pool spec ids entry.2) chunk documents := by
  have hnamed : ∀ entry ∈ chunk, KeyColumn pool.db schema pkColumn ∧
      entry.2.key = [(pkColumn, entry.1)] ∧ ∃ w : S,
        Postgres.cast (typeName pool.db schema.dbSchema schema.table pkColumn) entry.1 =
          some w := by
    intro entry hentry
    obtain ⟨hid, hbatched, hlone⟩ := hchunk entry hentry
    exact h.named hid hbatched hlone
  obtain ⟨first, hfirst⟩ := List.exists_mem_of_ne_nil chunk hne
  obtain ⟨hfirstId, hfirstBatched, -⟩ := hchunk first hfirst
  obtain ⟨_, hfirstBuilt⟩ := h.built first.2 hfirstId
  have haccepted := accepted_of_build hfirstBatched.declared hfirstBuilt
  rw [(hnamed first hfirst).2.1] at haccepted
  refine ⟨_, buildKeyed_eq (hnamed first hfirst).1 hne haccepted.1 haccepted.2 ?_ ?_ ?_, ?_⟩
  · intro entry hentry
    exact Option.isSome_iff_exists.mpr (hnamed entry hentry).2.2
  · intro entry hentry
    obtain ⟨hid, hbatched, -⟩ := hchunk entry hentry
    obtain ⟨document, hdocument⟩ := h.built entry.2 hid
    exact (hnamed entry hentry).2.1 ▸ buildQuery_of_build hbatched.declared hdocument
  · exact List.pairwise_map.mpr hdistinct
  · rw [List.forall₂_map_right_iff, List.forall₂_same]
    intro entry hentry
    obtain ⟨hid, hbatched, -⟩ := hchunk entry hentry
    obtain ⟨hkey, hcolumn, w, hw⟩ := hnamed entry hentry
    exact isOf_outcome hbatched hkey hcolumn hw (h.built entry.2 hid)

/-- The documents of one index, in the order of their ids. -/
theorem buildGroup_isOf {index : IndexName} (h : Buildable pool spec ids)
    (hschema : spec.schema index = some schema) :
    ∃ documents, buildGroup pool spec schema (ids.filter fun id => id.index = index) =
        .ok documents ∧
      List.Forall₂ (IsOf pool spec ids) (ids.filter fun id => id.index = index) documents := by
  have hmem : ∀ id ∈ ids.filter (fun id => id.index = index), id ∈ ids ∧ id.index = index := by
    intro id hid
    simpa using hid
  unfold buildGroup
  split
  · next pkColumn keyed hprimaryKey hkeyed =>
    have hbatched := batched_of_mapM hschema hprimaryKey hkeyed
    obtain ⟨hids, hlone⟩ := mapM_loneKey hkeyed
    have hentries : ∀ entry ∈ keyed, entry.2 ∈ ids ∧ entry.2.index = index := by
      intro entry hentry
      exact hmem entry.2 (hids ▸ List.mem_map_of_mem hentry)
    have hdistinct := h.pairwise (hids ▸ List.filter_sublist)
      (fun entry hentry => (hentries entry hentry).2) hlone
    have hchunks : ∀ chunk ∈ keyed.toChunks buildChunk, ∃ documents,
        buildKeyed pool schema pkColumn chunk = .ok documents ∧
          List.Forall₂ (fun entry => IsOf pool spec ids entry.2) chunk documents := by
      intro chunk hchunk
      have hsub : chunk.Sublist keyed := by
        rw [← Sql.flatten_toChunks buildChunk keyed]
        exact List.sublist_flatten_of_mem hchunk
      refine buildKeyed_isOf h (Grouping.ne_nil_of_mem_toChunks hchunk) ?_ (hdistinct.sublist hsub)
      intro entry hentry
      obtain ⟨hid, rfl⟩ := hentries entry (hsub.subset hentry)
      exact ⟨hid, hbatched, hlone entry (hsub.subset hentry)⟩
    obtain ⟨chunks, hbuilt, hrelated⟩ := Grouping.exists_mapM_related hchunks
    refine ⟨chunks.flatten, by rw [hbuilt]; rfl, ?_⟩
    rw [← hids, List.forall₂_map_left_iff, ← Sql.flatten_toChunks buildChunk keyed]
    exact List.rel_flatten hrelated
  · next hfallback =>
    have hbatched : ∀ pkColumn, ¬ Batched spec ids index schema pkColumn := by
      intro pkColumn hbatched
      obtain ⟨keyed, hkeyed, -⟩ := Grouping.exists_mapM_option fun id hid =>
        hbatched.lone id (hmem id hid).1 (hmem id hid).2
      exact hfallback pkColumn keyed hbatched.primaryKey hkeyed
    apply Grouping.exists_mapM_related
    intro id hid
    obtain ⟨hrequested, rfl⟩ := hmem id hid
    refine isOf_single (h.built id hrequested) ?_ fun document => build_id
    rintro ⟨schema', pkColumn, v, row, hbatched', -⟩
    obtain rfl : schema = schema' := Option.some.inj (hschema.symm.trans hbatched'.declared)
    exact hbatched pkColumn hbatched'

/-- A batch gives each id one document: the one the id gets alone, but a tombstone just where the
id is fetched with others and its row reads back as another key. -/
theorem buildMany_agrees {order : List IndexName} (h : Buildable pool spec ids)
    (horder : order.Perm (ids.map DocumentId.index).dedup) :
    ∃ documents, buildMany pool spec order ids = .ok documents ∧
      (documents.map Document.id).Perm ids ∧
      ∀ document ∈ documents, ∃ single, build pool spec document.id = .ok single ∧
        (document = single ∨ document = .delete document.id) ∧
        (document = single ↔ ¬ Misread pool spec ids document.id) := by
  have hmem {index : IndexName} : index ∈ order ↔ ∃ id ∈ ids, id.index = index := by
    rw [horder.mem_iff, List.mem_dedup, List.mem_map]
  have hgroups : ∀ index ∈ order, ∃ documents,
      (schemaOf spec index >>= fun schema =>
        buildGroup pool spec schema (ids.filter fun id => id.index = index)) = .ok documents ∧
      List.Forall₂ (IsOf pool spec ids) (ids.filter fun id => id.index = index) documents := by
    intro index hindex
    obtain ⟨id, hid, rfl⟩ := hmem.mp hindex
    obtain ⟨document, hdocument⟩ := h.built id hid
    obtain ⟨schema, hschema, -⟩ := Attempts.bind_ok.mp hdocument
    obtain ⟨documents, hbuilt, hrelated⟩ := buildGroup_isOf h (schemaOf_eq_ok.mp hschema)
    exact ⟨documents, Attempts.bind_ok.mpr ⟨schema, hschema, hbuilt⟩, hrelated⟩
  obtain ⟨groups, hbuilt, hrelated⟩ := Grouping.exists_mapM_related hgroups
  have hdocuments : List.Forall₂ (IsOf pool spec ids)
      (order.flatMap fun index => ids.filter fun id => id.index = index) groups.flatten := by
    rw [List.flatMap_def]
    exact List.rel_flatten (List.forall₂_map_left_iff.mpr hrelated)
  refine ⟨groups.flatten, Attempts.bind_ok.mpr ⟨groups, hbuilt, rfl⟩, ?_, ?_⟩
  · have hids : groups.flatten.map Document.id =
        order.flatMap fun index => ids.filter fun id => id.index = index := by
      rw [← List.forall₂_eq_eq_eq, List.forall₂_map_left_iff]
      exact (hdocuments.imp fun id document hof => hof.1).flip
    rw [hids]
    exact Grouping.flatMap_filter_perm (horder.nodup_iff.mpr (List.nodup_dedup _))
      fun id hid => hmem.mpr ⟨id, hid, rfl⟩
  · intro document hdocument
    obtain ⟨id, -, rfl, hsingle⟩ := Grouping.exists_of_forall₂ hdocuments hdocument
    exact hsingle

end Batches

section Example

attribute [local instance] exactDecimals noTimes

/-- Labels of an enum type. The reader does not know the type and takes every label for null. -/
def EnumLabel := Option String

instance enumValues : Sql.Values EnumLabel := inferInstanceAs (Sql.Values (Option String))

instance lawfulEnumValues : Sql.LawfulValues EnumLabel :=
  inferInstanceAs (Sql.LawfulValues (Option String))

instance enumPostgres : Postgres EnumLabel where
  decodeColumn _ := .null
  cast _
    | .string text => some (some text)
    | _ => none
  equals := fun (a b : Option String) => a.isSome && a = b
  output := fun (text : Option String) => text

/-- An index of price tiers, by their label. -/
def tiers : IndexSchema where
  version := 1
  table := ⟨"tiers"⟩
  dbSchema := ⟨"public"⟩
  primaryKey := some ⟨"tier"⟩
  docId := none
  softDelete := none
  filters := none
  fields := [.column ⟨"name"⟩ [] ⟨⟨"name"⟩, .text, false, [], none, []⟩]

def goldTier : Row EnumLabel := fun column =>
  if column.name = "tier" then some "gold" else some "Gold plan"

def tierPool : Pool EnumLabel where
  db _ _ := some ⟨fun _ => some "tier_label", [⟨"tier"⟩], [goldTier]⟩
  raw _ := none
  json
    | .object [(name, .string text)] => .object [(name, .string text)]
    | _ => .null

def tierSpec : SourceSpec := ⟨[(⟨"tiers"⟩, tiers)], List.nodup_singleton _⟩

def tierId (label : String) : DocumentId GenericValue :=
  ⟨⟨"tiers"⟩, [(⟨"tier"⟩, .string label)]⟩

theorem keyColumn_tiers : KeyColumn tierPool.db tiers ⟨"tier"⟩ := by
  refine ⟨⟨rfl, ?_, ?_, ?_⟩, List.pairwise_singleton _ _, ?_⟩
  · exact fun _ h => absurd h List.not_mem_nil
  · exact fun _ h => absurd h List.not_mem_nil
  · rintro _ _ ⟨⟩
  · rintro row hrow v w hv hcast
    cases v with
    | string text => cases hv
    | _ => cases hcast

theorem buildable_tiers : Buildable tierPool tierSpec [tierId "gold", tierId "iron"] := by
  refine ⟨?_, ?_, ?_⟩
  · refine List.pairwise_pair.mpr fun _ => ?_
    decide
  · intro id hid
    rcases List.mem_pair.mp hid with rfl | rfl
    · exact ⟨_, rfl⟩
    · exact ⟨_, rfl⟩
  · rintro id hid schema pkColumn ⟨hschema, hprimaryKey, -⟩
    rcases List.mem_pair.mp hid with rfl | rfl
    all_goals
      cases hschema
      cases hprimaryKey
      exact ⟨keyColumn_tiers, _, _, rfl, rfl⟩

/-- A tier of an enum type is built alone, but not with others. -/
theorem buildMany_agrees_tiers :
    Misread tierPool tierSpec [tierId "gold", tierId "iron"] (tierId "gold") ∧
      ∃ documents, buildMany tierPool tierSpec [⟨"tiers"⟩] [tierId "gold", tierId "iron"] =
          .ok documents ∧
        (documents.map Document.id).Perm [tierId "gold", tierId "iron"] ∧
        ∀ document ∈ documents, ∃ single, build tierPool tierSpec document.id = .ok single ∧
          (document = single ∨ document = .delete document.id) ∧
          (document = single ↔
            ¬ Misread tierPool tierSpec [tierId "gold", tierId "iron"] document.id) := by
  constructor
  · refine ⟨tiers, ⟨"tier"⟩, .string "gold", goldTier, ⟨rfl, rfl, ?_⟩, rfl, rfl, ?_⟩
    · intro id hid _
      rcases List.mem_pair.mp hid with rfl | rfl
      · rfl
      · rfl
    · decide
  · exact buildMany_agrees buildable_tiers (.refl _)

end Example

end Flusso.Document
