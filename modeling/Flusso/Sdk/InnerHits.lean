import Flusso.Sdk.Projections

/-! # Inner hits

The engine returns the elements that a projection asks for beside each hit, three of them
unless a size is given. They are written over the hit's source under the projection's path.
-/

namespace Flusso.Sdk

/-- A document of an index. Its fields are named by field names, which have no dot. -/
structure Stored where
  id : String
  fields : List (String × Json)
  sorted : Json.Sorted fields
  named : ∀ field ∈ fields, field.1 ≠ "" ∧ '.' ∉ field.1.toList

def Stored.source (doc : Stored) : Json := .object doc.fields

section Response

/-- The request for the elements of one document, with the defaults of inner hits. -/
def InnerClause.request (c : InnerClause) : Request where
  query := c.query
  sort := Request.sortKeys (Json.get c.inner "sort")
  offset := ((Json.get c.inner "from").bind Json.asU64).getD 0
  size := ((Json.get c.inner "size").bind Json.asU64).getD 3
  minScore := none
  searchAfter := none
  collapse := none
  postFilter := none

/-- Values as a page of hits. -/
def hitsValue (hits : List Json) : Json := .object [("hits", .object [("hits", .array hits)])]

variable [HitEngine Json]

def InnerClause.hits (c : InnerClause) (fields : List (String × Json)) : List Json :=
  c.request.page (fun element => element) (elementsOf c.path "" fields)

def InnerClause.value (c : InnerClause) (fields : List (String × Json)) : Json :=
  hitsValue ((c.hits fields).map fun element => .object [("_source", element)])

/-- A hit with its inner hits, when the request declares any. -/
def hitValue (clauses : List InnerClause) (doc : Stored) : Json :=
  let inner := clauses.map fun c => (c.name, c.value doc.fields)
  .object ([("_id", .string doc.id), ("_source", doc.source)] ++
    if clauses.isEmpty then [] else [("inner_hits", .object inner)])

/-- The engine's response to a request. -/
def respond (index : List Stored) (body : List (String × Json)) : Option Json :=
  let r := Request.read Json body
  let clauses := (r.declared Json).filterMap Declared.clause?
  if (r.names Json).Nodup then
    some (hitsValue ((r.page Stored.source index).map (hitValue clauses)))
  else none

end Response

section Merge

/-- The sources of the inner hits under a path. -/
def subset (inner : Json) (path : String) : List Json :=
  let page := (inner.field? path).bind (Json.field? "hits")
  ((page.bind (Json.field? "hits")).bind Json.asArray).elim []
    fun hits => hits.filterMap (Json.field? "_source")

def mergeHit (paths : List String) (hit : Json) : Json :=
  match hit with
  | .object fields =>
    match Json.get fields "inner_hits", Json.get fields "_source" with
    | some inner, some (.object source) =>
      .object (Json.insert "_source" (.object (paths.foldl
        (fun source path => Json.insert path (.array (subset inner path)) source) source)) fields)
    | _, _ => hit
  | _ => hit

/-- Each path's array in the sources of the hits, replaced by its inner hits. -/
def mergeInnerHits (response : Json) (paths : List String) : Json :=
  match response with
  | .object root =>
    match Json.get root "hits" with
    | some (.object page) =>
      match Json.get page "hits" with
      | some (.array hits) => .object (Json.insert "hits"
          (.object (Json.insert "hits" (.array (hits.map (mergeHit paths))) page)) root)
      | _ => response
    | _ => response
  | _ => response

/-- The sources that the hits of a response are decoded from. -/
def decodeSources (response : Json) : Option (List Json) := do
  let hits ← ((response.field? "hits").bind (Json.field? "hits")).bind Json.asArray
  hits.mapM (Json.field? "_source")

end Merge

namespace Search

variable [HitEngine Json] (s : Search)

def nestedPaths : List String := s.nested.map NestedProjection.path

/-- The page of documents that a search is answered with. -/
def hits (index : List Stored) : List Stored :=
  (s.request Json s.projectedQuery).page Stored.source index

/-- The sources that a search decodes. -/
def send (index : List Stored) : Option (List Json) := do
  let response ← respond index s.body
  decodeSources (if s.nestedPaths.isEmpty then response
    else mergeInnerHits response s.nestedPaths)

end Search

section Elements

variable {path : String}

theorem elementsOf_of_not_mem (hpath : '.' ∉ path.toList) {fields : List (String × Json)}
    (hnamed : ∀ field ∈ fields, field.1 ≠ "") (h : path ∉ fields.map Prod.fst) :
    elementsOf path "" fields = [] := by
  induction fields with
  | nil => rfl
  | cons field fields ih =>
    obtain ⟨key, value⟩ := field
    obtain ⟨hne, hnot⟩ := List.ne_and_not_mem_of_not_mem_cons h
    have hunder : under "" key = key := if_pos rfl
    rw [elementsOf, hunder, if_neg hne.symm,
      elementsIn_eq_nil hpath (hnamed _ List.mem_cons_self) value,
      ih (fun field hfield => hnamed field (List.mem_cons_of_mem _ hfield)) hnot, List.append_nil]

theorem elementsOf_field (hpath : '.' ∉ path.toList) {fields : List (String × Json)}
    (hnamed : ∀ field ∈ fields, field.1 ≠ "") (hnodup : (fields.map Prod.fst).Nodup)
    {value : Json} (h : Json.get fields path = some value) :
    elementsOf path "" fields = itemsOf value := by
  induction fields with
  | nil => cases h
  | cons field fields ih =>
    obtain ⟨key, v⟩ := field
    rw [List.map_cons, List.nodup_cons] at hnodup
    have hnamed' : ∀ field ∈ fields, field.1 ≠ "" := fun field hfield =>
      hnamed field (List.mem_cons_of_mem _ hfield)
    have hunder : under "" key = key := if_pos rfl
    rw [Json.get_cons] at h
    rw [elementsOf, hunder]
    by_cases hkey : key = path
    · rw [if_pos hkey] at h ⊢
      have hvalue : v = value := Option.some.inj h
      rw [elementsOf_of_not_mem hpath hnamed' (hkey ▸ hnodup.1), List.append_nil, hvalue]
    · rw [if_neg hkey] at h ⊢
      rw [elementsIn_eq_nil hpath (hnamed _ List.mem_cons_self) v, ih hnamed' hnodup.2 h,
        List.nil_append]

end Elements

section Window

namespace NestedProjection

variable (p : NestedProjection)

theorem request_clause : p.clause.request =
    { query := p.query.getD matchAll
      sort := Request.sortKeys (sortArray p.sorts)
      offset := (p.offset.map UInt64.toNat).getD 0
      size := (p.size.map UInt64.toNat).getD 3
      minScore := none
      searchAfter := none
      collapse := none
      postFilter := none } := by
  have hnil (key : String) : Json.get ([] : List (String × Json)) key = none := rfl
  simp [InnerClause.request, clause, inner, Search.get_insertOption, Json.get_cons, hnil,
    Search.bind_asU64]

variable [HitEngine Json]

/-- The inner hits of a projection: three of them, unless it has a size. -/
theorem hits_clause (fields : List (String × Json)) : p.clause.hits fields =
    ((p.ranking.ranked (fun element => element) (elementsOf p.path "" fields)).drop
      ((p.offset.map UInt64.toNat).getD 0)).take ((p.size.map UInt64.toNat).getD 3) := by
  rw [InnerClause.hits, request_clause]
  rfl

theorem selected_map {α β : Type} (view : α → Json) (f : β → α) (items : List β) :
    p.selected view (items.map f) = (p.selected (view ∘ f) items).map f := by
  simp only [selected, Ranking.ranked_map]
  split
  · rw [← List.map_drop, ← List.map_take]
  · rw [← List.map_drop]

/-- The elements that match the projection's predicate. -/
def found (items : List Json) : List Json :=
  items.filter fun element => searchMatches element (p.query.getD matchAll)

theorem length_ranked (items : List Json) :
    (p.ranking.ranked (fun element => element) items).length = (p.found items).length := by
  rw [Ranking.ranked, List.length_insertionSort]
  simp [ranking, Request.ranking, Request.rankingBy, Request.keepsAt, found]

end NestedProjection

end Window

section Merged

theorem get_foldl_insert (value : String → Json) (paths : List String)
    (fields : List (String × Json)) (key : String) :
    Json.get (paths.foldl (fun source path => Json.insert path (value path) source) fields) key =
      if key ∈ paths then some (value key) else Json.get fields key := by
  induction paths generalizing fields with
  | nil => rfl
  | cons path paths ih =>
    rw [List.foldl_cons, ih, Json.get_insert]
    by_cases hkey : path = key
    · subst hkey
      simp
    · simp [hkey, Ne.symm hkey]

theorem mapM_map_some {α β γ : Type} {f : α → β} {g : β → Option γ} {k : α → γ}
    (h : ∀ a, g (f a) = some (k a)) (as : List α) : (as.map f).mapM g = some (as.map k) := by
  induction as with
  | nil => rfl
  | cons a as ih =>
    rw [List.map_cons, List.mapM_cons, h, ih]
    rfl

variable [HitEngine Json]

theorem subset_inner {clauses : List InnerClause} (hnodup : (clauses.map InnerClause.name).Nodup)
    {c : InnerClause} (hc : c ∈ clauses) (fields : List (String × Json)) :
    subset (.object (clauses.map fun c => (c.name, c.value fields))) c.name = c.hits fields := by
  have hget : Json.get (clauses.map fun c => (c.name, c.value fields)) c.name =
      some (c.value fields) := by
    apply Json.get_of_nodup
    · rwa [List.map_map]
    · exact List.mem_map.mpr ⟨c, hc, rfl⟩
  rw [subset, Json.field?, hget]
  change List.filterMap (Json.field? "_source")
    ((c.hits fields).map fun element => .object [("_source", element)]) = _
  rw [List.filterMap_map]
  exact List.filterMap_some

/-- The fields of a document with each path's inner hits written over them. -/
def mergedFields (clauses : List InnerClause) (paths : List String) (doc : Stored) :
    List (String × Json) :=
  let inner := clauses.map fun c => (c.name, c.value doc.fields)
  paths.foldl (fun source path => Json.insert path (.array (subset (.object inner) path)) source)
    doc.fields

theorem source_mergeHit {clauses : List InnerClause} (h : clauses ≠ []) (paths : List String)
    (doc : Stored) : (mergeHit paths (hitValue clauses doc)).field? "_source" =
      some (.object (mergedFields clauses paths doc)) := by
  have hvalue : hitValue clauses doc = .object
      [("_id", .string doc.id), ("_source", .object doc.fields),
        ("inner_hits", .object (clauses.map fun c => (c.name, c.value doc.fields)))] := by
    rw [hitValue, if_neg (List.isEmpty_iff.not.mpr h)]
    rfl
  rw [hvalue]
  rfl

theorem decodeSources_mergeInnerHits {clauses : List InnerClause} (h : clauses ≠ [])
    (paths : List String) (docs : List Stored) :
    decodeSources (mergeInnerHits (hitsValue (docs.map (hitValue clauses))) paths) =
      some (docs.map fun doc => .object (mergedFields clauses paths doc)) := by
  change List.mapM (Json.field? "_source") ((docs.map (hitValue clauses)).map (mergeHit paths)) = _
  rw [List.map_map]
  exact mapM_map_some (source_mergeHit h paths) docs

theorem decodeSources_hits (clauses : List InnerClause) (docs : List Stored) :
    decodeSources (hitsValue (docs.map (hitValue clauses))) = some (docs.map Stored.source) := by
  have hsource : ∀ doc, (hitValue clauses doc).field? "_source" = some doc.source := fun _ => rfl
  exact mapM_map_some hsource docs

end Merged

namespace Search

variable (s : Search)

/-- A projection names a field of the document that holds no array. -/
structure Unheld (fields : List (String × Json)) (key : String) : Prop where
  path : key ∈ s.nestedPaths
  field : '.' ∉ key.toList
  noArray : ∀ items, Json.get fields key ≠ some (.array items)

variable {s} in
theorem find_projection (hpaths : s.nestedPaths.Nodup) {p : NestedProjection}
    (hp : p ∈ s.nested) : (s.nested.find? fun q => q.path = p.path) = some p := by
  obtain ⟨q, hq⟩ : ∃ q, (s.nested.find? fun q => q.path = p.path) = some q := by
    rw [← Option.isSome_iff_exists, List.find?_isSome]
    exact ⟨p, hp, by simp⟩
  have hpath : q.path = p.path := by simpa using List.find?_some hq
  rw [hq, List.inj_on_of_nodup_map hpaths (List.mem_of_find?_eq_some hq) hp hpath]

variable [HitEngine Json]

/-- The decoded document is the stored one with its arrays projected. -/
def Shaped (stored decoded : List (String × Json)) : Prop :=
  ∀ key, ¬ s.Unheld stored key →
    Json.get decoded key = Json.get (projectFields s.nested "" stored) key

/-- The projections are of fields of the document, and no more than three elements are left by
one without a size. -/
structure Fits (stored : List (String × Json)) : Prop where
  field : ∀ p ∈ s.nested, '.' ∉ p.path.toList
  whole : ∀ p ∈ s.nested, ∀ items, Json.get stored p.path = some (.array items) → p.size = none →
    (p.found items).length ≤ (p.offset.map UInt64.toNat).getD 0 + 3

variable {s}

theorem project_array (hpaths : s.nestedPaths.Nodup)
    (hfield : ∀ p ∈ s.nested, '.' ∉ p.path.toList) {p : NestedProjection} (hp : p ∈ s.nested)
    (hne : p.path ≠ "") (items : List Json) : project s.nested p.path (.array items) =
      .array (p.selected (fun element => element) items) := by
  have hzip : items.zip items = items.map fun element => (element, element) := by
    rw [List.zip_eq_zipWith]
    exact List.zipWith_self
  rw [project, projectAll_below hfield hne items, hzip, shape, find_projection hpaths hp]
  simp only [p.selected_map, List.map_map]
  exact congrArg Json.array (List.map_id _)

/-- What is written under a projection's path. -/
def written (p : NestedProjection) (fields : List (String × Json)) : Json :=
  .array (p.clause.hits fields)

theorem written_array {p : NestedProjection} (hfield : '.' ∉ p.path.toList) (doc : Stored)
    {items : List Json} (h : Json.get doc.fields p.path = some (.array items)) :
    written p doc.fields = .array (p.selected (fun element => element) items) ↔
      (p.size = none → (p.found items).length ≤ (p.offset.map UInt64.toNat).getD 0 + 3) := by
  have helements : elementsOf p.path "" doc.fields = items := elementsOf_field hfield
    (fun field hmem => (doc.named field hmem).1) doc.sorted.nodup_keys h
  rw [written, p.hits_clause, helements, Json.array.injEq, NestedProjection.selected]
  cases hsize : p.size with
  | some size => simp
  | none =>
    have hlength := p.length_ranked items
    simp only [Option.map_none, Option.getD_none, List.take_eq_self_iff, List.length_drop]
    simp only [true_implies]
    omega

/-- Fields that differ from the document's in what is written under the paths are those of the
projected document exactly where the projections fit. -/
theorem shaped_iff (hpaths : s.nestedPaths.Nodup) (doc : Stored) {decoded : List (String × Json)}
    (hwritten : ∀ p ∈ s.nested, Json.get decoded p.path = some (written p doc.fields))
    (hother : ∀ key, key ∉ s.nestedPaths → Json.get decoded key = Json.get doc.fields key) :
    s.Shaped doc.fields decoded ↔ s.Fits doc.fields := by
  constructor
  · intro hshaped
    have hfield : ∀ p ∈ s.nested, '.' ∉ p.path.toList := by
      intro p hp hdot
      have hget := hshaped p.path fun hunheld => hunheld.field hdot
      -- No field of the document has a dot, so the key that is written is one too many.
      have hnone : Json.get doc.fields p.path = none := by
        rw [Option.eq_none_iff_forall_not_mem]
        intro value hvalue
        exact (doc.named _ (Json.mem_of_get hvalue)).2 hdot
      rw [hwritten p hp, get_projectFields, hnone] at hget
      cases hget
    refine ⟨hfield, fun p hp items hitems => ?_⟩
    have hget := hshaped p.path fun hunheld => hunheld.noArray items hitems
    have hne := (doc.named _ (Json.mem_of_get hitems)).1
    rw [hwritten p hp, get_projectFields, hitems, Option.map_some,
      project_array hpaths hfield hp hne] at hget
    exact (written_array (hfield p hp) doc hitems).mp (Option.some.inj hget)
  · rintro ⟨hfield, hwhole⟩ key hkey
    rw [get_projectFields]
    by_cases hpath : key ∈ s.nestedPaths
    · obtain ⟨p, hp, rfl⟩ := List.mem_map.mp hpath
      obtain ⟨items, hitems⟩ : ∃ items, Json.get doc.fields p.path = some (.array items) := by
        by_contra hnone
        exact hkey ⟨hpath, hfield p hp, not_exists.mp hnone⟩
      have hne := (doc.named _ (Json.mem_of_get hitems)).1
      rw [hwritten p hp, hitems, Option.map_some, project_array hpaths hfield hp hne,
        (written_array (hfield p hp) doc hitems).mpr (hwhole p hp items hitems)]
    · rw [hother key hpath]
      cases hvalue : Json.get doc.fields key with
      | none => rfl
      | some value =>
        have huntouched : Untouched s.nested key := by
          refine ⟨(doc.named _ (Json.mem_of_get hvalue)).1, ?_⟩
          rintro p hp rfl
          exact hpath (List.mem_map_of_mem hp)
        rw [Option.map_some, project_untouched hfield huntouched]

variable (s)

/-- The nested queries that the request of a search asks for inner hits. -/
def clauses : List InnerClause :=
  ((s.request Json s.projectedQuery).declared Json).filterMap Declared.clause?

variable {s}

theorem clause_mem_clauses {p : NestedProjection} (hp : p ∈ s.nested) : p.clause ∈ s.clauses := by
  rw [clauses, Request.declared]
  simp only [request, declared_projectedQuery, List.mem_filterMap, List.mem_append]
  exact ⟨.clause p.clause, Or.inl (Or.inr (List.mem_map_of_mem hp)), rfl⟩

theorem nodup_clauses (h : ((s.request Json s.projectedQuery).names Json).Nodup) :
    (s.clauses.map InnerClause.name).Nodup := by
  have hsublist : ∀ ds : List Declared,
      ((ds.filterMap Declared.clause?).map InnerClause.name).Sublist (ds.map Declared.name) := by
    intro ds
    induction ds with
    | nil => exact .slnil
    | cons d ds ih =>
      cases d with
      | clause c => exact ih.cons_cons _
      | other name => exact ih.cons _
  exact h.sublist (hsublist _)

theorem send_eq (index : List Stored) : s.send index =
    if ((s.request Json s.projectedQuery).names Json).Nodup then
      some ((s.hits index).map fun doc => .object (mergedFields s.clauses s.nestedPaths doc))
    else none := by
  have hrespond : respond index s.body =
      if ((s.request Json s.projectedQuery).names Json).Nodup then
        some (hitsValue ((s.hits index).map (hitValue s.clauses)))
      else none := by
    rw [respond, read_body]
    rfl
  rw [send, hrespond]
  split
  · change decodeSources (if s.nestedPaths.isEmpty then _ else mergeInnerHits _ s.nestedPaths) = _
    split
    · next hempty =>
      rw [decodeSources_hits, List.isEmpty_iff.mp hempty]
      rfl
    · next hpaths =>
      apply decodeSources_mergeInnerHits
      intro hclauses
      cases hnested : s.nested with
      | nil => exact hpaths (by rw [nestedPaths, hnested]; rfl)
      | cons p ps =>
        have hmem : p.clause ∈ s.clauses := clause_mem_clauses (hnested ▸ List.mem_cons_self)
        rw [hclauses] at hmem
        cases hmem
  · rfl

/-- Each source that is decoded is the stored document with its arrays projected, exactly
where the projections fit the document. -/
theorem send_shaped_iff (hpaths : s.nestedPaths.Nodup) (index : List Stored) {sources : List Json}
    (h : s.send index = some sources) (i : ℕ) {doc : Stored}
    (hdoc : (s.hits index)[i]? = some doc) :
    ∃ decoded, sources[i]? = some (.object decoded) ∧
      (s.Shaped doc.fields decoded ↔ s.Fits doc.fields) := by
  rw [send_eq] at h
  split at h
  · next hnames =>
    refine ⟨mergedFields s.clauses s.nestedPaths doc, ?_, ?_⟩
    · rw [← Option.some.inj h, List.getElem?_map, hdoc]
      rfl
    · apply shaped_iff hpaths doc
      · intro p hp
        have hsubset := subset_inner (nodup_clauses hnames) (clause_mem_clauses hp) doc.fields
        have hpath : p.path ∈ s.nestedPaths := List.mem_map_of_mem hp
        simp only [mergedFields]
        rw [get_foldl_insert (fun path => .array (subset _ path)), if_pos hpath, written, ← hsubset]
        rfl
      · intro key hkey
        simp only [mergedFields]
        rw [get_foldl_insert (fun path => .array (subset _ path)), if_neg hkey]
  · cases h

end Search

namespace Search

/-- Every query matches and scores one, but for a nested one without elements. -/
@[reducible] def plainHits : HitEngine Json where
  leaf query doc :=
    match query with
    | .object [("nested", .object body)] =>
      !(elementsIn (((Json.get body "path").bind Json.asStr).getD "") "" doc).isEmpty
    | _ => true
  required _ _ := 0
  score _ _ := 1
  amount _ := none
  compareKey _ _ _ := .eq
  compareKey_swap _ _ _ := rfl
  compareValue _ _ _ := .gt
  collapsed _ _ := ""
  declares _ := []

/-- A document with as many items as asked for. -/
def itemized (count : ℕ) : Stored where
  id := "1"
  fields := [("items", .array ((List.range count).map fun i => .object [("id", Json.ofNat i)]))]
  sorted := List.pairwise_singleton _ _
  named field h := by
    have hname : "items" ≠ "" ∧ '.' ∉ "items".toList := by decide
    rw [List.mem_singleton.mp h]
    exact hname

theorem send_shaped_iff_withItems : ∃ decoded,
    [(itemized 2).source][0]? = some (.object decoded) ∧
      (@Shaped withItems plainHits (itemized 2).fields decoded ↔
        @Fits withItems plainHits (itemized 2).fields) :=
  @send_shaped_iff withItems plainHits (by decide) [itemized 2] _ rfl 0 _ rfl

/-- The fourth item is left out. -/
theorem not_shaped_withItems : ∃ decoded,
    @send plainHits withItems [itemized 4] = some [.object decoded] ∧
      ¬ @Shaped withItems plainHits (itemized 4).fields decoded := by
  refine ⟨(itemized 3).fields, rfl, fun hshaped => ?_⟩
  have hget := hshaped "items" fun hunheld => hunheld.noArray _ rfl
  have hitems : Json.get (@projectFields plainHits withItems.nested "" (itemized 4).fields)
      "items" = Json.get (itemized 4).fields "items" := rfl
  rw [hitems] at hget
  cases hget

end Search

end Flusso.Sdk
