import Flusso.Sdk.Search

/-! # The ids of a page

The documents of a search are ranked by a query that its projections score in as well,
the ids by the query alone. The two pages are the same wherever the scores are not
consulted, and where what the projections add leaves the ranking as it is.
-/

namespace Flusso.Sdk

namespace NestedProjection

variable (p : NestedProjection)

/-- A projection asks for the inner hits of its path under that path. -/
def clause : InnerClause where
  name := p.path
  path := p.path
  query := p.query.getD matchAll
  inner := p.inner

theorem read_toValue : InnerClause.read p.toValue = some p.clause := by
  have hname : Json.get p.inner "name" = some (.string p.path) := by
    simp [inner, Search.get_insertOption, Json.get_cons]
  have hpath : Json.get p.body "path" = some (.string p.path) := by
    simp [body, Json.get_insert, Json.get_cons]
  have hquery : Json.get p.body "query" = some (p.query.getD matchAll) := by
    simp [body, Json.get_insert]
  have hinner : Json.get p.body "inner_hits" = some (.object p.inner) := by
    simp [body, Json.get_insert]
  simp only [toValue, InnerClause.read, hpath, hinner, hquery, hname, Option.bind_some, Json.asStr,
    Option.getD_some, clause]

theorem read_leaf {β : Type} (r : QueryReading β) : r.read p.toValue = r.leaf p.toValue := by
  have hkey : ¬ ("nested" = "bool" ∧ List.isEmpty (α := String × Json) [] = true) := by decide
  rw [toValue, QueryReading.read, QueryReading.readBool, if_neg hkey, Option.getD_none]

end NestedProjection

namespace Search

variable (s : Search)

/-- The projections stand in the should clauses of a query around the search's own. -/
theorem read_projectedQuery {β : Type} (r : QueryReading β) (h : s.nested ≠ []) :
    r.read s.projectedQuery = r.node { BoolInner.empty with
      must := [r.read s.queryValue]
      should := s.nested.map fun p => r.leaf p.toValue } := by
  rw [projectedQuery, if_neg (List.isEmpty_iff.not.mpr h), QueryReading.read_bool]
  have hshould : r.readAll (s.nested.map NestedProjection.toValue) =
      s.nested.map fun p => r.leaf p.toValue := by
    rw [r.readAll_eq_map, List.map_map]
    exact List.map_congr_left fun p _ => p.read_leaf r
  rw [← hshould]
  rfl

variable {Doc : Type} [HitEngine Doc] (doc : Doc)

/-- What the projections that match add to the score. -/
def bonus : ℚ :=
  ((s.nested.filter fun p => Searches.leaf p.toValue doc).map fun p =>
    HitEngine.score p.toValue doc).sum

theorem scoring_beside (own : Bool × ℚ) (others : List (Bool × ℚ)) :
    (scoring doc).node { BoolInner.empty with must := [own], should := others } =
      (own.1, (if own.1 then own.2 else 0) + matchingScore others) := by
  obtain ⟨matched, score⟩ := own
  have hboost : ((BoolInner.empty : BoolInner (Bool × ℚ)).boost.bind
      (HitEngine.amount Doc)).getD 1 = 1 := rfl
  apply Prod.ext
  · simp [scoring, BoolInner.holds, BoolInner.isEmpty, BoolInner.threshold, BoolInner.map,
      BoolInner.empty]
  · cases matched <;> simp [scoring, hboost, BoolInner.isEmpty, matchingScore]

theorem scoring_projectedQuery (h : s.nested ≠ []) :
    (scoring doc).read s.projectedQuery = (searchMatches doc s.queryValue,
      (if searchMatches doc s.queryValue then searchScore doc s.queryValue else 0) +
        s.bonus doc) := by
  have hbonus : matchingScore (s.nested.map fun p => (scoring doc).leaf p.toValue) =
      s.bonus doc := by
    rw [matchingScore, List.filter_map, List.map_map]
    rfl
  rw [s.read_projectedQuery _ h, scoring_beside, scoring_read, hbonus]

/-- The projections leave it open which documents match. -/
theorem searchMatches_projectedQuery :
    searchMatches doc s.projectedQuery = searchMatches doc s.queryValue := by
  by_cases h : s.nested = []
  · rw [projectedQuery, if_pos (List.isEmpty_iff.mpr h)]
  · have hread := congrArg Prod.fst (s.scoring_projectedQuery doc h)
    rwa [scoring_read] at hread

theorem searchScore_projectedQuery (hdoc : searchMatches doc s.queryValue = true) :
    searchScore doc s.projectedQuery = searchScore doc s.queryValue + s.bonus doc := by
  by_cases h : s.nested = []
  · rw [projectedQuery, if_pos (List.isEmpty_iff.mpr h), bonus, h]
    exact (add_zero _).symm
  · have hread := congrArg Prod.snd (s.scoring_projectedQuery doc h)
    rwa [scoring_read, if_pos hdoc] at hread

section Names

variable (Doc)

theorem declared_projectedQuery : (declared Doc).read s.projectedQuery =
    (declared Doc).read s.queryValue ++ s.nested.map fun p => .clause p.clause := by
  by_cases h : s.nested = []
  · rw [projectedQuery, if_pos (List.isEmpty_iff.mpr h), h, List.map_nil, List.append_nil]
  · have hclauses : (s.nested.map fun p => (declared Doc).leaf p.toValue).flatten =
        s.nested.map fun p => .clause p.clause := by
      have hleaf : ∀ p ∈ s.nested, (declared Doc).leaf p.toValue = [.clause p.clause] := by
        intro p _
        simp only [declared, p.read_toValue]
      rw [List.map_congr_left hleaf, ← List.flatMap_def, ← List.map_eq_flatMap]
    rw [s.read_projectedQuery _ h, ← hclauses]
    simp [declared, BoolInner.empty]

/-- The names a search declares apart from its projections. -/
def ownNames : List String := (s.request Doc s.queryValue).names Doc

/-- Each projection has a path of its own, under which the query declares no inner hits. -/
structure FreshPaths : Prop where
  nodup : (s.nested.map NestedProjection.path).Nodup
  fresh : ∀ p ∈ s.nested, p.path ∉ s.ownNames Doc

theorem nodup_names_iff : ((s.request Doc s.projectedQuery).names Doc).Nodup ↔
    (s.ownNames Doc).Nodup ∧ s.FreshPaths Doc := by
  have hperm : ((s.request Doc s.projectedQuery).names Doc).Perm
      (s.nested.map NestedProjection.path ++ s.ownNames Doc) := by
    rw [ownNames, Request.names, Request.names, Request.declared, Request.declared]
    simp only [request, declared_projectedQuery, List.map_append, List.map_map]
    rw [← List.append_assoc]
    exact List.perm_append_comm.append_right _
  rw [hperm.nodup_iff, List.nodup_append]
  constructor
  · rintro ⟨hpaths, hown, hne⟩
    refine ⟨hown, hpaths, fun p hp hmem => ?_⟩
    exact hne _ (List.mem_map_of_mem hp) _ hmem rfl
  · rintro ⟨hown, hpaths, hfresh⟩
    refine ⟨hpaths, hown, ?_⟩
    rintro path hpath name hname rfl
    obtain ⟨p, hp, rfl⟩ := List.mem_map.mp hpath
    exact hfresh p hp hname

end Names

section Pages

variable (Doc)

/-- The ids are those of the documents' page, on every index. -/
def SamePage : Prop := ∀ index : List (String × Doc), (index.map Prod.fst).Nodup →
  pageIds index s.idsBody = pageIds index s.body

/-- The ranking by the query's score. -/
def ownRanking : Ranking Doc :=
  (s.request Doc s.queryValue).rankingBy fun doc => searchScore doc s.queryValue

/-- The ranking by the query's score with what the projections add to it. -/
def raisedRanking : Ranking Doc :=
  (s.request Doc s.queryValue).rankingBy fun doc => searchScore doc s.queryValue + s.bonus doc

/-- The projections are neutral: the request is refused without them as well, or they name
inner hits of their own and either no hits are asked for, or the scores they add leave the
ranking of the documents as it is. -/
def Neutral : Prop := (s.ownNames Doc).Nodup →
  s.FreshPaths Doc ∧ (s.size = some 0 ∨ (s.ownRanking Doc).Agrees (s.raisedRanking Doc))

/-- The documents' page is ranked by the raised scores. -/
theorem agrees_raisedRanking :
    (s.request Doc s.projectedQuery).ranking.Agrees (s.raisedRanking Doc) := by
  have hkeeps : ∀ doc, (s.request Doc s.projectedQuery).ranking.keeps doc =
      (s.raisedRanking Doc).keeps doc := by
    intro doc
    simp only [Request.ranking, raisedRanking, Request.rankingBy, Request.keepsAt, request,
      s.searchMatches_projectedQuery]
    cases hdoc : searchMatches doc s.queryValue with
    | false => simp only [Bool.false_and]
    | true => simp only [s.searchScore_projectedQuery doc hdoc]
  refine ⟨hkeeps, fun a b ha hb => ?_⟩
  have hmatches : ∀ doc : Doc, (s.request Doc s.projectedQuery).ranking.keeps doc = true →
      searchMatches doc s.queryValue = true := by
    intro doc hdoc
    rw [hkeeps] at hdoc
    simp only [raisedRanking, Request.rankingBy, Request.keepsAt, request,
      Bool.and_eq_true] at hdoc
    exact hdoc.1.1.1
  simp only [Request.ranking, raisedRanking, Request.rankingBy, request,
    s.searchScore_projectedQuery a (hmatches a ha), s.searchScore_projectedQuery b (hmatches b hb)]

variable {Doc}

theorem pageIds_idsBody (index : List (String × Doc)) : pageIds index s.idsBody =
    if (s.ownNames Doc).Nodup then
      some ((s.ownRanking Doc).names ((s.request Doc s.queryValue).thin Prod.snd)
        (s.request Doc s.queryValue).offset (s.request Doc s.queryValue).size index)
    else none := by
  simp only [pageIds, read_idsBody]
  rfl

theorem pageIds_body (index : List (String × Doc)) : pageIds index s.body =
    if ((s.request Doc s.projectedQuery).names Doc).Nodup then
      some ((s.raisedRanking Doc).names ((s.request Doc s.queryValue).thin Prod.snd)
        (s.request Doc s.queryValue).offset (s.request Doc s.queryValue).size index)
    else none := by
  rw [pageIds, read_body]
  simp only [Request.page, Ranking.page_congr (s.agrees_raisedRanking Doc)]
  rfl

/-- The hit that a page starts with is there whether or not hits are collapsed. -/
theorem getElem?_thin (h : s.collapse = none ∨ s.offset.getD 0 = 0) (query : Json)
    (hits : List (String × Doc)) :
    ((s.request Doc query).thin Prod.snd hits)[(s.request Doc query).offset]? =
      hits[(s.request Doc query).offset]? := by
  unfold Request.thin
  split
  · next field hfield =>
    have hzero : (s.request Doc query).offset = 0 := by
      rcases h with h | h
      · exact absurd (h.symm.trans hfield) nofun
      · cases hoffset : s.offset with
        | none => simp [request, hoffset]
        | some offset =>
          rw [hoffset, Option.getD_some] at h
          simp [request, hoffset, h]
    rw [hzero]
    cases hits <;> rfl
  · rfl

variable (Doc) in
theorem size_eq_zero_iff (query : Json) : (s.request Doc query).size = 0 ↔ s.size = some 0 := by
  cases hsize : s.size with
  | none => simp [request, hsize]
  | some size => simp [request, hsize, ← UInt64.toNat_inj]

/-- The ids are those of the documents' page on every index, if the projections are neutral.
Where the page starts with the first hit, or hits are not collapsed, they have to be. -/
theorem samePage_iff : (s.Neutral Doc → s.SamePage Doc) ∧
    (s.collapse = none ∨ s.offset.getD 0 = 0 → s.SamePage Doc → s.Neutral Doc) := by
  constructor
  · intro hneutral index _
    rw [pageIds_idsBody, pageIds_body]
    by_cases hown : (s.ownNames Doc).Nodup
    · obtain ⟨hfresh, hranked⟩ := hneutral hown
      rw [if_pos hown, if_pos ((s.nodup_names_iff Doc).mpr ⟨hown, hfresh⟩), Option.some.injEq]
      rcases hranked with hsize | hagrees
      · have hzero := (s.size_eq_zero_iff Doc s.queryValue).mpr hsize
        simp only [Ranking.names, Ranking.page, hzero, List.take_zero]
      · exact Ranking.names_congr hagrees index
    · rw [if_neg hown, if_neg fun hnames => hown ((s.nodup_names_iff Doc).mp hnames).1]
  · intro hpage hsame hown
    -- An index without documents tells whether the request is refused.
    have hempty := hsame [] List.nodup_nil
    rw [pageIds_idsBody, pageIds_body, if_pos hown] at hempty
    have hnames : ((s.request Doc s.projectedQuery).names Doc).Nodup := by
      by_contra hclash
      rw [if_neg hclash] at hempty
      cases hempty
    refine ⟨((s.nodup_names_iff Doc).mp hnames).2, ?_⟩
    by_cases hsize : s.size = some 0
    · exact Or.inl hsize
    · right
      have hpositive := (s.size_eq_zero_iff Doc s.queryValue).not.mpr hsize
      rw [← Ranking.sameNames_iff hpositive (s.getElem?_thin hpage s.queryValue)]
      intro index hindex
      have hids := hsame index hindex
      rw [pageIds_idsBody, pageIds_body, if_pos hown, if_pos hnames] at hids
      exact Option.some.inj hids

end Pages

section Unscored

variable (Doc)

/-- A sort key that no score bears on. -/
structure ScoreFree (key : Json) : Prop where
  keyOrder : ∀ (a b : Doc) (x y x' y' : ℚ),
    keyOrder key (a, x) (b, y) = keyOrder key (a, x') (b, y')
  valueOrder : ∀ (value : Json) (a : Doc) (x x' : ℚ),
    valueOrder key value (a, x) = valueOrder key value (a, x')

variable {Doc} {keys : List Json} (h : ∀ key ∈ keys, ScoreFree Doc key)
include h

theorem hitOrder_scoreFree (a b : Doc) (x y x' y' : ℚ) :
    hitOrder keys (a, x) (b, y) = hitOrder keys (a, x') (b, y') := by
  induction keys with
  | nil => rfl
  | cons key keys ih =>
    rw [hitOrder, hitOrder, (h key List.mem_cons_self).keyOrder a b x y x' y',
      ih fun k hk => h k (List.mem_cons_of_mem _ hk)]

theorem beyond_scoreFree (a : Doc) (x x' : ℚ) (values : List Json) :
    beyond (a, x) keys values = beyond (a, x') keys values := by
  induction keys generalizing values with
  | nil => rfl
  | cons key keys ih =>
    cases values with
    | nil => rfl
    | cons value values =>
      rw [beyond, beyond, (h key List.mem_cons_self).valueOrder value a x x',
        ih (fun k hk => h k (List.mem_cons_of_mem _ hk)) values]

omit h in
/-- Projections are neutral in a search that sorts by other keys than the score and has no
least score. -/
theorem neutral_of_scoreFree (hfresh : s.FreshPaths Doc) (hmin : s.minScore = none)
    (hsort : s.sort ≠ []) (hkeys : ∀ sort ∈ s.sort, ScoreFree Doc sort.toValue) :
    s.Neutral Doc := by
  have hrequest : (s.request Doc s.queryValue).sort = s.sort.map SearchSort.toValue := by
    cases hlist : s.sort with
    | nil => exact absurd hlist hsort
    | cons sort sorts => simp [request, sortArray, Request.sortKeys, hlist, Json.asArray]
  have hfree : ∀ key ∈ (s.request Doc s.queryValue).sort, ScoreFree Doc key := by
    rw [hrequest]
    intro key hkey
    obtain ⟨sort, hmem, rfl⟩ := List.mem_map.mp hkey
    exact hkeys sort hmem
  have hleast : (s.request Doc s.queryValue).minScore = none := by simp [request, hmin]
  rintro -
  refine ⟨hfresh, Or.inr ⟨fun doc => ?_, fun a b _ _ => ?_⟩⟩
  · simp only [ownRanking, raisedRanking, Request.rankingBy, Request.keepsAt, hleast,
      beyond_scoreFree hfree doc (searchScore doc s.queryValue + s.bonus doc)
        (searchScore doc s.queryValue)]
    rfl
  · exact congrArg Ordering.isLE (hitOrder_scoreFree hfree a b _ _ _ _)

end Unscored

/-- Documents by the number of their elements. Each query scores one; a nested query is for
documents with an element. -/
@[reducible] def elementCounts : HitEngine ℕ where
  leaf query count :=
    match query with
    | .object [("nested", _)] => decide (0 < count)
    | _ => true
  required _ _ := 0
  score _ _ := 1
  amount _ := none
  compareKey _ a b := compare a.1 b.1
  compareKey_swap _ _ _ := Std.OrientedCmp.eq_swap
  compareValue _ _ _ := .gt
  collapsed _ _ := ""
  declares _ := []

/-- All documents, with their items. -/
def withItems : Search := new.filterNested (.matching "items" none)

theorem samePage_byName :
    @SamePage { withItems with sort := [.field [] "name" .asc] } ℕ elementCounts := by
  refine (@samePage_iff _ ℕ elementCounts).1 (@neutral_of_scoreFree _ ℕ elementCounts ?_ rfl ?_ ?_)
  · exact @FreshPaths.mk _ ℕ elementCounts (by decide) (by decide)
  · exact List.cons_ne_nil _ _
  · intro sort hsort
    rw [List.mem_singleton.mp hsort]
    exact @ScoreFree.mk ℕ elementCounts _ (fun _ _ _ _ _ _ => rfl) fun _ _ _ _ => rfl

/-- The document with items comes first only among the documents. -/
theorem not_samePage_withItems : ¬ @SamePage withItems ℕ elementCounts := by
  intro hsame
  have hids : @pageIds ℕ elementCounts [("1", 0), ("2", 1)] withItems.idsBody =
      some ["1", "2"] := by decide +kernel
  have hhits : @pageIds ℕ elementCounts [("1", 0), ("2", 1)] withItems.body =
      some ["2", "1"] := by decide +kernel
  have hpages := hsame [("1", 0), ("2", 1)] (by decide)
  rw [hids, hhits] at hpages
  exact absurd hpages (by decide)

end Search

end Flusso.Sdk
