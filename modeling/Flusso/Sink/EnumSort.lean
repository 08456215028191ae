import Flusso.Sink.IndexBody

/-! # Sorting by an ordered enum

A body is read back the way the engine that is sent it reads it: from a field's
sort sub-field to its normalizer, from there to the char filter, and from the
filter's rules to pairs of a variant and a rank.
-/

namespace Flusso

namespace IndexBody

open JsonValue (ofNat ofFields strings)

/-- A field of the tree, with the names that lead to it and its dotted path. -/
structure Located where
  names : List String
  path : String
  field : ResolvedField

mutual

/-- A field and those below it. -/
def locatedField (names : List String) (path : String) : ResolvedField → List Located
  | ⟨name, mapping, nullable, array, children⟩ =>
    let field : ResolvedField := ⟨name, mapping, nullable, array, children⟩
    ⟨names ++ [name.name], fieldPath path field, field⟩ ::
      located (names ++ [name.name]) (fieldPath path field) children

/-- Every field of the tree. -/
def located (names : List String) (path : String) : List ResolvedField → List Located
  | [] => []
  | field :: fields => locatedField names path field ++ located names path fields

end

section Reading

/-- A rule is read at its last arrow. -/
def splitRule : List Char → Option (List Char × List Char)
  | [] => none
  | c :: rest =>
    match splitRule rest with
    | some (key, value) => some (c :: key, value)
    | none =>
      if " => ".toList.isPrefixOf (c :: rest) then some ([], (c :: rest).drop 4) else none

def readRule (rule : String) : Option (String × String) :=
  (splitRule rule.toList).map fun pair => (String.ofList pair.1, String.ofList pair.2)

def propertyKeys (names : List String) : List String :=
  "mappings" :: names.flatMap fun name => ["properties", name]

variable (body : JsonValue)

/-- The normalizer of a field's sort sub-field. -/
def sortNormalizer (names : List String) : Option String :=
  (body.under (propertyKeys names ++ ["fields", enumSortSubfield, "normalizer"])).bind
    JsonValue.string?

/-- The char filter of a normalizer that has one and no other filter. -/
def charFilterOf (normalizer : String) : Option String :=
  match body.under ["settings", "analysis", "normalizer", normalizer, "char_filter"],
      body.under ["settings", "analysis", "normalizer", normalizer, "filter"] with
  | some (.array [.string charFilter]), some (.array []) => some charFilter
  | _, _ => none

/-- The keys a char filter replaces, with their values. -/
def rulesOf (charFilter : String) : Option (List (String × String)) :=
  ((body.under ["settings", "analysis", "char_filter", charFilter, "mappings"]).bind
    JsonValue.array?).bind fun rules => rules.mapM fun rule => rule.string?.bind readRule

/-- The field has a sort sub-field whose char filter maps exactly the variants, to strings in
the order of the variants. -/
def SortsBy (names variants : List String) : Prop :=
  ∃ normalizer charFilter rules, sortNormalizer body names = some normalizer ∧
    charFilterOf body normalizer = some charFilter ∧ rulesOf body charFilter = some rules ∧
    rules.map Prod.fst = variants ∧ (rules.map Prod.snd).Pairwise (· < ·)

/-- Every ordered enum sorts by its own variants, and no two share a normalizer or a char
filter. -/
def SortsEnums (fields : List ResolvedField) : Prop :=
  (∀ l ∈ located [] "" fields, ∀ variants, l.field.mapping.enumOrder = some variants →
    SortsBy body l.names variants) ∧
  ∀ l ∈ located [] "" fields, ∀ l' ∈ located [] "" fields,
    l.field.mapping.enumOrder.isSome → l'.field.mapping.enumOrder.isSome → l.path ≠ l'.path →
    ∀ n n', sortNormalizer body l.names = some n → sortNormalizer body l'.names = some n' →
      n ≠ n' ∧ ∀ c c', charFilterOf body n = some c → charFilterOf body n' = some c' → c ≠ c'

end Reading

section Rules

variable {key value rest : List Char}

theorem splitRule_eq_none (h : ∀ c ∈ value, c ≠ ' ') : splitRule value = none := by
  induction value with
  | nil => rfl
  | cons c value ih =>
    have hc : ' ' ≠ c := (h c List.mem_cons_self).symm
    rw [splitRule, ih fun d hd => h d (List.mem_cons_of_mem _ hd)]
    simp [hc]

theorem splitRule_append (h : ∀ c ∈ value, c.isDigit = true) :
    splitRule (key ++ " => ".toList ++ value) = some (key, value) := by
  have hspace : ∀ c ∈ value, c ≠ ' ' := by
    rintro c hc rfl
    exact absurd (h _ hc) (by decide)
  induction key with
  | nil =>
    have hblank : splitRule (' ' :: value) = none := by
      rw [splitRule, splitRule_eq_none hspace]
      cases value with
      | nil => rfl
      | cons c value =>
        have hc : '=' ≠ c := by
          rintro rfl
          exact absurd (h _ List.mem_cons_self) (by decide)
        simp [hc]
    have harrow : splitRule ('=' :: '>' :: ' ' :: value) = none := by
      rw [splitRule, splitRule, hblank]
      simp
    change splitRule (' ' :: '=' :: '>' :: ' ' :: value) = _
    rw [splitRule, harrow]
    simp
  | cons c key ih =>
    change splitRule (c :: (key ++ " => ".toList ++ value)) = _
    rw [splitRule, ih]

theorem readRule_enumSortRule (width : ℕ) (variant : String × ℕ) :
    readRule (enumSortRule width variant) = some (variant.1, padded width variant.2) := by
  have hsplit := @splitRule_append variant.1.toList (padded width variant.2).toList
    fun _ => isDigit_of_mem_padded
  rw [readRule, enumSortRule, String.toList_append, String.toList_append, hsplit]
  simp

variable {variants : List String}

/-- The ranks of a list of variants. -/
def ranks (variants : List String) : List (String × String) :=
  let width := (toString (variants.length - 1)).length
  variants.zipIdx.map fun variant => (variant.1, padded width variant.2)

theorem mapM_readRule : (enumSortMappings variants).mapM readRule = some (ranks variants) := by
  unfold enumSortMappings ranks
  induction variants.zipIdx with
  | nil => rfl
  | cons variant rest ih =>
    simp only [List.map_cons, List.mapM_cons, readRule_enumSortRule] at ih ⊢
    rw [ih]
    rfl

theorem map_fst_ranks : (ranks variants).map Prod.fst = variants := by
  rw [ranks, List.map_map]
  exact List.zipIdx_map_fst 0 variants

/-- As strings the ranks are in the order of the variants, at any number of them. -/
theorem pairwise_ranks : ((ranks variants).map Prod.snd).Pairwise (· < ·) := by
  have hwidth : 0 < (toString (variants.length - 1)).length := by
    rw [← String.length_toList]
    exact List.length_pos_iff.mpr (toString_ne_nil _)
  have hbound : ∀ n < variants.length, n < 10 ^ (toString (variants.length - 1)).length := by
    intro n hn
    have hlast := @ofDigitChars_lt (toString (variants.length - 1)).toList
      fun c hc => isDigit_of_mem_toString hc
    rw [ofDigitChars_toString, String.length_toList] at hlast
    omega
  rw [ranks, List.map_map, List.pairwise_map, List.pairwise_iff_getElem]
  intro i j hi hj hij
  simp only [List.length_zipIdx] at hi hj
  simp only [Function.comp_apply, List.getElem_zipIdx, Nat.zero_add]
  exact padded_lt_padded hwidth hij (hbound j hj)

end Rules

section Walk

variable [Decimals] {options : IndexOptions} {path : String} {fields : List ResolvedField}
  {names : List String} {body : JsonValue}

omit [Decimals] in
theorem under_append (keys keys' : List String) :
    body.under (keys ++ keys') = (body.under keys).bind (JsonValue.under keys') := by
  induction keys generalizing body with
  | nil => rfl
  | cons key keys ih =>
    rw [List.cons_append, JsonValue.under, JsonValue.under, Option.bind_assoc]
    congr 1
    funext value
    exact ih

omit [Decimals] in
theorem locatedField_eq (f : ResolvedField) : locatedField names path f =
    ⟨names ++ [f.name.name], fieldPath path f, f⟩ ::
      located (names ++ [f.name.name]) (fieldPath path f) f.children := by
  cases f
  rfl

theorem buildProperty_eq (f : ResolvedField) : buildProperty options path f =
    .object (if f.children.isEmpty then ownProperty options f path
      else Json.insert "properties" (.object (buildProperties options path f.children []))
        (ownProperty options f path)) := by
  cases f
  rfl

theorem buildProperties_eq (props : List (String × JsonValue)) :
    buildProperties options path fields props = Json.merge props
      (fields.map fun f => (f.name.name, buildProperty options (fieldPath path f) f)) := by
  induction fields generalizing props with
  | nil => rfl
  | cons f fields ih =>
    rw [buildProperties, ih, List.map_cons, Json.merge, Json.merge, List.foldl_cons]

omit [Decimals] in
theorem sublist_located :
    (fields.map (fieldPath path)).Sublist ((located names path fields).map Located.path) := by
  induction fields with
  | nil => exact List.nil_sublist _
  | cons f fields ih =>
    rw [List.map_cons, located, locatedField_eq, List.cons_append, List.map_cons, List.map_append]
    exact (ih.trans (List.sublist_append_right _ _)).cons_cons _

omit [Decimals] in
theorem nodup_names (h : ((located names path fields).map Located.path).Nodup) :
    (fields.map fun f => f.name.name).Nodup := by
  have hpaths := h.sublist sublist_located
  refine List.Nodup.of_map (fun name => if path.isEmpty then name else path ++ "." ++ name) ?_
  rw [List.map_map]
  exact hpaths

theorem get_buildProperties {f : ResolvedField} (h : (fields.map fun f => f.name.name).Nodup)
    (hf : f ∈ fields) : Json.get (buildProperties options path fields []) f.name.name =
      some (buildProperty options (fieldPath path f) f) := by
  rw [buildProperties_eq]
  apply Json.get_ofPairs_of_mem
  · rw [List.map_map]
    exact h
  · exact List.mem_map_of_mem hf

mutual

theorem under_locatedField : ∀ (f : ResolvedField) (names : List String) (path : String),
    ((locatedField names path f).map Located.path).Nodup →
    body.under (propertyKeys (names ++ [f.name.name])) =
      some (buildProperty options (fieldPath path f) f) →
    ∀ l ∈ locatedField names path f,
      body.under (propertyKeys l.names) = some (buildProperty options l.path l.field)
  | ⟨name, mapping, nullable, array, children⟩, names, path, hpaths, hfield, l, hl => by
    rw [locatedField] at hpaths hl
    rcases List.mem_cons.mp hl with rfl | hl
    · exact hfield
    · have hchildren := (List.nodup_cons.mp hpaths).2
      refine under_located children _ _ hchildren (fun child hchild => ?_) l hl
      have hkeys : propertyKeys (names ++ [name.name] ++ [child.name.name]) =
          propertyKeys (names ++ [name.name]) ++ ["properties", child.name.name] := by
        simp [propertyKeys]
      have hne : children.isEmpty = false := by
        rw [List.isEmpty_eq_false_iff_exists_mem]
        exact ⟨child, hchild⟩
      rw [hkeys, under_append, hfield, Option.bind_some, buildProperty_eq, if_neg (by simp [hne])]
      simp only [JsonValue.under, JsonValue.field?, Json.get_insert, if_true, Option.bind_some]
      rw [get_buildProperties (nodup_names hchildren) hchild, Option.bind_some]

theorem under_located : ∀ (fields : List ResolvedField) (names : List String) (path : String),
    ((located names path fields).map Located.path).Nodup →
    (∀ f ∈ fields, body.under (propertyKeys (names ++ [f.name.name])) =
      some (buildProperty options (fieldPath path f) f)) →
    ∀ l ∈ located names path fields,
      body.under (propertyKeys l.names) = some (buildProperty options l.path l.field)
  | [], _, _, _, _, _, hl => by cases hl
  | f :: fields, names, path, hpaths, hfields, l, hl => by
    rw [located, List.map_append, List.nodup_append] at hpaths
    rw [located] at hl
    rcases List.mem_append.mp hl with hl | hl
    · exact under_locatedField f names path hpaths.1 (hfields f List.mem_cons_self) l hl
    · exact under_located fields names path hpaths.2.1
        (fun f hf => hfields f (List.mem_cons_of_mem _ hf)) l hl

end

end Walk

section Enums

/-- The field is an ordered enum. -/
def Located.enumSort (l : Located) : Option (String × List String) :=
  l.field.mapping.enumOrder.map fun order => (l.path, order)

mutual

theorem collectEnumSort_eq : ∀ (f : ResolvedField) (names : List String) (path : String),
    collectEnumSort path f = (locatedField names path f).filterMap Located.enumSort
  | ⟨name, mapping, nullable, array, children⟩, names, path => by
    rw [collectEnumSort, locatedField, List.filterMap_cons, ← collectEnumSorts_eq children]
    cases horder : mapping.enumOrder with
    | none => simp [Located.enumSort, horder]
    | some order => simp [Located.enumSort, horder]

theorem collectEnumSorts_eq : ∀ (fields : List ResolvedField) (names : List String)
    (path : String),
    collectEnumSorts path fields = (located names path fields).filterMap Located.enumSort
  | [], _, _ => rfl
  | f :: fields, names, path => by
    rw [collectEnumSorts, located, List.filterMap_append, ← collectEnumSort_eq f,
      ← collectEnumSorts_eq fields]

end

end Enums

section Wiring

variable [Decimals] {options : IndexOptions} {path : String} {fields : List ResolvedField}
  {names : List String} {f : ResolvedField} {l : Located} {order : List String}

/-- Without sub-fields of its own an ordered enum has the one it is sorted by. -/
theorem under_sort (horder : f.mapping.enumOrder = some order)
    (hown : Json.get f.mapping.extra "fields" = none) :
    (buildProperty options path f).under ["fields", enumSortSubfield] = some (enumSort path) := by
  have hextra : Json.get (f.mapping.extra.map fun option => (option.1, toJson option.2)).reverse
      "fields" = none := by
    rw [← Option.not_isSome_iff_eq_none, Json.isSome_get_iff]
    rw [← Option.not_isSome_iff_eq_none, Json.isSome_get_iff] at hown
    simpa using hown
  have hprop : ∃ sub, Json.get (ownProperty options f path) "fields" = some (.object sub) ∧
      Json.get sub enumSortSubfield = some (enumSort path) := by
    rw [ownProperty, Json.get_merge, hextra, Option.none_or, addEnumSort, if_pos (by simp [horder])]
    split
    · next sub hsub =>
      refine ⟨_, by rw [Json.get_insert, if_pos rfl], ?_⟩
      rw [Json.get_insert, if_pos rfl]
    · refine ⟨_, by rw [Json.get_insert, if_pos rfl], ?_⟩
      rw [Json.get_cons, if_pos rfl]
  obtain ⟨sub, hsub, hsort⟩ := hprop
  rw [buildProperty_eq, JsonValue.under, JsonValue.field?]
  have hfields : Json.get (if f.children.isEmpty then ownProperty options f path
      else Json.insert "properties" (.object (buildProperties options path f.children []))
        (ownProperty options f path)) "fields" = some (.object sub) := by
    split
    · exact hsub
    · rw [Json.get_insert, if_neg (by decide), hsub]
  rw [hfields, Option.bind_some, JsonValue.under, JsonValue.field?, hsort]
  rfl

theorem under_properties (keys : List String) : (buildIndexBody fields options).under
    ("mappings" :: "properties" :: keys) =
      (JsonValue.object (buildProperties options "" fields [])).under keys := by
  simp [buildIndexBody, ofFields, JsonValue.under, JsonValue.field?, Json.get_ofPairs, Json.get_cons]

theorem under_analysis (keys : List String) : (buildIndexBody fields options).under
    ("settings" :: "analysis" :: keys) =
      (buildAnalysis options.textAnalysis (collectEnumSorts "" fields)).under keys := by
  simp [buildIndexBody, ofFields, JsonValue.under, JsonValue.field?, Json.get_ofPairs, Json.get_cons]

end Wiring

section Definitions

variable {mode : TextAnalysis} {sorts : List (String × List String)} {sort : String × List String}

theorem get_reverse_of_nodup {g : String × List String → String × JsonValue}
    (hg : ∀ s, (g s).1 = enumSortName s.1) (h : (sorts.map fun s => enumSortName s.1).Nodup)
    (hsort : sort ∈ sorts) :
    Json.get (sorts.map g).reverse (enumSortName sort.1) = some (g sort).2 := by
  apply Json.get_of_nodup
  · rw [List.map_reverse, List.nodup_reverse, List.map_map]
    simpa [Function.comp_def, hg] using h
  · rw [List.mem_reverse, ← hg sort]
    exact List.mem_map_of_mem hsort

theorem under_normalizer (keys : List String) : (buildAnalysis mode sorts).under
    ("normalizer" :: keys) = (JsonValue.object (normalizers mode sorts)).under keys := by
  simp [buildAnalysis, ofFields, JsonValue.under, JsonValue.field?, Json.get_ofPairs, Json.get_cons]

theorem under_charFilter (hne : (charFilters sorts).isEmpty = false) (keys : List String) :
    (buildAnalysis mode sorts).under ("char_filter" :: keys) =
      (JsonValue.object (charFilters sorts)).under keys := by
  simp [buildAnalysis, ofFields, JsonValue.under, JsonValue.field?, Json.get_ofPairs, Json.get_cons,
    hne]

theorem get_normalizers (h : (sorts.map fun s => enumSortName s.1).Nodup) (hsort : sort ∈ sorts) :
    Json.get (normalizers mode sorts) (enumSortName sort.1) = some (enumNormalizer sort).2 := by
  rw [normalizers, Json.get_merge, get_reverse_of_nodup (fun _ => rfl) h hsort, Option.some_or]

theorem get_charFilters (h : (sorts.map fun s => enumSortName s.1).Nodup) (hsort : sort ∈ sorts) :
    Json.get (charFilters sorts) (enumSortName sort.1) = some (enumCharFilter sort).2 := by
  rw [charFilters, Json.get_ofPairs, get_reverse_of_nodup (fun _ => rfl) h hsort]

end Definitions

section Result

variable [Decimals] {options : IndexOptions} {fields : List ResolvedField} {l : Located}
  {order : List String}

/-- The ordered enums set no sub-fields of their own. -/
def NoOwnSubfields (fields : List ResolvedField) : Prop :=
  ∀ l ∈ located [] "" fields, l.field.mapping.enumOrder.isSome →
    Json.get l.field.mapping.extra "fields" = none

/-- No two ordered enums are named alike. -/
def SortNamesDiffer (fields : List ResolvedField) : Prop :=
  ((collectEnumSorts "" fields).map fun sort => enumSortName sort.1).Nodup

/-- No two fields have one dotted path. -/
def PathsDiffer (fields : List ResolvedField) : Prop :=
  ((located [] "" fields).map Located.path).Nodup

omit [Decimals] in
theorem mem_collectEnumSorts (hl : l ∈ located [] "" fields)
    (horder : l.field.mapping.enumOrder = some order) :
    (l.path, order) ∈ collectEnumSorts "" fields := by
  rw [collectEnumSorts_eq fields [], List.mem_filterMap]
  exact ⟨l, hl, by rw [Located.enumSort, horder]; rfl⟩

theorem sortNormalizer_eq (hpaths : PathsDiffer fields) (hl : l ∈ located [] "" fields)
    (horder : l.field.mapping.enumOrder = some order)
    (hown : Json.get l.field.mapping.extra "fields" = none) :
    sortNormalizer (buildIndexBody fields options) l.names = some (enumSortName l.path) := by
  have hproperty := @under_located _ options (buildIndexBody fields options) fields [] "" hpaths
    (fun f hf => ?_) l hl
  · rw [sortNormalizer, under_append, hproperty, Option.bind_some]
    have hsort := @under_sort _ options l.path _ _ horder hown
    rw [show ["fields", enumSortSubfield, "normalizer"] =
      ["fields", enumSortSubfield] ++ ["normalizer"] from rfl, under_append, hsort,
      Option.bind_some]
    simp [enumSort, ofFields, JsonValue.under, JsonValue.field?, Json.get_ofPairs, Json.get_cons,
      JsonValue.string?]
  · rw [show propertyKeys ([] ++ [f.name.name]) = ["mappings", "properties", f.name.name] from rfl,
      under_properties, JsonValue.under, JsonValue.field?,
      get_buildProperties (nodup_names hpaths) hf]
    rfl

theorem charFilterOf_eq (hnames : SortNamesDiffer fields) {path : String}
    (hsort : (path, order) ∈ collectEnumSorts "" fields) :
    charFilterOf (buildIndexBody fields options) (enumSortName path) =
      some (enumSortName path) := by
  have hget := @get_normalizers options.textAnalysis _ _ hnames hsort
  rw [charFilterOf, under_analysis, under_normalizer, under_analysis, under_normalizer,
    JsonValue.under, JsonValue.under, JsonValue.field?, hget]
  simp [enumNormalizer, ofFields, strings, JsonValue.under, JsonValue.field?, Json.get_ofPairs,
    Json.get_cons]

theorem rulesOf_eq (hnames : SortNamesDiffer fields) {path : String}
    (hsort : (path, order) ∈ collectEnumSorts "" fields) :
    rulesOf (buildIndexBody fields options) (enumSortName path) = some (ranks order) := by
  have hget := get_charFilters hnames hsort
  have hne : (charFilters (collectEnumSorts "" fields)).isEmpty = false := by
    rw [List.isEmpty_eq_false_iff_exists_mem]
    exact ⟨_, Json.mem_of_get hget⟩
  rw [rulesOf, under_analysis, under_charFilter hne, JsonValue.under, JsonValue.field?, hget]
  have hrules : (enumSortMappings order).mapM readRule = some (ranks order) := mapM_readRule
  simp [enumCharFilter, ofFields, strings, JsonValue.under, JsonValue.field?, Json.get_ofPairs,
    Json.get_cons, JsonValue.array?, List.mapM_map, Function.comp_def, JsonValue.string?, hrules]

/-- Where no ordered enum sets its own sub-fields and no two are named alike, each is sorted by
its own variants, in their order. -/
theorem sortsEnums_buildIndexBody (hpaths : PathsDiffer fields) (hown : NoOwnSubfields fields)
    (hnames : SortNamesDiffer fields) : SortsEnums (buildIndexBody fields options) fields := by
  have hsome {l : Located} (hl : l ∈ located [] "" fields) {order : List String}
      (horder : l.field.mapping.enumOrder = some order) :
      sortNormalizer (buildIndexBody fields options) l.names = some (enumSortName l.path) :=
    sortNormalizer_eq hpaths hl horder (hown l hl (by rw [horder]; rfl))
  constructor
  · intro l hl order horder
    have hsort := mem_collectEnumSorts hl horder
    exact ⟨_, _, _, hsome hl horder, charFilterOf_eq hnames hsort, rulesOf_eq hnames hsort,
      map_fst_ranks, pairwise_ranks⟩
  · intro l hl l' hl' horder horder' hne n n' hn hn'
    obtain ⟨order, horder⟩ := Option.isSome_iff_exists.mp horder
    obtain ⟨order', horder'⟩ := Option.isSome_iff_exists.mp horder'
    have hsort := mem_collectEnumSorts hl horder
    have hsort' := mem_collectEnumSorts hl' horder'
    rw [hsome hl horder] at hn
    rw [hsome hl' horder'] at hn'
    cases hn
    cases hn'
    have hdiffer : enumSortName l.path ≠ enumSortName l'.path := fun heq =>
      hne (congrArg Prod.fst (List.inj_on_of_nodup_map hnames hsort hsort' heq))
    refine ⟨hdiffer, fun c c' hc hc' => ?_⟩
    rw [charFilterOf_eq hnames hsort] at hc
    rw [charFilterOf_eq hnames hsort'] at hc'
    cases hc
    cases hc'
    exact hdiffer

end Result

section Inputs

/-- A field of an ordered enum. -/
def enumField (name : String) (options : Options) (order : List String) : ResolvedField where
  name := ⟨name⟩
  mapping := ⟨.keyword, options, none, false, some order⟩
  nullable := false
  array := false
  children := []

/-- A field over others. -/
def objectField (name : String) (children : List ResolvedField) : ResolvedField where
  name := ⟨name⟩
  mapping := ⟨.object, [], none, false, none⟩
  nullable := false
  array := false
  children := children

/-- Two ordered enums at different depths. -/
theorem sortsEnums_buildIndexBody_two :
    let fields := [enumField "status" [] ["open", "closed"],
      objectField "item" [enumField "size" [] ["small", "large"]]]
    SortsEnums (@buildIndexBody exactDecimals fields ⟨1, 0, .builtin, true⟩) fields :=
  @sortsEnums_buildIndexBody exactDecimals _ _ (by unfold PathsDiffer; decide)
    (by unfold NoOwnSubfields; decide) (by unfold SortNamesDiffer; decide)

/-- The paths a.b_c and a_b.c are named alike: the second enum's filter replaces the first's.
And an enum with sub-fields of its own has none to sort by. -/
theorem not_sortsEnums_buildIndexBody :
    (let fields := [objectField "a" [enumField "b_c" [] ["low", "high"]],
        objectField "a_b" [enumField "c" [] ["high", "low"]]]
      let body := @buildIndexBody exactDecimals fields ⟨1, 0, .builtin, true⟩
      PathsDiffer fields ∧ ¬SortsBy body ["a", "b_c"] ["low", "high"] ∧
        ¬SortsEnums body fields) ∧
      let fields := [enumField "status" [("fields", .map [])] ["open", "closed"]]
      PathsDiffer fields ∧
        ¬SortsEnums (@buildIndexBody exactDecimals fields ⟨1, 0, .builtin, true⟩) fields := by
  constructor
  · intro fields body
    have hsorts : ¬SortsBy body ["a", "b_c"] ["low", "high"] := by
      rintro ⟨n, c, rules, hn, hc, hrules, hvariants, -⟩
      obtain rfl : "flusso_enumsort__a_b_c" = n :=
        Option.some.inj (Eq.trans (by decide +kernel) hn)
      obtain rfl : "flusso_enumsort__a_b_c" = c :=
        Option.some.inj (Eq.trans (by decide +kernel) hc)
      obtain rfl : [("high", "0"), ("low", "1")] = rules :=
        Option.some.inj (Eq.trans (by decide +kernel) hrules)
      exact absurd hvariants (by decide)
    refine ⟨by unfold PathsDiffer; decide, hsorts, fun h => hsorts ?_⟩
    exact h.1 ⟨["a", "b_c"], "a.b_c", enumField "b_c" [] ["low", "high"]⟩
      (by simp [fields, located, locatedField, objectField, enumField, fieldPath]) _ rfl
  · intro fields
    refine ⟨by unfold PathsDiffer; decide, fun h => ?_⟩
    obtain ⟨n, c, rules, hn, -⟩ := h.1
      ⟨["status"], "status", enumField "status" [("fields", .map [])] ["open", "closed"]⟩
      (by simp [fields, located, locatedField, enumField, fieldPath]) _ rfl
    have hnone : sortNormalizer (@buildIndexBody exactDecimals fields ⟨1, 0, .builtin, true⟩)
        ["status"] = none := by decide +kernel
    rw [hnone] at hn
    cases hn

end Inputs

end IndexBody

end Flusso
