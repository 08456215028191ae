import Flusso.Sdk.Renames

/-! # Document keys from serde attributes

The derives read `rename` and `rename_all` from an item's attributes. Each attribute is
scanned up to the first value the scan does not take, which hides what stands behind it.
-/

namespace Flusso.Sdk

/-- One item of a serde attribute. -/
inductive SerdeMeta where
  | flag (name : String)
  | pair (name value : String)

def SerdeMeta.sets (key : String) : SerdeMeta → Bool
  | flag _ => false
  | pair name _ => name = key

/-- The serde attributes of an item. A repeated `rename` or `rename_all` is refused by serde. -/
structure SerdeAttrs where
  attrs : List (List SerdeMeta)
  rename_once : attrs.flatten.countP (SerdeMeta.sets "rename") ≤ 1
  renameAll_once : attrs.flatten.countP (SerdeMeta.sets "rename_all") ≤ 1

/-- The identifier of a field or a variant, without the mark of a raw one. -/
structure Identifier where
  name : String
  raw : Bool
  nonempty : name.toList ≠ []
  plain : '#' ∉ name.toList

def Identifier.toText (ident : Identifier) : String :=
  if ident.raw then "r#" ++ ident.name else ident.name

section Scan

/-- One attribute scanned for a key. -/
def scanMetas (key : String) (found : Option String) : List SerdeMeta → Option String
  | [] => found
  | .flag _ :: metas => scanMetas key found metas
  | .pair name value :: metas =>
    if name = key then scanMetas key (some value) metas
    -- The value is left unread, and the scan ends on it.
    else found

def scan (key : String) (attrs : List (List SerdeMeta)) : Option String :=
  attrs.foldl (scanMetas key) none

/-- What serde reads for a key. -/
def setting (key : String) (attrs : List (List SerdeMeta)) : Option String :=
  attrs.flatten.findSome? fun
    | .flag _ => none
    | .pair name value => if name = key then some value else none

def SerdeMeta.isFlag : SerdeMeta → Bool
  | flag _ => true
  | pair _ _ => false

/-- Only flags stand before the key in its attribute. -/
def Reached (key : String) (attrs : List (List SerdeMeta)) : Prop :=
  ∀ metas ∈ attrs, metas.countP (SerdeMeta.sets key) ≠ 0 →
    ∀ item ∈ metas.takeWhile (fun item => !item.sets key), item.isFlag = true

variable {key value : String} {found : Option String} {metas : List SerdeMeta}
  {attrs : List (List SerdeMeta)}

theorem scanMetas_of_not_set (h : metas.countP (SerdeMeta.sets key) = 0) :
    scanMetas key found metas = found := by
  induction metas with
  | nil => rfl
  | cons item metas ih =>
    rw [List.countP_cons] at h
    cases item with
    | flag name => exact ih (by omega)
    | pair name value =>
      rw [scanMetas]
      split
      · next hname => simp [SerdeMeta.sets, hname] at h
      · rfl

theorem foldl_scanMetas_of_not_set (h : attrs.flatten.countP (SerdeMeta.sets key) = 0) :
    attrs.foldl (scanMetas key) found = found := by
  induction attrs generalizing found with
  | nil => rfl
  | cons metas attrs ih =>
    rw [List.flatten_cons, List.countP_append] at h
    rw [List.foldl_cons, scanMetas_of_not_set (by omega), ih (by omega)]

theorem setting_eq_none_iff :
    setting key attrs = none ↔ attrs.flatten.countP (SerdeMeta.sets key) = 0 := by
  rw [setting, List.findSome?_eq_none_iff, List.countP_eq_zero]
  constructor
  · intro h item hitem
    have hnone := h item hitem
    cases item <;> simp_all [SerdeMeta.sets]
  · intro h item hitem
    have hnot := h item hitem
    cases item <;> simp_all [SerdeMeta.sets]

theorem exists_of_setting (hsetting : setting key attrs = some value) :
    ∃ front before behind rest, attrs = front ++ (before ++ .pair key value :: behind) :: rest := by
  obtain ⟨item, hitem, hvalue⟩ := List.exists_of_findSome?_eq_some hsetting
  obtain ⟨metas, hmetas, hmem⟩ := List.mem_flatten.mp hitem
  obtain ⟨front, rest, rfl⟩ := List.append_of_mem hmetas
  obtain ⟨before, behind, rfl⟩ := List.append_of_mem hmem
  cases item with
  | flag name => cases hvalue
  | pair name other =>
    obtain ⟨rfl, hsome⟩ := Option.ite_none_right_eq_some.mp hvalue
    cases hsome
    exact ⟨front, before, behind, rest, rfl⟩

/-- A scan of what stands before the key ends on the first value, or goes on to the key. -/
theorem scanMetas_append (hbefore : metas.countP (SerdeMeta.sets key) = 0)
    (rest : List SerdeMeta) : scanMetas key found (metas ++ rest) =
      if metas.all SerdeMeta.isFlag then scanMetas key found rest else found := by
  induction metas with
  | nil => rfl
  | cons item metas ih =>
    rw [List.countP_cons] at hbefore
    cases item with
    | flag name => exact ih (by omega)
    | pair name value =>
      rw [List.cons_append, scanMetas, if_neg]
      · simp [SerdeMeta.isFlag]
      · intro hname
        simp [SerdeMeta.sets, hname] at hbefore

/-- A key that is set once is read exactly where no other value hides it. -/
theorem scan_of_setting (honce : attrs.flatten.countP (SerdeMeta.sets key) ≤ 1)
    (hsetting : setting key attrs = some value) :
    (Reached key attrs → scan key attrs = some value) ∧
      (¬ Reached key attrs → scan key attrs = none) := by
  obtain ⟨front, before, behind, rest, rfl⟩ := exists_of_setting hsetting
  have hself : (SerdeMeta.pair key value).sets key = true := by simp [SerdeMeta.sets]
  simp only [List.flatten_append, List.flatten_cons, List.countP_append, List.countP_cons, hself,
    if_true] at honce
  have hbefore : before.countP (SerdeMeta.sets key) = 0 := by omega
  have hfront := @foldl_scanMetas_of_not_set key none front (by omega)
  have hrest {found : Option String} : rest.foldl (scanMetas key) found = found :=
    foldl_scanMetas_of_not_set (by omega)
  have hbehind := @scanMetas_of_not_set key (some value) behind (by omega)
  have hscan : scan key (front ++ (before ++ .pair key value :: behind) :: rest) =
      if before.all SerdeMeta.isFlag then some value else none := by
    rw [scan, List.foldl_append, hfront, List.foldl_cons, hrest, scanMetas_append hbefore,
      scanMetas, if_pos rfl, hbehind]
  have htake : (before ++ .pair key value :: behind).takeWhile (fun item => !item.sets key) =
      before := by
    rw [List.countP_eq_zero] at hbefore
    rw [List.takeWhile_append_of_pos fun item hitem => by simpa using hbefore item hitem,
      List.takeWhile_cons_of_neg (by simp [hself]), List.append_nil]
  have hreached : Reached key (front ++ (before ++ .pair key value :: behind) :: rest) ↔
      before.all SerdeMeta.isFlag = true := by
    rw [List.all_eq_true]
    constructor
    · intro h
      have hthis := h _ (List.mem_append_right _ List.mem_cons_self) (by simp [hself])
      rwa [htake] at hthis
    · intro h metas hmetas hset
      have hzero {metas : List SerdeMeta} {attrs : List (List SerdeMeta)} (hmem : metas ∈ attrs)
          (hattrs : attrs.flatten.countP (SerdeMeta.sets key) = 0) :
          metas.countP (SerdeMeta.sets key) = 0 := by
        rw [List.countP_eq_zero] at hattrs ⊢
        exact fun item hitem => hattrs item (List.mem_flatten.mpr ⟨metas, hmem, hitem⟩)
      rcases List.mem_append.mp hmetas with hmem | hmem
      · exact absurd (hzero hmem (by omega)) hset
      · rcases List.mem_cons.mp hmem with rfl | hmem
        · rwa [htake]
        · exact absurd (hzero hmem (by omega)) hset
  rw [hreached, hscan]
  constructor
  · exact fun h => if_pos h
  · exact fun h => if_neg h

theorem scan_of_setting_none (hsetting : setting key attrs = none) : scan key attrs = none :=
  foldl_scanMetas_of_not_set (setting_eq_none_iff.mp hsetting)

end Scan

section Keys

/-- The rule a container's attributes ask serde for; an unknown one is refused. -/
def serdeRule (container : SerdeAttrs) : Option (Option RenameRule) :=
  match setting "rename_all" container.attrs with
  | some text => (RenameRule.ofText text).map some
  | none => some none

/-- The key of an item by serde: its own name set, else the name by the container's rule. -/
def serdeKey (apply : List Char → RenameRule → Option (List Char)) (container : SerdeAttrs)
    (ident : Identifier) (item : SerdeAttrs) : Option String := do
  let rule ← serdeRule container
  match setting "rename" item.attrs with
  | some renamed => some renamed
  | none =>
    match rule with
    | some rule => (apply ident.name.toList rule).map String.ofList
    | none => some ident.name

/-- The key of an item by a derive, without a name of its own. -/
def ruleKey (rename : List Char → String → List Char) (renameAll : Option String)
    (base : String) : String :=
  match renameAll with
  | some rule => String.ofList (rename base.toList rule)
  | none => base

/-- The key of an item by a derive. -/
def deriveKey (rename : List Char → String → List Char) (container : SerdeAttrs)
    (ident : Identifier) (item : SerdeAttrs) : String :=
  (scan "rename" item.attrs).getD
    (ruleKey rename (scan "rename_all" container.attrs) ident.toText)

structure FieldItem where
  ident : Identifier
  flussoRename : Option String
  serde : SerdeAttrs

/-- The document key of a field. -/
def docKey (container : SerdeAttrs) (field : FieldItem) : String :=
  field.flussoRename.getD (deriveKey applyRenameAll container field.ident field.serde)

structure VariantItem where
  ident : Identifier
  serde : SerdeAttrs

/-- A variant as the document spells it. -/
def variantKey (container : SerdeAttrs) (variant : VariantItem) : String :=
  deriveKey renameVariant container variant.ident variant.serde

/-- Where a derive's key is serde's: the name set is not hidden, or is the one fallen back to;
without one, the identifier is not raw, and the rule agrees on it, or is hidden and changes
nothing. -/
def KeyAgrees (rename : List Char → String → List Char)
    (apply : List Char → RenameRule → Option (List Char))
    (agrees : List Char → RenameRule → Prop) (container : SerdeAttrs) (ident : Identifier)
    (item : SerdeAttrs) : Prop :=
  match setting "rename" item.attrs with
  | some renamed => Reached "rename" item.attrs ∨
    renamed = ruleKey rename (scan "rename_all" container.attrs) ident.toText
  | none => ident.raw = false ∧ ∀ rule, serdeRule container = some (some rule) →
    (Reached "rename_all" container.attrs → agrees ident.name.toList rule) ∧
      (¬ Reached "rename_all" container.attrs →
        apply ident.name.toList rule = some ident.name.toList)

variable {rename : List Char → String → List Char}
  {apply : List Char → RenameRule → Option (List Char)} {agrees : List Char → RenameRule → Prop}
  {container item : SerdeAttrs} {ident : Identifier} {key : String}

/-- The derive's key is serde's exactly where the attributes are read and the rules agree. The
hash sign of a raw identifier is in each key made from it, and in none of serde's. -/
theorem deriveKey_iff (hrename : ∀ name text, '#' ∈ name → '#' ∈ rename name text)
    (happly : ∀ name rule key, apply name rule = some key → '#' ∈ key → '#' ∈ name)
    (hagrees : ∀ rule key, apply ident.name.toList rule = some key →
      (rename ident.name.toList rule.text = key ↔ agrees ident.name.toList rule))
    (hkey : serdeKey apply container ident item = some key) :
    deriveKey rename container ident item = key ↔
      KeyAgrees rename apply agrees container ident item := by
  obtain ⟨rule, hrule, hkey⟩ := Option.bind_eq_some_iff.mp hkey
  unfold KeyAgrees deriveKey
  cases hsetting : setting "rename" item.attrs with
  | some renamed =>
    rw [hsetting] at hkey
    cases hkey
    obtain ⟨hseen, hhidden⟩ := scan_of_setting item.rename_once hsetting
    by_cases hreached : Reached "rename" item.attrs
    · rw [hseen hreached]
      exact iff_of_true rfl (.inl hreached)
    · rw [hhidden hreached]
      simp only [hreached, false_or]
      exact eq_comm
  | none =>
    rw [hsetting] at hkey
    rw [scan_of_setting_none hsetting, Option.getD_none]
    by_cases hraw : ident.raw = true
    · refine iff_of_false ?_ (fun h => by simp [h.1] at hraw)
      intro heq
      have htext : '#' ∈ ident.toText.toList := by simp [Identifier.toText, hraw]
      have hmem : '#' ∈ key.toList := by
        rw [← heq]
        unfold ruleKey
        split
        · rw [String.toList_ofList]
          exact hrename _ _ htext
        · exact htext
      cases rule with
      | none =>
        cases hkey
        exact ident.plain hmem
      | some rule =>
        obtain ⟨k, hk, rfl⟩ := Option.map_eq_some_iff.mp hkey
        rw [String.toList_ofList] at hmem
        exact ident.plain (happly _ _ _ hk hmem)
    · have htext : ident.toText = ident.name := by simp [Identifier.toText, hraw]
      rw [htext]
      unfold serdeRule at hrule ⊢
      cases hall : setting "rename_all" container.attrs with
      | none =>
        rw [hall] at hrule
        cases hrule
        cases hkey
        rw [scan_of_setting_none hall]
        exact iff_of_true rfl ⟨by simpa using hraw, nofun⟩
      | some text =>
        rw [hall] at hrule
        obtain ⟨rule, hof, rfl⟩ := Option.map_eq_some_iff.mp hrule
        obtain ⟨k, hk, rfl⟩ := Option.map_eq_some_iff.mp hkey
        obtain ⟨hseen, hhidden⟩ := scan_of_setting container.renameAll_once hall
        have hraw' : ident.raw = false := by simpa using hraw
        simp only [hof, Option.map_some, Option.some.injEq, hraw', true_and, forall_eq']
        by_cases hreached : Reached "rename_all" container.attrs
        · rw [hseen hreached, ruleKey, String.ofList_inj, ← RenameRule.text_of_ofText hof,
            hagrees rule k hk]
          simp [hreached]
        · rw [hhidden hreached, ruleKey, hk]
          simp only [hreached, false_implies, true_and, not_false_eq_true, forall_const,
            Option.some.injEq]
          constructor
          · intro h
            rw [h, String.toList_ofList]
          · intro h
            rw [h, String.ofList_toList]

section Hash

variable {name word : List Char} {ws : List (List Char)}

theorem hash_mem_map {f : Char → Char} (hf : f '#' = '#') (h : '#' ∈ name) : '#' ∈ name.map f :=
  List.mem_map.mpr ⟨'#', h, hf⟩

theorem hash_mem_capitalize (h : '#' ∈ word) : '#' ∈ capitalize word := by
  cases word with
  | nil => cases h
  | cons first word =>
    rcases List.mem_cons.mp h with rfl | h
    · exact List.mem_cons_self
    · exact List.mem_cons_of_mem _ h

theorem hash_mem_capitalized (h : '#' ∈ ws.flatten) : '#' ∈ (ws.map capitalize).flatten := by
  obtain ⟨word, hword, hmem⟩ := List.mem_flatten.mp h
  exact List.mem_flatten.mpr ⟨_, List.mem_map_of_mem hword, hash_mem_capitalize hmem⟩

theorem hash_mem_camelWords (h : '#' ∈ ws.flatten) : '#' ∈ camelWords ws := by
  cases ws with
  | nil => cases h
  | cons word ws =>
    rw [List.flatten_cons] at h
    rcases List.mem_append.mp h with h | h
    · exact List.mem_append_left _ h
    · exact List.mem_append_right _ (hash_mem_capitalized h)

theorem hash_mem_intercalate {c : Char} (h : '#' ∈ ws.flatten) : '#' ∈ [c].intercalate ws := by
  cases ws with
  | nil => cases h
  | cons word ws =>
    rw [Separators.intercalate_cons]
    rw [List.flatten_cons] at h
    rcases List.mem_append.mp h with h | h
    · exact List.mem_append_left _ h
    · obtain ⟨word, hword, hmem⟩ := List.mem_flatten.mp h
      exact List.mem_append_right _
        (List.mem_flatMap.mpr ⟨word, hword, List.mem_cons_of_mem _ hmem⟩)

theorem hash_mem_applyRenameAll (name : List Char) (text : String) (h : '#' ∈ name) :
    '#' ∈ applyRenameAll name text := by
  have hwords : '#' ∈ (words name).flatten := by
    rw [flatten_words]
    exact List.mem_filter.mpr ⟨h, by decide⟩
  unfold applyRenameAll
  split
  · exact hash_mem_camelWords hwords
  · exact hash_mem_capitalized hwords
  · exact hash_mem_map rfl h
  · exact hash_mem_intercalate hwords
  · exact hash_mem_map rfl (hash_mem_intercalate hwords)
  · exact hash_mem_map rfl hwords
  · exact hash_mem_map rfl hwords
  · exact h

theorem hash_mem_renameVariant (name : List Char) (text : String) (h : '#' ∈ name) :
    '#' ∈ renameVariant name text := by
  have hwords : '#' ∈ (variantWords name).flatten := by
    cases name with
    | nil => cases h
    | cons first rest =>
      rw [variantWords_cons, flatten_wordsFrom]
      exact hash_mem_map rfl h
  unfold renameVariant
  split
  · exact hwords
  · exact hash_mem_map rfl hwords
  · exact h
  · exact hash_mem_camelWords hwords
  · exact hash_mem_intercalate hwords
  · exact hash_mem_map rfl (hash_mem_intercalate hwords)
  · exact hash_mem_intercalate hwords
  · exact hash_mem_map rfl (hash_mem_intercalate hwords)
  · exact h

theorem hash_of_toUpper (h : '#' ∈ name.map Char.toUpper) : '#' ∈ name := by
  obtain ⟨ch, hch, hupper⟩ := List.mem_map.mp h
  rw [Casing.toUpper_eq_iff (by decide)] at hupper
  exact hupper ▸ hch

theorem hash_of_toLower (h : '#' ∈ name.map Char.toLower) : '#' ∈ name := by
  obtain ⟨ch, hch, hlower⟩ := List.mem_map.mp h
  rw [Casing.toLower_eq_iff (by decide)] at hlower
  exact hlower ▸ hch

theorem hash_of_hyphened (h : '#' ∈ Serde.hyphened name) : '#' ∈ name := by
  obtain ⟨ch, hch, hhyphen⟩ := List.mem_map.mp h
  split at hhyphen
  · cases hhyphen
  · exact hhyphen ▸ hch

theorem hash_of_lowerFirst {key : List Char} (hkey : Serde.lowerFirst name = some key)
    (h : '#' ∈ key) : '#' ∈ name := by
  cases name with
  | nil => cases hkey
  | cons first rest =>
    obtain ⟨-, hsome⟩ := Option.ite_none_right_eq_some.mp hkey
    cases hsome
    rcases List.mem_cons.mp h with h | h
    · rw [Casing.toLower_eq_iff (by decide) |>.mp h.symm]
      exact List.mem_cons_self
    · exact List.mem_cons_of_mem _ h

theorem hash_of_pascalField {capitalize : Bool} (h : '#' ∈ Serde.pascalField capitalize name) :
    '#' ∈ name := by
  induction name generalizing capitalize with
  | nil => cases h
  | cons ch name ih =>
    rw [Serde.pascalField] at h
    split at h
    · exact List.mem_cons_of_mem _ (ih h)
    · split at h
      · rcases List.mem_cons.mp h with h | h
        · rw [Casing.toUpper_eq_iff (by decide) |>.mp h.symm]
          exact List.mem_cons_self
        · exact List.mem_cons_of_mem _ (ih h)
      · rcases List.mem_cons.mp h with h | h
        · exact h ▸ List.mem_cons_self
        · exact List.mem_cons_of_mem _ (ih h)

theorem hash_of_applyToField (name : List Char) (rule : RenameRule) (key : List Char)
    (hkey : Serde.applyToField name rule = some key) (h : '#' ∈ key) : '#' ∈ name := by
  cases rule with
  | lowercase | snake => cases hkey; exact h
  | uppercase | screamingSnake => cases hkey; exact hash_of_toUpper h
  | pascal => cases hkey; exact hash_of_pascalField h
  | camel => exact hash_of_pascalField (hash_of_lowerFirst hkey h)
  | kebab => cases hkey; exact hash_of_hyphened h
  | screamingKebab => cases hkey; exact hash_of_toUpper (hash_of_hyphened h)

variable [UnicodeCase]

theorem hash_of_snakeVariant (h : '#' ∈ Serde.snakeVariant name) : '#' ∈ name := by
  cases name with
  | nil => cases h
  | cons first rest =>
    rcases List.mem_cons.mp h with h | h
    · rw [Casing.toLower_eq_iff (by decide) |>.mp h.symm]
      exact List.mem_cons_self
    · obtain ⟨ch, hch, hmem⟩ := List.mem_flatMap.mp h
      rcases List.mem_append.mp hmem with hmem | hmem
      · split at hmem
        · cases List.mem_singleton.mp hmem
        · cases hmem
      · have hhash : ch = '#' := Casing.toLower_eq_iff (by decide) |>.mp
          (List.mem_singleton.mp hmem).symm
        exact List.mem_cons_of_mem _ (hhash ▸ hch)

theorem hash_of_applyToVariant (name : List Char) (rule : RenameRule) (key : List Char)
    (hkey : Serde.applyToVariant name rule = some key) (h : '#' ∈ key) : '#' ∈ name := by
  cases rule with
  | pascal => cases hkey; exact h
  | lowercase => cases hkey; exact hash_of_toLower h
  | uppercase => cases hkey; exact hash_of_toUpper h
  | camel => exact hash_of_lowerFirst hkey h
  | snake => cases hkey; exact hash_of_snakeVariant h
  | screamingSnake => cases hkey; exact hash_of_snakeVariant (hash_of_toUpper h)
  | kebab => cases hkey; exact hash_of_snakeVariant (hash_of_hyphened h)
  | screamingKebab => cases hkey; exact hash_of_snakeVariant (hash_of_toUpper (hash_of_hyphened h))

end Hash

/-- The keys the derives compute are serde's, exactly where their attributes are read and their
rules agree; a field's own document name stands before both. -/
theorem keys_iff [UnicodeCase] (container : SerdeAttrs) :
    (∀ (field : FieldItem) (key : String),
      serdeKey Serde.applyToField container field.ident field.serde = some key →
        (docKey container field = key ↔ match field.flussoRename with
          | some renamed => renamed = key
          | none => KeyAgrees applyRenameAll Serde.applyToField
            (fun name rule => rule.FieldAgrees name) container field.ident field.serde)) ∧
    ∀ (variant : VariantItem) (key : String),
      serdeKey Serde.applyToVariant container variant.ident variant.serde = some key →
        (variantKey container variant = key ↔ KeyAgrees renameVariant Serde.applyToVariant
          (fun name rule => rule.VariantAgrees name) container variant.ident variant.serde) := by
  constructor
  · rintro ⟨ident, flussoRename, serde⟩ key hkey
    cases flussoRename with
    | some renamed => exact Iff.rfl
    | none =>
      exact deriveKey_iff hash_mem_applyRenameAll hash_of_applyToField
        (fun rule k hk => applyRenameAll_iff rule ident.nonempty hk) hkey
  · rintro ⟨ident, serde⟩ key hkey
    exact deriveKey_iff hash_mem_renameVariant hash_of_applyToVariant
      (fun rule k hk => renameVariant_iff rule hk) hkey

/-- Capital letters of ASCII alone. -/
@[reducible] def asciiCase : UnicodeCase := ⟨Char.isUpper, fun _ h => h⟩

def noAttrs : SerdeAttrs := ⟨[], by decide, by decide⟩

/-- `rename_all = "camelCase"` -/
def camelCaseAttrs : SerdeAttrs := ⟨[[.pair "rename_all" "camelCase"]], by decide, by decide⟩

/-- `default, rename = "mail"` -/
def flaggedRename : SerdeAttrs :=
  ⟨[[.flag "default", .pair "rename" "mail"]], by decide, by decide⟩

/-- `rename_all = "lowercase"` -/
def lowercaseAttrs : SerdeAttrs := ⟨[[.pair "rename_all" "lowercase"]], by decide, by decide⟩

/-- `default = "none", rename = "mail"` -/
def hiddenRename : SerdeAttrs :=
  ⟨[[.pair "default" "none", .pair "rename" "mail"]], by decide, by decide⟩

def firstName : FieldItem := ⟨⟨"first_name", false, by decide, by decide⟩, none, noAttrs⟩

def email : FieldItem := ⟨⟨"email", false, by decide, by decide⟩, none, hiddenRename⟩

def flaggedEmail : FieldItem := ⟨⟨"email", false, by decide, by decide⟩, none, flaggedRename⟩

theorem keys_iff_firstName :
    docKey camelCaseAttrs firstName = "firstName" ∧
      docKey camelCaseAttrs flaggedEmail = "mail" := by
  constructor
  · apply ((@keys_iff asciiCase camelCaseAttrs).1 firstName "firstName" (by decide)).mpr
    refine ⟨rfl, fun rule hrule => ?_⟩
    cases show some (some RenameRule.camel) = some (some rule) from hrule
    refine ⟨fun _ ch hch => ?_, fun hhidden => absurd ?_ hhidden⟩
    · cases show some 'f' = some ch from hch
      rfl
    · -- Nothing stands before the rule.
      intro metas hmetas _ item hitem
      cases List.mem_singleton.mp hmetas
      cases show item ∈ [] from hitem
  · apply ((@keys_iff asciiCase camelCaseAttrs).1 flaggedEmail "mail" (by decide)).mpr
    refine .inl fun metas hmetas _ item hitem => ?_
    cases List.mem_singleton.mp hmetas
    cases List.mem_singleton.mp (show item ∈ [SerdeMeta.flag "default"] from hitem)
    rfl

/-- An underscore is dropped, and a name behind another value is not read. -/
theorem docKey_ne_serdeKey :
    (serdeKey Serde.applyToField lowercaseAttrs firstName.ident firstName.serde =
        some "first_name" ∧ docKey lowercaseAttrs firstName = "firstname") ∧
      serdeKey Serde.applyToField noAttrs email.ident email.serde = some "mail" ∧
        docKey noAttrs email = "email" := by
  decide

end Keys

end Flusso.Sdk
