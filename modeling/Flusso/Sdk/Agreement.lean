import Flusso.Sdk.Places

/-! # Where the two derives agree

A root and a fragment judge the same field alike on most places and types. The
table says on which, shape of type by shape, and the theorem that this is all.
-/

namespace Flusso

/-- What a type is to both derives: `foreign` is any type neither can check. -/
inductive Shape where
  | value
  | map (value : Ty)
  | leaf (isVec : Bool) (l : Leaf)
  | custom (isVec : Bool) (T : Custom)
  | foreign

namespace Ty

def shape : Ty → Shape
  | leaf l => if l = .value then .value else if l.kinds = [] then .foreign else .leaf false l
  | custom T => .custom false T
  | map _ _ value => .map value
  | vec (leaf l) => if l.kinds = [] then .foreign else .leaf true l
  | vec (custom T) => .custom true T
  | _ => .foreign

/-- The type itself, or what it is a vector of. -/
def element (ty : Ty) : Ty := ty.vecInner.getD ty

/-- Neither derive can check the type. -/
structure Foreign (ty : Ty) : Prop where
  ne_value : ty ≠ .leaf .value
  not_map : ty.mapContainerValue = none
  unknown : Fragment.primitiveKinds ty.element = none
  underived : ty.element.derived = none

variable {inner : Ty}

theorem eq_of_shape_value (h : inner.shape = .value) : inner = .leaf .value := by
  unfold shape at h
  split at h
  · next l =>
    split_ifs at h with hl
    rw [hl]
  all_goals first | cases h | (split_ifs at h)

theorem eq_of_shape_map {value : Ty} (h : inner.shape = .map value) :
    ∃ container key, inner = .map container key value := by
  unfold shape at h
  split at h
  · split_ifs at h
  · cases h
  · cases h
    exact ⟨_, _, rfl⟩
  all_goals first | cases h | (split_ifs at h)

theorem eq_of_shape_leaf {isVec : Bool} {l : Leaf} (h : inner.shape = .leaf isVec l) :
    inner = .wrap isVec (.leaf l) ∧ l.kinds ≠ [] := by
  unfold shape at h
  split at h
  · split_ifs at h with hvalue hkinds
    cases h
    exact ⟨rfl, hkinds⟩
  · cases h
  · cases h
  · split_ifs at h with hkinds
    cases h
    exact ⟨rfl, hkinds⟩
  · cases h
  · cases h

theorem eq_of_shape_custom {isVec : Bool} {T : Custom} (h : inner.shape = .custom isVec T) :
    inner = .wrap isVec (.custom T) := by
  unfold shape at h
  split at h
  · split_ifs at h
  · cases h
    rfl
  · cases h
  · split_ifs at h
  · cases h
    rfl
  · cases h

theorem foreign_of_shape (h : inner.shape = .foreign) : inner.Foreign := by
  cases inner with
  | leaf l =>
    simp only [shape] at h
    split_ifs at h with hvalue hkinds
    exact ⟨by simpa using hvalue, rfl, by simp [element, vecInner, Leaf.primitiveKinds_leaf, hkinds],
      rfl⟩
  | custom T => cases h
  | map container key value => cases h
  | plain ident fresh => exact ⟨by simp, rfl, primitiveKinds_plain fresh, rfl⟩
  | option ty => exact ⟨by simp, rfl, rfl, rfl⟩
  | vec ty =>
    cases ty with
    | leaf l =>
      simp only [shape] at h
      split_ifs at h with hkinds
      exact ⟨by simp, rfl, by simp [element, vecInner, Leaf.primitiveKinds_leaf, hkinds], rfl⟩
    | custom T => cases h
    | plain ident fresh => exact ⟨by simp, rfl, primitiveKinds_plain fresh, rfl⟩
    | map container key value => exact ⟨by simp, rfl, primitiveKinds_map, rfl⟩
    | option ty => exact ⟨by simp, rfl, rfl, rfl⟩
    | vec ty => exact ⟨by simp, rfl, rfl, rfl⟩

end Ty

variable (features : Features) (r : ResolvedField)

/-- A leaf or a vector of one. The root asks whether there is an impl, the fragment whether the
kinds match; only the root asks a declared array for a vector. -/
def Leaf.Agrees (isVec : Bool) (l : Leaf) : Prop :=
  match r.place with
  | .nested => isVec = false
  | .map _ => True
  | .json => False
  | .object => isVec = true ∨ l.isPrimitive = true
  | .scalar => r.tag ∈ l.kinds → (isVec = true → r.array = true) →
      r.array = isVec ∧ l.Implemented features r.tag
  | .unmodelled => isVec = true → r.array = true

namespace Custom

/-- One of the kinds the type is a map of takes the values. -/
def Maps (T : Custom) (values : MappingType) : Prop :=
  ∃ tag ∈ T.mapValues, tag.accepts (values.tag false) = true

/-- A type with a derive, or a vector of one. The fragment never asks for the vector, and asks
kinds, variants and the level below of it at every place. -/
def Agrees (isVec : Bool) (T : Custom) : Prop :=
  match r.place with
  | .nested => T.mapValues = [] → T.Below r →
      (isVec = true ↔ T.Fits .nested ∧ T.exhaustive = false)
  | .map values => isVec = false ∧ T.Maps values ↔
      T.Fits .object ∧ (T.mapValues = [] ∨ T.Maps values) ∧ T.exhaustive = false ∧ T.Below r
  | .json => T.Below r → T.Fits .object ∧ T.exhaustive = false
  | .object => T.mapValues = [] → T.Below r →
      (isVec = false ↔ T.Fits .object ∧ T.exhaustive = false)
  | .scalar => T.Fits r.tag →
      (r.TakesValues ∧ r.array = isVec ∧ (r.IsString → T.VariantsFit r) ↔
        T.mapValues = [] ∧ T.VariantsFit r ∧ T.Below r)
  | .unmodelled => T.exhaustive = false ∧ T.Below r

end Custom

/-- The values of a map container. -/
def Ty.AgreesInMap (value : Ty) : Prop :=
  match r.place with
  | .nested | .scalar => True
  | .map values => ∀ l, value = .leaf l → values.tag false ∈ l.kinds →
      l.Implemented features (values.tag false)
  | .json | .unmodelled => value.Known
  | .object => False

def Shape.Agrees : Shape → Prop
  | value => True
  | map ty => ty.AgreesInMap features r
  | leaf isVec l => l.Agrees features r isVec
  | custom isVec T => T.Agrees r isVec
  | foreign => r.place ≠ .unmodelled

variable {features : Features} {r : ResolvedField}

theorem Custom.ident_ne_value (T : Custom) : T.ident ≠ "Value" := by
  intro heq
  have hcustom : Ty.custom T = .leaf .value := Ty.leafIdent_eq_value_iff.mp heq
  cases hcustom

namespace Fragment

variable {fragment : String} {level : List FieldSpec} {field : DocField}

theorem any_accepts_iff {kinds : List KindTag} {tag : KindTag} (hother : .other ∉ kinds) :
    kinds.any (fun kind => kind.accepts tag) = true ↔ kinds ≠ [] ∧ tag = .other ∨ tag ∈ kinds := by
  simp only [List.any_eq_true, KindTag.accepts, Bool.or_eq_true, decide_eq_true_eq]
  constructor
  · rintro ⟨kind, hmem, (rfl | rfl) | rfl⟩
    · exact absurd hmem hother
    · exact .inl ⟨List.ne_nil_of_mem hmem, rfl⟩
    · exact .inr hmem
  · rintro (⟨hne, rfl⟩ | hmem)
    · obtain ⟨kind, hmem⟩ := List.exists_mem_of_ne_nil kinds hne
      exact ⟨kind, hmem, .inl (.inr rfl)⟩
    · exact ⟨tag, hmem, .inr rfl⟩

theorem other_not_mem_kinds {l : Leaf} : KindTag.other ∉ l.kinds := by
  cases l <;> decide

theorem shapeCheck_leaf (hfind : Check.find level field.docKey = some (bakeField r)) {isVec : Bool}
    {l : Leaf} (hkinds : l.kinds ≠ []) (hinner : field.ty.stripOption = .wrap isVec (.leaf l)) :
    (shapeCheck fragment level field).all ConstCheck.holds = true ↔
      (isVec = true → r.array = true) ∧ (r.tag = .other ∨ r.tag ∈ l.kinds) := by
  have hvalue : l.name ≠ "Value" := by
    intro heq
    have hleaf : Ty.leaf l = .leaf .value := Ty.leafIdent_eq_value_iff.mp heq
    cases hleaf
    exact hkinds rfl
  have hkind : Check.kindIs level field.docKey l.kinds = true ↔ r.tag = .other ∨ r.tag ∈ l.kinds := by
    rw [kindIs_bakeField hfind, Bool.or_eq_true, any_accepts_iff other_not_mem_kinds]
    simp [hkinds]
  have harray : Check.array level field.docKey = r.array := by
    simp [Check.array, hfind]
  cases isVec with
  | false =>
    simp [shapeCheck, hinner, Ty.wrap, Ty.leafIdent, hvalue, Ty.mapContainerValue, Ty.vecInner,
      Leaf.primitiveKinds_leaf, hkinds, ConstCheck.holds, hkind]
  | true =>
    simp [shapeCheck, hinner, Ty.wrap, Ty.leafIdent, Ty.mapContainerValue, Ty.vecInner,
      Leaf.primitiveKinds_leaf, hkinds, ConstCheck.holds, hkind, harray]

theorem shapeCheck_custom (hr : r.Resolved)
    (hfind : Check.find level field.docKey = some (bakeField r)) {isVec : Bool} {T : Custom}
    (hinner : field.ty.stripOption = .wrap isVec (.custom T)) :
    (shapeCheck fragment level field).all ConstCheck.holds = true ↔
      T.Fits r.tag ∧ T.MapFits r ∧ T.VariantsFit r ∧ T.Below r := by
  have hcheck : (customCheck fragment level field (.custom T)).all ConstCheck.holds = true ↔ _ :=
    customCheck_custom hr hfind
  rw [← hcheck]
  cases isVec <;> simp [shapeCheck, hinner, Ty.wrap, Ty.leafIdent, T.ident_ne_value,
    Ty.mapContainerValue, Ty.vecInner, Ty.primitiveKinds_custom]

theorem shapeCheck_map {container : MapContainer} {key value : Ty}
    (hinner : field.ty.stripOption = .map container key value) :
    shapeCheck fragment level field = mapCheck fragment level field container.name value := by
  have hvalue : container.name ≠ "Value" := by cases container <;> decide
  simp [shapeCheck, hinner, Ty.leafIdent, hvalue, Ty.mapContainerValue]

theorem shapeCheck_value (hinner : field.ty.stripOption = .leaf .value) :
    shapeCheck fragment level field = [] := by
  simp [shapeCheck, hinner, Ty.leafIdent, Leaf.name]

theorem shapeCheck_foreign (hforeign : field.ty.stripOption.Foreign) :
    (shapeCheck fragment level field).all ConstCheck.holds = false := by
  have hvalue : field.ty.stripOption.leafIdent ≠ "Value" := fun heq =>
    hforeign.ne_value (Ty.leafIdent_eq_value_iff.mp heq)
  have hunknown := hforeign.unknown
  have hunderived := hforeign.underived
  unfold Ty.element at hunknown hunderived
  simp [shapeCheck, hvalue, hforeign.not_map, hunknown, customCheck, hunderived, ConstCheck.holds]

/-- Only a type that is no built-in leaf has a check of its own to drive into. -/
theorem embeddedType_eq (hskip : field.skip = false) (hchecked : field.isOpaque = false) :
    embeddedType field = match field.ty.stripOption.shape with
      | .custom _ T => some (.custom T)
      | .foreign => some field.ty.stripOption.element
      | _ => none := by
  simp only [embeddedType, hskip, hchecked, Bool.or_self, Bool.false_eq_true, if_false]
  generalize field.ty.stripOption = inner
  cases hshape : inner.shape with
  | value =>
    have hinner := Ty.eq_of_shape_value hshape
    simp [hinner, Ty.leafIdent, Leaf.name]
  | map value =>
    obtain ⟨container, key, hinner⟩ := Ty.eq_of_shape_map hshape
    simp [hinner, Ty.mapContainerValue]
  | leaf isVec l =>
    obtain ⟨hinner, hkinds⟩ := Ty.eq_of_shape_leaf hshape
    cases isVec <;> simp [hinner, Ty.wrap, Ty.vecInner, Leaf.primitiveKinds_leaf, hkinds]
  | custom isVec T =>
    have hinner := Ty.eq_of_shape_custom hshape
    cases isVec <;> simp [hinner, Ty.wrap, Ty.leafIdent, T.ident_ne_value, Ty.mapContainerValue,
      Ty.vecInner, Ty.primitiveKinds_custom]
  | foreign =>
    have hforeign := Ty.foreign_of_shape hshape
    have hvalue : inner.leafIdent ≠ "Value" := fun heq =>
      hforeign.ne_value (Ty.leafIdent_eq_value_iff.mp heq)
    have hunknown := hforeign.unknown
    unfold Ty.element at hunknown ⊢
    simp [hvalue, hforeign.not_map, hunknown]

end Fragment

theorem ResolvedField.takes_map {container : MapContainer} {key value : Ty} :
    r.Takes features (.map container key value) ↔ match r.place with
      | .nested | .scalar => False
      | .map values => value.Fits features (values.tag false)
      | .json | .object | .unmodelled => True := by
  cases hplace : r.place <;> cases harray : r.array <;>
    simp [Takes, hplace, harray, Ty.vecInner, Ty.Fits]

theorem ResolvedField.takes_foreign {inner : Ty} (hforeign : inner.Foreign) :
    r.Takes features inner ↔ match r.place with
      | .nested => inner.vecInner.isSome = true
      | .map _ | .scalar => False
      | .json | .unmodelled => True
      | .object => inner.vecInner.isNone = true ∧ ∀ l, inner = .leaf l → l.isPrimitive = false := by
  have hfits {tag : KindTag} : ¬inner.element.Fits features tag := by
    intro hfits
    have hunknown := hforeign.unknown
    have hunderived := hforeign.underived
    cases helement : inner.element with
    | leaf l =>
      rw [helement] at hfits hunknown
      have hkinds : l.kinds = [] := by simpa [Leaf.primitiveKinds_leaf] using hunknown
      simp [Ty.Fits, hkinds] at hfits
    | custom T =>
      rw [helement] at hunderived
      cases hunderived
    | _ =>
      rw [helement] at hfits
      exact hfits
  have hnot_map : ∀ container key value, inner ≠ .map container key value := by
    rintro container key value rfl
    exact absurd hforeign.not_map (by simp [Ty.mapContainerValue])
  have hnot_custom : ∀ T, inner ≠ .custom T := by
    rintro T rfl
    exact absurd hforeign.underived (by simp [Ty.element, Ty.vecInner, Ty.derived])
  simp only [Takes, hforeign.ne_value, false_or]
  cases hplace : r.place with
  | map values =>
    cases inner with
    | map container key value => exact absurd rfl (hnot_map container key value)
    | custom T => exact absurd rfl (hnot_custom T)
    | _ => simp
  | scalar =>
    unfold Ty.element at hfits
    cases hvec : inner.vecInner with
    | none =>
      simp only [hvec, Option.getD_none] at hfits
      simp [hfits]
    | some element =>
      simp only [hvec, Option.getD_some] at hfits
      have hnot : ¬inner.Fits features r.tag := by
        cases inner with
        | vec ty => exact ResolvedField.not_fits_vec
        | _ => cases hvec
      simp [hfits, hnot]
  | _ => simp

namespace ResolvedField

theorem place_of_isString (h : r.IsString) : r.place = .scalar := by
  rcases h with h | h <;> simp [place, h]

theorem variantsFit_of_place (hr : r.Resolved) (hplace : r.place ≠ .scalar) {T : Custom} :
    T.VariantsFit r ↔ T.exhaustive = false := by
  cases horder : r.mapping.enumOrder with
  | none => simp [Custom.VariantsFit, horder]
  | some order =>
    obtain ⟨hm, -⟩ := hr.ordered order horder
    exact absurd (place_of_isString (.inl hm)) hplace

theorem mapFits_place {T : Custom} : T.MapFits r ↔ match r.place with
    | .nested | .object | .scalar => T.mapValues = []
    | .map values => T.mapValues = [] ∨ T.Maps values
    | .json | .unmodelled => True := by
  unfold Custom.MapFits
  cases r.place <;> simp [Place.takesMap, Custom.Maps]

end ResolvedField

theorem Leaf.agrees_iff {isVec : Bool} {l : Leaf} (hkinds : l.kinds ≠ []) :
    (r.Takes features (.wrap isVec (.leaf l)) ↔
      (isVec = true → r.array = true) ∧ (r.tag = .other ∨ r.tag ∈ l.kinds)) ↔
      l.Agrees features r isVec := by
  have hnested : KindTag.nested ∉ l.kinds := by cases l <;> decide
  have hobject : KindTag.object ∉ l.kinds := by cases l <;> decide
  have htag := ResolvedField.tag_place (r := r)
  rw [ResolvedField.takes_leaf hkinds]
  unfold Agrees
  cases hplace : r.place with
  | nested =>
    simp only [hplace] at htag
    simp [htag, hnested]
  | map values =>
    simp only [hplace] at htag
    simp [htag, hobject]
  | json =>
    simp only [hplace] at htag
    simp [htag, hobject]
  | object =>
    simp only [hplace] at htag
    cases isVec <;> simp [htag, hobject]
  | scalar =>
    simp only [hplace] at htag
    simp only [htag.2.2, false_or]
    constructor
    · intro h hmem harray
      obtain ⟨heq, -, himpl⟩ := h.mpr ⟨harray, hmem⟩
      exact ⟨heq, himpl⟩
    · intro h
      constructor
      · rintro ⟨heq, hmem, -⟩
        exact ⟨fun hvec => heq.trans hvec, hmem⟩
      · rintro ⟨harray, hmem⟩
        obtain ⟨heq, himpl⟩ := h hmem harray
        exact ⟨heq, hmem, himpl⟩
  | unmodelled =>
    simp only [hplace] at htag
    simp [htag]

theorem Custom.agrees_iff (hr : r.Resolved) {isVec : Bool} {T : Custom} :
    (r.Takes features (.wrap isVec (.custom T)) ∧
      (r.place.holdsLevel = true → T.MapFits r ∧ T.Below r) ∧ (r.IsString → T.VariantsFit r) ↔
      T.Fits r.tag ∧ T.MapFits r ∧ T.VariantsFit r ∧ T.Below r) ↔ T.Agrees r isVec := by
  have htag := ResolvedField.tag_place (r := r)
  have hother : T.Fits .other := by
    cases hkinds : T.kinds with
    | nil => exact .inl hkinds
    | cons kind kinds => exact .inr ⟨kind, by simp [hkinds], by simp [KindTag.accepts]⟩
  rw [ResolvedField.takes_custom hr]
  unfold Agrees
  by_cases hscalar : r.place = .scalar
  · simp only [hscalar, ResolvedField.mapFits_place, Place.holdsLevel]
    tauto
  · have hstring : ¬r.IsString := fun h => hscalar (ResolvedField.place_of_isString h)
    simp only [ResolvedField.variantsFit_of_place hr hscalar, hstring, ResolvedField.mapFits_place]
    cases hplace : r.place with
    | scalar => exact absurd hplace hscalar
    | nested =>
      simp only [hplace] at htag
      simp only [htag, Place.holdsLevel]
      by_cases hmap : T.mapValues = [] <;> by_cases hbelow : T.Below r <;> simp [hmap, hbelow]
    | map values =>
      simp only [hplace] at htag
      simp [htag, Place.holdsLevel, Maps]
    | json =>
      simp only [hplace] at htag
      simp only [htag, Place.holdsLevel]
      tauto
    | object =>
      simp only [hplace] at htag
      simp only [htag, Place.holdsLevel]
      by_cases hmap : T.mapValues = [] <;> by_cases hbelow : T.Below r <;> simp [hmap, hbelow]
    | unmodelled =>
      simp only [hplace] at htag
      simp only [htag, Place.holdsLevel, hother]
      tauto

theorem Ty.agreesInMap_iff (hr : r.Resolved) {fragment : String} {level : List FieldSpec}
    {field : DocField} (hfind : Check.find level field.docKey = some (bakeField r))
    {container : MapContainer} {key value : Ty} :
    (r.Takes features (.map container key value) ↔
      (Fragment.mapCheck fragment level field container.name value).all ConstCheck.holds = true) ↔
      value.AgreesInMap features r := by
  rw [ResolvedField.takes_map]
  unfold AgreesInMap
  by_cases hknown : value.Known
  · cases value with
    | leaf l =>
      have hkinds : l.kinds ≠ [] := hknown
      rw [Fragment.mapCheck_leaf hr hfind]
      cases hplace : r.place with
      | map values =>
        obtain ⟨kind, htag⟩ := hr.kind_of_map hplace
        have hother : values.tag false ≠ .other := by
          rw [← htag]
          cases kind <;> decide
        have hany : (Place.map values).takesMap l.kinds = true ↔ values.tag false ∈ l.kinds := by
          rw [Place.takesMap, Bool.or_eq_true,
            Fragment.any_accepts_iff Fragment.other_not_mem_kinds]
          simp [hkinds, hother]
        simp only [hany, Fits, ne_eq, hkinds, not_false_eq_true, true_and, leaf.injEq, forall_eq']
        tauto
      | _ => simp [Place.takesMap, hkinds, Known]
    | custom T =>
      rw [Fragment.mapCheck_custom hr hfind]
      cases hplace : r.place with
      | map values =>
        simp [ResolvedField.fits_custom, hr.kind_of_map hplace, Place.takesMap, Custom.Fits]
      | _ => simp [Place.takesMap, Known]
    | _ => exact hknown.elim
  · rw [Fragment.mapCheck_unknown hknown]
    have hfits {tag : KindTag} : ¬value.Fits features tag := by
      cases value with
      | leaf l =>
        have hkinds : l.kinds = [] := by_contra fun h => hknown h
        simp [Fits, hkinds]
      | custom T => exact absurd trivial hknown
      | _ => exact id
    cases hplace : r.place with
    | map values =>
      have hleaf (l : Leaf) (heq : value = .leaf l) : l.kinds = [] := by
        subst heq
        exact by_contra fun h => hknown h
      simp only [hfits, Bool.false_eq_true, iff_self, true_iff]
      intro l heq hmem
      rw [hleaf l heq] at hmem
      cases hmem
    | _ => simp [hknown]

section Judgements

variable {fragment scope : String} {level : List ResolvedField} {field : DocField}

theorem Root.errors_checkNullability : (match checkNullability field r with
    | .error e => [e]
    | .ok () => []) = [] ↔ r.nullable = field.ty.optionInner.isSome := by
  unfold checkNullability
  cases r.nullable <;> cases field.ty.optionInner <;> simp

/-- A root accepts a field it finds, of matching nullability, that takes the type, when what it
embeds checks. -/
theorem Root.accepts_iff (hskip : field.skip = false) (hflatten : field.flatten = false) :
    accepts features level scope field = true ↔
      ∃ r, findField level field = some r ∧ r.nullable = field.ty.optionInner.isSome ∧
        passes features (checkType field r) = true ∧
        (embedChecks level scope field).all ConstCheck.holds = true := by
  simp only [accepts, validateField, hskip, hflatten, Bool.or_self, Bool.false_eq_true, if_false]
  cases hfind : findField level field with
  | none => simp
  | some r =>
    cases hcheck : checkType field r with
    | error e => simp [passes, hcheck]
    | ok deferred =>
      simp only [Bool.and_eq_true, List.isEmpty_iff, Option.some.injEq, exists_eq_left', hcheck,
        passes, and_assoc]
      exact and_congr errors_checkNullability Iff.rfl

theorem Fragment.accepts_iff (hskip : field.skip = false) (hchecked : field.isOpaque = false)
    (hflatten : field.flatten = false) : accepts fragment (bakeLevel level) field = true ↔
      ∃ r, Root.findField level field = some r ∧ r.nullable = field.ty.optionInner.isSome ∧
        (shapeCheck fragment (bakeLevel level) field).all ConstCheck.holds = true := by
  simp only [accepts, fieldCheck, hskip, hchecked, hflatten, Bool.or_self, Bool.false_eq_true,
    if_false, List.all_cons, List.all_append, Bool.and_eq_true, ConstCheck.holds,
    Check.fieldExists, find_bakeLevel, nullabilityCheck, Check.nullable]
  cases hfind : Root.findField level field with
  | none => simp
  | some r =>
    cases field.ty.optionInner <;> cases hnullable : r.nullable <;>
      simp [ConstCheck.holds, hnullable]

theorem Root.embedChecks_found {r : ResolvedField} (hskip : field.skip = false)
    (hchecked : field.isOpaque = false) (hflatten : field.flatten = false)
    (hfind : findField level field = some r) :
    embedChecks level scope field = match field.ty.stripOption.shape with
      | .custom _ T => embedCheck level scope field r (.custom T)
      | .foreign => embedCheck level scope field r field.ty.stripOption.element
      | _ => [] := by
  unfold embedChecks
  rw [Fragment.embeddedType_eq hskip hchecked]
  cases field.ty.stripOption.shape <;> simp [hflatten, hfind]

/-- Over a field that both find, the judgements agree on the shapes and places of the table. -/
theorem shape_agrees_iff {r : ResolvedField} (hr : r.Resolved) (hskip : field.skip = false)
    (hchecked : field.isOpaque = false) (hflatten : field.flatten = false)
    (hfind : Root.findField level field = some r) :
    (Root.passes features (Root.checkType field r) = true ∧
        (Root.embedChecks level scope field).all ConstCheck.holds = true ↔
      (Fragment.shapeCheck fragment (bakeLevel level) field).all ConstCheck.holds = true) ↔
      field.ty.stripOption.shape.Agrees features r := by
  have hbaked : Check.find (bakeLevel level) field.docKey = some (bakeField r) := by
    rw [find_bakeLevel, hfind]
    rfl
  rw [Root.passes_checkType hr, Root.embedChecks_found hskip hchecked hflatten hfind]
  cases hshape : field.ty.stripOption.shape with
  | value =>
    have hinner := Ty.eq_of_shape_value hshape
    simp [Fragment.shapeCheck_value hinner, hinner, ResolvedField.Takes, Shape.Agrees]
  | map value =>
    obtain ⟨container, key, hinner⟩ := Ty.eq_of_shape_map hshape
    simp only [List.all_nil, and_true]
    rw [Fragment.shapeCheck_map hinner, hinner, Ty.agreesInMap_iff hr hbaked]
    rfl
  | leaf isVec l =>
    obtain ⟨hinner, hkinds⟩ := Ty.eq_of_shape_leaf hshape
    simp only [List.all_nil, and_true]
    rw [Fragment.shapeCheck_leaf hbaked hkinds hinner, hinner, Leaf.agrees_iff hkinds]
    rfl
  | custom isVec T =>
    have hinner := Ty.eq_of_shape_custom hshape
    simp only
    rw [Root.embedCheck_custom hr hfind, Fragment.shapeCheck_custom hr hbaked hinner, hinner,
      Custom.agrees_iff hr]
    rfl
  | foreign =>
    have hforeign := Ty.foreign_of_shape hshape
    simp only
    rw [Fragment.shapeCheck_foreign hforeign, Root.embedCheck_unknown hr hforeign.underived,
      ResolvedField.takes_foreign hforeign]
    have hstring : r.place = .unmodelled → ¬r.IsString := by
      intro hplace h
      rw [ResolvedField.place_of_isString h] at hplace
      cases hplace
    cases hplace : r.place <;> simp [Place.holdsLevel, Shape.Agrees, hplace, hstring]

end Judgements

/-- Where the root and a fragment judge the field alike. -/
def DocField.Agrees (features : Features) (level : List ResolvedField) (field : DocField) : Prop :=
  if field.skip then True
  else if field.flatten then
    field.isOpaque = true ∨ match field.ty.stripOption.shape with
      | .value | .map _ | .leaf _ _ => False
      | .custom isVec T => isVec = true → T.check (bakeLevel level) = false
      | .foreign => True
  else if field.isOpaque then
    ∃ r, Root.findField level field = some r ∧ r.nullable = field.ty.optionInner.isSome ∧
      r.Takes features field.ty.stripOption
  else
    ∀ r, Root.findField level field = some r → r.nullable = field.ty.optionInner.isSome →
      field.ty.stripOption.shape.Agrees features r

section Flattened

variable {fragment scope : String} {level : List ResolvedField} {field : DocField}

theorem agrees_of_flatten (hskip : field.skip = false) (hflatten : field.flatten = true) :
    (Root.accepts features level scope field = true ↔
      Fragment.accepts fragment (bakeLevel level) field = true) ↔
      field.Agrees features level := by
  have hroot : Root.accepts features level scope field =
      (Root.embedChecks level scope field).all ConstCheck.holds := by
    simp [Root.accepts, Root.validateField, hflatten]
  rw [hroot]
  cases hchecked : field.isOpaque with
  | true =>
    have hnone : Fragment.embeddedType field = none := by simp [Fragment.embeddedType, hchecked]
    simp [Root.embedChecks, hnone, Fragment.accepts, Fragment.fieldCheck, hchecked, DocField.Agrees,
      hskip, hflatten]
  | false =>
    have htype := Fragment.embeddedType_eq hskip hchecked
    simp only [Root.embedChecks, htype, Fragment.accepts, Fragment.fieldCheck, hskip, hchecked,
      hflatten, DocField.Agrees]
    cases hshape : field.ty.stripOption.shape with
    | value =>
      have hinner := Ty.eq_of_shape_value hshape
      simp [hinner, Ty.derived, ConstCheck.holds]
    | map value =>
      obtain ⟨container, key, hinner⟩ := Ty.eq_of_shape_map hshape
      simp [hinner, Ty.derived, ConstCheck.holds]
    | leaf isVec l =>
      obtain ⟨hinner, -⟩ := Ty.eq_of_shape_leaf hshape
      cases isVec <;> simp [hinner, Ty.wrap, Ty.derived, ConstCheck.holds]
    | custom isVec T =>
      have hinner := Ty.eq_of_shape_custom hshape
      cases isVec <;> simp [hinner, Ty.wrap, Ty.derived, ConstCheck.holds]
    | foreign =>
      have hforeign := Ty.foreign_of_shape hshape
      have hderived : field.ty.stripOption.derived = none := by
        have hunderived := hforeign.underived
        unfold Ty.element at hunderived
        cases hinner : field.ty.stripOption with
        | custom T =>
          rw [hinner] at hunderived
          cases hunderived
        | _ => rfl
      simp [hforeign.underived, hderived, ConstCheck.holds]

end Flattened

/-- The root and a fragment embedded at its level accept the same fields, but where the table has
them part. -/
theorem accepts_iff_agrees {fields : List Field} {primaryKey : Option ColumnName}
    (hfields : ∀ f ∈ fields, f.MapsLeaves) (features : Features) (fragment scope : String)
    (field : DocField) :
    (Root.accepts features (resolveFields fields primaryKey) scope field = true ↔
      Fragment.accepts fragment (bakeLevel (resolveFields fields primaryKey)) field = true) ↔
      field.Agrees features (resolveFields fields primaryKey) := by
  generalize hlevel : resolveFields fields primaryKey = level
  have hresolved {r : ResolvedField} (hfind : Root.findField level field = some r) : r.Resolved := by
    subst hlevel
    exact ResolvedField.resolved_of_mem hfields (List.mem_of_find?_eq_some hfind)
  cases hskip : field.skip with
  | true =>
    have hnone : Fragment.embeddedType field = none := by simp [Fragment.embeddedType, hskip]
    simp [Root.accepts, Root.validateField, Root.embedChecks, hnone, Fragment.accepts,
      Fragment.fieldCheck, hskip, DocField.Agrees]
  | false =>
    cases hflatten : field.flatten with
    | true => exact agrees_of_flatten hskip hflatten
    | false =>
      rw [Root.accepts_iff hskip hflatten]
      cases hchecked : field.isOpaque with
      | true =>
        have hnone : Fragment.embeddedType field = none := by simp [Fragment.embeddedType, hchecked]
        simp only [Root.embedChecks, hnone, Fragment.accepts, Fragment.fieldCheck, hskip, hchecked,
          DocField.Agrees, hflatten, Bool.or_true, if_true, Bool.false_eq_true, if_false,
          List.all_nil, and_true, iff_true]
        apply exists_congr
        intro r
        apply and_congr_right
        intro hfind
        rw [Root.passes_checkType (hresolved hfind)]
      | false =>
        rw [Fragment.accepts_iff hskip hchecked hflatten]
        simp only [DocField.Agrees, hskip, hflatten, hchecked, Bool.false_eq_true, if_false]
        constructor
        · intro h r hfind hnullable
          rw [← shape_agrees_iff (hresolved hfind) hskip hchecked hflatten hfind]
          constructor
          · rintro ⟨htype, hembeds⟩
            obtain ⟨_, hfind', -, hshape⟩ := h.mp ⟨r, hfind, hnullable, htype, hembeds⟩
            exact hshape
          · intro hshape
            obtain ⟨r', hfind', -, htype, hembeds⟩ := h.mpr ⟨r, hfind, hnullable, hshape⟩
            rw [hfind] at hfind'
            cases hfind'
            exact ⟨htype, hembeds⟩
        · intro h
          apply exists_congr
          intro r
          apply and_congr_right
          intro hfind
          apply and_congr_right
          intro hnullable
          exact (shape_agrees_iff (hresolved hfind) hskip hchecked hflatten hfind).mpr
            (h r hfind hnullable)

/-- The tag names of a row, an array of keywords. -/
def tagNames : Field := .aggregate ⟨"tags"⟩ [] {
  table := ⟨"tags"⟩
  op := .ids .keyword
  key := .direct ⟨"product_id"⟩
  valueType := none
  filters := none
  distinct := false }

def tagField (ty : Ty) : DocField where
  ty := ty
  docKey := "tags"
  skip := false
  isOpaque := false
  flatten := false

/-- An enum of keywords with two variants. -/
def tagType : Custom where
  ident := "Tag"
  kinds := [.keyword]
  variants := ["new", "sale"]
  mapValues := []
  exhaustive := false
  check _ := true
  isValue kind := kind = .keyword
  isMap _ := false
  fresh := by decide
  isValue_eq kind := by cases kind <;> rfl
  isMap_eq _ := rfl

theorem accepts_iff_of_vector :
    (Root.accepts ⟨false, false, false⟩ (resolveFields [tagNames] none) "index `products`"
        (tagField (.vec (.leaf .string))) = true ↔
      Fragment.accepts "Product" (bakeLevel (resolveFields [tagNames] none))
        (tagField (.vec (.leaf .string))) = true) ∧
    (Root.accepts ⟨false, false, false⟩ (resolveFields [tagNames] none) "index `products`"
        (tagField (.vec (.custom tagType))) = true ↔
      Fragment.accepts "Product" (bakeLevel (resolveFields [tagNames] none))
        (tagField (.vec (.custom tagType))) = true) := by
  constructor
  · apply (accepts_iff_agrees (by simp [tagNames, Field.MapsLeaves]) ⟨false, false, false⟩
      "Product" "index `products`" (tagField (.vec (.leaf .string)))).mpr
    simp [DocField.Agrees, tagField, resolveFields, resolveField, Root.findField, tagNames,
      ResolvedField.ofField, Field.field, Ty.stripOption, Ty.optionInner, Ty.shape, Leaf.kinds,
      Shape.Agrees, Leaf.Agrees, ResolvedField.place, Mapping.ofField, Mapping.typeAndNullability,
      Mapping.aggregateType, FlussoType.opensearch, Leaf.Implemented]
  · apply (accepts_iff_agrees (by simp [tagNames, Field.MapsLeaves]) ⟨false, false, false⟩
      "Product" "index `products`" (tagField (.vec (.custom tagType)))).mpr
    intro r hfind _
    cases show some (resolveField tagNames none) = some r from hfind
    intro _
    exact iff_of_true ⟨⟨.keyword, rfl⟩, rfl, fun _ => rfl⟩ ⟨rfl, rfl, rfl⟩

/-- A single string stands in a fragment for an array, and not in a root. -/
theorem not_accepts_iff_of_string :
    ¬∀ (features : Features) (fields : List Field) (primaryKey : Option ColumnName)
      (fragment scope : String) (field : DocField), (∀ f ∈ fields, f.MapsLeaves) →
      (Root.accepts features (resolveFields fields primaryKey) scope field = true ↔
        Fragment.accepts fragment (bakeLevel (resolveFields fields primaryKey)) field = true) := by
  intro h
  have hstring := h ⟨false, false, false⟩ [tagNames] none "Product" "index `products`"
    (tagField (.leaf .string)) (by simp [tagNames, Field.MapsLeaves])
  have hroot : Root.accepts ⟨false, false, false⟩ (resolveFields [tagNames] none)
      "index `products`" (tagField (.leaf .string)) = false := by decide +kernel
  have hfragment : Fragment.accepts "Product" (bakeLevel (resolveFields [tagNames] none))
      (tagField (.leaf .string)) = true := by decide +kernel
  rw [hroot, hfragment] at hstring
  cases hstring.mpr rfl

end Flusso
