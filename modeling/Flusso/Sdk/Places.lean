import Flusso.Sdk.Root

/-! # What each derive asks of a field

A resolved field is one of a few places to both derives. What the root and the
fragment ask of a type is said here over the place, class of type by class.
-/

namespace Flusso

namespace Leaf

/-- The kinds of field whose values a leaf can hold. -/
def kinds : Leaf → List KindTag
  | string => [.keyword, .text, .date, .geoPoint, .binary]
  | bool => [.bool]
  | i8 => [.byte]
  | i16 => [.short]
  | i32 => [.integer]
  | i64 => [.long]
  | f32 => [.float]
  | f64 => [.double, .decimal]
  | decimal => [.decimal, .double]
  | uuid => [.keyword]
  | naiveDate | naiveDateTime | dateTime | offsetDateTime | primitiveDateTime | date => [.date]
  | geoPoint => [.geoPoint]
  | char | i128 | isize | u8 | u16 | u32 | u64 | u128 | usize | value => []

/-- Types of the Rust language itself. -/
def isPrimitive : Leaf → Bool
  | decimal | uuid | naiveDate | naiveDateTime | dateTime | offsetDateTime | primitiveDateTime
  | date | geoPoint | value => false
  | _ => true

/-- A foreign leaf is a value of the kind only by an impl, which a feature may leave out: a decimal
is none of a double. -/
def Implemented (features : Features) (l : Leaf) (tag : KindTag) : Prop :=
  (l = .decimal → tag = .decimal ∧ features.decimal = true) ∧ (l = .uuid → features.uuid = true)

theorem primitiveKinds_leaf (l : Leaf) : Fragment.primitiveKinds (.leaf l) =
    if l.kinds = [] then none else some l.kinds := by
  cases l <;> rfl

theorem isPrimitive_name (l : Leaf) : Root.isPrimitive l.name = l.isPrimitive := by
  cases l <;> decide

end Leaf

namespace Ty

variable {ident : String}

theorem expectedLeaves_known (m : MappingType) : Root.expectedLeaves m ⊆ knownNames := by
  cases m with
  | other name =>
    simp only [Root.expectedLeaves]
    split_ifs <;> decide
  | _ => decide

theorem isPrimitive_known (h : Root.isPrimitive ident = true) : ident ∈ knownNames := by
  have hsub : ["String", "bool", "char", "i8", "i16", "i32", "i64", "i128", "isize", "u8", "u16",
    "u32", "u64", "u128", "usize", "f32", "f64"] ⊆ knownNames := by decide
  exact hsub (of_decide_eq_true h)

theorem primitiveKinds_fresh {ty : Ty} (h : ty.leafIdent ∉ knownNames) :
    Fragment.primitiveKinds ty = none := by
  unfold Fragment.primitiveKinds
  split
  all_goals first | rfl | (next heq => exact absurd (by rw [heq]; decide) h)

/-- The type holds values of the kind. -/
def Fits (features : Features) (tag : KindTag) : Ty → Prop
  | leaf l => tag ∈ l.kinds ∧ l.Implemented features tag
  | custom T => ∃ kind : Kind, kind.tag = tag ∧ T.isValue kind = true
  | _ => False

end Ty

namespace Root

/-- What a root asks of a scalar's type. -/
def fitsByName (features : Features) (m : MappingType) (decimal : Bool) (ty : Ty) : Bool :=
  ty.leafIdent ∈ expectedLeaves m || (kindOf m decimal).any fun kind =>
    !isPrimitive ty.leafIdent && ty.isValue features kind

theorem kindOf_eq_some_iff {m : MappingType} {decimal : Bool} {kind : Kind}
    (h : expectedLeaves m ≠ []) : kindOf m decimal = some kind ↔ kind.tag = m.tag decimal := by
  cases m with
  | other name =>
    simp only [expectedLeaves] at h
    simp only [kindOf, MappingType.tag]
    split_ifs at h ⊢ <;> cases kind <;> simp_all [Kind.tag]
  | object => exact absurd rfl h
  | nested => exact absurd rfl h
  | double => cases decimal <;> cases kind <;> simp [kindOf, MappingType.tag, Kind.tag]
  | _ => cases kind <;> simp [kindOf, MappingType.tag, Kind.tag]

theorem fitsByName_leaf {features : Features} {m : MappingType} {decimal : Bool} {l : Leaf}
    (h : expectedLeaves m ≠ []) :
    fitsByName features m decimal (.leaf l) = true ↔
      m.tag decimal ∈ l.kinds ∧ l.Implemented features (m.tag decimal) := by
  simp only [fitsByName, Ty.leafIdent, Leaf.isPrimitive_name, Ty.isValue]
  cases m with
  | object => exact absurd rfl h
  | nested => exact absurd rfl h
  | other name =>
    simp only [expectedLeaves] at h
    simp only [expectedLeaves, kindOf, MappingType.tag]
    split_ifs at h ⊢
    · cases l <;> simp [Leaf.name, Leaf.kinds, Leaf.Implemented]
    · cases l <;> simp [Leaf.name, Leaf.kinds, Leaf.Implemented]
    · exact absurd rfl h
  | double =>
    cases decimal <;> cases l <;> simp [Leaf.name, expectedLeaves, kindOf, Leaf.kinds,
      MappingType.tag, Leaf.isPrimitive, Leaf.isValue, Leaf.Implemented]
  | _ =>
    cases l <;> simp [Leaf.name, expectedLeaves, kindOf, Leaf.kinds, MappingType.tag,
      Leaf.isPrimitive, Leaf.isValue, Leaf.Implemented]

theorem not_expected_of_fresh {m : MappingType} {ident : String} (h : ident ∉ knownNames) :
    ident ∉ expectedLeaves m := fun hmem => h (Ty.expectedLeaves_known m hmem)

theorem isPrimitive_of_fresh {ident : String} (h : ident ∉ knownNames) :
    isPrimitive ident = false := Bool.eq_false_iff.mpr fun hprim => h (Ty.isPrimitive_known hprim)

theorem fitsByName_iff {features : Features} {m : MappingType} {decimal : Bool} {ty : Ty}
    (h : expectedLeaves m ≠ []) :
    fitsByName features m decimal ty = true ↔ ty.Fits features (m.tag decimal) := by
  have hwrapper {ident : String} (hident : ident ∈ ["Option", "Vec", "HashMap", "BTreeMap"]) :
      ident ∉ expectedLeaves m := by
    cases m with
    | other name =>
      simp only [expectedLeaves]
      split_ifs <;> revert ident <;> decide
    | _ => revert ident; decide
  have hnone {ty : Ty} (hident : ty.leafIdent ∉ expectedLeaves m)
      (hvalue : ∀ kind, ty.isValue features kind = false) :
      fitsByName features m decimal ty = false := by
    simp [fitsByName, hident, hvalue]
  cases ty with
  | leaf l => exact fitsByName_leaf h
  | custom T =>
    have hident : T.ident ∉ expectedLeaves m := not_expected_of_fresh T.fresh
    simp only [fitsByName, Ty.leafIdent, hident, isPrimitive_of_fresh T.fresh, Ty.isValue, Ty.Fits,
      decide_false, Bool.false_or, Bool.not_false, Bool.true_and, Option.any_eq_true,
      kindOf_eq_some_iff h]
  | option ty => simpa [Ty.Fits] using hnone (hwrapper (by simp [Ty.leafIdent])) fun _ => rfl
  | vec ty => simpa [Ty.Fits] using hnone (hwrapper (by simp [Ty.leafIdent])) fun _ => rfl
  | map container key value =>
    simpa [Ty.Fits] using hnone (hwrapper (by cases container <;> simp [Ty.leafIdent,
      MapContainer.name])) fun _ => rfl
  | plain ident fresh =>
    have hident : (Ty.plain ident fresh).leafIdent ∉ expectedLeaves m := not_expected_of_fresh fresh
    simpa [Ty.Fits] using hnone hident fun _ => rfl

/-- The check passes, the bound it defers included. -/
def passes (features : Features) : Except FieldError (Option Deferred) → Bool
  | .ok deferred => deferred.toList.all (Deferred.holds features)
  | .error _ => false

theorem passes_checkScalar {features : Features} {field : DocField} {resolved : ResolvedField}
    {ty : Ty} : passes features (checkScalar field resolved ty) =
      fitsByName features resolved.mapping.mappingType resolved.mapping.decimal ty := by
  simp only [checkScalar, fitsByName]
  split
  · next hmem => simp [passes, hmem]
  · next hnot =>
    split
    · next kind hkind =>
      split
      · next hprim => simp [passes, hnot, hkind, hprim]
      · next hprim => simp [passes, hnot, hkind, hprim, Deferred.holds]
    · next hkind => simp [passes, hnot, hkind]

theorem passes_checkMapType {features : Features} {field : DocField} {values : MappingType}
    {container : MapContainer} {key value : Ty} :
    passes features (checkMapType field (.map container key value) values) =
      fitsByName features values false value := by
  simp only [checkMapType, Ty.mapContainerValue, fitsByName]
  split
  · next hmem => simp [passes, hmem]
  · next hnot =>
    split
    · next kind hkind =>
      split
      · next hprim => simp [passes, hnot, hkind, hprim]
      · next hprim => simp [passes, hnot, hkind, hprim, Deferred.holds]
    · next hkind => simp [passes, hnot, hkind]

end Root

/-- What a resolved field is to the derives: `json` has nothing declared below, `unmodelled` is
any mapping type they do not know. -/
inductive Place where
  | nested
  | map (values : MappingType)
  | json
  | object
  | scalar
  | unmodelled
  deriving DecidableEq

/-- The field is a map of one of the kinds, or takes anything. -/
def Place.takesMap (accepted : List KindTag) : Place → Bool
  | .map values => accepted.isEmpty || accepted.any fun tag => tag.accepts (values.tag false)
  | .json | .unmodelled => true
  | .nested | .object | .scalar => false

namespace ResolvedField

def place (r : ResolvedField) : Place :=
  match r.mapping.mappingType with
  | .nested => .nested
  | .object =>
    match r.mapping.mapValues with
    | some values => .map values
    | none => if r.children.isEmpty then .json else .object
  | .other name => if name = "geo_point" ∨ name = "binary" then .scalar else .unmodelled
  | _ => .scalar

def tag (r : ResolvedField) : KindTag := r.mapping.mappingType.tag r.mapping.decimal

/-- The field can hold values of the type. -/
def Takes (features : Features) (r : ResolvedField) (inner : Ty) : Prop :=
  inner = .leaf .value ∨ match r.place with
    | .nested => inner.vecInner.isSome = true
    | .map values =>
      match inner with
      | .map _ _ value => value.Fits features (values.tag false)
      | .custom T => ∃ kind : Kind, kind.tag = values.tag false ∧ T.isMap kind = true
      | _ => False
    | .json => True
    | .object => inner.vecInner.isNone = true ∧ ∀ l, inner = .leaf l → l.isPrimitive = false
    | .scalar =>
      if r.array then ∃ element, inner.vecInner = some element ∧ element.Fits features r.tag
      else inner.Fits features r.tag
    | .unmodelled => True

/-- What holds of a field resolved from a schema: a map is an object with values of a leaf type,
and only a keyword field lists variants. -/
structure Resolved (r : ResolvedField) : Prop where
  map : ∀ values, r.mapping.mapValues = some values →
    r.mapping.mappingType = .object ∧ Root.expectedLeaves values ≠ [] ∧
      ∃ kind, Root.kindOf values false = some kind
  ordered : ∀ order, r.mapping.enumOrder = some order →
    r.mapping.mappingType = .keyword ∧ order ≠ []

theorem resolved_ofField {field : Field} {primaryKey : Option ColumnName}
    {children : List ResolvedField} (h : field.MapsLeaves) :
    (ofField field primaryKey children).Resolved where
  map values hvalues := by
    simp only [ofField, Mapping.ofField, Mapping.mapValueType] at hvalues ⊢
    split at hvalues
    · next source =>
      split at hvalues
      · next ty hty =>
        cases hvalues
        refine ⟨by simp [Mapping.typeAndNullability, hty, FlussoType.opensearch], ?_⟩
        have hleaf := h ty hty
        cases ty <;> simp_all [FlussoType.isMapValue, FlussoType.opensearch, Root.expectedLeaves,
          Root.kindOf]
      · cases hvalues
    · cases hvalues
  ordered order horder := by
    simp only [ofField, Mapping.ofField, Mapping.enumOrderOf] at horder ⊢
    split at horder
    · next source =>
      split at horder
      · next hguard =>
        cases horder
        exact ⟨by simp [Mapping.typeAndNullability, hguard.1, FlussoType.opensearch], hguard.2⟩
      · cases horder
    · cases horder

theorem resolved_of_mem {fields : List Field} {primaryKey : Option ColumnName} {r : ResolvedField}
    (hfields : ∀ field ∈ fields, field.MapsLeaves) (h : r ∈ resolveFields fields primaryKey) :
    r.Resolved := by
  induction fields with
  | nil => cases h
  | cons field fields ih =>
    rw [resolveFields] at h
    rcases List.mem_cons.mp h with rfl | h
    · unfold resolveField
      exact resolved_ofField (hfields field List.mem_cons_self)
    · exact ih (fun field hfield => hfields field (List.mem_cons_of_mem _ hfield)) h

end ResolvedField

theorem Ty.leafIdent_eq_value_iff {ty : Ty} : ty.leafIdent = "Value" ↔ ty = .leaf .value := by
  cases ty with
  | leaf l => cases l <;> simp [leafIdent, Leaf.name]
  | custom T =>
    have hne : T.ident ≠ "Value" := by
      intro heq
      exact T.fresh (by rw [heq]; decide)
    simp [leafIdent, hne]
  | plain ident fresh =>
    have hne : ident ≠ "Value" := by
      intro heq
      exact fresh (by rw [heq]; decide)
    simp [leafIdent, hne]
  | map container _ _ => cases container <;> simp [leafIdent, MapContainer.name]
  | _ => simp [leafIdent]

namespace Root

variable {features : Features} {field : DocField} {r : ResolvedField}

theorem passes_checkMapType_iff {inner : Ty} {values : MappingType} {kind : Kind}
    (hleaves : expectedLeaves values ≠ []) (hkind : kindOf values false = some kind) :
    passes features (checkMapType field inner values) = true ↔
      match inner with
      | .map _ _ value => value.Fits features (values.tag false)
      | .custom T => ∃ kind : Kind, kind.tag = values.tag false ∧ T.isMap kind = true
      | _ => False := by
  cases inner with
  | map container key value => rw [passes_checkMapType, fitsByName_iff hleaves]
  | custom T =>
    simp only [checkMapType, Ty.mapContainerValue, hkind, Option.map_some, passes,
      Option.toList_some, List.all_cons, List.all_nil, Bool.and_true, Deferred.holds, Ty.isMap]
    constructor
    · exact fun h => ⟨kind, (kindOf_eq_some_iff hleaves).mp hkind, h⟩
    · rintro ⟨other, htag, h⟩
      have hother := (kindOf_eq_some_iff hleaves).mpr htag
      rw [hkind] at hother
      cases hother
      exact h
  | _ => simp [checkMapType, Ty.mapContainerValue, hkind, passes, Deferred.holds, Ty.isMap]

theorem isPrimitive_iff {inner : Ty} (hvec : inner.vecInner = none) :
    isPrimitive inner.leafIdent = false ↔ ∀ l, inner = .leaf l → l.isPrimitive = false := by
  cases inner with
  | leaf l => simp [Ty.leafIdent, Leaf.isPrimitive_name]
  | vec ty => cases hvec
  | custom T => simpa [Ty.leafIdent] using isPrimitive_of_fresh T.fresh
  | plain ident fresh => simpa [Ty.leafIdent] using isPrimitive_of_fresh fresh
  | option ty => simp [Ty.leafIdent, isPrimitive]
  | map container _ _ => cases container <;> simp [Ty.leafIdent, MapContainer.name, isPrimitive]

theorem passes_scalar {inner : Ty} {os : String} (h : expectedLeaves r.mapping.mappingType ≠ []) :
    passes features (if r.array then
        match inner.vecInner with
        | some element => checkScalar field r element
        | none => .error (.shape field.docKey os "a `Vec<…>` (a flat array)")
      else checkScalar field r inner) = true ↔
      if r.array then ∃ element, inner.vecInner = some element ∧ element.Fits features r.tag
      else inner.Fits features r.tag := by
  split_ifs
  · cases hvec : inner.vecInner with
    | none => simp [passes]
    | some element =>
      simpa using passes_checkScalar.symm ▸ fitsByName_iff h
  · rw [passes_checkScalar, fitsByName_iff h]
    rfl

/-- The root's type check asks that the field takes the type. -/
theorem passes_checkType (hr : r.Resolved) :
    passes features (checkType field r) = true ↔ r.Takes features field.ty.stripOption := by
  unfold checkType
  generalize field.ty.stripOption = inner
  by_cases hvalue : inner = .leaf .value
  · simp [hvalue, Ty.leafIdent, Leaf.name, passes, ResolvedField.Takes]
  · have hident : inner.leafIdent ≠ "Value" := fun h => hvalue (Ty.leafIdent_eq_value_iff.mp h)
    simp only [if_neg hident, ResolvedField.Takes, hvalue, false_or, ResolvedField.place]
    cases hm : r.mapping.mappingType with
    | nested => cases inner.vecInner <;> simp [passes]
    | object =>
      cases hvalues : r.mapping.mapValues with
      | some values =>
        obtain ⟨-, hleaves, kind, hkind⟩ := hr.map values hvalues
        exact passes_checkMapType_iff hleaves hkind
      | none =>
        by_cases hchildren : r.children.isEmpty = true
        · simp [hchildren, passes]
        · cases hvec : inner.vecInner with
          | some element => simp [hchildren, passes]
          | none =>
            rw [← isPrimitive_iff hvec]
            cases isPrimitive inner.leafIdent <;> simp [hchildren, passes]
    | other name =>
      by_cases hgeo : name = "geo_point"
      · subst hgeo
        exact passes_scalar (by rw [hm]; decide)
      · by_cases hbinary : name = "binary"
        · subst hbinary
          exact passes_scalar (by rw [hm]; decide)
        · simp [expectedLeaves, hgeo, hbinary, passes]
    | _ => exact passes_scalar (by rw [hm]; decide)

end Root

section Baked

variable {r : ResolvedField}

@[simp] theorem kind_bakeField : (bakeField r).kind = r.tag := by
  cases r
  rfl

@[simp] theorem nullable_bakeField : (bakeField r).nullable = r.nullable := by
  cases r
  rfl

@[simp] theorem array_bakeField : (bakeField r).array = r.array := by
  cases r
  rfl

@[simp] theorem variants_bakeField : (bakeField r).variants = r.mapping.enumOrder.getD [] := by
  cases r
  rfl

@[simp] theorem mapValues_bakeField :
    (bakeField r).mapValues = r.mapping.mapValues.map fun values => values.tag false := by
  cases r
  rfl

@[simp] theorem children_bakeField : (bakeField r).children = bakeLevel r.children := by
  cases r
  rfl

@[simp] theorem name_bakeField : (bakeField r).name = r.name.name := by
  cases r
  rfl

theorem isEmpty_bakeLevel {level : List ResolvedField} :
    (bakeLevel level).isEmpty = level.isEmpty := by
  cases level <;> rfl

theorem find_bakeLevel {level : List ResolvedField} {field : DocField} :
    Check.find (bakeLevel level) field.docKey = (Root.findField level field).map bakeField := by
  unfold Check.find Root.findField
  induction level with
  | nil => rfl
  | cons r level ih =>
    by_cases hname : r.name.name = field.docKey
    · simp [bakeLevel, hname]
    · simpa [bakeLevel, hname] using ih

theorem mapValues_place (hr : r.Resolved) (accepted : List KindTag) :
    (match (bakeField r).mapValues with
      | none => decide ((bakeField r).kind = .other) ||
          (decide ((bakeField r).kind = .object) && (bakeField r).children.isEmpty)
      | some values => accepted.isEmpty || accepted.any fun tag => tag.accepts values) =
      r.place.takesMap accepted := by
  simp only [mapValues_bakeField, kind_bakeField, children_bakeField, isEmpty_bakeLevel,
    ResolvedField.place, ResolvedField.tag]
  cases hvalues : r.mapping.mapValues with
  | some values =>
    obtain ⟨hm, -⟩ := hr.map values hvalues
    simp [hm, Place.takesMap]
  | none =>
    cases hm : r.mapping.mappingType with
    | object => cases hchildren : r.children.isEmpty <;> simp [MappingType.tag, Place.takesMap]
    | other name =>
      by_cases hgeo : name = "geo_point"
      · simp [hgeo, MappingType.tag, Place.takesMap]
      · by_cases hbinary : name = "binary" <;>
          simp [hgeo, hbinary, MappingType.tag, Place.takesMap]
    | double => cases r.mapping.decimal <;> simp [MappingType.tag, Place.takesMap]
    | _ => simp [MappingType.tag, Place.takesMap]

end Baked

namespace Custom

variable (T : Custom)

/-- The type's kinds include the tag. -/
def Fits (tag : KindTag) : Prop := T.kinds = [] ∨ ∃ kind ∈ T.kinds, kind.accepts tag = true

/-- The type's variants are among the field's, and all of them when it is exhaustive. -/
def VariantsFit (r : ResolvedField) : Prop :=
  match r.mapping.enumOrder with
  | some order => (∀ variant ∈ T.variants, variant ∈ order) ∧
      (T.exhaustive = true → ∀ variant ∈ order, variant ∈ T.variants)
  | none => T.exhaustive = false

/-- The type may stand where the field is, as far as maps go. -/
def MapFits (r : ResolvedField) : Prop := T.mapValues = [] ∨ r.place.takesMap T.mapValues = true

/-- The type's own check passes on what lies below the field. -/
def Below (r : ResolvedField) : Prop := T.check (bakeLevel r.children) = true

end Custom

namespace Ty

theorem primitiveKinds_custom (T : Custom) : Fragment.primitiveKinds (.custom T) = none :=
  primitiveKinds_fresh T.fresh

theorem primitiveKinds_plain {ident : String} (fresh : ident ∉ knownNames) :
    Fragment.primitiveKinds (.plain ident fresh) = none := primitiveKinds_fresh fresh

theorem primitiveKinds_map {container : MapContainer} {key value : Ty} :
    Fragment.primitiveKinds (.map container key value) = none := by
  cases container <;> rfl

/-- A built-in leaf with kinds, or a type with a derive. -/
def Known : Ty → Prop
  | leaf l => l.kinds ≠ []
  | custom _ => True
  | _ => False

end Ty

namespace Fragment

variable {fragment : String} {level : List FieldSpec} {field : DocField} {r : ResolvedField}

theorem mapValueIs_bakeField (hr : r.Resolved)
    (hfind : Check.find level field.docKey = some (bakeField r)) (accepted : List KindTag) :
    Check.mapValueIs level field.docKey accepted = r.place.takesMap accepted := by
  rw [← mapValues_place hr, Check.mapValueIs, hfind]
  rfl

theorem kindIs_bakeField (hfind : Check.find level field.docKey = some (bakeField r))
    (accepted : List KindTag) : Check.kindIs level field.docKey accepted =
      (accepted.isEmpty || accepted.any fun tag => tag.accepts r.tag) := by
  simp [Check.kindIs, hfind]

theorem mapCheck_leaf (hr : r.Resolved)
    (hfind : Check.find level field.docKey = some (bakeField r)) {container : String} {l : Leaf} :
    (mapCheck fragment level field container (.leaf l)).all ConstCheck.holds = true ↔
      l.kinds ≠ [] ∧ r.place.takesMap l.kinds = true := by
  unfold mapCheck
  rw [Leaf.primitiveKinds_leaf]
  split_ifs with hkinds
  · simp [hkinds, Ty.derived, ConstCheck.holds]
  · simp [hkinds, ConstCheck.holds, mapValueIs_bakeField hr hfind]

theorem mapCheck_custom (hr : r.Resolved)
    (hfind : Check.find level field.docKey = some (bakeField r)) {container : String}
    {T : Custom} :
    (mapCheck fragment level field container (.custom T)).all ConstCheck.holds =
      r.place.takesMap T.kinds := by
  simp [mapCheck, Ty.primitiveKinds_custom, Ty.derived, ConstCheck.holds,
    mapValueIs_bakeField hr hfind]

theorem mapCheck_unknown {container : String} {value : Ty} (hknown : ¬value.Known) :
    (mapCheck fragment level field container value).all ConstCheck.holds = false := by
  unfold mapCheck
  cases value with
  | leaf l =>
    have hkinds : l.kinds = [] := by_contra fun h => hknown h
    simp [Leaf.primitiveKinds_leaf, hkinds, Ty.derived, ConstCheck.holds]
  | custom T => exact absurd trivial hknown
  | plain ident fresh => simp [Ty.primitiveKinds_plain, Ty.derived, ConstCheck.holds]
  | map container _ _ => simp [Ty.primitiveKinds_map, Ty.derived, ConstCheck.holds]
  | _ => rfl

theorem variantsFit_bakeField (hr : r.Resolved)
    (hfind : Check.find level field.docKey = some (bakeField r)) {T : Custom} :
    Check.variantsCovered level field.docKey T.variants = true ∧
      (!T.exhaustive || Check.hasVariants level field.docKey) = true ∧
      (!T.exhaustive || Check.variantsExhausted level field.docKey T.variants) = true ↔
      T.VariantsFit r := by
  simp only [Check.variantsCovered, Check.hasVariants, Check.variantsExhausted, hfind,
    Option.any_some, variants_bakeField, Custom.VariantsFit]
  cases horder : r.mapping.enumOrder with
  | none => simp
  | some order =>
    obtain ⟨-, hne⟩ := hr.ordered order horder
    cases T.exhaustive <;> simp [hne]

theorem customCheck_custom (hr : r.Resolved)
    (hfind : Check.find level field.docKey = some (bakeField r)) {T : Custom} :
    (customCheck fragment level field (.custom T)).all ConstCheck.holds = true ↔
      T.Fits r.tag ∧ T.MapFits r ∧ T.VariantsFit r ∧ T.Below r := by
  have hchildren : Check.children level field.docKey = bakeLevel r.children := by
    simp [Check.children, hfind]
  have hmap : Check.mapKindOk level field.docKey T.mapValues = true ↔ T.MapFits r := by
    simp [Check.mapKindOk, mapValueIs_bakeField hr hfind, Custom.MapFits]
  have hkinds : Check.kindIs level field.docKey T.kinds = true ↔ T.Fits r.tag := by
    simp [kindIs_bakeField hfind, Custom.Fits]
  rw [← variantsFit_bakeField hr hfind, ← hmap, ← hkinds, Custom.Below, ← hchildren]
  simp only [customCheck, Ty.derived, List.all_cons, List.all_nil, ConstCheck.holds,
    Bool.and_true, Bool.and_eq_true]
  constructor
  · rintro ⟨hk, -, -, -, hm, hc, hn, he, hb⟩
    exact ⟨hk, hm, ⟨hc, hn, he⟩, hb⟩
  · rintro ⟨hk, hm, ⟨hc, hn, he⟩, hb⟩
    simp [hk, hm, hc, hn, he, hb]

end Fragment

namespace ResolvedField

variable {r : ResolvedField}

/-- The field is a string an enum may sit at. -/
def IsString (r : ResolvedField) : Prop :=
  r.mapping.mappingType = .keyword ∨ r.mapping.mappingType = .text

theorem tag_place : match r.place with
    | .nested => r.tag = .nested
    | .map _ | .json | .object => r.tag = .object
    | .unmodelled => r.tag = .other
    | .scalar => r.tag ≠ .nested ∧ r.tag ≠ .object ∧ r.tag ≠ .other := by
  simp only [place, tag]
  cases hm : r.mapping.mappingType with
  | object =>
    cases r.mapping.mapValues with
    | some values => rfl
    | none => cases r.children.isEmpty <;> simp [MappingType.tag]
  | other name =>
    by_cases hgeo : name = "geo_point"
    · simp [hgeo, MappingType.tag]
    · by_cases hbinary : name = "binary" <;> simp [hgeo, hbinary, MappingType.tag]
  | double => cases r.mapping.decimal <;> simp [MappingType.tag]
  | _ => simp [MappingType.tag]

end ResolvedField

/-- There is a level below the field, if an empty one. -/
def Place.holdsLevel : Place → Bool
  | .nested | .json | .object => true
  | .map _ | .scalar | .unmodelled => false

namespace Root

variable {features : Features} {level : List ResolvedField} {scope : String} {field : DocField}
  {r : ResolvedField}

theorem embedsLevel_place (hr : r.Resolved) : embedsLevel r = r.place.holdsLevel := by
  simp only [embedsLevel, ResolvedField.place]
  cases hvalues : r.mapping.mapValues with
  | some values =>
    obtain ⟨hm, -⟩ := hr.map values hvalues
    simp [hm, Place.holdsLevel]
  | none =>
    cases hm : r.mapping.mappingType with
    | object => cases r.children.isEmpty <;> simp [Place.holdsLevel]
    | other name =>
      by_cases hname : name = "geo_point" ∨ name = "binary" <;> simp [hname, Place.holdsLevel]
    | _ => simp [Place.holdsLevel]

instance : Decidable r.IsString := inferInstanceAs (Decidable (_ ∨ _))

theorem isString_guard (hr : r.Resolved) :
    (decide (r.mapping.mappingType = .keyword) || decide (r.mapping.mappingType = .text)) = true ∧
      r.mapping.mapValues.isNone = true ↔ r.IsString := by
  simp only [Bool.or_eq_true, decide_eq_true_eq, ResolvedField.IsString, and_iff_left_iff_imp]
  intro hstring
  cases hvalues : r.mapping.mapValues with
  | none => rfl
  | some values =>
    obtain ⟨hm, -⟩ := hr.map values hvalues
    rcases hstring with h | h <;> rw [hm] at h <;> cases h

theorem embedCheck_custom (hr : r.Resolved) (hfind : findField level field = some r) {T : Custom} :
    (embedCheck level scope field r (.custom T)).all ConstCheck.holds = true ↔
      (r.place.holdsLevel = true → T.MapFits r ∧ T.Below r) ∧ (r.IsString → T.VariantsFit r) := by
  have hbaked : Check.find (bakeLevel level) field.docKey = some (bakeField r) := by
    rw [find_bakeLevel, hfind]
    rfl
  have hchildren : Check.children (bakeLevel level) field.docKey = bakeLevel r.children := by
    simp [Check.children, hbaked]
  have hmap : Check.mapKindOk (bakeLevel level) field.docKey T.mapValues = true ↔ T.MapFits r := by
    simp [Check.mapKindOk, Fragment.mapValueIs_bakeField hr hbaked, Custom.MapFits]
  simp only [embedCheck, Ty.derived, List.all_append, Bool.and_eq_true, embedsLevel_place hr]
  apply and_congr
  · cases r.place.holdsLevel with
    | false => simp
    | true => simp [ConstCheck.holds, hmap, hchildren, Custom.Below]
  · cases horder : r.mapping.enumOrder with
    | some order =>
      obtain ⟨hm, hne⟩ := hr.ordered order horder
      have hstring : r.IsString := .inl hm
      cases hexhaustive : T.exhaustive <;> simp [ConstCheck.holds, Check.variantsCovered,
        Check.variantsExhausted, hbaked, horder, hne, hstring, hexhaustive, Custom.VariantsFit]
    | none =>
      rw [if_congr (isString_guard hr) rfl rfl]
      split_ifs with hstring <;> simp [hstring, ConstCheck.holds, Custom.VariantsFit, horder]

theorem embedCheck_unknown (hr : r.Resolved) {element : Ty} (hderived : element.derived = none) :
    (embedCheck level scope field r element).all ConstCheck.holds = true ↔
      r.place.holdsLevel = false ∧ ¬r.IsString := by
  simp only [embedCheck, hderived, List.all_append, Bool.and_eq_true, embedsLevel_place hr]
  apply and_congr
  · cases r.place.holdsLevel <;> simp [ConstCheck.holds]
  · cases horder : r.mapping.enumOrder with
    | some order =>
      obtain ⟨hm, -⟩ := hr.ordered order horder
      simp [ConstCheck.holds, ResolvedField.IsString, hm]
    | none =>
      rw [if_congr (isString_guard hr) rfl rfl]
      split_ifs with hstring <;> simp [hstring, ConstCheck.holds]

end Root

/-- A type, or a vector of it. -/
def Ty.wrap (isVec : Bool) (element : Ty) : Ty := if isVec then .vec element else element

namespace ResolvedField

variable {features : Features} {r : ResolvedField}

theorem Resolved.kind_of_map (hr : r.Resolved) {values : MappingType}
    (hplace : r.place = .map values) : ∃ kind : Kind, kind.tag = values.tag false := by
  have hvalues : r.mapping.mapValues = some values := by
    simp only [place] at hplace
    split at hplace
    · cases hplace
    · split at hplace
      · next heq =>
        cases hplace
        exact heq
      · split_ifs at hplace
    · split_ifs at hplace
    · cases hplace
  obtain ⟨-, hleaves, kind, hkind⟩ := hr.map values hvalues
  exact ⟨kind, (Root.kindOf_eq_some_iff hleaves).mp hkind⟩

/-- Types of one's own are values of the field's kind. -/
def TakesValues (r : ResolvedField) : Prop := ∃ kind : Kind, kind.tag = r.tag

theorem takes_leaf {isVec : Bool} {l : Leaf} (hkinds : l.kinds ≠ []) :
    r.Takes features (.wrap isVec (.leaf l)) ↔ match r.place with
      | .nested => isVec = true
      | .map _ => False
      | .json | .unmodelled => True
      | .object => isVec = false ∧ l.isPrimitive = false
      | .scalar => r.array = isVec ∧ r.tag ∈ l.kinds ∧ l.Implemented features r.tag := by
  have hvalue : l ≠ .value := by
    rintro rfl
    exact hkinds rfl
  cases isVec <;> cases hplace : r.place <;> cases harray : r.array <;>
    simp [Takes, Ty.wrap, hplace, harray, hvalue, Ty.vecInner, Ty.Fits]

theorem fits_custom {T : Custom} {tag : KindTag} :
    (Ty.custom T).Fits features tag ↔ (∃ kind : Kind, kind.tag = tag) ∧ T.Fits tag := by
  constructor
  · rintro ⟨kind, rfl, hvalue⟩
    refine ⟨⟨kind, rfl⟩, ?_⟩
    simpa [T.isValue_eq, Custom.Fits] using hvalue
  · rintro ⟨⟨kind, rfl⟩, hfits⟩
    refine ⟨kind, rfl, ?_⟩
    simpa [T.isValue_eq, Custom.Fits] using hfits

theorem not_fits_vec {ty : Ty} {tag : KindTag} : ¬(Ty.vec ty).Fits features tag := id

theorem takes_custom (hr : r.Resolved) {isVec : Bool} {T : Custom} :
    r.Takes features (.wrap isVec (.custom T)) ↔ match r.place with
      | .nested => isVec = true
      | .map values => isVec = false ∧ ∃ tag ∈ T.mapValues, tag.accepts (values.tag false) = true
      | .json | .unmodelled => True
      | .object => isVec = false
      | .scalar => r.array = isVec ∧ r.TakesValues ∧ T.Fits r.tag := by
  have hmap {values : MappingType} (hplace : r.place = .map values) :
      (∃ kind : Kind, kind.tag = values.tag false ∧ T.isMap kind = true) ↔
        ∃ tag ∈ T.mapValues, tag.accepts (values.tag false) = true := by
    obtain ⟨kind, htag⟩ := hr.kind_of_map hplace
    constructor
    · rintro ⟨other, hother, h⟩
      simpa [T.isMap_eq, hother] using h
    · rintro ⟨tag, hmem, haccepts⟩
      refine ⟨kind, htag, ?_⟩
      rw [T.isMap_eq, htag]
      exact List.any_eq_true.mpr ⟨tag, hmem, haccepts⟩
  cases isVec <;> cases hplace : r.place <;> cases harray : r.array <;>
    simp [Takes, Ty.wrap, hplace, harray, Ty.vecInner, fits_custom, not_fits_vec, TakesValues,
      hmap]

end ResolvedField

end Flusso
