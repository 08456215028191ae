import Flusso.Sink.Generations

/-! # Combined searches

A hit carries the concrete index it came from, a generation behind the alias of
its search target. The name is taken back to the target, and the union's variant
of that target decodes the hit.
-/

namespace Flusso

/-- A schema hash, in its eight hex digits. -/
structure HexHash where
  text : String
  length_eq : text.length = 8
  hex : ∀ c ∈ text.toList, c ∈ "0123456789abcdefABCDEF".toList

theorem HexHash.underscore_not_mem (hash : HexHash) : '_' ∉ hash.text.toList :=
  fun hmem => absurd (hash.hex '_' hmem) (by decide)

/-- The logical index and the schema hash of a document type. -/
structure Target where
  index : String
  schemaHash : HexHash

def Target.physicalIndex (target : Target) : String :=
  target.index ++ "_" ++ target.schemaHash.text

/-- The hash alias the sink keeps for a target. -/
def Target.sinkIndex (indexPrefix : String) (target : Target) : SinkIndex :=
  ⟨indexPrefix, target.index, target.schemaHash.text, target.schemaHash.underscore_not_mem⟩

def stripPrefix? (name front : String) : Option String :=
  (name.toList.dropPrefix? front.toList).map String.ofList

def isGenerationOf (name physical : String) : Bool :=
  match (name.toList.dropPrefix? physical.toList).bind fun rest => rest.dropPrefix? ['_'] with
  | some generation => !generation.isEmpty && generation.all Char.isDigit
  | none => false

/-- The physical index of the target that a hit's index belongs to, else the name as it is. -/
def dispatchIndex (targets : List Target) (stripped : String) : String :=
  match targets.find? fun target =>
      stripped = target.physicalIndex || isGenerationOf stripped target.physicalIndex with
  | some target => target.physicalIndex
  | none => stripped

inductive MultiError where
  | unexpectedIndex (index : String)
  | decode (message : String)

/-- A document type of a union, with its deserializer. -/
structure Variant (D : Type*) where
  target : Target
  fromValue : Json → Except String D

structure DocumentUnion (D : Type*) where
  variants : List (Variant D)
  distinct : (variants.map Variant.target).Nodup

structure RawMultiHit where
  index : String
  id : String
  score : Option String
  source : Json

structure Hit (D : Type*) where
  id : String
  score : String
  source : D

namespace DocumentUnion

variable {D : Type*}

def targets (union : DocumentUnion D) : List Target := union.variants.map Variant.target

/-- The first variant of the physical index reads the document. -/
def decode (union : DocumentUnion D) (physicalIndex : String) (source : Json) :
    Except MultiError D :=
  match union.variants.find? fun variant => physicalIndex = variant.target.physicalIndex with
  | some variant => (variant.fromValue source).mapError .decode
  | none => .error (.unexpectedIndex physicalIndex)

def decodeHit (union : DocumentUnion D) (indexPrefix : String) (hit : RawMultiHit) :
    Except MultiError (Hit D) :=
  let stripped := (stripPrefix? hit.index indexPrefix).getD hit.index
  let index := dispatchIndex union.targets stripped
  (union.decode index hit.source).map fun source => ⟨hit.id, hit.score.getD "0.0", source⟩

end DocumentUnion

section Names

variable {name physical : String} {target other : Target}

theorem HexHash.ext_text {a b : HexHash} (h : a.text = b.text) : a = b := by
  cases a
  cases b
  cases h
  rfl

theorem Target.toList_physicalIndex (target : Target) :
    target.physicalIndex.toList = target.index.toList ++ '_' :: target.schemaHash.text.toList := by
  simp [physicalIndex]

/-- The hash is what stands after the last underscore. -/
theorem Target.physicalIndex_inj : target.physicalIndex = other.physicalIndex ↔ target = other := by
  constructor
  · intro h
    have hsplit := congrArg (fun name => rsplitUnderscore (String.toList name)) h
    simp only [toList_physicalIndex, rsplitUnderscore_append (HexHash.underscore_not_mem _),
      Option.some.injEq, Prod.mk.injEq, String.toList_inj] at hsplit
    obtain ⟨hindex, hhash⟩ := hsplit
    cases target
    cases other
    rw [Target.mk.injEq]
    exact ⟨hindex, HexHash.ext_text hhash⟩
  · rintro rfl
    rfl

theorem isGenerationOf_iff : isGenerationOf name physical = true ↔
    ∃ digits, name.toList = physical.toList ++ '_' :: digits ∧ digits ≠ [] ∧
      digits.all Char.isDigit = true := by
  unfold isGenerationOf
  constructor
  · intro h
    split at h
    · next digits hdrop =>
      obtain ⟨rest, hrest, hdigits⟩ := Option.bind_eq_some_iff.mp hdrop
      obtain ⟨front, hname, hfront⟩ := List.dropPrefix?_eq_some_iff.mp hrest
      obtain ⟨bar, hbars, hbar⟩ := List.dropPrefix?_eq_some_iff.mp hdigits
      rw [eq_of_beq hfront] at hname
      rw [eq_of_beq hbar] at hbars
      refine ⟨digits, by rw [hname, hbars]; rfl, ?_⟩
      simpa using h
    · cases h
  · rintro ⟨digits, hname, hne, hall⟩
    have hdrop : (name.toList.dropPrefix? physical.toList).bind
        (fun rest => rest.dropPrefix? ['_']) = some digits := by
      have hbar : '_' :: digits = ['_'] ++ digits := rfl
      rw [hname, List.dropPrefix?_append_of_beq _ BEq.rfl, Option.bind_some, hbar,
        List.dropPrefix?_append_of_beq _ BEq.rfl]
    rw [hdrop]
    simp [hne, hall]

theorem underscore_not_mem_of_digits {digits : List Char} (h : digits.all Char.isDigit = true) :
    '_' ∉ digits :=
  fun hmem => absurd (List.all_eq_true.mp h '_' hmem) (by decide)

end Names

section Dispatch

variable {target other : Target} {n : UInt64} {targets : List Target}

theorem toList_generationName_physicalIndex (target : Target) (n : UInt64) :
    (generationName target.physicalIndex n).toList =
      target.physicalIndex.toList ++ '_' :: n.toNat.repr.toList := by
  simp [generationName]

theorem digits_repr (n : ℕ) : n.repr.toList ≠ [] ∧ n.repr.toList.all Char.isDigit = true := by
  rw [Nat.toList_repr]
  refine ⟨Nat.toDigits_ne_nil, ?_⟩
  rw [List.all_eq_true]
  exact fun c hc => Nat.isDigit_of_mem_toDigits (by decide) (by decide) hc

theorem isGenerationOf_generationName :
    isGenerationOf (generationName target.physicalIndex n) other.physicalIndex = true ↔
      target = other := by
  rw [isGenerationOf_iff, toList_generationName_physicalIndex]
  constructor
  · rintro ⟨digits, hname, -, hdigits⟩
    have hsplit := congrArg rsplitUnderscore hname
    rw [rsplitUnderscore_append (underscore_not_mem_of_digits (digits_repr n.toNat).2),
      rsplitUnderscore_append (underscore_not_mem_of_digits hdigits)] at hsplit
    have hphysical := (Prod.mk.inj (Option.some.inj hsplit)).1
    exact Target.physicalIndex_inj.mp (String.toList_inj.mp hphysical)
  · rintro rfl
    exact ⟨n.toNat.repr.toList, rfl, digits_repr n.toNat⟩

/-- A short number is no hash, so a generation is no target's physical index. -/
theorem generationName_ne_physicalIndex (h : n.toNat.repr.length < 8) :
    generationName target.physicalIndex n ≠ other.physicalIndex := by
  intro heq
  have hsplit := congrArg (fun name => rsplitUnderscore (String.toList name)) heq
  simp only [toList_generationName_physicalIndex] at hsplit
  rw [rsplitUnderscore_append (underscore_not_mem_of_digits (digits_repr n.toNat).2),
    Target.toList_physicalIndex other, rsplitUnderscore_append other.schemaHash.underscore_not_mem]
    at hsplit
  have hdigits := String.toList_inj.mp (Prod.mk.inj (Option.some.inj hsplit)).2
  have hlength := other.schemaHash.length_eq
  rw [← hdigits] at hlength
  omega

theorem dispatchIndex_generationName (hmem : target ∈ targets) (h : n.toNat.repr.length < 8) :
    dispatchIndex targets (generationName target.physicalIndex n) = target.physicalIndex := by
  have hmatch (other : Target) :
      (decide (generationName target.physicalIndex n = other.physicalIndex) ||
        isGenerationOf (generationName target.physicalIndex n) other.physicalIndex) = true ↔
      target = other := by
    rw [decide_eq_false (generationName_ne_physicalIndex h), Bool.false_or,
      isGenerationOf_generationName]
  unfold dispatchIndex
  split
  · next found hfound =>
    have hmatched := List.find?_some hfound
    rw [(hmatch found).mp hmatched]
  · next hnone =>
    exact absurd ((hmatch target).mpr rfl) (List.find?_eq_none.mp hnone target hmem)

theorem stripPrefix?_concrete (indexPrefix : String) (target : Target) (n : UInt64) :
    stripPrefix? (generationName (target.sinkIndex indexPrefix).hashAlias n) indexPrefix =
      some (generationName target.physicalIndex n) := by
  have hname : (generationName (target.sinkIndex indexPrefix).hashAlias n).toList =
      indexPrefix.toList ++ (generationName target.physicalIndex n).toList := by
    simp [generationName, Target.sinkIndex, SinkIndex.hashAlias, Target.physicalIndex]
  rw [stripPrefix?, hname, List.dropPrefix?_append_of_beq _ BEq.rfl, Option.map_some,
    String.ofList_toList]

end Dispatch

namespace DocumentUnion

variable {D : Type*} {union : DocumentUnion D} {variant : Variant D}

theorem eq_of_target {other : Variant D} (h : variant ∈ union.variants)
    (hother : other ∈ union.variants) (htarget : variant.target = other.target) :
    variant = other :=
  List.inj_on_of_nodup_map union.distinct h hother htarget

theorem decode_physicalIndex (h : variant ∈ union.variants) (source : Json) :
    union.decode variant.target.physicalIndex source =
      (variant.fromValue source).mapError .decode := by
  unfold decode
  split
  · next found hfound =>
    have hmatched := List.find?_some hfound
    have hsame := Target.physicalIndex_inj.mp (of_decide_eq_true hmatched)
    rw [eq_of_target h (List.mem_of_find?_eq_some hfound) hsame]
  · next hnone =>
    have hmissed := List.find?_eq_none.mp hnone variant h
    exact absurd (decide_eq_true rfl) hmissed

/-- A hit from a generation of a target reaches the variant of that target, the only one whose
physical index it is dispatched to. -/
theorem decodeHit_generation (union : DocumentUnion D) (indexPrefix : String) (n : UInt64)
    (hit : RawMultiHit) (variant : Variant D) (hmem : variant ∈ union.variants)
    (hn : n.toNat.repr.length < 8)
    (hindex : hit.index = generationName (variant.target.sinkIndex indexPrefix).hashAlias n) :
    (∃ stripped, stripPrefix? hit.index indexPrefix = some stripped ∧
      ∀ other ∈ union.variants,
        dispatchIndex union.targets stripped = other.target.physicalIndex ↔ other = variant) ∧
    union.decodeHit indexPrefix hit = ((variant.fromValue hit.source).mapError .decode).map
      fun source => ⟨hit.id, hit.score.getD "0.0", source⟩ := by
  have hstrip : stripPrefix? hit.index indexPrefix =
      some (generationName variant.target.physicalIndex n) := by
    rw [hindex, stripPrefix?_concrete]
  have hdispatch := @dispatchIndex_generationName _ n union.targets (List.mem_map_of_mem hmem) hn
  constructor
  · refine ⟨_, hstrip, fun other hother => ?_⟩
    rw [hdispatch, Target.physicalIndex_inj]
    constructor
    · intro htarget
      exact (eq_of_target hmem hother htarget).symm
    · rintro rfl
      rfl
  · rw [decodeHit, hstrip, Option.getD_some, hdispatch, decode_physicalIndex hmem]

theorem usersHash_hex : ∀ c ∈ "0a1b2c3d".toList, c ∈ "0123456789abcdefABCDEF".toList := by
  simp

theorem eventsHash_hex : ∀ c ∈ "00000007".toList, c ∈ "0123456789abcdefABCDEF".toList := by
  simp

def usersHash : HexHash := ⟨"0a1b2c3d", by decide, usersHash_hex⟩

def eventsHash : HexHash := ⟨"00000007", by decide, eventsHash_hex⟩

/-- The second index is named like a generation of the first. -/
def usersAndEvents : DocumentUnion String where
  variants :=
    [⟨⟨"users", usersHash⟩, fun _ => .ok "user"⟩,
      ⟨⟨"users_0a1b2c3d", eventsHash⟩, fun _ => .ok "event"⟩]
  distinct := by
    simp [usersHash, eventsHash]

theorem decodeHit_generation_events :
    usersAndEvents.decodeHit "app_" ⟨"app_users_0a1b2c3d_00000007_2", "1", none, .object []⟩ =
      .ok ⟨"1", "0.0", "event"⟩ :=
  (decodeHit_generation usersAndEvents "app_" 2 _
    ⟨⟨"users_0a1b2c3d", eventsHash⟩, fun _ => .ok "event"⟩
    (List.mem_cons_of_mem _ List.mem_cons_self) (by decide) rfl).2

end DocumentUnion

end Flusso
