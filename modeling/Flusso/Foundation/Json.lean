import Mathlib.Data.String.Basic
import Mathlib.Data.List.Basic
import Mathlib.Data.List.Induction
import Mathlib.Data.List.Nodup

/-! # JSON values

An object is kept as it is read: its fields in the order of their keys, each key
once, the last of several values under one key.
-/

inductive Json where
  | null
  | bool (b : Bool)
  /-- A number, by its token. -/
  | number (token : String)
  | string (s : String)
  | array (items : List Json)
  | object (fields : List (String × Json))

namespace Json

section Fields

variable {α : Type*}

/-- A field set in sorted fields. -/
def insert (key : String) (value : α) : List (String × α) → List (String × α)
  | [] => [(key, value)]
  | (k, v) :: fields =>
    if key < k then (key, value) :: (k, v) :: fields
    else if key = k then (key, value) :: fields
    else (k, v) :: insert key value fields

/-- One object's fields over another's, as `a || b` has them. -/
def merge (a b : List (String × α)) : List (String × α) :=
  b.foldl (fun fields pair => insert pair.1 pair.2 fields) a

/-- The fields of an object built from pairs. -/
def ofPairs (pairs : List (String × α)) : List (String × α) := merge [] pairs

def get (fields : List (String × α)) (key : String) : Option α :=
  (fields.find? fun pair => pair.1 = key).map Prod.snd

/-- Fields in the order of their keys, each key once. -/
def Sorted (fields : List (String × α)) : Prop :=
  fields.Pairwise fun a b => a.1 < b.1

variable {key k : String} {value : α} {fields a b pairs : List (String × α)}

theorem get_cons {field : String × α} : get (field :: fields) key =
    if field.1 = key then some field.2 else get fields key := by
  by_cases h : field.1 = key <;> simp [get, h]

theorem get_insert : get (insert key value fields) k =
    if key = k then some value else get fields k := by
  induction fields with
  | nil => rw [insert, get_cons]
  | cons field fields ih =>
    rw [insert]
    split
    · rw [get_cons]
    · split
      · next heq =>
        subst heq
        rw [get_cons, get_cons]
        split <;> rfl
      · next hne =>
        rw [get_cons, ih, get_cons]
        split
        · next hk =>
          rw [if_neg (hk ▸ hne)]
        · rfl

theorem exists_of_mem_insert {pair : String × α} (h : pair ∈ insert key value fields) :
    pair = (key, value) ∨ pair ∈ fields := by
  induction fields with
  | nil => exact Or.inl (List.mem_singleton.mp h)
  | cons field fields ih =>
    rw [insert] at h
    split at h
    · exact List.mem_cons.mp h
    · split at h
      · rcases List.mem_cons.mp h with h | h
        · exact Or.inl h
        · exact Or.inr (List.mem_cons_of_mem _ h)
      · rcases List.mem_cons.mp h with h | h
        · exact Or.inr (h ▸ List.mem_cons_self)
        · exact (ih h).imp_right (List.mem_cons_of_mem _)

theorem Sorted.insert (h : Sorted fields) : Sorted (insert key value fields) := by
  induction fields with
  | nil => exact List.pairwise_singleton _ _
  | cons field fields ih =>
    obtain ⟨hfield, hfields⟩ := List.pairwise_cons.mp h
    rw [Json.insert]
    split
    · next hlt =>
      refine List.pairwise_cons.mpr ⟨fun pair hpair => ?_, h⟩
      rcases List.mem_cons.mp hpair with rfl | hpair
      · exact hlt
      · exact lt_trans hlt (hfield pair hpair)
    · split
      · next heq => exact List.pairwise_cons.mpr ⟨heq ▸ hfield, hfields⟩
      · next hge hne =>
        refine List.pairwise_cons.mpr ⟨fun pair hpair => ?_, ih hfields⟩
        rcases exists_of_mem_insert hpair with rfl | hpair
        · exact lt_of_le_of_ne (not_lt.mp hge) fun h => hne h.symm
        · exact hfield pair hpair

theorem Sorted.merge (h : Sorted a) : Sorted (merge a b) := by
  induction b generalizing a with
  | nil => exact h
  | cons pair b ih => exact ih h.insert

theorem get_merge : get (merge a b) key = (get b.reverse key).or (get a key) := by
  induction b using List.reverseRecOn with
  | nil => simp [merge, get]
  | append_singleton b pair ih =>
    have hmerge : merge a (b ++ [pair]) = insert pair.1 pair.2 (merge a b) := by
      simp [merge]
    rw [hmerge, get_insert, ih, List.reverse_append]
    simp only [List.reverse_cons, List.reverse_nil, List.nil_append, List.cons_append, get_cons]
    split <;> rfl

theorem get_of_mem (h : Sorted fields) (hmem : (key, value) ∈ fields) :
    get fields key = some value := by
  induction fields with
  | nil => cases hmem
  | cons field fields ih =>
    obtain ⟨hfield, hfields⟩ := List.pairwise_cons.mp h
    rcases List.mem_cons.mp hmem with rfl | hmem
    · rw [get_cons, if_pos rfl]
    · rw [get_cons, if_neg (ne_of_lt (hfield _ hmem)), ih hfields hmem]

theorem mem_of_get (h : get fields key = some value) : (key, value) ∈ fields := by
  obtain ⟨pair, hfind, rfl⟩ := Option.map_eq_some_iff.mp h
  have hkey : pair.1 = key := by simpa using List.find?_some hfind
  exact hkey ▸ List.mem_of_find?_eq_some hfind

theorem get_of_nodup (h : (fields.map Prod.fst).Nodup) (hmem : (key, value) ∈ fields) :
    get fields key = some value := by
  induction fields with
  | nil => cases hmem
  | cons field fields ih =>
    rw [List.map_cons, List.nodup_cons] at h
    rcases List.mem_cons.mp hmem with rfl | hmem
    · rw [get_cons, if_pos rfl]
    · have hne : field.1 ≠ key := by
        rintro rfl
        exact h.1 (List.mem_map.mpr ⟨_, hmem, rfl⟩)
      rw [get_cons, if_neg hne, ih h.2 hmem]

theorem get_map {β : Type*} (f : α → β) :
    get (fields.map fun field => (field.1, f field.2)) key = (get fields key).map f := by
  induction fields with
  | nil => rfl
  | cons field fields ih =>
    rw [List.map_cons, get_cons, get_cons, ih]
    split <;> rfl

theorem get_filter_ne :
    get (fields.filter fun field => field.1 ≠ k) key = if key = k then none else get fields key := by
  induction fields with
  | nil => simp [get]
  | cons field fields ih =>
    rw [List.filter_cons]
    split
    · next hne =>
      have hne : field.1 ≠ k := by simpa using hne
      rw [get_cons, ih, get_cons]
      by_cases hkey : field.1 = key
      · simp [hkey, hkey ▸ hne]
      · simp [hkey]
    · next heq =>
      have heq : field.1 = k := by simpa using heq
      rw [ih, get_cons]
      split
      · rfl
      · next hkey => rw [if_neg fun h => hkey (h.symm.trans heq)]

theorem Sorted.ext (ha : Sorted a) (hb : Sorted b) (h : ∀ key, get a key = get b key) : a = b := by
  have hsubset : ∀ {a b : List (String × α)}, Sorted a → Sorted b →
      (∀ key, get a key = get b key) → a ⊆ b := by
    intro a b ha hb h pair hpair
    exact mem_of_get ((h pair.1).symm.trans (get_of_mem ha hpair))
  have hnodup : ∀ {a : List (String × α)}, Sorted a → a.Nodup := fun ha =>
    ha.imp fun hlt heq => absurd (heq ▸ hlt) (lt_irrefl _)
  have hperm : a.Perm b := (List.perm_ext_iff_of_nodup (hnodup ha) (hnodup hb)).mpr fun _ =>
    ⟨fun hp => hsubset ha hb h hp, fun hp => hsubset hb ha (fun key => (h key).symm) hp⟩
  exact hperm.eq_of_pairwise (fun x y _ _ hxy hyx => absurd (lt_trans hxy hyx) (lt_irrefl _)) ha hb

theorem sorted_ofPairs : Sorted (ofPairs pairs) := Sorted.merge List.Pairwise.nil

theorem get_ofPairs : get (ofPairs pairs) key = get pairs.reverse key := by
  rw [ofPairs, get_merge]
  simp [get]

theorem get_ofPairs_of_mem (h : (pairs.map Prod.fst).Nodup) (hmem : (key, value) ∈ pairs) :
    get (ofPairs pairs) key = some value := by
  rw [get_ofPairs]
  apply get_of_nodup
  · rwa [List.map_reverse, List.nodup_reverse]
  · exact List.mem_reverse.mpr hmem

theorem isSome_get_iff : (get fields key).isSome = true ↔ key ∈ fields.map Prod.fst := by
  induction fields with
  | nil => simp [get]
  | cons field fields ih =>
    rw [get_cons, List.map_cons, List.mem_cons]
    split
    · next heq => simp [heq]
    · next hne => rw [ih, or_iff_right fun h => hne h.symm]

theorem Sorted.nodup_keys (h : Sorted fields) : (fields.map Prod.fst).Nodup := by
  rw [List.Nodup, List.pairwise_map]
  exact h.imp fun hlt => ne_of_lt hlt

theorem keys_ofPairs_perm (h : (pairs.map Prod.fst).Nodup) :
    ((ofPairs pairs).map Prod.fst).Perm (pairs.map Prod.fst) := by
  rw [List.perm_ext_iff_of_nodup sorted_ofPairs.nodup_keys h]
  intro key
  rw [← isSome_get_iff, ← isSome_get_iff, get_ofPairs, isSome_get_iff, isSome_get_iff,
    List.map_reverse, List.mem_reverse]

theorem Sorted.get_reverse (h : Sorted fields) : get fields.reverse key = get fields key := by
  cases hget : get fields.reverse key with
  | some v => exact (get_of_mem h (List.mem_reverse.mp (mem_of_get hget))).symm
  | none =>
    cases hget' : get fields key with
    | none => rfl
    | some v =>
      have hmem := List.mem_reverse.mpr (mem_of_get hget')
      have hfound := List.find?_eq_none.mp (Option.map_eq_none_iff.mp hget) _ hmem
      simp at hfound

theorem ofPairs_of_sorted (h : Sorted fields) : ofPairs fields = fields :=
  sorted_ofPairs.ext h fun _ => get_ofPairs.trans h.get_reverse

theorem merge_ofPairs : merge (ofPairs a) (ofPairs b) = ofPairs (a ++ b) := by
  refine sorted_ofPairs.merge.ext sorted_ofPairs fun key => ?_
  rw [get_merge, sorted_ofPairs.get_reverse, get_ofPairs, get_ofPairs, get_ofPairs,
    List.reverse_append]
  simp only [get, List.find?_append]
  cases (b.reverse.find? fun pair => decide (pair.1 = key)) <;> rfl

/-- A list of pairs built in chunks. -/
theorem foldl_merge_ofPairs (chunks : List (List (String × α))) :
    chunks.foldl (fun fields chunk => merge fields (ofPairs chunk)) [] =
      ofPairs chunks.flatten := by
  have hfold : ∀ pairs : List (String × α),
      chunks.foldl (fun fields chunk => merge fields (ofPairs chunk)) (ofPairs pairs) =
        ofPairs (pairs ++ chunks.flatten) := by
    induction chunks with
    | nil => simp
    | cons chunk chunks ih =>
      intro pairs
      rw [List.foldl_cons, merge_ofPairs, ih, List.flatten_cons, List.append_assoc]
  exact hfold []

end Fields

section Readers

def field? (key : String) : Json → Option Json
  | object fields => get fields key
  | _ => none

def asBool : Json → Option Bool
  | bool b => some b
  | _ => none

def asStr : Json → Option String
  | string s => some s
  | _ => none

def asArray : Json → Option (List Json)
  | array items => some items
  | _ => none

/-- A number written without a sign, a point or an exponent, of 64 bits at most. -/
def asU64 : Json → Option ℕ
  | number token =>
    if token ≠ "" ∧ token.toList.all Char.isDigit then
      (some (Nat.ofDigitChars 10 token.toList 0)).filter fun n => n < 2 ^ 64
    else none
  | _ => none

def ofNat (n : ℕ) : Json := number n.repr

theorem asU64_ofNat {n : ℕ} (h : n < 2 ^ 64) : (ofNat n).asU64 = some n := by
  have hdigits : n.repr.toList.all Char.isDigit = true := by
    rw [Nat.toList_repr, List.all_eq_true]
    exact fun c hc => Nat.isDigit_of_mem_toDigits (by decide) (by decide) hc
  have hne : n.repr ≠ "" := by
    intro heq
    have hnil : Nat.toDigits 10 n = [] := by
      rw [← Nat.toList_repr, heq]
      rfl
    exact Nat.toDigits_ne_nil hnil
  rw [ofNat, asU64, if_pos ⟨hne, hdigits⟩, Nat.toList_repr, Nat.ofDigitChars_ten_toDigits]
  simpa using h

end Readers

end Json
