import Mathlib.Data.List.Basic

/-! # Entries under keys

A map as the list of its entries. Keys are told apart by an equivalence; the
newest entry for a key hides the others.
-/

namespace Association

variable {κ α : Type*} [BEq κ] {entries : List (κ × α)} {entry : κ × α} {k k' : κ} {ks : List κ}

def get (entries : List (κ × α)) (k : κ) : Option α :=
  (entries.find? fun entry => entry.1 == k).map Prod.snd

def remove (entries : List (κ × α)) (k : κ) : List (κ × α) :=
  entries.filter fun entry => !(entry.1 == k)

def insert (entries : List (κ × α)) (entry : κ × α) : List (κ × α) :=
  entry :: remove entries entry.1

/-- The entries of a list of keys, each taken out as it is found. -/
def takeOut (entries : List (κ × α)) : List κ → List (Option α)
  | [] => []
  | k :: ks => get entries k :: takeOut (remove entries k) ks

theorem get_eq_none : get entries k = none ↔ ∀ entry ∈ entries, ¬ (entry.1 == k) = true := by
  simp [get]

theorem mem_of_get_eq_some {a : α} (h : get entries k = some a) :
    ∃ entry ∈ entries, (entry.1 == k) = true ∧ entry.2 = a := by
  obtain ⟨entry, hfind, rfl⟩ := Option.map_eq_some_iff.mp h
  have hk := List.find?_some hfind
  exact ⟨entry, List.mem_of_find?_eq_some hfind, hk, rfl⟩

theorem get_eq_some (hentry : entry ∈ entries) (hk : (entry.1 == k) = true)
    (hall : ∀ entry' ∈ entries, (entry'.1 == k) = true → entry'.2 = entry.2) :
    get entries k = some entry.2 := by
  cases hget : get entries k with
  | none => exact absurd hk (get_eq_none.mp hget entry hentry)
  | some a =>
    obtain ⟨entry', hentry', hk', rfl⟩ := mem_of_get_eq_some hget
    rw [hall entry' hentry' hk']

theorem mem_remove : entry ∈ remove entries k ↔ entry ∈ entries ∧ ¬ (entry.1 == k) = true := by
  simp [remove]

variable [EquivBEq κ]

theorem get_remove (h : ¬ (k == k') = true) : get (remove entries k) k' = get entries k' := by
  rw [get, get, remove, List.find?_filter]
  congr 2
  funext entry
  rw [Bool.eq_iff_iff, decide_eq_true_iff, Bool.not_eq_true']
  constructor
  · exact And.right
  · intro hk'
    refine ⟨Bool.eq_false_iff.mpr fun hk => h ?_, hk'⟩
    exact BEq.trans (BEq.symm hk) hk'

theorem takeOut_eq (h : ks.Pairwise fun k k' => ¬ (k == k') = true) :
    takeOut entries ks = ks.map (get entries) := by
  induction ks generalizing entries with
  | nil => rfl
  | cons k ks ih =>
    obtain ⟨hk, hks⟩ := List.pairwise_cons.mp h
    rw [takeOut, ih hks, List.map_cons]
    congr 1
    apply List.map_congr_left
    intro k' hk'
    exact get_remove (hk k' hk')

omit [EquivBEq κ] in
theorem mem_foldl_insert {added : List (κ × α)} (h : entry ∈ added.foldl insert entries) :
    entry ∈ entries ∨ entry ∈ added := by
  induction added generalizing entries with
  | nil => exact .inl h
  | cons first added ih =>
    rcases ih h with h | h
    · rcases List.mem_cons.mp h with rfl | h
      · exact .inr List.mem_cons_self
      · exact .inl (mem_remove.mp h).1
    · exact .inr (List.mem_cons_of_mem _ h)

theorem exists_foldl_insert {added : List (κ × α)}
    (h : ∃ entry ∈ entries ++ added, (entry.1 == k) = true) :
    ∃ entry ∈ added.foldl insert entries, (entry.1 == k) = true := by
  induction added generalizing entries with
  | nil => simpa using h
  | cons first added ih =>
    apply ih
    obtain ⟨entry, hentry, hk⟩ := h
    by_cases hfirst : (first.1 == k) = true
    · exact ⟨first, List.mem_append_left _ List.mem_cons_self, hfirst⟩
    · refine ⟨entry, ?_, hk⟩
      rcases List.mem_append.mp hentry with hentry | hentry
      · have hkept : entry ∈ remove entries first.1 :=
          mem_remove.mpr ⟨hentry, fun heq => hfirst (BEq.trans (BEq.symm heq) hk)⟩
        exact List.mem_append_left _ (List.mem_cons_of_mem _ hkept)
      · rcases List.mem_cons.mp hentry with rfl | hentry
        · exact absurd hk hfirst
        · exact List.mem_append_right _ hentry

theorem get_foldl_insert {added : List (κ × α)} (hentry : entry ∈ added)
    (hk : (entry.1 == k) = true)
    (hall : ∀ entry' ∈ added, (entry'.1 == k) = true → entry'.2 = entry.2) :
    get (added.foldl insert []) k = some entry.2 := by
  obtain ⟨kept, hkept, hkeptKey⟩ : ∃ kept ∈ added.foldl insert [], (kept.1 == k) = true :=
    exists_foldl_insert ⟨entry, hentry, hk⟩
  have hadded {entry' : κ × α} (h : entry' ∈ added.foldl insert []) : entry' ∈ added :=
    (mem_foldl_insert h).resolve_left List.not_mem_nil
  have hvalue := hall kept (hadded hkept) hkeptKey
  rw [← hvalue]
  apply get_eq_some hkept hkeptKey
  intro entry' hentry' hk'
  rw [hvalue, hall entry' (hadded hentry') hk']

omit [EquivBEq κ] in
theorem get_foldl_insert_eq_none {added : List (κ × α)}
    (h : ∀ entry ∈ added, ¬ (entry.1 == k) = true) : get (added.foldl insert []) k = none := by
  rw [get_eq_none]
  intro entry hentry
  exact h entry ((mem_foldl_insert hentry).resolve_left List.not_mem_nil)

end Association
