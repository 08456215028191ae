import Mathlib.Data.List.Chain
import Mathlib.Data.List.Flatten
import Mathlib.Data.List.SplitLengths

/-! # Lists cut into segments

What holds of consecutive pieces of a list, one by one and together.
-/

namespace Segments

variable {α β : Type*}

theorem map_splitLengths (f : α → β) (lengths : List ℕ) (xs : List α) :
    (lengths.splitLengths xs).map (List.map f) = lengths.splitLengths (xs.map f) := by
  induction lengths generalizing xs with
  | nil => rfl
  | cons n lengths ih =>
    rw [List.splitLengths_cons, List.map_cons, ih, List.splitLengths_cons, List.map_take,
      List.map_drop]

theorem flatMap_eq_iff {xs : List α} {f g : α → List β} (h : ∀ x ∈ xs, (f x).Sublist (g x)) :
    xs.flatMap f = xs.flatMap g ↔ ∀ x ∈ xs, f x = g x := by
  induction xs with
  | nil => simp
  | cons x xs ih =>
    have hx : (f x).Sublist (g x) := h x List.mem_cons_self
    have hxs : ∀ y ∈ xs, (f y).Sublist (g y) := fun y hy => h y (List.mem_cons_of_mem _ hy)
    have hrest : (xs.flatMap f).Sublist (xs.flatMap g) := List.Sublist.flatMap_right xs hxs
    rw [List.flatMap_cons, List.flatMap_cons, List.forall_mem_cons, ← ih hxs]
    constructor
    · intro heq
      have hlength := congrArg List.length heq
      rw [List.length_append, List.length_append] at hlength
      have hle := hx.length_le
      have hle' := hrest.length_le
      exact ⟨hx.eq_of_length (by omega), hrest.eq_of_length (by omega)⟩
    · rintro ⟨h1, h2⟩
      rw [h1, h2]

theorem splitLengths_flatten (groups : List (List α)) :
    (groups.map List.length).splitLengths groups.flatten = groups := by
  induction groups with
  | nil => rfl
  | cons group groups ih =>
    rw [List.map_cons, List.flatten_cons, List.splitLengths_cons, List.take_left, List.drop_left, ih]

section Gathering

variable (takes : List α → α → Bool)

/-- A list in groups: a group ends where it does not take the next element. -/
def gather (current : List α) : List α → List (List α)
  | [] => if current.isEmpty then [] else [current]
  | x :: xs =>
    if !current.isEmpty && !takes current x then current :: gather [x] xs
    else gather (current ++ [x]) xs

variable {takes} {current xs : List α}

theorem flatten_gather : (gather takes current xs).flatten = current ++ xs := by
  induction xs generalizing current with
  | nil =>
    rw [gather]
    split
    · next hempty => rw [List.isEmpty_iff.mp hempty, List.flatten_nil, List.nil_append]
    · rw [List.flatten_cons, List.flatten_nil]
  | cons x xs ih =>
    rw [gather]
    split
    · rw [List.flatten_cons, ih, List.singleton_append]
    · rw [ih, List.append_assoc, List.singleton_append]

/-- What holds of one element and of a group that takes another holds of every group. -/
theorem forall_gather {P : List α → Prop} (hone : ∀ x, P [x])
    (htakes : ∀ group x, group ≠ [] → takes group x = true → P group → P (group ++ [x]))
    (hcurrent : current ≠ [] → P current) : ∀ group ∈ gather takes current xs, P group := by
  induction xs generalizing current with
  | nil =>
    intro group hgroup
    rw [gather] at hgroup
    split at hgroup
    · cases hgroup
    · next hne =>
      obtain rfl := List.mem_singleton.mp hgroup
      exact hcurrent (by simpa using hne)
  | cons x xs ih =>
    rw [gather]
    split
    · next hfull =>
      intro group hgroup
      rcases List.mem_cons.mp hgroup with rfl | hgroup
      · apply hcurrent
        rintro rfl
        cases hfull
      · exact ih (fun _ => hone x) group hgroup
    · next hfull =>
      apply ih
      intro _
      by_cases hempty : current = []
      · subst hempty
        exact hone x
      · apply htakes current x hempty ?_ (hcurrent hempty)
        simpa [hempty] using hfull

theorem head_gather (h : current ≠ []) :
    ∃ rest, (gather takes current xs).head? = some (current ++ rest) := by
  induction xs generalizing current with
  | nil =>
    refine ⟨[], ?_⟩
    rw [gather, if_neg (by simpa using h), List.append_nil, List.head?_cons]
  | cons x xs ih =>
    rw [gather]
    split
    · exact ⟨[], by rw [List.append_nil, List.head?_cons]⟩
    · obtain ⟨rest, hrest⟩ := @ih (current ++ [x]) (by simp)
      exact ⟨x :: rest, by rw [hrest, List.append_assoc, List.singleton_append]⟩

theorem isChain_gather : (gather takes current xs).IsChain fun group next =>
    ∀ x ∈ next.head?, takes group x = false := by
  induction xs generalizing current with
  | nil =>
    rw [gather]
    split <;> simp
  | cons x xs ih =>
    rw [gather]
    split
    · next hfull =>
      refine List.isChain_cons.mpr ⟨?_, ih⟩
      intro next hnext y hy
      obtain ⟨rest, hrest⟩ := @head_gather _ takes [x] xs (by simp)
      rw [hrest] at hnext
      cases hnext
      cases hy
      simpa using (Bool.and_eq_true_iff.mp hfull).2
    · exact ih

end Gathering

end Segments
