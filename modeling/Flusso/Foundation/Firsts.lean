import Mathlib.Data.List.Basic
import Mathlib.Data.List.Pairwise

/-! # The first of each kind

A list is thinned to the first element for each key. Merging keys drops nothing
more exactly where no two elements with different keys are merged.
-/

namespace Firsts

variable {α κ μ : Type*} [DecidableEq κ] [DecidableEq μ] {f : α → κ} {g : α → μ} {a : α}
  {as : List α} {seen : List κ}

/-- The first element for each key that was not seen yet. -/
def firstsFrom (f : α → κ) (seen : List κ) : List α → List α
  | [] => []
  | a :: as => if f a ∈ seen then firstsFrom f seen as else a :: firstsFrom f (f a :: seen) as

def firsts (f : α → κ) (as : List α) : List α := firstsFrom f [] as

theorem mem_of_mem_firstsFrom (h : a ∈ firstsFrom f seen as) : a ∈ as ∧ f a ∉ seen := by
  induction as generalizing seen with
  | nil => cases h
  | cons b as ih =>
    rw [firstsFrom] at h
    split at h
    · obtain ⟨hmem, hseen⟩ := ih h
      exact ⟨List.mem_cons_of_mem _ hmem, hseen⟩
    · next hb =>
      rcases List.mem_cons.mp h with rfl | h
      · exact ⟨List.mem_cons_self, hb⟩
      · obtain ⟨hmem, hseen⟩ := ih h
        exact ⟨List.mem_cons_of_mem _ hmem, fun hold => hseen (List.mem_cons_of_mem _ hold)⟩

theorem exists_mem_firstsFrom (h : a ∈ as) (hseen : f a ∉ seen) :
    ∃ b ∈ firstsFrom f seen as, f b = f a := by
  induction as generalizing seen with
  | nil => cases h
  | cons b as ih =>
    rw [firstsFrom]
    split
    · next hb =>
      rcases List.mem_cons.mp h with rfl | h
      · exact absurd hb hseen
      · exact ih h hseen
    · next hb =>
      rcases List.mem_cons.mp h with rfl | h
      · exact ⟨a, List.mem_cons_self, rfl⟩
      · by_cases hsame : f b = f a
        · exact ⟨b, List.mem_cons_self, hsame⟩
        · have hfresh : f a ∉ f b :: seen := by
            rintro hmem
            rcases List.mem_cons.mp hmem with heq | hold
            · exact hsame heq.symm
            · exact hseen hold
          obtain ⟨c, hc, hkey⟩ := ih h hfresh
          exact ⟨c, List.mem_cons_of_mem _ hc, hkey⟩

theorem pairwise_firstsFrom : (firstsFrom f seen as).Pairwise fun a b => f a ≠ f b := by
  induction as generalizing seen with
  | nil => exact .nil
  | cons a as ih =>
    rw [firstsFrom]
    split
    · exact ih
    · refine .cons ?_ ih
      intro b hb heq
      exact (mem_of_mem_firstsFrom hb).2 (heq ▸ List.mem_cons_self)

theorem firstsFrom_congr {seen' : List κ} (h : ∀ k, k ∈ seen ↔ k ∈ seen') :
    firstsFrom f seen as = firstsFrom f seen' as := by
  induction as generalizing seen seen' with
  | nil => rfl
  | cons a as ih =>
    have hmore : ∀ k, k ∈ f a :: seen ↔ k ∈ f a :: seen' := by
      intro k
      rw [List.mem_cons, List.mem_cons, h]
    rw [firstsFrom, firstsFrom, ih h, ih hmore]
    simp only [h]

theorem foldl_push (kept as : List α) :
    as.foldl (fun kept a => if kept.any fun b => f b = f a then kept else kept ++ [a]) kept =
      kept ++ firstsFrom f (kept.map f) as := by
  induction as generalizing kept with
  | nil => simp [firstsFrom]
  | cons a as ih =>
    have hany : (kept.any fun b => decide (f b = f a)) = true ↔ f a ∈ kept.map f := by simp
    rw [List.foldl_cons, ih, firstsFrom]
    by_cases h : f a ∈ kept.map f
    · rw [if_pos (hany.mpr h), if_pos h]
    · have hkeys : ∀ k, k ∈ (kept ++ [a]).map f ↔ k ∈ f a :: kept.map f := by
        intro k
        simp [or_comm]
      rw [if_neg (hany.not.mpr h), if_neg h, firstsFrom_congr hkeys, List.append_assoc]
      rfl

theorem map_firstsFrom {β : Type*} (t : β → α) (bs : List β) :
    (firstsFrom (f ∘ t) seen bs).map t = firstsFrom f seen (bs.map t) := by
  induction bs generalizing seen with
  | nil => rfl
  | cons b bs ih =>
    rw [List.map_cons, firstsFrom, firstsFrom]
    simp only [Function.comp_apply]
    split
    · exact ih
    · rw [List.map_cons, ih]

theorem firstsFrom_eq_of {seen' : List μ} (hseen : ∀ a ∈ as, f a ∈ seen ↔ g a ∈ seen')
    (h : ∀ a ∈ as, ∀ b ∈ as, f a = f b ↔ g a = g b) :
    firstsFrom f seen as = firstsFrom g seen' as := by
  induction as generalizing seen seen' with
  | nil => rfl
  | cons a as ih =>
    have htail : ∀ b ∈ as, ∀ c ∈ as, f b = f c ↔ g b = g c := fun b hb c hc =>
      h b (List.mem_cons_of_mem _ hb) c (List.mem_cons_of_mem _ hc)
    have hold : ∀ b ∈ as, f b ∈ seen ↔ g b ∈ seen' := fun b hb =>
      hseen b (List.mem_cons_of_mem _ hb)
    have hnew : ∀ b ∈ as, f b ∈ f a :: seen ↔ g b ∈ g a :: seen' := by
      intro b hb
      rw [List.mem_cons, List.mem_cons, hold b hb,
        h b (List.mem_cons_of_mem _ hb) a List.mem_cons_self]
    rw [firstsFrom, firstsFrom, ih hold htail, ih hnew htail]
    simp only [hseen a List.mem_cons_self]

/-- Keys that only merge those of `g` keep the same elements exactly where they merge none.
The elements are told apart by their keys alone, so their images are compared. -/
theorem map_firsts_eq_iff {β : Type*} {t : α → β} {k : β → κ} (hmerge : ∀ a ∈ as, ∀ b ∈ as,
      g a = g b → k (t a) = k (t b)) :
    (firsts (k ∘ t) as).map t = (firsts g as).map t ↔
      ∀ a ∈ as, ∀ b ∈ as, k (t a) = k (t b) → g a = g b := by
  constructor
  · intro h a ha b hb hkey
    by_contra hne
    obtain ⟨c, hc, hca⟩ := exists_mem_firstsFrom (f := g) ha List.not_mem_nil
    obtain ⟨d, hd, hdb⟩ := exists_mem_firstsFrom (f := g) hb List.not_mem_nil
    have hcas := (mem_of_mem_firstsFrom hc).1
    have hdas := (mem_of_mem_firstsFrom hd).1
    have hcd : c ≠ d := by
      rintro rfl
      exact hne (hca.symm.trans hdb)
    -- Two kept elements with one key would stand in the list that keeps one for each key.
    have hpairwise : ((firsts (k ∘ t) as).map t).Pairwise fun x y => k x ≠ k y := by
      rw [List.pairwise_map]
      exact pairwise_firstsFrom
    rw [h, List.pairwise_map] at hpairwise
    have hsymm : Std.Symm fun x y => k (t x) ≠ k (t y) := ⟨fun x y hxy => hxy.symm⟩
    apply hpairwise.forall hc hd hcd
    rw [hmerge c hcas a ha hca, hmerge d hdas b hb hdb, hkey]
  · intro h
    have hsame : firsts (k ∘ t) as = firsts g as := by
      apply firstsFrom_eq_of
      · simp
      · exact fun a ha b hb => ⟨h a ha b hb, hmerge a ha b hb⟩
    rw [hsame]

end Firsts
