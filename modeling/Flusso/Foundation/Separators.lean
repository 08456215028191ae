import Mathlib.Data.List.Forall2
import Mathlib.Data.List.Count

/-! # Parts between separators

Parts joined with a separator are told apart where all but one of them hold the
separator a known number of times. Two parts of any content are not.
-/

namespace Separators

variable {α : Type*} {c : α}

theorem intercalate_cons (p : List α) (ps : List (List α)) :
    [c].intercalate (p :: ps) = p ++ ps.flatMap (c :: ·) := by
  induction ps generalizing p with
  | nil => simp
  | cons q ps ih =>
    rw [List.intercalate_cons_cons, ih, List.flatMap_cons]
    simp

/-- What stands between two parts, separators included. -/
def gap (c : α) (mid : List (List α)) : List α := mid.flatMap (c :: ·) ++ [c]

theorem gap_ne_nil (c : α) (mid : List (List α)) : gap c mid ≠ [] := by simp [gap]

theorem intercalate_gap (c : α) (before mid behind : List (List α)) :
    [c].intercalate (before ++ [] :: (mid ++ gap c mid :: behind)) =
      [c].intercalate (before ++ gap c mid :: (mid ++ [] :: behind)) := by
  cases before with
  | nil =>
    rw [List.nil_append, List.nil_append, intercalate_cons, intercalate_cons]
    simp [gap]
  | cons p before =>
    rw [List.cons_append, List.cons_append, intercalate_cons, intercalate_cons]
    simp [gap]

variable [DecidableEq α] {p q a b : List α} {ps qs : List (List α)}

/-- A separator is found from the left by those before it. -/
theorem append_cons_inj (hcount : p.count c = q.count c) (h : p ++ c :: a = q ++ c :: b) :
    p = q ∧ a = b := by
  induction p generalizing q with
  | nil =>
    cases q with
    | nil => simpa using h
    | cons y q =>
      rw [List.nil_append, List.cons_append, List.cons.injEq] at h
      obtain ⟨rfl, -⟩ := h
      simp at hcount
  | cons x p ih =>
    cases q with
    | nil =>
      rw [List.nil_append, List.cons_append, List.cons.injEq] at h
      obtain ⟨rfl, -⟩ := h
      simp at hcount
    | cons y q =>
      rw [List.cons_append, List.cons_append, List.cons.injEq] at h
      obtain ⟨rfl, h⟩ := h
      have hcount' : p.count c = q.count c := by
        rw [List.count_cons, List.count_cons] at hcount
        omega
      obtain ⟨rfl, rfl⟩ := ih hcount' h
      exact ⟨rfl, rfl⟩

theorem append_cons_inj_right (hcount : a.count c = b.count c) (h : p ++ c :: a = q ++ c :: b) :
    p = q ∧ a = b := by
  have hreverse : a.reverse ++ c :: p.reverse = b.reverse ++ c :: q.reverse := by
    have := congrArg List.reverse h
    simpa using this
  have hcount' : a.reverse.count c = b.reverse.count c := by
    rwa [List.count_reverse, List.count_reverse]
  obtain ⟨hab, hpq⟩ := append_cons_inj hcount' hreverse
  exact ⟨List.reverse_injective hpq, List.reverse_injective hab⟩

/-- Parts with as many separators in each. -/
def Counted (c : α) (ps qs : List (List α)) : Prop :=
  List.Forall₂ (fun p q => p.count c = q.count c) ps qs

theorem Counted.count_flatMap (h : Counted c ps qs) :
    (ps.flatMap (c :: ·)).count c = (qs.flatMap (c :: ·)).count c := by
  induction h with
  | nil => rfl
  | cons hpq _ ih =>
    rw [List.flatMap_cons, List.flatMap_cons, List.count_append, List.count_append, ih,
      List.count_cons_self, List.count_cons_self, hpq]

theorem Counted.intercalate_inj (h : Counted c ps qs)
    (heq : [c].intercalate ps = [c].intercalate qs) : ps = qs := by
  induction h with
  | nil => rfl
  | cons hpq hrest ih =>
    cases hrest with
    | nil => simpa using heq
    | cons _ _ =>
      rw [List.intercalate_cons_cons, List.intercalate_cons_cons, List.append_assoc,
        List.append_assoc, List.singleton_append, List.singleton_append] at heq
      obtain ⟨rfl, hjoined⟩ := append_cons_inj hpq heq
      rw [ih hjoined]

/-- Parts with as many separators in each, but for one at most. -/
inductive Aligned (c : α) : List (List α) → List (List α) → Prop
  | nil : Aligned c [] []
  | counted {p q : List α} {ps qs : List (List α)} (h : p.count c = q.count c)
      (hrest : Aligned c ps qs) : Aligned c (p :: ps) (q :: qs)
  | free {p q : List α} {ps qs : List (List α)} (hrest : Counted c ps qs) :
      Aligned c (p :: ps) (q :: qs)

theorem intercalate_inj_free (hrest : Counted c ps qs)
    (heq : [c].intercalate (p :: ps) = [c].intercalate (q :: qs)) : p :: ps = q :: qs := by
  cases hrest with
  | nil => simpa using heq
  | @cons p' q' ps qs hpq hrest =>
    have hcounted : Counted c (p' :: ps) (q' :: qs) := .cons hpq hrest
    have hcount := hcounted.count_flatMap
    rw [List.flatMap_cons, List.flatMap_cons, List.cons_append, List.cons_append,
      List.count_cons_self, List.count_cons_self] at hcount
    rw [intercalate_cons, intercalate_cons, List.flatMap_cons, List.flatMap_cons,
      List.cons_append, List.cons_append] at heq
    obtain ⟨rfl, hjoined⟩ := append_cons_inj_right (by omega) heq
    rw [← intercalate_cons, ← intercalate_cons] at hjoined
    rw [hcounted.intercalate_inj hjoined]

/-- Joined parts are told apart. -/
theorem Aligned.intercalate_inj (h : Aligned c ps qs)
    (heq : [c].intercalate ps = [c].intercalate qs) : ps = qs := by
  induction h with
  | nil => rfl
  | counted hpq hrest ih =>
    cases hrest with
    | nil => simpa using heq
    | counted _ _ | free _ =>
      rw [List.intercalate_cons_cons, List.intercalate_cons_cons, List.append_assoc,
        List.append_assoc, List.singleton_append, List.singleton_append] at heq
      obtain ⟨rfl, hjoined⟩ := append_cons_inj hpq heq
      rw [ih hjoined]
  | free hrest => exact intercalate_inj_free hrest heq

end Separators
