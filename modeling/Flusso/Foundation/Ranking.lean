import Mathlib.Algebra.Order.Ring.Nat
import Mathlib.Data.Fintype.EquivFin
import Mathlib.Data.Nat.SuccPred
import Mathlib.Order.OrderIsoNat

/-! # Ranked pages

A page is cut from the kept elements of a list in the order of a ranking; elements that
the ranking does not tell apart stay in the order of the list. Two rankings cut the same
page from every list exactly where they keep the same elements and order them alike.
-/

/-- Which elements are kept, and which stand no later than which. -/
structure Ranking (δ : Type*) where
  keeps : δ → Bool
  le : δ → δ → Bool
  total : ∀ a b, le a b = true ∨ le b a = true

namespace Ranking

variable {α δ ι : Type*} {r s : Ranking δ} {view : α → δ} {a b : δ}

/-- The kept elements in order; an element is ranked by its view. -/
def ranked (r : Ranking δ) (view : α → δ) (as : List α) : List α :=
  (as.filter fun a => r.keeps (view a)).insertionSort fun a b => r.le (view a) (view b) = true

/-- A page of what is left of the ranked elements. -/
def page (r : Ranking δ) (view : α → δ) (thin : List α → List α) (offset size : ℕ)
    (as : List α) : List α :=
  ((thin (r.ranked view as)).drop offset).take size

/-- Two rankings keep the same elements, and order the kept ones alike. -/
structure Agrees (r s : Ranking δ) : Prop where
  keeps : ∀ a, r.keeps a = s.keeps a
  le : ∀ a b, r.keeps a = true → r.keeps b = true → r.le a b = s.le a b

theorem le_self (r : Ranking δ) (a : δ) : r.le a a = true := (r.total a a).elim id id

theorem Agrees.symm (h : r.Agrees s) : s.Agrees r where
  keeps a := (h.keeps a).symm
  le a b ha hb := (h.le a b ((h.keeps a).trans ha) ((h.keeps b).trans hb)).symm

theorem Agrees.trans {t : Ranking δ} (hrs : r.Agrees s) (hst : s.Agrees t) : r.Agrees t where
  keeps a := (hrs.keeps a).trans (hst.keeps a)
  le a b ha hb := (hrs.le a b ha hb).trans
    (hst.le a b ((hrs.keeps a).symm.trans ha) ((hrs.keeps b).symm.trans hb))

theorem ranked_congr (h : r.Agrees s) (view : α → δ) (as : List α) :
    r.ranked view as = s.ranked view as := by
  have hkeeps : (as.filter fun a => r.keeps (view a)) = as.filter fun a => s.keeps (view a) := by
    simp only [h.keeps]
  have hsort := List.map_insertionSort (fun a b => r.le (view a) (view b) = true)
    (fun a b => s.le (view a) (view b) = true) (fun a => a) (as.filter fun a => r.keeps (view a))
  rw [List.map_id', List.map_id'] at hsort
  rw [ranked, ranked, ← hkeeps]
  apply hsort
  intro a ha b hb
  rw [h.le _ _ (List.mem_filter.mp ha).2 (List.mem_filter.mp hb).2]

theorem page_congr (h : r.Agrees s) (view : α → δ) (thin : List α → List α) (offset size : ℕ)
    (as : List α) : r.page view thin offset size as = s.page view thin offset size as := by
  rw [page, page, ranked_congr h]

theorem ranked_map {β : Type*} (f : β → α) (as : List β) :
    r.ranked view (as.map f) = (r.ranked (view ∘ f) as).map f := by
  rw [ranked, ranked, List.filter_map,
    List.map_insertionSort (fun a b => r.le ((view ∘ f) a) ((view ∘ f) b) = true)
      (fun a b => r.le (view a) (view b) = true) f _ fun _ _ _ _ => Iff.rfl]
  rfl

theorem mem_ranked {as : List α} {x : α} :
    x ∈ r.ranked view as ↔ x ∈ as ∧ r.keeps (view x) = true := by
  rw [ranked, List.mem_insertionSort, List.mem_filter]

section Windows

variable {β : Type*} {offset size : ℕ} {as : List β}

theorem head?_window (hsize : size ≠ 0) : ((as.drop offset).take size).head? = as[offset]? := by
  rw [List.head?_take, if_neg hsize, List.head?_drop]

theorem insertionSort_append_singleton {le : β → β → Prop} [DecidableRel le] {x : β}
    (has : as.Pairwise le) (hx : ∀ a ∈ as, ¬ le a x) :
    (as ++ [x]).insertionSort le = x :: as := by
  induction as with
  | nil => rfl
  | cons a as ih =>
    obtain ⟨ha, has⟩ := List.pairwise_cons.mp has
    have hfront : as.orderedInsert le a = a :: as := by
      cases as with
      | nil => rfl
      | cons b as => exact if_pos (ha b List.mem_cons_self)
    rw [List.cons_append, List.insertionSort_cons,
      ih has fun b hb => hx b (List.mem_cons_of_mem _ hb), List.orderedInsert_cons,
      if_neg (hx a List.mem_cons_self), hfront]

end Windows

section Copies

variable {name : ℕ → ι} {n : ℕ}

/-- Copies of one element, under names of their own. -/
def copies (name : ℕ → ι) (n : ℕ) (a : δ) : List (ι × δ) := (List.range n).map fun i => (name i, a)

theorem snd_of_mem_copies {x : ι × δ} (h : x ∈ copies name n a) : x.2 = a := by
  obtain ⟨i, -, rfl⟩ := List.mem_map.mp h
  rfl

theorem getElem?_copies {i : ℕ} (h : i < n) : (copies name n a)[i]? = some (name i, a) := by
  simp [copies, h]

theorem nodup_copies (hname : Function.Injective name) :
    ((copies name n a).map Prod.fst).Nodup := by
  rw [copies, List.map_map]
  exact List.nodup_range.map hname

theorem nodup_copies_append (hname : Function.Injective name) :
    ((copies name n a ++ [(name n, b)]).map Prod.fst).Nodup := by
  have hnames : (copies name n a ++ [(name n, b)]).map Prod.fst =
      (List.range (n + 1)).map name := by
    rw [List.range_succ, List.map_append, List.map_append, copies, List.map_map]
    rfl
  rw [hnames]
  exact List.nodup_range.map hname

theorem pairwise_copies (r : Ranking δ) :
    (copies name n a).Pairwise fun x y => r.le x.2 y.2 = true := by
  apply List.Pairwise.imp_of_mem (R := fun _ _ => True)
  · intro x y hx hy _
    rw [snd_of_mem_copies hx, snd_of_mem_copies hy]
    exact r.le_self a
  · exact List.pairwise_of_forall fun _ _ => trivial

theorem ranked_copies (h : r.keeps a = true) :
    r.ranked Prod.snd (copies name n a) = copies name n a := by
  rw [ranked, List.filter_eq_self.mpr fun x hx => by rw [snd_of_mem_copies hx, h]]
  exact (pairwise_copies r).insertionSort_eq

theorem ranked_append_of_le (ha : r.keeps a = true) (hb : r.keeps b = true)
    (hle : r.le a b = true) :
    r.ranked Prod.snd (copies name n a ++ [(name n, b)]) = copies name n a ++ [(name n, b)] := by
  rw [ranked, List.filter_eq_self.mpr]
  · apply List.Pairwise.insertionSort_eq
    rw [List.pairwise_append]
    refine ⟨pairwise_copies r, List.pairwise_singleton _ _, fun x hx y hy => ?_⟩
    rw [snd_of_mem_copies hx, List.mem_singleton.mp hy]
    exact hle
  · intro x hx
    rcases List.mem_append.mp hx with hx | hx
    · rw [snd_of_mem_copies hx, ha]
    · rw [List.mem_singleton.mp hx, hb]

theorem ranked_append_of_not_le (ha : r.keeps a = true) (hb : r.keeps b = true)
    (hle : r.le a b = false) :
    r.ranked Prod.snd (copies name n a ++ [(name n, b)]) = (name n, b) :: copies name n a := by
  rw [ranked, List.filter_eq_self.mpr]
  · apply insertionSort_append_singleton (pairwise_copies r)
    intro x hx
    rw [snd_of_mem_copies hx, hle]
    exact Bool.false_ne_true
  · intro x hx
    rcases List.mem_append.mp hx with hx | hx
    · rw [snd_of_mem_copies hx, ha]
    · rw [List.mem_singleton.mp hx, hb]

end Copies

section Pages

variable {thin : List (ι × δ) → List (ι × δ)} {offset size : ℕ}

/-- The names on a page. -/
def names (r : Ranking δ) (thin : List (ι × δ) → List (ι × δ)) (offset size : ℕ)
    (as : List (ι × δ)) : List ι :=
  (r.page Prod.snd thin offset size as).map Prod.fst

/-- Two rankings cut the same page from every list of named elements. -/
def SameNames (r s : Ranking δ) (thin : List (ι × δ) → List (ι × δ)) (offset size : ℕ) : Prop :=
  ∀ as : List (ι × δ), (as.map Prod.fst).Nodup →
    r.names thin offset size as = s.names thin offset size as

theorem names_congr (h : r.Agrees s) (as : List (ι × δ)) :
    r.names thin offset size as = s.names thin offset size as := by
  rw [names, names, page_congr h]

variable (hsize : size ≠ 0) (hthin : ∀ as, (thin as)[offset]? = as[offset]?)
include hsize hthin

theorem head?_names (as : List (ι × δ)) :
    (r.names thin offset size as).head? = ((r.ranked Prod.snd as)[offset]?).map Prod.fst := by
  rw [names, List.head?_map, page, head?_window hsize, hthin]

variable [Infinite ι] (h : r.SameNames s thin offset size)
include h

theorem keeps_of_sameNames (ha : r.keeps a = true) : s.keeps a = true := by
  have hname := (Infinite.natEmbedding ι).injective
  have hpages := congrArg List.head? (h (copies _ (offset + 1) a) (nodup_copies hname))
  rw [head?_names hsize hthin, head?_names hsize hthin, ranked_copies ha,
    getElem?_copies offset.lt_succ_self] at hpages
  by_contra hkeeps
  have hnone : s.ranked Prod.snd (copies (Infinite.natEmbedding ι) (offset + 1) a) = [] := by
    rw [List.eq_nil_iff_forall_not_mem]
    intro x hx
    obtain ⟨hx, hkept⟩ := mem_ranked.mp hx
    exact hkeeps (snd_of_mem_copies hx ▸ hkept)
  rw [hnone] at hpages
  cases hpages

theorem le_of_sameNames (ha : r.keeps a = true) (hb : r.keeps b = true)
    (hle : r.le a b = true) : s.le a b = true := by
  have hname := (Infinite.natEmbedding ι).injective
  have hpages := congrArg List.head?
    (h (copies _ (offset + 1) a ++ [(_, b)]) (nodup_copies_append hname))
  rw [head?_names hsize hthin, head?_names hsize hthin, ranked_append_of_le ha hb hle,
    List.getElem?_append_left (by simp [copies]), getElem?_copies offset.lt_succ_self] at hpages
  by_contra hnot
  rw [ranked_append_of_not_le (keeps_of_sameNames hsize hthin h ha)
    (keeps_of_sameNames hsize hthin h hb) (Bool.eq_false_iff.mpr hnot)] at hpages
  -- The last name has moved to the front, and every copy one place back.
  cases offset with
  | zero => exact absurd (hname (Option.some.inj hpages)) (by omega)
  | succ offset =>
    rw [List.getElem?_cons_succ, getElem?_copies (by omega)] at hpages
    exact absurd (hname (Option.some.inj hpages)) (by omega)

omit h in
theorem sameNames_iff : r.SameNames s thin offset size ↔ r.Agrees s := by
  constructor
  · intro h
    have hsymm : s.SameNames r thin offset size := fun as has => (h as has).symm
    have hkeeps : ∀ a, r.keeps a = s.keeps a := fun a => Bool.eq_iff_iff.mpr
      ⟨keeps_of_sameNames hsize hthin h, keeps_of_sameNames hsize hthin hsymm⟩
    refine ⟨hkeeps, fun a b ha hb => Bool.eq_iff_iff.mpr ⟨?_, ?_⟩⟩
    · exact le_of_sameNames hsize hthin h ha hb
    · exact le_of_sameNames hsize hthin hsymm ((hkeeps a).symm.trans ha) ((hkeeps b).symm.trans hb)
  · exact fun h as _ => names_congr h as

end Pages

end Ranking
