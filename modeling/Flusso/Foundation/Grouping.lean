import Mathlib.Data.List.Basic
import Mathlib.Data.List.Perm.Basic

/-! # Lists in chunks and groups

A list cut into chunks or grouped by a function is put together again from the
parts, up to the order of the groups; what succeeds for every element succeeds for
the list, element by element.
-/

namespace Grouping

variable {β γ : Type}

theorem ne_nil_of_mem_toChunks {n : ℕ} {l chunk : List β} (h : chunk ∈ l.toChunks n) :
    chunk ≠ [] := by
  have hgo : ∀ (m : ℕ) (l : List β) (acc : Array β) (chunks : Array (List β)),
      acc.toList ≠ [] → (∀ chunk ∈ chunks.toList, chunk ≠ []) →
        ∀ chunk ∈ List.toChunks.go m l acc chunks, chunk ≠ [] := by
    intro m l
    induction l with
    | nil =>
      intro acc chunks hacc hchunks chunk hchunk
      rw [List.toChunks.go, Array.toList_push, List.mem_append, List.mem_singleton] at hchunk
      rcases hchunk with hchunk | rfl
      · exact hchunks chunk hchunk
      · exact hacc
    | cons b l ih =>
      intro acc chunks hacc hchunks
      rw [List.toChunks.go]
      split
      · apply ih _ _ (by simp)
        intro chunk hchunk
        rw [Array.toList_push, List.mem_append, List.mem_singleton] at hchunk
        rcases hchunk with hchunk | rfl
        · exact hchunks chunk hchunk
        · exact hacc
      · exact ih _ _ (by simp) hchunks
  cases l with
  | nil =>
    cases n <;> cases h
  | cons b l =>
    cases n with
    | zero =>
      rw [List.mem_singleton.mp h]
      exact List.cons_ne_nil b l
    | succ n => exact hgo _ l #[b] #[] (by simp) (by simp) chunk h

theorem exists_mapM_option {f : β → Option γ} {l : List β}
    (h : ∀ b ∈ l, (f b).isSome = true) :
    ∃ cs, l.mapM f = some cs ∧ ∀ b ∈ l, ∃ c ∈ cs, f b = some c := by
  induction l with
  | nil => exact ⟨[], rfl, by simp⟩
  | cons b l ih =>
    obtain ⟨c, hc⟩ := Option.isSome_iff_exists.mp (h b List.mem_cons_self)
    obtain ⟨cs, hcs, hall⟩ := ih fun b' hb' => h b' (List.mem_cons_of_mem _ hb')
    refine ⟨c :: cs, by rw [List.mapM_cons, hc, hcs]; rfl, ?_⟩
    rintro b' hb'
    rcases List.mem_cons.mp hb' with rfl | hb'
    · exact ⟨c, List.mem_cons_self, hc⟩
    · obtain ⟨c', hc', hf⟩ := hall b' hb'
      exact ⟨c', List.mem_cons_of_mem _ hc', hf⟩

theorem exists_mapM_related {ε : Type} {f : β → Except ε γ} {R : β → γ → Prop} {l : List β}
    (h : ∀ b ∈ l, ∃ c, f b = .ok c ∧ R b c) : ∃ cs, l.mapM f = .ok cs ∧ List.Forall₂ R l cs := by
  induction l with
  | nil => exact ⟨[], rfl, .nil⟩
  | cons b l ih =>
    obtain ⟨c, hc, hbc⟩ := h b List.mem_cons_self
    obtain ⟨cs, hcs, hrelated⟩ := ih fun b' hb' => h b' (List.mem_cons_of_mem _ hb')
    exact ⟨c :: cs, by rw [List.mapM_cons, hc, hcs]; rfl, .cons hbc hrelated⟩

theorem exists_of_forall₂ {R : β → γ → Prop} {l : List β} {cs : List γ} (h : List.Forall₂ R l cs)
    {c : γ} (hc : c ∈ cs) : ∃ b ∈ l, R b c := by
  induction h with
  | nil => cases hc
  | cons hbc _ ih =>
    rcases List.mem_cons.mp hc with rfl | hc
    · exact ⟨_, List.mem_cons_self, hbc⟩
    · obtain ⟨b, hb, hbc⟩ := ih hc
      exact ⟨b, List.mem_cons_of_mem _ hb, hbc⟩

theorem flatMap_filter_perm [DecidableEq γ] {f : β → γ} {order : List γ} (hnodup : order.Nodup)
    {l : List β} (hall : ∀ b ∈ l, f b ∈ order) :
    (order.flatMap fun c => l.filter fun b => f b = c).Perm l := by
  induction order generalizing l with
  | nil =>
    rw [List.eq_nil_iff_forall_not_mem.mpr fun b hb => List.not_mem_nil (hall b hb)]
    exact .refl _
  | cons c order ih =>
    obtain ⟨hc, hnodup⟩ := List.nodup_cons.mp hnodup
    have hrest : ∀ b ∈ l.filter (fun b => ! decide (f b = c)), f b ∈ order := by
      intro b hb
      obtain ⟨hb, hne⟩ := List.mem_filter.mp hb
      exact (List.mem_cons.mp (hall b hb)).resolve_left (by simpa using hne)
    have hsame : (order.flatMap fun c' => l.filter fun b => f b = c') =
        order.flatMap fun c' => (l.filter fun b => ! decide (f b = c)).filter fun b => f b = c' := by
      apply List.flatMap_congr
      intro c' hc'
      rw [List.filter_filter]
      apply List.filter_congr
      intro b _
      have hne : c' ≠ c := fun heq => hc (heq ▸ hc')
      by_cases hb : f b = c' <;> simp [hb, hne]
    rw [List.flatMap_cons, hsame]
    exact ((ih hnodup hrest).append_left _).trans (List.filter_append_perm _ l)

end Grouping
