import Mathlib.Data.List.Basic

/-! # Lists of attempts

What a list of fallible computations succeeds with, and what removing duplicates
under a mere reflexive comparison keeps.
-/

namespace Attempts

universe u v

variable {ε : Type v} {α β : Type u}

theorem bind_ok {x : Except ε α} {f : α → Except ε β} {b : β} :
    x >>= f = .ok b ↔ ∃ a, x = .ok a ∧ f a = .ok b := by
  cases x with
  | error e => exact ⟨nofun, nofun⟩
  | ok a => exact ⟨fun h => ⟨a, rfl, h⟩, fun ⟨_, ha, h⟩ => Except.ok.inj ha ▸ h⟩

variable {f : α → Except ε β} {as : List α} {bs : List β}

theorem mem_of_mapM (h : as.mapM f = .ok bs) {b : β} (hb : b ∈ bs) : ∃ a ∈ as, f a = .ok b := by
  induction as generalizing bs with
  | nil =>
    cases h
    cases hb
  | cons a as ih =>
    rw [List.mapM_cons] at h
    obtain ⟨c, hc, h⟩ := bind_ok.mp h
    obtain ⟨cs, hcs, h⟩ := bind_ok.mp h
    cases h
    rcases List.mem_cons.mp hb with rfl | hb
    · exact ⟨a, List.mem_cons_self, hc⟩
    · obtain ⟨a', ha', hfa⟩ := ih hcs hb
      exact ⟨a', List.mem_cons_of_mem _ ha', hfa⟩

theorem mem_mapM (h : as.mapM f = .ok bs) {a : α} (ha : a ∈ as) : ∃ b ∈ bs, f a = .ok b := by
  induction as generalizing bs with
  | nil => cases ha
  | cons a' as ih =>
    rw [List.mapM_cons] at h
    obtain ⟨c, hc, h⟩ := bind_ok.mp h
    obtain ⟨cs, hcs, h⟩ := bind_ok.mp h
    cases h
    rcases List.mem_cons.mp ha with rfl | ha
    · exact ⟨c, List.mem_cons_self, hc⟩
    · obtain ⟨b, hb, hfa⟩ := ih hcs ha
      exact ⟨b, List.mem_cons_of_mem _ hb, hfa⟩

theorem exists_mapM (h : ∀ a ∈ as, ∃ b, f a = .ok b) : ∃ bs, as.mapM f = .ok bs := by
  induction as with
  | nil => exact ⟨[], rfl⟩
  | cons a as ih =>
    obtain ⟨b, hb⟩ := h a List.mem_cons_self
    obtain ⟨bs, hbs⟩ := ih fun a' ha' => h a' (List.mem_cons_of_mem _ ha')
    refine ⟨b :: bs, ?_⟩
    rw [List.mapM_cons, hb, hbs]
    rfl

section Duplicates

variable [BEq α]

theorem mem_of_mem_eraseDups {a : α} : ∀ {as : List α}, a ∈ as.eraseDups → a ∈ as
  | [], h => h
  | b :: as, h => by
    have hlt : (as.filter fun c => !c == b).length < as.length + 1 :=
      Nat.lt_succ_of_le (List.length_filter_le _ _)
    rw [List.eraseDups_cons] at h
    rcases List.mem_cons.mp h with rfl | h
    · exact List.mem_cons_self
    · exact List.mem_cons_of_mem _ (List.mem_of_mem_filter (mem_of_mem_eraseDups h))
termination_by as => as.length

theorem exists_mem_eraseDups [ReflBEq α] {a : α} :
    ∀ {as : List α}, a ∈ as → ∃ b ∈ as.eraseDups, (a == b) = true
  | b :: as, h => by
    have hlt : (as.filter fun c => !c == b).length < as.length + 1 :=
      Nat.lt_succ_of_le (List.length_filter_le _ _)
    rw [List.eraseDups_cons]
    by_cases hb : (a == b) = true
    · exact ⟨b, List.mem_cons_self, hb⟩
    · have ha : a ∈ as := by
        rcases List.mem_cons.mp h with rfl | h
        · exact absurd BEq.rfl hb
        · exact h
      have hfilter : a ∈ as.filter fun c => !c == b :=
        List.mem_filter.mpr ⟨ha, by simpa using hb⟩
      obtain ⟨c, hc, hac⟩ := exists_mem_eraseDups hfilter
      exact ⟨c, List.mem_cons_of_mem _ hc, hac⟩
termination_by as => as.length

end Duplicates

end Attempts
