import Flusso.Cdc.Stream

/-! # The resume point and unconfirmed changes

Positions are per change, LSNs per transaction: a confirm inside a transaction
advances the resume point to the end LSN its remaining changes share. While no
confirm cuts a transaction the resume point stays below every change received
and not yet confirmed.
-/

namespace Flusso.Cdc.Live

variable {C : Type*}

/-- The resume point is below the end LSN of every change received and not covered by a
confirm: emitted, queued, or of the transaction still open. -/
structure Safe (s : Live C) : Prop where
  emitted : ∀ e ∈ s.emitted, ¬ s.Covered e.seq → s.confirmedLsn < e.lsn
  pending : ∀ p ∈ s.decode.pending, s.confirmedLsn < p.2
  open_txn : s.decode.openTxn ≠ [] → ∀ lsn, nextCommit s.incoming = some lsn →
    s.confirmedLsn < lsn

/-- A confirm cuts no transaction: no change it covers shares its end LSN with a change
left to confirm. -/
def Aligned (s : Live C) : LiveAction → Prop
  | .confirm seq => ∀ e ∈ s.emitted, e.seq ≤ seq →
      (∀ e' ∈ s.emitted, seq < e'.seq → ¬ s.Covered e'.seq → e'.lsn ≠ e.lsn) ∧
        ∀ p ∈ s.decode.pending, p.2 ≠ e.lsn
  | _ => True

/-- The live stream over every well-formed sequence of events. -/
def machine (C : Type*) : Transition.Machine (Live C) LiveAction where
  init s := ∃ startLsn firstSeq events, WellFormed startLsn events ∧
    s = .start startLsn firstSeq events
  step := step

/-- The bookkeeping below a floor that every later commit exceeds. An entry of the map is
an emitted change, or a keepalive older than every change emitted after it. -/
structure Ordered (s : Live C) (floor : ℕ) : Prop where
  well_formed : WellFormed floor s.incoming
  confirmed_le : s.confirmedLsn ≤ floor
  entry_le : ∀ m ∈ s.decode.ack.lsnBySeq, m.2 ≤ floor
  pending_le : ∀ p ∈ s.decode.pending, p.2 ≤ floor
  pending_sorted : s.decode.pending.Pairwise fun p p' => p.2 ≤ p'.2
  seq_lt : ∀ e ∈ s.emitted, e.seq < s.decode.ack.nextSeq
  confirms_lt : ∀ q ∈ s.confirms, q < s.decode.ack.nextSeq
  lsn_le : ∀ e ∈ s.emitted, e.lsn ≤ floor
  lsn_mono : ∀ e ∈ s.emitted, ∀ e' ∈ s.emitted, e.seq < e'.seq → e.lsn ≤ e'.lsn
  lsn_le_pending : ∀ e ∈ s.emitted, ∀ p ∈ s.decode.pending, e.lsn ≤ p.2
  mapped : ∀ e ∈ s.emitted, ¬ s.Covered e.seq → (e.seq, e.lsn) ∈ s.decode.ack.lsnBySeq
  reached : ∀ e ∈ s.emitted, s.Covered e.seq → e.lsn ≤ s.confirmedLsn
  entry : ∀ m ∈ s.decode.ack.lsnBySeq,
    (∃ e ∈ s.emitted, e.seq = m.1 ∧ e.lsn = m.2) ∨
      (∀ e ∈ s.emitted, m.1 < e.seq → m.2 < e.lsn) ∧ ∀ p ∈ s.decode.pending, m.2 < p.2

variable {s : Live C} {floor : ℕ}

theorem ordered_start {startLsn : ℕ} (firstSeq : ℕ) {events : List (ReplicationEvent C)}
    (h : WellFormed startLsn events) : (start startLsn firstSeq events).Ordered startLsn := by
  constructor <;> simp [start, DecodeState.new, confirmedLsn, h]

theorem Ordered.lt_nextCommit (h : s.Ordered floor) {lsn : ℕ}
    (hn : nextCommit s.incoming = some lsn) : s.confirmedLsn < lsn :=
  h.confirmed_le.trans_lt (h.well_formed.lt_nextCommit hn)

section Receive

variable {floor' : ℕ} {rest : List (ReplicationEvent C)}

theorem Ordered.advance (h : s.Ordered floor) (hle : floor ≤ floor') (hwf : WellFormed floor' rest) :
    Ordered { s with incoming := rest } floor' :=
  { h with
    well_formed := hwf
    confirmed_le := h.confirmed_le.trans hle
    entry_le := fun m hm => (h.entry_le m hm).trans hle
    pending_le := fun p hp => (h.pending_le p hp).trans hle
    lsn_le := fun e he => (h.lsn_le e he).trans hle }

theorem Ordered.registerConfirmed (h : s.Ordered floor) (hpend : s.decode.pending = []) {lsn : ℕ}
    (hle : lsn ≤ floor) :
    Ordered { s with decode := { s.decode with ack := s.decode.ack.registerConfirmed lsn } }
      floor := by
  by_cases hempty : s.decode.ack.lsnBySeq = []
  · rw [Positions.registerConfirmed_of_empty hempty]
    exact { h with
      confirmed_le := max_le h.confirmed_le hle
      reached := fun e he hc => (h.reached e he hc).trans (le_max_left _ _) }
  · rw [Positions.registerConfirmed_of_ne_nil hempty]
    refine { h with
      entry_le := ?_, seq_lt := ?_, confirms_lt := ?_, mapped := ?_, entry := ?_ }
    · intro m hm
      rcases List.mem_append.mp hm with hm | hm
      · exact h.entry_le m hm
      · rw [List.mem_singleton.mp hm]
        exact hle
    · exact fun e he => Nat.lt_succ_of_lt (h.seq_lt e he)
    · exact fun q hq => Nat.lt_succ_of_lt (h.confirms_lt q hq)
    · exact fun e he hc => List.mem_append_left _ (h.mapped e he hc)
    · intro m hm
      rcases List.mem_append.mp hm with hm | hm
      · exact h.entry m hm
      · rw [List.mem_singleton.mp hm]
        refine .inr ⟨fun e he hlt => absurd (h.seq_lt e he) (Nat.lt_asymm hlt), ?_⟩
        simp [hpend]

theorem Ordered.queue (h : s.Ordered floor) (hpend : s.decode.pending = []) {lsn : ℕ}
    (hlt : floor < lsn) (hwf : WellFormed lsn rest) (changes : List C) :
    Ordered { s with
      decode := { s.decode with
        openTxn := []
        pending := s.decode.pending ++ changes.map fun change => (change, lsn) }
      incoming := rest } lsn := by
  have hlsn : ∀ p ∈ s.decode.pending ++ changes.map fun change => (change, lsn), p.2 = lsn := by
    simp [hpend]
  refine { h.advance hlt.le hwf with
    pending_le := fun p hp => (hlsn p hp).le
    pending_sorted := ?_
    lsn_le_pending := ?_
    entry := ?_ }
  · exact List.pairwise_of_forall_mem_list fun p hp p' hp' => (hlsn p hp).trans_le (hlsn p' hp').ge
  · intro e he p hp
    rw [hlsn p hp]
    exact (h.lsn_le e he).trans hlt.le
  · intro m hm
    rcases h.entry m hm with he | ⟨he, -⟩
    · exact .inl he
    · refine .inr ⟨he, fun p hp => ?_⟩
      rw [hlsn p hp]
      exact (h.entry_le m hm).trans_lt hlt

theorem Ordered.handle (h : s.Ordered floor) (hpend : s.decode.pending = [])
    {event : ReplicationEvent C} (hinc : s.incoming = event :: rest) :
    ∃ floor', Ordered { s with decode := s.decode.handle event, incoming := rest } floor' := by
  have hwf : WellFormed floor (event :: rest) := hinc ▸ h.well_formed
  cases event with
  | keepAlive walEnd =>
    have h' := h.advance (le_max_left floor walEnd) hwf
    refine ⟨max floor walEnd, ?_⟩
    by_cases hopen : s.decode.openTxn = []
    · simpa [DecodeState.handle, hopen, hpend] using
        h'.registerConfirmed hpend (le_max_right floor walEnd)
    · simpa [DecodeState.handle, hopen] using h'
  | commit endLsn =>
    refine ⟨endLsn, ?_⟩
    by_cases hopen : s.decode.openTxn = []
    · simpa [DecodeState.handle, hopen, hpend] using
        (h.advance hwf.1.le hwf.2).registerConfirmed hpend le_rfl
    · simpa [DecodeState.handle, hopen] using h.queue hpend hwf.1 hwf.2 s.decode.openTxn
  | begin => exact ⟨floor, { h.advance le_rfl hwf with }⟩
  | message => exact ⟨floor, h.advance le_rfl hwf⟩
  | stoppedAt => exact ⟨floor, { h.advance le_rfl hwf with }⟩
  | xlogData decoded =>
    cases decoded with
    | none => exact ⟨floor, { h.advance le_rfl hwf with }⟩
    | some changes => exact ⟨floor, { h.advance le_rfl hwf with }⟩

theorem confirmedLsn_handle {d : DecodeState C} (hmap : d.ack.lsnBySeq ≠ [])
    (event : ReplicationEvent C) :
    (d.handle event).ack.confirmedLsn = d.ack.confirmedLsn := by
  cases event with
  | keepAlive walEnd =>
    simp only [DecodeState.handle]
    split
    · exact Positions.confirmedLsn_registerConfirmed_of_ne_nil hmap
    · rfl
  | commit endLsn =>
    simp only [DecodeState.handle]
    split
    · split
      · exact Positions.confirmedLsn_registerConfirmed_of_ne_nil hmap
      · rfl
    · rfl
  | xlogData decoded => cases decoded <;> rfl
  | _ => rfl

theorem pending_handle {d : DecodeState C} (hpend : d.pending = []) {event : ReplicationEvent C}
    {p : C × ℕ} (hp : p ∈ (d.handle event).pending) : event = .commit p.2 := by
  cases event with
  | commit endLsn =>
    by_cases hopen : d.openTxn = []
    · simp [DecodeState.handle, hopen, hpend] at hp
    · obtain ⟨-, -, rfl⟩ : ∃ c, c ∈ d.openTxn ∧ (c, endLsn) = p := by
        simpa [DecodeState.handle, hopen, hpend] using hp
      rfl
  | keepAlive walEnd =>
    simp only [DecodeState.handle] at hp
    split at hp <;> simp [hpend] at hp
  | xlogData decoded => cases decoded <;> simp [DecodeState.handle, hpend] at hp
  | _ => simp [DecodeState.handle, hpend] at hp

theorem Safe.handle (h : s.Safe) (ho : s.Ordered floor) (hpend : s.decode.pending = [])
    {event : ReplicationEvent C} (hinc : s.incoming = event :: rest) :
    Safe { s with decode := s.decode.handle event, incoming := rest } := by
  obtain ⟨floor', ho'⟩ := ho.handle hpend hinc
  refine ⟨fun e he hc => ?_, fun p hp => ?_, fun _ lsn hn => ho'.lt_nextCommit hn⟩
  · have hmap : s.decode.ack.lsnBySeq ≠ [] := List.ne_nil_of_mem (ho.mapped e he hc)
    exact (confirmedLsn_handle hmap event).trans_lt (h.emitted e he hc)
  · obtain rfl := pending_handle hpend hp
    by_cases hopen : s.decode.openTxn = []
    · simp [DecodeState.handle, hopen, hpend] at hp
    · have hwf : WellFormed floor (.commit p.2 :: rest) := hinc ▸ ho.well_formed
      have hack : (s.decode.handle (.commit p.2)).ack = s.decode.ack := by
        simp [DecodeState.handle, hopen]
      simp only [confirmedLsn, hack]
      exact ho.confirmed_le.trans_lt hwf.1

end Receive

section Emit

variable {change : C} {lsn : ℕ} {rest : List (C × ℕ)}

theorem mem_afterEmit {e : Emitted C} :
    e ∈ (s.afterEmit change lsn rest).emitted ↔
      e ∈ s.emitted ∨ e = { seq := s.decode.ack.nextSeq, lsn, change } := by
  simp [afterEmit]

theorem Ordered.not_covered_next (h : s.Ordered floor) : ¬ s.Covered s.decode.ack.nextSeq := by
  rintro ⟨q, hq, hle⟩
  exact absurd (h.confirms_lt q hq) (Nat.not_lt.mpr hle)

theorem Ordered.emit (h : s.Ordered floor) (hpend : s.decode.pending = (change, lsn) :: rest) :
    (s.afterEmit change lsn rest).Ordered floor := by
  have hrest : ∀ p ∈ rest, p ∈ s.decode.pending := fun p hp => hpend ▸ List.mem_cons_of_mem _ hp
  have hhead : (change, lsn) ∈ s.decode.pending := hpend ▸ List.mem_cons_self
  have hsorted := h.pending_sorted
  rw [hpend, List.pairwise_cons] at hsorted
  refine
    { h with
      entry_le := ?_
      pending_le := fun p hp => h.pending_le p (hrest p hp)
      pending_sorted := hsorted.2
      seq_lt := ?_
      confirms_lt := fun q hq => Nat.lt_succ_of_lt (h.confirms_lt q hq)
      lsn_le := ?_
      lsn_mono := ?_
      lsn_le_pending := ?_
      mapped := ?_
      reached := ?_
      entry := ?_ }
  · intro m hm
    rcases List.mem_append.mp hm with hm | hm
    · exact h.entry_le m hm
    · rw [List.mem_singleton.mp hm]
      exact h.pending_le _ hhead
  · intro e he
    rcases mem_afterEmit.mp he with he | rfl
    · exact Nat.lt_succ_of_lt (h.seq_lt e he)
    · exact Nat.lt_succ_self _
  · intro e he
    rcases mem_afterEmit.mp he with he | rfl
    · exact h.lsn_le e he
    · exact h.pending_le _ hhead
  · intro e he e' he' hlt
    rcases mem_afterEmit.mp he with he | rfl <;> rcases mem_afterEmit.mp he' with he' | rfl
    · exact h.lsn_mono e he e' he' hlt
    · exact h.lsn_le_pending e he _ hhead
    · exact absurd (h.seq_lt e' he') (Nat.lt_asymm hlt)
    · exact le_rfl
  · intro e he p hp
    rcases mem_afterEmit.mp he with he | rfl
    · exact h.lsn_le_pending e he p (hrest p hp)
    · exact hsorted.1 p hp
  · intro e he hc
    rcases mem_afterEmit.mp he with he | rfl
    · exact List.mem_append_left _ (h.mapped e he hc)
    · exact List.mem_append_right _ List.mem_cons_self
  · intro e he hc
    rcases mem_afterEmit.mp he with he | rfl
    · exact h.reached e he hc
    · exact absurd hc h.not_covered_next
  · intro m hm
    rcases List.mem_append.mp hm with hm | hm
    · rcases h.entry m hm with ⟨e, he, hkey⟩ | ⟨hlater, hpending⟩
      · exact .inl ⟨e, mem_afterEmit.mpr (.inl he), hkey⟩
      · refine .inr ⟨fun e he hlt => ?_, fun p hp => hpending p (hrest p hp)⟩
        rcases mem_afterEmit.mp he with he | rfl
        · exact hlater e he hlt
        · exact hpending _ hhead
    · rw [List.mem_singleton.mp hm]
      exact .inl ⟨_, mem_afterEmit.mpr (.inr rfl), rfl, rfl⟩

theorem Safe.emit (h : s.Safe) (hpend : s.decode.pending = (change, lsn) :: rest) :
    (s.afterEmit change lsn rest).Safe := by
  refine { h with emitted := ?_, pending := ?_ }
  · intro e he hc
    rcases mem_afterEmit.mp he with he | rfl
    · exact h.emitted e he hc
    · exact h.pending (change, lsn) (hpend ▸ List.mem_cons_self)
  · exact fun p hp => h.pending p (hpend ▸ List.mem_cons_of_mem _ hp)

end Emit

section Confirm

variable {seq : ℕ}

theorem covered_afterConfirm {n : ℕ} :
    (s.afterConfirm seq).Covered n ↔ n ≤ seq ∨ s.Covered n := by
  simp [Covered, afterConfirm]

theorem not_covered_afterConfirm {n : ℕ} :
    ¬ (s.afterConfirm seq).Covered n ↔ seq < n ∧ ¬ s.Covered n := by
  rw [covered_afterConfirm, not_or, not_le]

theorem Ordered.confirm (h : s.Ordered floor) (hseq : seq < s.decode.ack.nextSeq) :
    (s.afterConfirm seq).Ordered floor := by
  have hmem : ∀ m ∈ (s.decode.ack.confirm seq).lsnBySeq, m ∈ s.decode.ack.lsnBySeq :=
    fun m hm => (Positions.mem_lsnBySeq_confirm.mp hm).1
  refine
    { h with
      confirmed_le := ?_
      entry_le := fun m hm => h.entry_le m (hmem m hm)
      confirms_lt := ?_
      mapped := ?_
      reached := ?_
      entry := fun m hm => h.entry m (hmem m hm) }
  · rw [← not_lt]
    intro hlt
    rcases Positions.le_confirmedLsn_confirm.mp (Nat.succ_le_of_lt hlt) with hc | ⟨m, hm, -, hle⟩
    · exact absurd h.confirmed_le (Nat.not_le_of_lt hc)
    · exact absurd (h.entry_le m hm) (Nat.not_le_of_lt hle)
  · intro q hq
    rcases List.mem_cons.mp hq with rfl | hq
    · exact hseq
    · exact h.confirms_lt q hq
  · intro e he hc
    obtain ⟨hlt, hc⟩ := not_covered_afterConfirm.mp hc
    exact Positions.mem_lsnBySeq_confirm.mpr ⟨h.mapped e he hc, hlt⟩
  · intro e he hc
    by_cases hold : s.Covered e.seq
    · exact Positions.le_confirmedLsn_confirm.mpr (.inl (h.reached e he hold))
    · have hle : e.seq ≤ seq := (covered_afterConfirm.mp hc).resolve_right hold
      exact Positions.le_confirmedLsn_confirm.mpr (.inr ⟨_, h.mapped e he hold, hle, le_rfl⟩)

/-- A confirm that cuts no transaction leaves the resume point below what is left. -/
theorem Safe.confirm (h : s.Safe) (ho : s.Ordered floor) (hseq : seq < s.decode.ack.nextSeq)
    (hal : s.Aligned (.confirm seq)) : (s.afterConfirm seq).Safe := by
  refine ⟨fun e' he' hc => ?_, fun p hp => ?_, fun _ _ hn => (ho.confirm hseq).lt_nextCommit hn⟩
  · obtain ⟨hlt, hc⟩ := not_covered_afterConfirm.mp hc
    refine Positions.confirmedLsn_confirm_lt.mpr ⟨h.emitted e' he' hc, fun m hm hle => ?_⟩
    rcases ho.entry m hm with ⟨e, he, hkey, hlsn⟩ | ⟨hlater, -⟩
    · have hne := (hal e he (hkey ▸ hle)).1 e' he' hlt hc
      have hmono := ho.lsn_mono e he e' he' ((hkey ▸ hle).trans_lt hlt)
      omega
    · exact hlater e' he' (hle.trans_lt hlt)
  · refine Positions.confirmedLsn_confirm_lt.mpr ⟨h.pending p hp, fun m hm hle => ?_⟩
    rcases ho.entry m hm with ⟨e, he, hkey, hlsn⟩ | ⟨-, hpending⟩
    · have hne := (hal e he (hkey ▸ hle)).2 p hp
      have hmono := ho.lsn_le_pending e he p hp
      omega
    · exact hpending p hp

/-- A confirm that cuts a transaction passes the changes it leaves behind. -/
theorem Safe.aligned (h : (s.afterConfirm seq).Safe) (ho : s.Ordered floor)
    (hseq : seq < s.decode.ack.nextSeq) : s.Aligned (.confirm seq) := by
  intro e he hle
  have hreach : e.lsn ≤ (s.afterConfirm seq).confirmedLsn :=
    (ho.confirm hseq).reached e he (covered_afterConfirm.mpr (.inl hle))
  constructor
  · intro e' he' hlt hc
    have := h.emitted e' he' (not_covered_afterConfirm.mpr ⟨hlt, hc⟩)
    omega
  · intro p hp
    have := h.pending p hp
    omega

end Confirm

section Steps

variable {s' : Live C} {a : LiveAction}

theorem Ordered.step (ho : s.Ordered floor) (h : s.step a = some s') :
    ∃ floor', s'.Ordered floor' := by
  rcases step_cases h with ⟨change, lsn, rest, -, hpend, rfl⟩ | ⟨-, -, rfl⟩ |
    ⟨event, rest, -, hpend, hinc, rfl⟩ | ⟨seq, -, ⟨e, he, rfl⟩, rfl⟩
  · exact ⟨floor, ho.emit hpend⟩
  · exact ⟨floor, { ho with }⟩
  · exact ho.handle hpend hinc
  · exact ⟨floor, ho.confirm (ho.seq_lt e he)⟩

theorem Safe.step_iff (hs : s.Safe) (ho : s.Ordered floor) (h : s.step a = some s') :
    s'.Safe ↔ s.Aligned a := by
  rcases step_cases h with ⟨change, lsn, rest, rfl, hpend, rfl⟩ | ⟨rfl, -, rfl⟩ |
    ⟨event, rest, rfl, hpend, hinc, rfl⟩ | ⟨seq, rfl, ⟨e, he, rfl⟩, rfl⟩
  · exact iff_of_true (hs.emit hpend) trivial
  · exact iff_of_true { hs with } trivial
  · exact iff_of_true (hs.handle ho hpend hinc) trivial
  · exact ⟨fun h' => h'.aligned ho (ho.seq_lt e he), hs.confirm ho (ho.seq_lt e he)⟩

end Steps

/-- Over a well-formed stream, the resume point stays below every unconfirmed change
throughout a run exactly when no confirm of the run cuts a transaction. -/
theorem always_safe_iff {startLsn : ℕ} (firstSeq : ℕ) {events : List (ReplicationEvent C)}
    (hwf : WellFormed startLsn events) (as : List LiveAction) :
    (machine C).Always Safe (.start startLsn firstSeq events) as ↔
      (machine C).Each Aligned (.start startLsn firstSeq events) as := by
  have ho := ordered_start firstSeq hwf
  refine Transition.Machine.always_iff_each (B := fun s => ∃ floor, s.Ordered floor)
    (fun s a s' ⟨_, ho⟩ h => ho.step h) (fun s a s' ⟨_, ho⟩ hs h => hs.step_iff ho h)
    ⟨_, ho⟩ ⟨?_, ?_, fun _ _ hn => ho.lt_nextCommit hn⟩
  · simp [start]
  · simp [start, DecodeState.new]

/-- One transaction of two rows. -/
def twoRows : List (ReplicationEvent ℕ) := [.begin, .xlogData (some [1, 2]), .commit 100]

theorem wellFormed_twoRows : WellFormed 0 twoRows := ⟨by decide, trivial⟩

theorem always_safe_iff_two_rows :
    (machine ℕ).Always Safe (.start 0 0 twoRows) [.recv, .recv, .recv, .emit, .confirm 0] ↔
      (machine ℕ).Each Aligned (.start 0 0 twoRows) [.recv, .recv, .recv, .emit, .confirm 0] :=
  always_safe_iff 0 wellFormed_twoRows _

/-- Confirming the first of two rows of one transaction passes the second. -/
theorem not_always_safe_two_rows :
    WellFormed 0 twoRows ∧ ¬ (machine ℕ).Always Safe (.start 0 0 twoRows)
      [.recv, .recv, .recv, .emit, .emit, .confirm 0] := by
  refine ⟨wellFormed_twoRows, fun h => ?_⟩
  have hrun : (machine ℕ).run (.start 0 0 twoRows)
      [.recv, .recv, .recv, .emit, .emit, .confirm 0] = some _ := rfl
  have hsafe := (h.last hrun).emitted { seq := 1, lsn := 100, change := 2 } (by decide) (by decide)
  exact absurd hsafe (by decide)

end Flusso.Cdc.Live
