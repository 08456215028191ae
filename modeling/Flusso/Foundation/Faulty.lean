import Mathlib.Data.List.Basic

/-! # Programs whose remote steps may fail

A program changes a world by local steps, which always go through, and remote
ones, which a schedule of faults may refuse or rob of their answer. A triple says
what holds when the program succeeds and what holds when it stops early, under
every schedule of admitted faults.
-/

namespace Faulty

/-- What becomes of a remote step: it goes through, it is refused before it takes effect, or it
takes effect and its answer is lost. -/
inductive Fault where
  | none
  | refused
  | lost
  deriving DecidableEq, Repr

/-- A program over a world and the faults its remote steps will meet. -/
abbrev Program (W ε : Type) := ExceptT ε (StateM (W × List Fault))

variable {W ε α β : Type}

/-- The outcome of a program under a schedule, the world it leaves and the faults not met. -/
def Program.runWith (x : Program W ε α) (w : W) (faults : List Fault) :
    Except ε α × W × List Fault :=
  ExceptT.run x (w, faults)

theorem Program.runWith_bind (x : Program W ε α) (f : α → Program W ε β) (w : W)
    (faults : List Fault) : (x >>= f).runWith w faults =
      match x.runWith w faults with
      | (.ok a, w', rest) => (f a).runWith w' rest
      | (.error e, w', rest) => (.error e, w', rest) := by
  unfold Program.runWith
  rw [ExceptT.run_bind]
  change StateT.bind (ExceptT.run x) _ (w, faults) = _
  unfold StateT.bind
  rcases ExceptT.run x (w, faults) with ⟨_ | a, w', rest⟩ <;> rfl

/-- A step of the process itself. -/
def locally (f : W → α × W) : Program W ε α :=
  ExceptT.mk fun (w, faults) => (.ok (f w).1, (f w).2, faults)

/-- A step on the remote side, which may answer with an error of its own and then changes
nothing. Past the end of the schedule there are no faults. -/
def remote (failure : ε) (effect : W → Except ε (α × W)) : Program W ε α :=
  ExceptT.mk fun (w, faults) =>
    match faults.headD .none, effect w with
    | .none, .ok (a, w') => (.ok a, w', faults.tail)
    | .none, .error e => (.error e, w, faults.tail)
    | .lost, .ok (_, w') => (.error failure, w', faults.tail)
    | _, _ => (.error failure, w, faults.tail)

/-- Run a program for its effect and go on whether or not it fails. -/
def attempt (x : Program W ε Unit) : Program W ε Unit :=
  ExceptT.mk fun s => (.ok (), (ExceptT.run x s).2)

/-- Under admitted faults, from a world with the precondition, success establishes `Q` and an
early stop establishes `E`. -/
def Triple (admitted : Fault → Prop) (P : W → Prop) (x : Program W ε α) (Q : α → W → Prop)
    (E : W → Prop) : Prop :=
  ∀ w faults, (∀ f ∈ faults, admitted f) → P w →
    (∀ f ∈ (x.runWith w faults).2.2, admitted f) ∧
      match x.runWith w faults with
      | (.ok a, w', _) => Q a w'
      | (.error _, w', _) => E w'

namespace Triple

variable {admitted : Fault → Prop} {P P' : W → Prop} {x : Program W ε α}
  {Q Q' : α → W → Prop} {E E' : W → Prop} {w w' : W} {faults rest : List Fault}

theorem ok {a : α} (h : Triple admitted P x Q E) (hf : ∀ f ∈ faults, admitted f) (hP : P w)
    (hx : x.runWith w faults = (.ok a, w', rest)) : Q a w' := by
  have h := (h w faults hf hP).2
  rw [hx] at h
  exact h

theorem error {e : ε} (h : Triple admitted P x Q E) (hf : ∀ f ∈ faults, admitted f) (hP : P w)
    (hx : x.runWith w faults = (.error e, w', rest)) : E w' := by
  have h := (h w faults hf hP).2
  rw [hx] at h
  exact h

/-- What holds however the program ends. -/
theorem world {I : W → Prop} (h : Triple admitted P x (fun _ => I) I)
    (hf : ∀ f ∈ faults, admitted f) (hP : P w) : I (x.runWith w faults).2.1 := by
  rcases hx : x.runWith w faults with ⟨_ | a, w', rest⟩
  · exact h.error hf hP hx
  · exact h.ok hf hP hx

/-- What holds under any faults. -/
theorem always {I : W → Prop} (h : Triple (fun _ => True) P x (fun _ => I) I) (hP : P w) :
    I (x.runWith w faults).2.1 := h.world (fun _ _ => trivial) hP

theorem weaken (h : Triple admitted P x Q E) (hP : ∀ w, P' w → P w)
    (hQ : ∀ a w, Q a w → Q' a w) (hE : ∀ w, E w → E' w) : Triple admitted P' x Q' E' := by
  intro w faults hf hP'
  obtain ⟨hrest, h⟩ := h w faults hf (hP w hP')
  refine ⟨hrest, ?_⟩
  rcases hx : x.runWith w faults with ⟨_ | a, w', rest⟩
  · rw [hx] at h
    exact hE w' h
  · rw [hx] at h
    exact hQ a w' h

theorem strengthen (h : Triple admitted P x Q E) (hP : ∀ w, P' w → P w) :
    Triple admitted P' x Q E :=
  h.weaken hP (fun _ _ => id) fun _ => id

theorem pure {a : α} (h : ∀ w, P w → Q a w) :
    Triple admitted P (pure a : Program W ε α) Q E :=
  fun w _ hf hP => ⟨hf, h w hP⟩

theorem throw {e : ε} (h : ∀ w, P w → E w) :
    Triple admitted P (throw e : Program W ε α) Q E :=
  fun w _ hf hP => ⟨hf, h w hP⟩

theorem bind {f : α → Program W ε β} {R : α → W → Prop} {Q : β → W → Prop}
    (hx : Triple admitted P x R E) (hf : ∀ a, Triple admitted (R a) (f a) Q E) :
    Triple admitted P (x >>= f) Q E := by
  intro w faults hadmitted hP
  obtain ⟨hrest, h⟩ := hx w faults hadmitted hP
  rw [Program.runWith_bind]
  rcases hr : x.runWith w faults with ⟨e | a, w', rest⟩
  · rw [hr] at h hrest
    exact ⟨hrest, h⟩
  · rw [hr] at h hrest
    exact hf a w' rest hrest h

theorem seq {y : Program W ε β} {R : W → Prop} {Q : β → W → Prop}
    (hx : Triple admitted P x (fun _ => R) E) (hy : Triple admitted R y Q E) :
    Triple admitted P (x >>= fun _ => y) Q E :=
  hx.bind fun _ => hy

theorem ite {c : Prop} [Decidable c] {y : Program W ε α}
    (hx : c → Triple admitted P x Q E) (hy : ¬c → Triple admitted P y Q E) :
    Triple admitted P (if c then x else y) Q E := by
  split
  · exact hx ‹_›
  · exact hy ‹_›

/-- A fact of the precondition that is about no world. -/
theorem assume {c : Prop} (h : c → Triple admitted P x Q E) :
    Triple admitted (fun w => c ∧ P w) x Q E :=
  fun w faults hf hP => h hP.1 w faults hf hP.2

theorem and (h : Triple admitted P x Q E) (h' : Triple admitted P' x Q' E') :
    Triple admitted (fun w => P w ∧ P' w) x (fun a w => Q a w ∧ Q' a w) fun w => E w ∧ E' w := by
  rintro w faults hf ⟨hP, hP'⟩
  obtain ⟨hrest, h⟩ := h w faults hf hP
  obtain ⟨-, h'⟩ := h' w faults hf hP'
  refine ⟨hrest, ?_⟩
  rcases hx : x.runWith w faults with ⟨_ | a, w', rest⟩ <;>
  · rw [hx] at h h'
    exact ⟨h, h'⟩

theorem locally {f : W → α × W} (h : ∀ w, P w → Q (f w).1 (f w).2) :
    Triple admitted P (locally f : Program W ε α) Q E :=
  fun w _ hf hP => ⟨hf, h w hP⟩

/-- A remote step that goes through establishes `Q`; refused it leaves the world as it was, and
lost it leaves what it made of it. -/
theorem remote {failure : ε} {effect : W → Except ε (α × W)}
    (hkeep : ∀ w, P w → E w)
    (hok : ∀ w a w', P w → effect w = .ok (a, w') → Q a w')
    (hlost : admitted .lost → ∀ w a w', P w → effect w = .ok (a, w') → E w') :
    Triple admitted P (remote failure effect) Q E := by
  intro w faults hf hP
  have hrest : ∀ f ∈ faults.tail, admitted f := fun f h => hf f (List.mem_of_mem_tail h)
  unfold Faulty.remote Program.runWith
  rcases hfault : faults.headD .none with _ | _ | _ <;>
    rcases heffect : effect w with e | ⟨a, w'⟩ <;>
    simp only [ExceptT.run, ExceptT.mk, hfault, heffect]
  case none.ok => exact ⟨hrest, hok w a w' hP heffect⟩
  case lost.ok =>
    have hmem : Fault.lost ∈ faults := by
      cases faults with
      | nil => cases hfault
      | cons f fs => exact hfault ▸ List.mem_cons_self
    exact ⟨hrest, hlost (hf _ hmem) w a w' hP heffect⟩
  all_goals exact ⟨hrest, hkeep w hP⟩

/-- Without faults only an error of the remote side itself stops a step, and leaves the world
as it was. -/
theorem certain {failure : ε} {effect : W → Except ε (α × W)}
    (hok : ∀ w a w', P w → effect w = .ok (a, w') → Q a w')
    (herror : ∀ w e, P w → effect w = .error e → E w) :
    Triple (· = .none) P (Faulty.remote failure effect) Q E := by
  intro w faults hf hP
  have hrest : ∀ f ∈ faults.tail, f = .none := fun f h => hf f (List.mem_of_mem_tail h)
  have hfault : faults.headD .none = .none := by
    cases faults with
    | nil => rfl
    | cons f fs => exact hf f List.mem_cons_self
  unfold Faulty.remote Program.runWith
  rcases heffect : effect w with e | ⟨a, w'⟩ <;>
    simp only [ExceptT.run, ExceptT.mk, hfault, heffect]
  case error => exact ⟨hrest, herror w e hP heffect⟩
  case ok => exact ⟨hrest, hok w a w' hP heffect⟩

theorem read {failure : ε} {view : W → β} {f : β → Program W ε α} (hkeep : ∀ w, P w → E w)
    (h : ∀ b, Triple admitted (fun w => view w = b ∧ P w) (f b) Q E) :
    Triple admitted P ((Faulty.remote failure fun w => .ok (view w, w)) >>= f) Q E := by
  apply Triple.bind _ h
  apply remote hkeep
  · rintro w b w' hP ⟨⟩
    exact ⟨rfl, hP⟩
  · rintro - w b w' hP ⟨⟩
    exact hkeep w hP

theorem write {failure : ε} {g : W → W} {R E : W → Prop} (hkeep : ∀ w, P w → E w)
    (hok : ∀ w, P w → R (g w)) (hlost : ∀ w, P w → E (g w)) :
    Triple admitted P (Faulty.remote failure fun w => .ok ((), g w)) (fun _ => R) E := by
  apply remote hkeep
  · rintro w a w' hP ⟨⟩
    exact hok w hP
  · rintro - w a w' hP ⟨⟩
    exact hlost w hP

theorem attempt {I : W → Prop} {y : Program W ε Unit} (h : Triple admitted P y (fun _ => I) I) :
    Triple admitted P (attempt y) (fun _ => I) E := by
  intro w faults hf hP
  obtain ⟨hrest, h⟩ := h w faults hf hP
  refine ⟨hrest, ?_⟩
  rcases hr : y.runWith w faults with ⟨_ | a, w', rest⟩ <;>
  · rw [hr] at h
    change I (ExceptT.run y (w, faults)).2.1
    rw [show ExceptT.run y (w, faults) = y.runWith w faults from rfl, hr]
    exact h

/-- A loop over a list, by an invariant over what is left of it. -/
theorem forM {f : α → Program W ε Unit} {I : List α → W → Prop}
    (h : ∀ a as, Triple admitted (I (a :: as)) (f a) (fun _ => I as) E) :
    ∀ as : List α, Triple admitted (I as) (as.forM f) (fun _ => I []) E
  | [] => Triple.pure fun _ => id
  | a :: as => (h a as).bind fun _ => Triple.forM h as

theorem forM_mem {f : α → Program W ε Unit} {I : W → Prop} {as : List α}
    (h : ∀ a ∈ as, Triple admitted I (f a) (fun _ => I) E) :
    Triple admitted I (as.forM f) (fun _ => I) E := by
  induction as with
  | nil => exact Triple.pure fun _ => id
  | cons a as ih =>
    apply (h a List.mem_cons_self).seq
    exact ih fun b hb => h b (List.mem_cons_of_mem _ hb)

end Triple

end Faulty
