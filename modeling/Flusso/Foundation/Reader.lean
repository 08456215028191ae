import Mathlib.Data.List.Basic
import Mathlib.Tactic.Ring

/-! # Reading a byte format

A reader takes a value off the front of its input. That it reads an encoding
means three things at once: whatever follows the encoding is left over, an
encoding it refuses fails, and so does every encoding cut short. The
combinators carry this over to sequences and counted lists.
-/

namespace Flusso

section BigEndian

/-- The low `width` bytes of a number, most significant first. -/
def bigEndian : ℕ → ℕ → List UInt8
  | 0, _ => []
  | width + 1, n => UInt8.ofNat (n / 256 ^ width) :: bigEndian width n

/-- The number bytes spell, most significant first. -/
def ofBigEndian (bytes : List UInt8) : ℕ := bytes.foldl (fun n b => n * 256 + b.toNat) 0

@[simp] theorem length_bigEndian (width n : ℕ) : (bigEndian width n).length = width := by
  induction width with
  | zero => rfl
  | succ width ih => simp [bigEndian, ih]

theorem foldl_bigEndian (width n acc : ℕ) :
    (bigEndian width n).foldl (fun n b => n * 256 + b.toNat) acc =
      acc * 256 ^ width + n % 256 ^ width := by
  induction width generalizing acc with
  | zero => simp [bigEndian, Nat.mod_one]
  | succ width ih =>
    have hbyte : (UInt8.ofNat (n / 256 ^ width)).toNat = n / 256 ^ width % 256 := by simp
    rw [bigEndian, List.foldl_cons, ih, hbyte, Nat.pow_succ, Nat.mod_mul]
    ring

theorem ofBigEndian_bigEndian {width n : ℕ} (h : n < 256 ^ width) :
    ofBigEndian (bigEndian width n) = n := by
  rw [ofBigEndian, foldl_bigEndian, Nat.mod_eq_of_lt h]
  simp

end BigEndian

/-- A reader takes a value off the front of its input. -/
abbrev Reader (ε α : Type) := StateT (List UInt8) (Except ε) α

namespace Reader

variable {ε α β γ : Type} {p : Reader ε α} {f : α → Reader ε β} {bytes bytes' : List UInt8}
  {r : Option α}

/-- The next `n` bytes. -/
def take (n : ℕ) (error : ε) : Reader ε (List UInt8) := fun input =>
  if n ≤ input.length then .ok (input.take n, input.drop n) else .error error

def byte (error : ε) : Reader ε UInt8 := fun input =>
  match input with
  | [] => .error error
  | b :: rest => .ok (b, rest)

/-- The bytes before the next zero, which is dropped. -/
def untilZero (error : ε) : Reader ε (List UInt8) := fun input =>
  if 0 ∈ input then .ok (input.takeWhile (· ≠ 0), (input.dropWhile (· ≠ 0)).drop 1)
  else .error error

/-- One value after another. -/
def times (p : Reader ε α) : ℕ → Reader ε (List α)
  | 0 => pure []
  | n + 1 => do
    let a ← p
    let as ← times p n
    pure (a :: as)

/-- A reader reads an encoding as a value, or refuses it. -/
structure Reads (p : Reader ε α) (bytes : List UInt8) (r : Option α) : Prop where
  whole : ∀ rest, (p.run (bytes ++ rest)).toOption = r.map fun a => (a, rest)
  short : ∀ front, front <+: bytes → front ≠ bytes → (p.run front).toOption = none

theorem toOption_bind (p : Reader ε α) (f : α → Reader ε β) (input : List UInt8) :
    ((p >>= f).run input).toOption =
      (p.run input).toOption.bind fun out => ((f out.1).run out.2).toOption := by
  rw [StateT.run_bind]
  cases p.run input with
  | error e => rfl
  | ok out => rfl

namespace Reads

theorem pure (a : α) : Reads (pure a : Reader ε α) [] (some a) where
  whole _ := rfl
  short _ hfront hne := absurd (List.prefix_nil.mp hfront) hne

theorem throw (e : ε) : Reads (throw e : Reader ε α) [] none where
  whole _ := rfl
  short _ hfront hne := absurd (List.prefix_nil.mp hfront) hne

theorem bind {s : α → Option β} (hp : Reads p bytes r)
    (hf : ∀ a, r = some a → Reads (f a) bytes' (s a)) :
    Reads (p >>= f) (bytes ++ bytes') (r.bind s) where
  whole rest := by
    rw [toOption_bind, List.append_assoc, hp.whole]
    cases hr : r with
    | none => rfl
    | some a => exact (hf a hr).whole rest
  short front hfront hne := by
    rw [toOption_bind]
    rcases List.prefix_or_prefix_of_prefix hfront (List.prefix_append bytes bytes') with hshort | hlong
    · by_cases heq : front = bytes
      · subst heq
        have hwhole := hp.whole []
        rw [List.append_nil] at hwhole
        rw [hwhole]
        cases hr : r with
        | none => rfl
        | some a =>
          refine (hf a hr).short [] List.nil_prefix fun hnil => hne ?_
          rw [← hnil, List.append_nil]
      · rw [hp.short front hshort heq]
        rfl
    · obtain ⟨tail, rfl⟩ := hlong
      rw [hp.whole]
      cases hr : r with
      | none => rfl
      | some a =>
        refine (hf a hr).short tail ((List.prefix_append_right_inj bytes).mp hfront) ?_
        rintro rfl
        exact hne rfl

theorem seq {a : α} {s : Option β} (hp : Reads p bytes (some a)) (hf : Reads (f a) bytes' s) :
    Reads (p >>= f) (bytes ++ bytes') s :=
  hp.bind (s := fun _ => s) fun _ ha => Option.some.inj ha ▸ hf

theorem finish {s : α → Option β} (hp : Reads p bytes r)
    (hf : ∀ a, r = some a → Reads (f a) [] (s a)) : Reads (p >>= f) bytes (r.bind s) := by
  have h := hp.bind hf
  rwa [List.append_nil] at h

theorem map (hp : Reads p bytes r) (g : α → β) :
    Reads (p >>= fun a => Pure.pure (g a)) bytes (r.map g) := by
  rw [Option.map_eq_bind]
  exact hp.finish fun a _ => Reads.pure (g a)

theorem take (e : ε) : Reads (take bytes.length e) bytes (some bytes) where
  whole rest := by simp [StateT.run, Reader.take, Except.toOption]
  short front hfront hne := by
    have hlt : ¬bytes.length ≤ front.length := fun hle =>
      hne (hfront.eq_of_length_le hle)
    simp [StateT.run, Reader.take, hlt, Except.toOption]

theorem byte (b : UInt8) (e : ε) : Reads (byte e) [b] (some b) where
  whole rest := rfl
  short front hfront hne := by
    obtain rfl : front = [] := by
      cases front with
      | nil => rfl
      | cons c front =>
        obtain ⟨rfl, hnil⟩ := List.cons_prefix_cons.mp hfront
        rw [List.prefix_nil.mp hnil] at hne
        exact absurd rfl hne
    rfl

theorem untilZero (h : 0 ∉ bytes) (e : ε) :
    Reads (untilZero e) (bytes ++ [0]) (some bytes) where
  whole rest := by
    have hall : ∀ b ∈ bytes, decide (b ≠ 0) = true := by
      rintro b hb
      refine decide_eq_true fun heq => h ?_
      rwa [heq] at hb
    have hmem : (0 : UInt8) ∈ bytes ++ [0] ++ rest := by simp
    simp only [StateT.run, Reader.untilZero, if_pos hmem, Except.toOption]
    rw [List.append_assoc, List.takeWhile_append_of_pos hall,
      List.dropWhile_append_of_pos hall]
    simp
  short front hfront hne := by
    have hmem : 0 ∉ front := by
      rcases List.prefix_concat_iff.mp hfront with heq | hfront
      · exact absurd heq hne
      · exact fun hzero => h (hfront.subset hzero)
    simp [StateT.run, Reader.untilZero, hmem, Except.toOption]

theorem times {enc : β → List UInt8} {val : β → Option α} {items : List β}
    (hp : ∀ b ∈ items, Reads p (enc b) (val b)) :
    Reads (times p items.length) (items.flatMap enc) (items.mapM val) := by
  induction items with
  | nil => exact Reads.pure []
  | cons b items ih =>
    rw [List.mapM_cons, List.flatMap_cons]
    refine (hp b List.mem_cons_self).bind fun a _ => ?_
    have hrest := (ih fun c hc => hp c (List.mem_cons_of_mem b hc)).map fun as => a :: as
    rw [Option.map_eq_bind] at hrest
    exact hrest

end Reads

end Reader

end Flusso
