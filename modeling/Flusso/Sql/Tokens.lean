import Mathlib.Data.List.Basic

/-! # Tokens of SQL

The lexical rules for the characters that generated queries are made of. What they
do not cover is junk: comments, other operators, a quote that is not closed or
follows a word, a dollar sign that begins no placeholder. A backslash in a literal
is a character like others.
-/

namespace Sql

inductive Token where
  | word (text : String)
  | number (text : String)
  | operator (text : String)
  | symbol (c : Char)
  | cast
  | literal (text : String)
  /-- An identifier in quotes. -/
  | identifier (text : String)
  | placeholder (n : ℕ)
  | junk
  deriving DecidableEq

/-- The token being read, with its characters so far from the last to the first. -/
inductive LexState where
  | gap
  | word (read : List Char)
  | number (read : List Char)
  | operator (read : List Char)
  | literal (read : List Char)
  /-- After a quote that closes a literal, or is the first of two. -/
  | literalQuote (read : List Char)
  | identifier (read : List Char)
  | identifierQuote (read : List Char)
  | dot
  | colon
  | dollar
  | placeholder (read : List Char)
  | lost
  deriving DecidableEq

namespace LexState

def isLetter (c : Char) : Bool :=
  ('a' ≤ c && c ≤ 'z') || ('A' ≤ c && c ≤ 'Z') || c = '_'

def isOperator (c : Char) : Bool := c = '=' || c = '<' || c = '>' || c = '|' || c = '*'

def isSymbol (c : Char) : Bool := c = '(' || c = ')' || c = ',' || c = '[' || c = ']'

def isQuote (c : Char) : Bool := c = '\'' || c = '"' || c = '$'

/-- A character between tokens, or the first of one. -/
def start (c : Char) : List Token × LexState :=
  if c = ' ' then ([], .gap)
  else if isSymbol c then ([.symbol c], .gap)
  else if isLetter c then ([], .word [c])
  else if c.isDigit then ([], .number [c])
  else if isOperator c then ([], .operator [c])
  else if c = '\'' then ([], .literal [])
  else if c = '"' then ([], .identifier [])
  else if c = '.' then ([], .dot)
  else if c = ':' then ([], .colon)
  else if c = '$' then ([], .dollar)
  else ([], .lost)

def spelled (read : List Char) : String := String.ofList read.reverse

/-- The tokens still to come where the text ends. -/
def finish : LexState → List Token
  | gap => []
  | word read => [.word (spelled read)]
  | number read => [.number (spelled read)]
  | operator read => [.operator (spelled read)]
  | literalQuote read => [.literal (spelled read)]
  | identifierQuote read => [if read = [] then .junk else .identifier (spelled read)]
  | dot => [.symbol '.']
  | placeholder read => [.placeholder (Nat.ofDigitChars 10 read.reverse 0)]
  | literal _ | identifier _ | colon | dollar | lost => [.junk]

/-- The token read so far ends, and `c` comes after it. -/
def next (q : LexState) (c : Char) : List Token × LexState :=
  (q.finish ++ (start c).1, (start c).2)

def step (q : LexState) (c : Char) : List Token × LexState :=
  match q with
  | gap => start c
  | word read =>
    if isLetter c || c.isDigit then ([], word (c :: read))
    else if isQuote c then ([], lost)
    else next q c
  | number read =>
    if c.isDigit then ([], number (c :: read))
    else if isLetter c || isQuote c || c = '.' then ([], lost)
    else next q c
  | operator read => if isOperator c then ([], operator (c :: read)) else next q c
  | literal read => if c = '\'' then ([], literalQuote read) else ([], literal (c :: read))
  | literalQuote read => if c = '\'' then ([], literal (c :: read)) else next q c
  | identifier read => if c = '"' then ([], identifierQuote read) else ([], identifier (c :: read))
  | identifierQuote read => if c = '"' then ([], identifier (c :: read)) else next q c
  | dot => if c.isDigit then ([], lost) else next q c
  | colon => if c = ':' then ([.cast], gap) else ([], lost)
  | dollar => if c.isDigit then ([], placeholder [c]) else ([], lost)
  | placeholder read =>
    if c.isDigit then ([], placeholder (c :: read))
    else if isLetter c || isQuote c then ([], lost)
    else next q c
  | lost => ([], lost)

def run : LexState → List Char → List Token × LexState
  | q, [] => ([], q)
  | q, c :: text => ((q.step c).1 ++ (run (q.step c).2 text).1, (run (q.step c).2 text).2)

/-- The tokens of a text that is read from within a token. -/
def scan (q : LexState) (text : List Char) : List Token := (q.run text).1 ++ (q.run text).2.finish

variable {q : LexState} {c : Char} {a b text : List Char}

theorem scan_cons : q.scan (c :: text) = (q.step c).1 ++ (q.step c).2.scan text := by
  simp [scan, run]

theorem scan_append : q.scan (a ++ b) = (q.run a).1 ++ (q.run a).2.scan b := by
  induction a generalizing q with
  | nil => rfl
  | cons c a ih => rw [List.cons_append, scan_cons, ih, run, List.append_assoc]

/-- A character that ends every token but literals. -/
def isDelimiter (c : Char) : Bool := c = ' ' || c = ')' || c = ',' || c = ':'

theorem step_of_isDelimiter (hq : .junk ∉ q.finish) (hc : isDelimiter c = true) :
    q.step c = q.next c := by
  simp only [isDelimiter, Bool.or_eq_true, decide_eq_true_eq] at hc
  cases q with
  | gap => rfl
  | literal | identifier | colon | dollar | lost => simp [finish] at hq
  | _ => rcases hc with ((rfl | rfl) | rfl) | rfl <;> rfl

end LexState

open LexState

/-- The tokens of a text. -/
def lex (text : List Char) : List Token := LexState.gap.scan text

section Lex

variable {a b text : List Char} {tokens : List Token}

/-- The text ends, or goes on with a delimiter. -/
def Delimited (text : List Char) : Prop := ∀ c ∈ text.head?, isDelimiter c = true

/-- A text is lexed apart from what follows where it is followed by a delimiter. -/
theorem lex_append (ha : .junk ∉ lex a) (hb : Delimited b) : lex (a ++ b) = lex a ++ lex b := by
  have hfinish : .junk ∉ (LexState.gap.run a).2.finish := fun h => ha (List.mem_append_right _ h)
  have hscan : (LexState.gap.run a).2.scan b = (LexState.gap.run a).2.finish ++ lex b := by
    cases b with
    | nil => simp [lex, scan, run, finish]
    | cons c b =>
      rw [scan_cons, step_of_isDelimiter hfinish (hb c rfl), lex, scan_cons, next, step]
      simp
  rw [lex, scan_append, hscan, ← List.append_assoc]
  rfl

theorem lex_append_of_gap (ha : (LexState.gap.run a).2 = .gap) : lex (a ++ b) = lex a ++ lex b := by
  have hlex : lex a = (LexState.gap.run a).1 := by
    rw [lex, scan, ha, finish, List.append_nil]
  rw [hlex, lex, scan_append, ha, lex]

end Lex

section Quoted

/-- A string in single quotes, its quotes doubled. -/
def doubled (text : List Char) : List Char :=
  text.flatMap fun c => if c = '\'' then ['\'', '\''] else [c]

theorem run_doubled (text read : List Char) :
    (LexState.literal read).run (doubled text) = ([], .literal (text.reverse ++ read)) := by
  induction text generalizing read with
  | nil => rfl
  | cons c text ih =>
    rw [doubled, List.flatMap_cons, ← doubled]
    split
    · next hc =>
      subst hc
      simp [run, step, ih]
    · next hc => simp [run, step, hc, ih]

/-- Whatever a string holds, it is one literal between its quotes. -/
theorem lex_quoted (text : List Char) :
    lex ('\'' :: (doubled text ++ ['\''])) = [.literal (String.ofList text)] := by
  rw [lex, scan_cons]
  change ([] : List Token) ++ (LexState.literal []).scan _ = _
  rw [List.nil_append, scan_append, run_doubled]
  simp [scan, run, step, finish, spelled]

theorem run_identifier {text : List Char} (h : '"' ∉ text) (read : List Char) :
    (LexState.identifier read).run text = ([], .identifier (text.reverse ++ read)) := by
  induction text generalizing read with
  | nil => rfl
  | cons c text ih =>
    rw [List.mem_cons, not_or] at h
    simp [run, step, Ne.symm h.1, ih h.2]

theorem lex_identifier {text : List Char} (hne : text ≠ []) (h : '"' ∉ text) :
    lex ('"' :: (text ++ ['"'])) = [.identifier (String.ofList text)] := by
  rw [lex, scan_cons]
  change ([] : List Token) ++ (LexState.identifier []).scan _ = _
  rw [List.nil_append, scan_append, run_identifier h]
  simp [scan, run, step, finish, spelled, hne]

end Quoted

section Digits

variable {text : List Char}

theorem run_placeholder (h : ∀ c ∈ text, c.isDigit = true) (read : List Char) :
    (LexState.placeholder read).run text = ([], .placeholder (text.reverse ++ read)) := by
  induction text generalizing read with
  | nil => rfl
  | cons c text ih =>
    rw [List.forall_mem_cons] at h
    simp [run, step, h.1, ih h.2]

theorem run_number (h : ∀ c ∈ text, c.isDigit = true) (read : List Char) :
    (LexState.number read).run text = ([], .number (text.reverse ++ read)) := by
  induction text generalizing read with
  | nil => rfl
  | cons c text ih =>
    rw [List.forall_mem_cons] at h
    simp [run, step, h.1, ih h.2]

theorem exists_digits (n : ℕ) : ∃ c text, (toString n).toList = c :: text ∧
    ∀ d ∈ c :: text, d.isDigit = true := by
  rw [Nat.toString_eq_ofList_toDigits, String.toList_ofList]
  have hdigit : ∀ d ∈ Nat.toDigits 10 n, d.isDigit = true :=
    fun d hd => Nat.isDigit_of_mem_toDigits (by decide) (by decide) hd
  cases hdigits : Nat.toDigits 10 n with
  | nil => exact absurd hdigits Nat.toDigits_ne_nil
  | cons c text => exact ⟨c, text, rfl, hdigits ▸ hdigit⟩

theorem lex_placeholder (n : ℕ) : lex ('$' :: (toString n).toList) = [.placeholder n] := by
  obtain ⟨c, text, htext, hdigit⟩ := exists_digits n
  have hn : Nat.ofDigitChars 10 (c :: text) 0 = n := by
    rw [← htext, Nat.toString_eq_ofList_toDigits, String.toList_ofList,
      Nat.ofDigitChars_ten_toDigits]
  rw [List.forall_mem_cons] at hdigit
  rw [htext, lex, scan_cons, scan_cons]
  change ([] : List Token) ++
    ((LexState.dollar.step c).1 ++ (LexState.dollar.step c).2.scan text) = _
  simp [step, hdigit.1, scan, run_placeholder hdigit.2, finish, hn]

theorem isDigit_iff {c : Char} : c.isDigit = true ↔ 48 ≤ c.toNat ∧ c.toNat ≤ 57 := by
  rw [Char.isDigit, Bool.and_eq_true, decide_eq_true_eq, decide_eq_true_eq]
  exact Iff.rfl

theorem start_of_isDigit {c : Char} (h : c.isDigit = true) : start c = ([], .number [c]) := by
  have hrange := isDigit_iff.mp h
  have hne : ∀ d : Char, ¬ (48 ≤ d.toNat ∧ d.toNat ≤ 57) → c ≠ d := by
    rintro d hd rfl
    exact hd hrange
  have hletter : isLetter c = false := by
    simp only [isLetter, Bool.or_eq_false_iff, Bool.and_eq_false_iff, decide_eq_false_iff_not]
    refine ⟨⟨.inl ?_, .inl ?_⟩, hne _ (by decide)⟩
    · intro hle
      have : 97 ≤ c.toNat := hle
      omega
    · intro hle
      have : 65 ≤ c.toNat := hle
      omega
  simp [start, isSymbol, h, hletter, hne ' ' (by decide), hne '(' (by decide),
    hne ')' (by decide), hne ',' (by decide), hne '[' (by decide), hne ']' (by decide)]

theorem lex_number (n : ℕ) : lex (toString n).toList = [.number (toString n)] := by
  obtain ⟨c, text, htext, hdigit⟩ := exists_digits n
  rw [List.forall_mem_cons] at hdigit
  have hn : toString n = String.ofList (c :: text) := by rw [← htext, String.ofList_toList]
  rw [htext, hn, lex, scan_cons, step, start_of_isDigit hdigit.1]
  simp [scan, run_number hdigit.2, finish, spelled]

end Digits

section Depth

/-- How many parentheses are open after the tokens; none where one closes that was not opened,
and at junk. -/
def depth : ℕ → List Token → Option ℕ
  | d, [] => some d
  | d, t :: tokens =>
    match t with
    | .symbol '(' => depth (d + 1) tokens
    | .symbol ')' =>
      match d with
      | 0 => none
      | d + 1 => depth d tokens
    | .junk => none
    | _ => depth d tokens

def Balanced (tokens : List Token) : Prop := depth 0 tokens = some 0

instance (tokens : List Token) : Decidable (Balanced tokens) := inferInstanceAs (Decidable (_ = _))

variable {d e k : ℕ} {s t : List Token}

theorem depth_append : depth d (s ++ t) = (depth d s).bind fun e => depth e t := by
  fun_induction depth d s <;> simp_all [depth]

theorem depth_add (h : depth d s = some e) : depth (d + k) s = some (e + k) := by
  fun_induction depth d s <;> simp_all [depth, Nat.add_right_comm]

theorem Balanced.depth (h : Balanced s) (d : ℕ) : Sql.depth d s = some d := by
  have hadd := depth_add (k := d) h
  rwa [Nat.zero_add] at hadd

theorem junk_notMem (h : depth d s = some e) : .junk ∉ s := by
  fun_induction depth d s <;> simp_all [eq_comm]

def placeholder? : Token → Option ℕ
  | .placeholder n => some n
  | _ => none

def placeholders (tokens : List Token) : List ℕ := tokens.filterMap placeholder?

theorem placeholders_append : placeholders (s ++ t) = placeholders s ++ placeholders t :=
  List.filterMap_append

end Depth

end Sql
