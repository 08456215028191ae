import Flusso.Sql.Syntax
import Flusso.Sql.Tokens
import Mathlib.Data.List.Chain

/-! # The pieces of a query's text

A text is put together from fixed pieces, names in quotes, literals and parameters.
It is lexed piece by piece where the pieces are kept apart by delimiters and each
is plain: no raw text, and no name that its quotes do not enclose.
-/

namespace Sql

/-- A piece of a text; a parameter with the column that it is compared with. -/
inductive Piece (κ : Type) where
  | fixed (text : String) (tokens : List Token)
  /-- Identifiers in quotes, each qualified by those before it. -/
  | name (identifiers : List String)
  /-- All columns of a row. -/
  | columns (row : String)
  | literal (text : String)
  | number (n : ℕ)
  | param (column : κ) (p : Param)
  | raw (text : String)

def quotedIdentifier (text : String) : String := "\"" ++ text ++ "\""

/-- An identifier that its quotes enclose. -/
def Enclosed (text : String) : Prop := text ≠ "" ∧ '"' ∉ text.toList

/-- A text and its tokens, none of them a placeholder. -/
def fits (text : String) (tokens : List Token) : Bool :=
  lex text.toList = tokens && .junk ∉ tokens && placeholders tokens = []

def endsClean (text : String) : Bool := (LexState.gap.run text.toList).2 = .gap

def startsApart (text : String) : Bool := text.toList.head?.any LexState.isDelimiter

namespace Piece

variable {κ : Type}

def text : Piece κ → String
  | fixed text _ => text
  | name identifiers => ".".intercalate (identifiers.map quotedIdentifier)
  | columns row => quotedIdentifier row ++ ".*"
  | literal text => quoted text
  | number n => toString n
  | param _ p => p.text
  | raw text => text

def tokens : Piece κ → List Token
  | fixed _ tokens => tokens
  | name identifiers => (identifiers.map Token.identifier).intersperse (.symbol '.')
  | columns row => [.identifier row, .symbol '.', .operator "*"]
  | literal text => [.literal text]
  | number n => [.number (toString n)]
  | param _ p => .placeholder p.index :: .cast :: lex p.sqlType.toList
  | raw text => lex text.toList

@[simp] theorem text_fixed (text : String) (tokens : List Token) :
    (fixed text tokens : Piece κ).text = text := rfl

@[simp] theorem text_columns (row : String) :
    (columns row : Piece κ).text = quotedIdentifier row ++ ".*" := rfl

@[simp] theorem text_literal (text : String) : (literal text : Piece κ).text = quoted text := rfl

@[simp] theorem text_number (n : ℕ) : (number n : Piece κ).text = toString n := rfl

@[simp] theorem text_param (column : κ) (p : Param) : (param column p).text = p.text := rfl

@[simp] theorem text_raw (text : String) : (raw text : Piece κ).text = text := rfl

@[simp] theorem tokens_fixed (text : String) (tokens : List Token) :
    (fixed text tokens : Piece κ).tokens = tokens := rfl

/-- What a piece has to do with the parentheses around it. -/
def frame : Piece κ → List Token
  | fixed _ tokens => tokens
  | _ => []

def slot? : Piece κ → Option (κ × Param)
  | param column p => some (column, p)
  | _ => none

/-- Fixed pieces aside, what a piece is made of cannot be taken for something else. -/
def Plain : Piece κ → Prop
  | fixed _ _ | literal _ | number _ => True
  | name identifiers => identifiers ≠ [] ∧ ∀ identifier ∈ identifiers, Enclosed identifier
  | columns row => Enclosed row
  | param _ p => Balanced (lex p.sqlType.toList) ∧ placeholders (lex p.sqlType.toList) = []
  | raw _ => False

def written : Piece κ → Bool
  | fixed text tokens => fits text tokens
  | _ => true

/-- Whether the piece ends between two tokens. -/
def clean : Piece κ → Bool
  | fixed text _ => endsClean text
  | _ => false

/-- Whether the piece starts with a delimiter. -/
def delimits : Piece κ → Bool
  | fixed text _ => startsApart text
  | _ => false

end Piece

section Lists

variable {κ : Type}

def textOf : List (Piece κ) → String
  | [] => ""
  | p :: ps => p.text ++ textOf ps

def tokensOf (ps : List (Piece κ)) : List Token := ps.flatMap Piece.tokens

/-- The parameters of the pieces with their columns, in the order of the text. -/
def slots (ps : List (Piece κ)) : List (κ × Param) := ps.filterMap Piece.slot?

/-- The pieces with another between any two. -/
def joined (separator : Piece κ) (parts : List (List (Piece κ))) : List (Piece κ) :=
  [separator].intercalate parts

/-- Fixed pieces are as they are lexed, and neighbours are apart. -/
structure Spaced (ps : List (Piece κ)) : Prop where
  written : ∀ p ∈ ps, p.written = true
  apart : ps.IsChain fun p q => p.clean = true ∨ q.delimits = true

/-- The tokens of the fixed pieces alone. -/
def skeleton (ps : List (Piece κ)) : List Token := ps.flatMap Piece.frame

/-- The fixed pieces leave as many parentheses open as there were. -/
def Nested (ps : List (Piece κ)) : Prop := ∀ d, depth d (skeleton ps) = some d

variable {p q : Piece κ} {ps qs : List (Piece κ)} {parts : List (List (Piece κ))}
  {text : String} {tokens : List Token} {identifiers : List String}

section Atoms

theorem scan_start_quote (rest : List Char) :
    lex ('"' :: rest) = (LexState.identifier []).scan rest := by
  rw [lex, LexState.scan_cons]
  rfl

theorem lex_identifier_cons {text : String} (h : Enclosed text) {c : Char} {rest : List Char}
    (hc : c ≠ '"') : lex ((quotedIdentifier text).toList ++ c :: rest) =
      .identifier text :: lex (c :: rest) := by
  have hne : text.toList ≠ [] := by simpa using h.1
  have hgap : lex (c :: rest) = (LexState.start c).1 ++ (LexState.start c).2.scan rest :=
    LexState.scan_cons
  rw [hgap]
  simp only [quotedIdentifier, String.toList_append]
  change lex ('"' :: text.toList ++ ['"'] ++ c :: rest) = _
  rw [List.append_assoc, List.cons_append, scan_start_quote, LexState.scan_append,
    run_identifier h.2]
  simp [LexState.scan_cons, LexState.step, LexState.next, hc, LexState.finish, LexState.spelled,
    hne]

theorem lex_dot {c : Char} (hc : c = '"' ∨ c = '*') (rest : List Char) :
    lex ('.' :: c :: rest) = .symbol '.' :: lex (c :: rest) := by
  rcases hc with rfl | rfl <;> simp only [lex, LexState.scan_cons] <;> rfl

theorem lex_quotedIdentifier {text : String} (h : Enclosed text) :
    lex (quotedIdentifier text).toList = [.identifier text] := by
  have hne : text.toList ≠ [] := by simpa using h.1
  have hlex := lex_identifier hne h.2
  rw [String.ofList_toList] at hlex
  rw [← hlex]
  simp [quotedIdentifier]

theorem lex_name (hne : identifiers ≠ []) (h : ∀ identifier ∈ identifiers, Enclosed identifier) :
    lex (Piece.name identifiers : Piece κ).text.toList =
      (Piece.name identifiers : Piece κ).tokens := by
  simp only [Piece.text, Piece.tokens]
  induction identifiers with
  | nil => exact absurd rfl hne
  | cons i identifiers ih =>
    rw [List.forall_mem_cons] at h
    cases identifiers with
    | nil => simpa using lex_quotedIdentifier h.1
    | cons j identifiers =>
      have hrest := ih (List.cons_ne_nil _ _) h.2
      obtain ⟨rest, hquote⟩ : ∃ rest,
          (".".intercalate ((j :: identifiers).map quotedIdentifier)).toList = '"' :: rest := by
        cases identifiers <;> simp [quotedIdentifier]
      rw [List.map_cons, List.map_cons, String.intercalate_cons_cons, ← List.map_cons,
        String.append_assoc, String.toList_append, String.toList_append, hquote]
      change lex ((quotedIdentifier i).toList ++ '.' :: '"' :: rest) = _
      rw [lex_identifier_cons h.1 (by decide), lex_dot (.inl rfl), ← hquote, hrest]
      simp

theorem lex_columns {row : String} (h : Enclosed row) :
    lex (Piece.columns row : Piece κ).text.toList = (Piece.columns row : Piece κ).tokens := by
  rw [Piece.text, String.toList_append]
  change lex ((quotedIdentifier row).toList ++ '.' :: ['*']) = _
  rw [lex_identifier_cons h (by decide), lex_dot (.inr rfl)]
  rfl

theorem lex_literal : lex (Piece.literal text : Piece κ).text.toList = [.literal text] := by
  have hlex := lex_quoted text.toList
  rw [String.ofList_toList] at hlex
  rw [← hlex]
  simp [Piece.text, quoted, doubled]

theorem lex_param {column : κ} {p : Param} :
    lex (Piece.param column p).text.toList = (Piece.param column p).tokens := by
  have htext : (Piece.param column p).text.toList =
      ('$' :: (toString p.index).toList) ++ (':' :: ':' :: p.sqlType.toList) := by
    simp [Piece.text, Param.text]
  have hcast : lex (':' :: ':' :: p.sqlType.toList) = .cast :: lex p.sqlType.toList := by
    simp only [lex, LexState.scan_cons]
    rfl
  have hdelimited : Delimited (':' :: ':' :: p.sqlType.toList) := by
    intro c hc
    cases hc
    rfl
  have hjunk : .junk ∉ lex ('$' :: (toString p.index).toList) := by
    rw [lex_placeholder]
    simp
  rw [htext, lex_append hjunk hdelimited, lex_placeholder, hcast]
  rfl

end Atoms

theorem depth_name (identifiers : List String) (d : ℕ) :
    depth d (Piece.name identifiers : Piece κ).tokens = some d := by
  rw [Piece.tokens]
  induction identifiers with
  | nil => rfl
  | cons i identifiers ih =>
    cases identifiers with
    | nil => rfl
    | cons j identifiers =>
      simp only [List.map_cons, List.intersperse_cons_cons, depth] at ih ⊢
      exact ih

theorem placeholders_name (identifiers : List String) :
    placeholders (Piece.name identifiers : Piece κ).tokens = [] := by
  rw [Piece.tokens]
  induction identifiers with
  | nil => rfl
  | cons i identifiers ih =>
    cases identifiers with
    | nil => rfl
    | cons j identifiers =>
      simp only [List.map_cons, List.intersperse_cons_cons] at ih ⊢
      simpa [placeholders, placeholder?] using ih

theorem Piece.Plain.depth (h : p.Plain) (d : ℕ) : Sql.depth d p.tokens = Sql.depth d p.frame := by
  cases p with
  | fixed text tokens => rfl
  | name identifiers => exact depth_name identifiers d
  | columns | literal | number => rfl
  | param column p => exact h.1.depth d
  | raw => exact h.elim

theorem depth_tokensOf (hplain : ∀ p ∈ ps, p.Plain) (d : ℕ) :
    depth d (tokensOf ps) = depth d (skeleton ps) := by
  induction ps generalizing d with
  | nil => rfl
  | cons p ps ih =>
    rw [List.forall_mem_cons] at hplain
    rw [tokensOf, skeleton, List.flatMap_cons, List.flatMap_cons, depth_append, depth_append,
      hplain.1.depth]
    exact congrArg (Option.bind _) (funext (ih hplain.2))

theorem Piece.Plain.lex (h : p.Plain) (hwritten : p.written = true) :
    lex p.text.toList = p.tokens ∧ .junk ∉ p.tokens ∧
      placeholders p.tokens = (p.slot?.map fun slot => slot.2.index).toList := by
  cases p with
  | fixed text tokens =>
    simp only [Piece.written, fits, Bool.and_eq_true, decide_eq_true_eq] at hwritten
    obtain ⟨⟨hlex, hjunk⟩, hplaceholders⟩ := hwritten
    exact ⟨hlex, hjunk, hplaceholders⟩
  | name identifiers =>
    exact ⟨lex_name h.1 h.2, junk_notMem (depth_name identifiers 0), placeholders_name identifiers⟩
  | columns row => exact ⟨lex_columns h, by simp [Piece.tokens], rfl⟩
  | literal text => exact ⟨lex_literal, by simp [Piece.tokens], rfl⟩
  | number n => exact ⟨lex_number n, by simp [Piece.tokens], rfl⟩
  | param column p =>
    refine ⟨lex_param, ?_, ?_⟩
    · simpa [Piece.tokens] using junk_notMem h.1
    · simpa [Piece.tokens, placeholders, placeholder?, Piece.slot?] using h.2
  | raw => exact h.elim

theorem Piece.delimited (h : q.delimits = true) (rest : List Char) :
    Delimited (q.text.toList ++ rest) := by
  cases q with
  | fixed text tokens =>
    simp only [Piece.delimits, startsApart, Option.any_eq_true] at h
    obtain ⟨c, hc, hdelimiter⟩ := h
    intro c' hc'
    rw [Piece.text, List.head?_append, hc] at hc'
    cases hc'
    exact hdelimiter
  | _ => cases h

/-- Plain pieces that are kept apart are lexed one by one. -/
theorem Spaced.lex (h : Spaced ps) (hplain : ∀ p ∈ ps, p.Plain) :
    lex (textOf ps).toList = tokensOf ps := by
  induction ps with
  | nil => rfl
  | cons p ps ih =>
    rw [List.forall_mem_cons] at hplain
    obtain ⟨hwritten, hapart⟩ := h
    rw [List.forall_mem_cons] at hwritten
    obtain ⟨hlex, hjunk, -⟩ := hplain.1.lex hwritten.1
    have hps := ih ⟨hwritten.2, hapart.tail⟩ hplain.2
    have happend : Sql.lex (p.text.toList ++ (textOf ps).toList) =
        Sql.lex p.text.toList ++ Sql.lex (textOf ps).toList := by
      cases ps with
      | nil => simp [textOf, Sql.lex, LexState.scan, LexState.run, LexState.finish]
      | cons q ps =>
        rcases (List.isChain_cons_cons.mp hapart).1 with hclean | hdelimits
        · apply lex_append_of_gap
          cases p with
          | fixed => simpa [Piece.clean, endsClean, Piece.text] using hclean
          | _ => cases hclean
        · apply lex_append (hlex ▸ hjunk)
          rw [textOf, String.toList_append]
          exact Piece.delimited hdelimits _
    rw [textOf, String.toList_append, happend, hlex, hps]
    rfl

theorem Spaced.placeholders (h : Spaced ps) (hplain : ∀ p ∈ ps, p.Plain) :
    placeholders (tokensOf ps) = (slots ps).map fun slot => slot.2.index := by
  induction ps with
  | nil => rfl
  | cons p ps ih =>
    rw [List.forall_mem_cons] at hplain
    obtain ⟨hwritten, hapart⟩ := h
    rw [List.forall_mem_cons] at hwritten
    obtain ⟨-, -, hslot⟩ := hplain.1.lex hwritten.1
    rw [tokensOf, List.flatMap_cons, placeholders_append, hslot, ← tokensOf,
      ih ⟨hwritten.2, hapart.tail⟩ hplain.2, slots, slots, List.filterMap_cons]
    cases p.slot? <;> rfl

section Parts

theorem textOf_append : textOf (ps ++ qs) = textOf ps ++ textOf qs := by
  induction ps with
  | nil => simp [textOf]
  | cons p ps ih => simp [textOf, ih, String.append_assoc]

theorem slots_append : slots (ps ++ qs) = slots ps ++ slots qs := List.filterMap_append

theorem joined_cons_cons {a b : List (Piece κ)} :
    joined p (a :: b :: parts) = a ++ p :: joined p (b :: parts) := by
  rw [joined, List.intercalate_cons_cons, ← joined]
  simp

theorem textOf_joined :
    textOf (joined p parts) = p.text.intercalate (parts.map textOf) := by
  induction parts with
  | nil => simp [joined, textOf]
  | cons a parts ih =>
    cases parts with
    | nil => simp [joined]
    | cons b parts =>
      rw [joined_cons_cons, textOf_append, textOf, ih]
      simp [String.append_assoc]

theorem mem_joined (h : q ∈ joined p parts) : q = p ∨ ∃ part ∈ parts, q ∈ part := by
  induction parts with
  | nil => simp [joined] at h
  | cons a parts ih =>
    cases parts with
    | nil =>
      rw [joined, List.intercalate_singleton] at h
      exact .inr ⟨a, List.mem_cons_self, h⟩
    | cons b parts =>
      rw [joined_cons_cons, List.mem_append, List.mem_cons] at h
      rcases h with h | rfl | h
      · exact .inr ⟨a, List.mem_cons_self, h⟩
      · exact .inl rfl
      · rcases ih h with h | ⟨part, hpart, h⟩
        · exact .inl h
        · exact .inr ⟨part, List.mem_cons_of_mem _ hpart, h⟩

theorem slots_joined (hp : p.slot? = none) : slots (joined p parts) = parts.flatMap slots := by
  induction parts with
  | nil => rfl
  | cons a parts ih =>
    cases parts with
    | nil => simp [joined]
    | cons b parts =>
      have hrest : slots (p :: joined p (b :: parts)) = slots (joined p (b :: parts)) := by
        rw [slots, List.filterMap_cons, hp]
        rfl
      rw [joined_cons_cons, slots_append, hrest, ih]
      rfl

theorem depth_skeleton_append (h : Nested ps) (d : ℕ) :
    depth d (skeleton (ps ++ qs)) = depth d (skeleton qs) := by
  rw [skeleton, List.flatMap_append, depth_append, ← skeleton, h d]
  rfl

theorem depth_skeleton_fixed {text : String} {tokens : List Token} (d : ℕ) :
    depth d (skeleton (.fixed text tokens :: ps)) =
      (depth d tokens).bind fun e => depth e (skeleton ps) := by
  rw [skeleton, List.flatMap_cons, depth_append]
  rfl

theorem depth_skeleton_cons (h : p.frame = []) (d : ℕ) :
    depth d (skeleton (p :: ps)) = depth d (skeleton ps) := by
  rw [skeleton, List.flatMap_cons, h]
  rfl

theorem Nested.joined (hp : ∀ d, depth d p.frame = some d) (h : ∀ part ∈ parts, Nested part) :
    Nested (joined p parts) := by
  induction parts with
  | nil => exact fun _ => rfl
  | cons a parts ih =>
    rw [List.forall_mem_cons] at h
    cases parts with
    | nil =>
      rw [Sql.joined, List.intercalate_singleton]
      exact h.1
    | cons b parts =>
      intro d
      rw [joined_cons_cons, depth_skeleton_append h.1, skeleton, List.flatMap_cons, depth_append,
        hp d]
      exact ih h.2 d

theorem Spaced.append (hdelimits : q.delimits = true) :
    Spaced (ps ++ q :: qs) ↔ Spaced ps ∧ Spaced (q :: qs) := by
  constructor
  · rintro ⟨hwritten, hapart⟩
    rw [List.forall_mem_append] at hwritten
    obtain ⟨hps, hqs, -⟩ := List.isChain_append.mp hapart
    exact ⟨⟨hwritten.1, hps⟩, hwritten.2, hqs⟩
  · rintro ⟨hps, hqs⟩
    refine ⟨List.forall_mem_append.mpr ⟨hps.written, hqs.written⟩, ?_⟩
    refine List.isChain_append.mpr ⟨hps.apart, hqs.apart, ?_⟩
    rintro x - y hy
    cases hy
    exact .inr hdelimits

/-- The pieces end, or go on with a delimiter. -/
def Apart (ps : List (Piece κ)) : Prop := ∀ p ∈ ps.head?, p.delimits = true

theorem apart_nil : Apart ([] : List (Piece κ)) := nofun

theorem apart_cons (h : p.delimits = true) : Apart (p :: ps) := by
  intro q hq
  cases hq
  exact h

theorem Spaced.append_apart (h : Apart qs) : Spaced (ps ++ qs) ↔ Spaced ps ∧ Spaced qs := by
  cases qs with
  | nil =>
    rw [List.append_nil]
    exact (and_iff_left ⟨nofun, .nil⟩).symm
  | cons q qs => exact Spaced.append (h q rfl)

theorem Spaced.cons_clean (hwritten : p.written = true) (hclean : p.clean = true) :
    Spaced (p :: ps) ↔ Spaced ps := by
  constructor
  · rintro ⟨h, hapart⟩
    exact ⟨(List.forall_mem_cons.mp h).2, hapart.tail⟩
  · rintro ⟨h, hapart⟩
    exact ⟨List.forall_mem_cons.mpr ⟨hwritten, h⟩,
      List.isChain_cons.mpr ⟨fun _ _ => .inl hclean, hapart⟩⟩

theorem Spaced.fixed {text : String} {tokens : List Token} (hfits : fits text tokens = true)
    (hclean : endsClean text = true) : Spaced (.fixed text tokens :: ps) ↔ Spaced ps :=
  Spaced.cons_clean hfits hclean

theorem Spaced.append_fixed {text : String} {tokens : List Token}
    (hapart : startsApart text = true) :
    Spaced (ps ++ .fixed text tokens :: qs) ↔ Spaced ps ∧ Spaced (.fixed text tokens :: qs) :=
  Spaced.append hapart

theorem Spaced.cons_delimited (hwritten : p.written = true) (hdelimits : q.delimits = true) :
    Spaced (p :: q :: qs) ↔ Spaced (q :: qs) := by
  have hsingle : Spaced [p] := ⟨by simpa using hwritten, .singleton p⟩
  rw [← List.singleton_append, Spaced.append hdelimits]
  exact and_iff_right hsingle

theorem Spaced.nil : Spaced ([] : List (Piece κ)) := ⟨nofun, .nil⟩

theorem Spaced.single (hwritten : p.written = true) : Spaced [p] :=
  ⟨by simpa using hwritten, .singleton p⟩

theorem Spaced.joined (hwritten : p.written = true) (hclean : p.clean = true)
    (hdelimits : p.delimits = true) (h : ∀ part ∈ parts, Spaced part) :
    Spaced (joined p parts) := by
  induction parts with
  | nil => exact .nil
  | cons a parts ih =>
    rw [List.forall_mem_cons] at h
    cases parts with
    | nil =>
      rw [Sql.joined, List.intercalate_singleton]
      exact h.1
    | cons b parts =>
      rw [joined_cons_cons, Spaced.append hdelimits, Spaced.cons_clean hwritten hclean]
      exact ⟨h.1, ih h.2⟩

end Parts

end Lists

end Sql
