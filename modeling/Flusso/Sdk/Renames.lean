import Flusso.Foundation.Casing
import Flusso.Foundation.Separators

/-! # Renaming rules

The rules of serde for the names of fields and of variants, as it publishes them, and
the derives' own. The derives split a name into its words, which loses underscores.
-/

namespace Flusso.Sdk

inductive RenameRule where
  | lowercase
  | uppercase
  | pascal
  | camel
  | snake
  | screamingSnake
  | kebab
  | screamingKebab
  deriving DecidableEq

namespace RenameRule

def text : RenameRule → String
  | lowercase => "lowercase"
  | uppercase => "UPPERCASE"
  | pascal => "PascalCase"
  | camel => "camelCase"
  | snake => "snake_case"
  | screamingSnake => "SCREAMING_SNAKE_CASE"
  | kebab => "kebab-case"
  | screamingKebab => "SCREAMING-KEBAB-CASE"

def all : List RenameRule :=
  [lowercase, uppercase, pascal, camel, snake, screamingSnake, kebab, screamingKebab]

def ofText (text : String) : Option RenameRule := all.find? fun rule => rule.text = text

theorem text_of_ofText {text : String} {rule : RenameRule} (h : ofText text = some rule) :
    rule.text = text := by
  have hfound := List.find?_some h
  simpa using hfound

end RenameRule

/-- Which characters are capital letters, beyond those of ASCII. -/
class UnicodeCase where
  isUppercase : Char → Bool
  ascii : ∀ c : Char, c.isUpper = true → isUppercase c = true

namespace Serde

def pascalField (capitalize : Bool) : List Char → List Char
  | [] => []
  | ch :: rest =>
    if ch = '_' then pascalField true rest
    else if capitalize then ch.toUpper :: pascalField false rest
    else ch :: pascalField false rest

/-- The first byte in lower case; a name without one, or a longer first character, is refused. -/
def lowerFirst : List Char → Option (List Char)
  | [] => none
  | ch :: rest => if ch.toNat < 128 then some (ch.toLower :: rest) else none

def hyphened (name : List Char) : List Char := name.map fun ch => if ch = '_' then '-' else ch

def applyToField (name : List Char) : RenameRule → Option (List Char)
  | .lowercase | .snake => some name
  | .uppercase | .screamingSnake => some (name.map Char.toUpper)
  | .pascal => some (pascalField true name)
  | .camel => lowerFirst (pascalField true name)
  | .kebab => some (hyphened name)
  | .screamingKebab => some (hyphened (name.map Char.toUpper))

variable [UnicodeCase]

def snakeVariant : List Char → List Char
  | [] => []
  | first :: rest => first.toLower :: rest.flatMap fun ch =>
    (if UnicodeCase.isUppercase ch then ['_'] else []) ++ [ch.toLower]

def applyToVariant (name : List Char) : RenameRule → Option (List Char)
  | .pascal => some name
  | .lowercase => some (name.map Char.toLower)
  | .uppercase => some (name.map Char.toUpper)
  | .camel => lowerFirst name
  | .snake => some (snakeVariant name)
  | .screamingSnake => some ((snakeVariant name).map Char.toUpper)
  | .kebab => some (hyphened (snakeVariant name))
  | .screamingKebab => some (hyphened ((snakeVariant name).map Char.toUpper))

end Serde

section Derive

def capitalize : List Char → List Char
  | [] => []
  | first :: rest => first.toUpper :: rest

/-- The words of a field's name. -/
def words (name : List Char) : List (List Char) :=
  (name.splitOn '_').filter fun word => !word.isEmpty

/-- The first word as it is, and the others capitalized. -/
def camelWords : List (List Char) → List Char
  | [] => []
  | word :: rest => word ++ (rest.map capitalize).flatten

def applyRenameAll (name : List Char) (rule : String) : List Char :=
  match rule with
  | "camelCase" => camelWords (words name)
  | "PascalCase" => ((words name).map capitalize).flatten
  | "SCREAMING_SNAKE_CASE" => name.map Char.toUpper
  | "kebab-case" => ['-'].intercalate (words name)
  | "SCREAMING-KEBAB-CASE" => (['-'].intercalate (words name)).map Char.toUpper
  | "lowercase" => (words name).flatten.map Char.toLower
  | "UPPERCASE" => (words name).flatten.map Char.toUpper
  | _ => name

/-- One more character of a variant's name: a capital letter starts a word. -/
def pushChar (words : List (List Char)) (ch : Char) : List (List Char) :=
  let words := if ch.isUpper || words.isEmpty then words ++ [[]] else words
  words.dropLast ++ [words.getLast?.getD [] ++ [ch.toLower]]

def variantWords (name : List Char) : List (List Char) := name.foldl pushChar []

def renameVariant (name : List Char) (rule : String) : List Char :=
  match rule with
  | "lowercase" => (variantWords name).flatten
  | "UPPERCASE" => (variantWords name).flatten.map Char.toUpper
  | "PascalCase" => name
  | "camelCase" => camelWords (variantWords name)
  | "snake_case" => ['_'].intercalate (variantWords name)
  | "SCREAMING_SNAKE_CASE" => (['_'].intercalate (variantWords name)).map Char.toUpper
  | "kebab-case" => ['-'].intercalate (variantWords name)
  | "SCREAMING-KEBAB-CASE" => (['-'].intercalate (variantWords name)).map Char.toUpper
  | _ => name

end Derive

section Fields

/-- Where the derive's rule for fields is serde's. -/
def RenameRule.FieldAgrees (name : List Char) : RenameRule → Prop
  | .snake | .screamingSnake | .pascal => True
  | .camel => ∀ ch, (name.dropWhile (· = '_')).head? = some ch → ch.isUpper = false
  | .kebab | .screamingKebab => [] ∉ name.splitOn '_'
  | .lowercase => '_' ∉ name ∧ ∀ ch ∈ name, ch.isUpper = false
  | .uppercase => '_' ∉ name

variable {name key : List Char}

theorem words_bar (name : List Char) : words ('_' :: name) = words name := by
  simp [words, List.splitOn_cons_eq_if_modifyHead]

theorem pascalField_eq (name : List Char) : ∃ part parts, name.splitOn '_' = part :: parts ∧
    Serde.pascalField true name = capitalize part ++ (parts.map capitalize).flatten ∧
    Serde.pascalField false name = part ++ (parts.map capitalize).flatten := by
  induction name with
  | nil => exact ⟨[], [], by simp, rfl, rfl⟩
  | cons ch name ih =>
    obtain ⟨part, parts, hsplit, htrue, hfalse⟩ := ih
    by_cases h : ch = '_'
    · subst h
      refine ⟨[], part :: parts, ?_, ?_, ?_⟩
      · simp [List.splitOn_cons_eq_if_modifyHead, hsplit]
      · simpa [Serde.pascalField, capitalize] using htrue
      · simpa [Serde.pascalField] using htrue
    · refine ⟨ch :: part, parts, ?_, ?_, ?_⟩
      · simp [List.splitOn_cons_eq_if_modifyHead, hsplit, h]
      · simp [Serde.pascalField, h, hfalse, capitalize]
      · simp [Serde.pascalField, h, hfalse]

theorem pascalField_words (name : List Char) :
    ((words name).map capitalize).flatten = Serde.pascalField true name := by
  obtain ⟨part, parts, hsplit, htrue, -⟩ := pascalField_eq name
  have hfilter (ps : List (List Char)) :
      ((ps.filter fun word => !word.isEmpty).map capitalize).flatten =
        (ps.map capitalize).flatten := by
    induction ps with
    | nil => rfl
    | cons p ps ih =>
      cases p with
      | nil => exact ih
      | cons ch p => exact congrArg (capitalize (ch :: p) ++ ·) ih
  rw [words, hfilter, hsplit, htrue]
  rfl

theorem flatten_words (name : List Char) : (words name).flatten = name.filter (· ≠ '_') := by
  rw [words, List.flatten_filter_not_isEmpty]
  induction name with
  | nil => rfl
  | cons ch name ih =>
    rw [List.splitOn_cons_eq_if_modifyHead, List.filter_cons]
    by_cases h : ch = '_'
    · simpa [h] using ih
    · obtain ⟨part, parts, hsplit, -⟩ := pascalField_eq name
      rw [hsplit] at ih ⊢
      simpa [h] using ih

theorem head?_words (name : List Char) :
    (words name).head?.bind List.head? = (name.dropWhile (· = '_')).head? := by
  induction name with
  | nil => rfl
  | cons ch name ih =>
    by_cases h : ch = '_'
    · subst h
      rw [words_bar, ih]
      rfl
    · obtain ⟨part, parts, hsplit, -⟩ := pascalField_eq name
      rw [List.dropWhile_cons_of_neg (by simpa using h), words,
        List.splitOn_cons_eq_if_modifyHead, if_neg (by simpa using h), hsplit]
      rfl

theorem length_intercalate {c : Char} (ps : List (List Char)) (h : ps ≠ []) :
    ([c].intercalate ps).length + 1 = (ps.map fun p => p.length + 1).sum := by
  obtain ⟨p, ps, rfl⟩ := List.exists_cons_of_ne_nil h
  rw [Separators.intercalate_cons]
  simp only [List.length_append, List.length_flatMap, List.length_cons, List.map_cons,
    List.sum_cons]
  omega

theorem hyphened_eq (name : List Char) :
    Serde.hyphened name = ['-'].intercalate (name.splitOn '_') := by
  induction name with
  | nil => rfl
  | cons ch name ih =>
    obtain ⟨part, parts, hsplit, -⟩ := pascalField_eq name
    have hhyphened : Serde.hyphened (ch :: name) =
        (if ch = '_' then '-' else ch) :: Serde.hyphened name := rfl
    rw [hhyphened, ih, List.splitOn_cons_eq_if_modifyHead, hsplit]
    by_cases h : ch = '_'
    · rw [if_pos h, if_pos (by simpa using h), Separators.intercalate_cons,
        Separators.intercalate_cons]
      rfl
    · rw [if_neg h, if_neg (by simpa using h), List.modifyHead_cons, Separators.intercalate_cons,
        Separators.intercalate_cons]
      rfl

theorem sum_length_parts (ps : List (List Char)) : (ps.map fun p => p.length + 1).sum =
    ((ps.filter fun p => !p.isEmpty).map fun p => p.length + 1).sum + ps.count [] := by
  induction ps with
  | nil => rfl
  | cons p ps ih =>
    cases p with
    | nil =>
      have hfilter : (([] :: ps).filter fun p : List Char => !p.isEmpty) =
          ps.filter fun p => !p.isEmpty := rfl
      rw [List.map_cons, List.sum_cons, ih, hfilter, List.count_cons_self, List.length_nil]
      omega
    | cons ch p =>
      rw [List.filter_cons_of_pos rfl, List.map_cons, List.map_cons, List.sum_cons, List.sum_cons,
        ih, List.count_cons_of_ne (by simp)]
      omega

/-- An empty part is no word and makes the text shorter. -/
theorem nil_not_mem_of_length (hname : name ≠ [])
    (h : (['-'].intercalate (words name)).length = name.length) : [] ∉ name.splitOn '_' := by
  intro hempty
  have hne : words name ≠ [] := by
    intro hnil
    rw [hnil] at h
    exact hname (List.length_eq_zero_iff.mp h.symm)
  have hcount : 0 < (name.splitOn '_').count [] := List.count_pos_iff.mpr hempty
  have hlength : (['-'].intercalate (name.splitOn '_')).length = name.length := by
    rw [← hyphened_eq, Serde.hyphened, List.length_map]
  have hparts := length_intercalate (c := '-') _ (List.splitOn_ne_nil '_' name)
  have hwords := length_intercalate (c := '-') _ hne
  rw [hlength, sum_length_parts (name.splitOn '_')] at hparts
  rw [h] at hwords
  unfold words at hwords
  omega

theorem intercalate_words (h : [] ∉ name.splitOn '_') :
    ['-'].intercalate (words name) = Serde.hyphened name := by
  have hwords : words name = name.splitOn '_' := by
    rw [words, List.filter_eq_self]
    intro part hpart
    cases part with
    | nil => exact absurd hpart h
    | cons => rfl
  rw [hwords, hyphened_eq]

theorem hyphened_map_toUpper (name : List Char) :
    Serde.hyphened (name.map Char.toUpper) = (Serde.hyphened name).map Char.toUpper := by
  simp only [Serde.hyphened, List.map_map]
  apply List.map_congr_left
  intro ch _
  have hbar : ch.toUpper = '_' ↔ ch = '_' := Casing.toUpper_eq_iff (by decide)
  by_cases h : ch = '_'
  · subst h
    rfl
  · simp [hbar, h]

/-- The derive renames a field as serde does, exactly where the rule agrees on its name. -/
theorem applyRenameAll_iff (rule : RenameRule) (hname : name ≠ [])
    (hserde : Serde.applyToField name rule = some key) :
    applyRenameAll name rule.text = key ↔ rule.FieldAgrees name := by
  cases rule with
  | snake =>
    cases hserde
    exact iff_of_true rfl trivial
  | screamingSnake =>
    cases hserde
    exact iff_of_true rfl trivial
  | pascal =>
    cases hserde
    exact iff_of_true (pascalField_words name) trivial
  | camel =>
    have happly : applyRenameAll name RenameRule.camel.text = camelWords (words name) := rfl
    rw [happly, RenameRule.FieldAgrees, ← head?_words]
    rw [Serde.applyToField, ← pascalField_words] at hserde
    cases hwords : words name with
    | nil =>
      rw [hwords] at hserde
      cases hserde
    | cons word rest =>
      have hword : word ∈ words name := hwords ▸ List.mem_cons_self
      obtain ⟨first, word, rfl⟩ : ∃ first tail, word = first :: tail := by
        cases word with
        | nil => simp [words] at hword
        | cons first tail => exact ⟨first, tail, rfl⟩
      rw [hwords] at hserde
      obtain ⟨-, hsome⟩ := Option.ite_none_right_eq_some.mp hserde
      cases hsome
      have hcamel : camelWords ((first :: word) :: rest) =
          first :: (word ++ (rest.map capitalize).flatten) := rfl
      have hkey : first.toUpper.toLower :: (word ++ (rest.map capitalize).flatten) =
          first.toLower :: (word ++ (rest.map capitalize).flatten) := by
        rw [Char.toLower_toUpper_eq_toLower]
      rw [hcamel]
      refine (Eq.congr_right hkey).trans ?_
      simp only [List.cons.injEq, and_true, List.head?_cons, Option.bind_some, Option.some.injEq,
        forall_eq']
      constructor
      · intro h
        rw [h]
        exact Char.isUpper_toLower_eq_false first
      · intro h
        exact (Char.toLower_eq_of_not_isUpper (by simp [h])).symm
  | kebab =>
    cases hserde
    constructor
    · intro h
      apply nil_not_mem_of_length hname
      have hlength := congrArg List.length h
      rwa [Serde.hyphened, List.length_map] at hlength
    · exact intercalate_words
  | screamingKebab =>
    cases hserde
    have happly : applyRenameAll name RenameRule.screamingKebab.text =
        (['-'].intercalate (words name)).map Char.toUpper := rfl
    rw [happly, hyphened_map_toUpper]
    constructor
    · intro h
      apply nil_not_mem_of_length hname
      have hlength := congrArg List.length h
      rwa [List.length_map, List.length_map, Serde.hyphened, List.length_map] at hlength
    · intro h
      rw [intercalate_words h]
  | lowercase =>
    cases hserde
    have happly : applyRenameAll name RenameRule.lowercase.text =
        (words name).flatten.map Char.toLower := rfl
    rw [happly, flatten_words]
    constructor
    · intro h
      constructor
      · intro hbar
        rw [← h] at hbar
        obtain ⟨ch, hch, hlower⟩ := List.mem_map.mp hbar
        rw [Casing.toLower_eq_iff (by decide)] at hlower
        simp [hlower] at hch
      · intro ch hch
        rw [← h] at hch
        obtain ⟨d, -, rfl⟩ := List.mem_map.mp hch
        exact Char.isUpper_toLower_eq_false d
    · rintro ⟨hbar, hupper⟩
      have hfilter : name.filter (· ≠ '_') = name := by
        rw [List.filter_eq_self]
        intro ch hch
        exact decide_eq_true fun heq => hbar (heq ▸ hch)
      rw [hfilter]
      refine (List.map_congr_left fun ch hch => ?_).trans (List.map_id name)
      exact Char.toLower_eq_of_not_isUpper (by simp [hupper ch hch])
  | uppercase =>
    cases hserde
    have happly : applyRenameAll name RenameRule.uppercase.text =
        (words name).flatten.map Char.toUpper := rfl
    rw [happly, flatten_words]
    constructor
    · intro h hbar
      have hlength := congrArg List.length h
      rw [List.length_map, List.length_map] at hlength
      have hall := List.length_filter_eq_length_iff.mp hlength
      exact absurd (hall '_' hbar) (by decide)
    · intro hbar
      have hfilter : name.filter (· ≠ '_') = name := by
        rw [List.filter_eq_self]
        intro ch hch
        exact decide_eq_true fun heq => hbar (heq ▸ hch)
      rw [hfilter]

end Fields

section Variants

/-- The words of a variant after a word that is begun. -/
def wordsFrom (word : List Char) : List Char → List (List Char)
  | [] => [word]
  | ch :: rest =>
    if ch.isUpper then word :: wordsFrom [ch.toLower] rest
    else wordsFrom (word ++ [ch.toLower]) rest

variable {name key word : List Char}

theorem foldl_pushChar (rest : List Char) (ws : List (List Char)) (word : List Char) :
    rest.foldl pushChar (ws ++ [word]) = ws ++ wordsFrom word rest := by
  induction rest generalizing ws word with
  | nil => rfl
  | cons ch rest ih =>
    rw [List.foldl_cons, wordsFrom]
    by_cases h : ch.isUpper = true
    · have hpush : pushChar (ws ++ [word]) ch = (ws ++ [word]) ++ [[ch.toLower]] := by
        simp [pushChar, h]
      rw [hpush, ih, if_pos h, List.append_assoc]
      rfl
    · have hpush : pushChar (ws ++ [word]) ch = ws ++ [word ++ [ch.toLower]] := by
        simp [pushChar, h]
      rw [hpush, ih, if_neg h]

theorem variantWords_cons (ch : Char) (rest : List Char) :
    variantWords (ch :: rest) = wordsFrom [ch.toLower] rest := by
  have hpush : pushChar [] ch = [] ++ [[ch.toLower]] := by simp [pushChar]
  rw [variantWords, List.foldl_cons, hpush, foldl_pushChar, List.nil_append]

theorem exists_wordsFrom (word rest : List Char) :
    ∃ front ws, wordsFrom word rest = front :: ws := by
  induction rest generalizing word with
  | nil => exact ⟨word, [], rfl⟩
  | cons ch rest ih =>
    rw [wordsFrom]
    split
    · exact ⟨word, _, rfl⟩
    · exact ih _

theorem intercalate_wordsFrom (c : Char) (word rest : List Char) :
    [c].intercalate (wordsFrom word rest) =
      word ++ rest.flatMap fun ch => (if ch.isUpper then [c] else []) ++ [ch.toLower] := by
  induction rest generalizing word with
  | nil => simp [wordsFrom]
  | cons ch rest ih =>
    rw [wordsFrom, List.flatMap_cons]
    split
    · obtain ⟨front, ws, hws⟩ := exists_wordsFrom [ch.toLower] rest
      rw [hws, List.intercalate_cons_cons, ← hws, ih]
      simp
    · rw [ih]
      simp

theorem flatten_wordsFrom (word rest : List Char) :
    (wordsFrom word rest).flatten = word ++ rest.map Char.toLower := by
  induction rest generalizing word with
  | nil => simp [wordsFrom]
  | cons ch rest ih =>
    rw [wordsFrom]
    split
    · rw [List.flatten_cons, ih]
      rfl
    · rw [ih]
      simp

theorem toUpper_toLower_of_isUpper {ch : Char} (h : ch.isUpper = true) :
    ch.toLower.toUpper = ch := by
  rw [Char.toUpper_toLower_eq_toUpper]
  exact Char.toUpper_eq_of_not_isLower (Char.not_isLower_of_isUpper h)

theorem capitalize_wordsFrom (first : Char) (word rest : List Char) :
    ((wordsFrom (first :: word) rest).map capitalize).flatten =
      capitalize (first :: word) ++ rest := by
  induction rest generalizing first word with
  | nil => simp [wordsFrom]
  | cons ch rest ih =>
    rw [wordsFrom]
    split
    · next h =>
      rw [List.map_cons, List.flatten_cons, ih]
      simp [capitalize, toUpper_toLower_of_isUpper h]
    · next h =>
      rw [List.cons_append, ih]
      simp [capitalize, Char.toLower_eq_of_not_isUpper h]

theorem camelWords_wordsFrom (word rest : List Char) :
    camelWords (wordsFrom word rest) = word ++ rest := by
  induction rest generalizing word with
  | nil => simp [wordsFrom, camelWords]
  | cons ch rest ih =>
    rw [wordsFrom]
    split
    · next h =>
      rw [camelWords, capitalize_wordsFrom]
      simp [capitalize, toUpper_toLower_of_isUpper h]
    · next h =>
      rw [ih]
      simp [Char.toLower_eq_of_not_isUpper h]

variable [UnicodeCase]

/-- Where the derive's rule for variants is serde's. -/
def RenameRule.VariantAgrees (name : List Char) : RenameRule → Prop
  | .pascal | .lowercase | .uppercase | .camel => True
  | .snake | .screamingSnake =>
    ∀ ch ∈ name.tail, UnicodeCase.isUppercase ch = true → ch.isUpper = true
  | .kebab | .screamingKebab =>
    (∀ ch ∈ name.tail, UnicodeCase.isUppercase ch = true → ch.isUpper = true) ∧ '_' ∉ name

omit [UnicodeCase] in
theorem length_separated (p : Char → Bool) (c : Char) (f : Char → Char) (rest : List Char) :
    (rest.flatMap fun ch => (if p ch then [c] else []) ++ [f ch]).length =
      rest.length + rest.countP p := by
  induction rest with
  | nil => rfl
  | cons ch rest ih =>
    rw [List.flatMap_cons, List.length_append, ih, List.countP_cons]
    cases p ch <;> simp <;> omega

theorem isUpper_of_countP {rest : List Char}
    (h : rest.countP Char.isUpper = rest.countP UnicodeCase.isUppercase) :
    ∀ ch ∈ rest, UnicodeCase.isUppercase ch = true → ch.isUpper = true := by
  induction rest with
  | nil => nofun
  | cons ch rest ih =>
    have hle : rest.countP Char.isUpper ≤ rest.countP UnicodeCase.isUppercase :=
      List.countP_mono_left fun c _ => UnicodeCase.ascii c
    rw [List.countP_cons, List.countP_cons] at h
    rw [List.forall_mem_cons]
    by_cases hupper : ch.isUpper = true
    · rw [if_pos hupper, if_pos (UnicodeCase.ascii ch hupper)] at h
      exact ⟨fun _ => hupper, ih (by omega)⟩
    · rw [if_neg hupper] at h
      by_cases hcase : UnicodeCase.isUppercase ch = true
      · rw [if_pos hcase] at h
        omega
      · rw [if_neg hcase] at h
        exact ⟨fun hc => absurd hc hcase, ih (by omega)⟩

theorem isUppercase_eq {rest : List Char}
    (h : ∀ ch ∈ rest, UnicodeCase.isUppercase ch = true → ch.isUpper = true) :
    ∀ ch ∈ rest, UnicodeCase.isUppercase ch = ch.isUpper := by
  intro ch hch
  rw [Bool.eq_iff_iff]
  exact ⟨h ch hch, UnicodeCase.ascii ch⟩

/-- The derive's words behind one another. -/
def joinedVariant (c : Char) (name : List Char) : List Char := [c].intercalate (variantWords name)

omit [UnicodeCase] in
theorem joinedVariant_cons (c first : Char) (rest : List Char) : joinedVariant c (first :: rest) =
    first.toLower :: rest.flatMap fun ch => (if ch.isUpper then [c] else []) ++ [ch.toLower] := by
  rw [joinedVariant, variantWords_cons, intercalate_wordsFrom]
  rfl

theorem length_snakeVariant_iff (c : Char) (name : List Char) :
    (joinedVariant c name).length = (Serde.snakeVariant name).length →
      ∀ ch ∈ name.tail, UnicodeCase.isUppercase ch = true → ch.isUpper = true := by
  intro h
  cases name with
  | nil => nofun
  | cons first rest =>
    rw [joinedVariant_cons, Serde.snakeVariant, List.length_cons, List.length_cons,
      length_separated, length_separated UnicodeCase.isUppercase] at h
    exact @isUpper_of_countP _ rest (by omega)

theorem joinedVariant_eq (h : ∀ ch ∈ name.tail, UnicodeCase.isUppercase ch = true →
    ch.isUpper = true) : joinedVariant '_' name = Serde.snakeVariant name := by
  cases name with
  | nil => rfl
  | cons first rest =>
    rw [joinedVariant_cons, Serde.snakeVariant]
    congr 1
    apply List.flatMap_congr
    intro ch hch
    rw [isUppercase_eq h ch hch]

omit [UnicodeCase] in
theorem hyphened_joinedVariant (h : '_' ∉ name) :
    Serde.hyphened (joinedVariant '_' name) = joinedVariant '-' name := by
  have hkept {ch : Char} (hch : ch ∈ name) :
      (if ch.toLower = '_' then '-' else ch.toLower) = ch.toLower := by
    rw [if_neg]
    intro hbar
    rw [Casing.toLower_eq_iff (by decide)] at hbar
    exact h (hbar ▸ hch)
  cases name with
  | nil => rfl
  | cons first rest =>
    rw [joinedVariant_cons, joinedVariant_cons, Serde.hyphened, List.map_cons,
      hkept List.mem_cons_self, List.map_flatMap]
    congr 1
    apply List.flatMap_congr
    intro ch hch
    have hch := hkept (List.mem_cons_of_mem _ hch)
    split
    · simpa using hch
    · simpa using hch

omit [UnicodeCase] in
theorem bar_mem_joinedVariant {c : Char} (h : '_' ∈ name) : '_' ∈ joinedVariant c name := by
  cases name with
  | nil => cases h
  | cons first rest =>
    rw [joinedVariant_cons]
    rcases List.mem_cons.mp h with rfl | h
    · exact List.mem_cons_self
    · exact List.mem_cons_of_mem _ (List.mem_flatMap.mpr ⟨'_', h, by simp⟩)

omit [UnicodeCase] in
theorem bar_not_mem_hyphened (name : List Char) : '_' ∉ Serde.hyphened name := by
  intro h
  obtain ⟨ch, -, hch⟩ := List.mem_map.mp h
  split at hch
  · cases hch
  · next hne => exact hne hch

theorem renameVariant_iff (rule : RenameRule) (hserde : Serde.applyToVariant name rule = some key) :
    renameVariant name rule.text = key ↔ rule.VariantAgrees name := by
  have hflatten (name : List Char) : (variantWords name).flatten = name.map Char.toLower := by
    cases name with
    | nil => rfl
    | cons first rest => rw [variantWords_cons, flatten_wordsFrom]; rfl
  cases rule with
  | pascal =>
    cases hserde
    exact iff_of_true rfl trivial
  | lowercase =>
    cases hserde
    exact iff_of_true (hflatten name) trivial
  | uppercase =>
    cases hserde
    refine iff_of_true ?_ trivial
    have hupper : renameVariant name RenameRule.uppercase.text =
        (variantWords name).flatten.map Char.toUpper := rfl
    rw [hupper, hflatten, List.map_map]
    exact List.map_congr_left fun ch _ => Char.toUpper_toLower_eq_toUpper ch
  | camel =>
    refine iff_of_true ?_ trivial
    cases name with
    | nil => cases hserde
    | cons first rest =>
      obtain ⟨-, hsome⟩ := Option.ite_none_right_eq_some.mp hserde
      cases hsome
      have hcamel : renameVariant (first :: rest) RenameRule.camel.text =
          camelWords (variantWords (first :: rest)) := rfl
      rw [hcamel, variantWords_cons, camelWords_wordsFrom]
      rfl
  | snake =>
    cases hserde
    constructor
    · intro h
      exact length_snakeVariant_iff '_' name (congrArg List.length h)
    · exact joinedVariant_eq
  | screamingSnake =>
    cases hserde
    constructor
    · intro h
      have hlength := congrArg List.length h
      rw [List.length_map] at hlength
      exact length_snakeVariant_iff '_' name ((List.length_map _).symm.trans hlength)
    · intro h
      exact congrArg (List.map Char.toUpper) (joinedVariant_eq h)
  | kebab =>
    cases hserde
    constructor
    · intro h
      have hlength := congrArg List.length h
      rw [Serde.hyphened, List.length_map] at hlength
      refine ⟨length_snakeVariant_iff '-' name hlength, fun hbar => ?_⟩
      have hmem : '_' ∈ joinedVariant '-' name := bar_mem_joinedVariant hbar
      rw [joinedVariant, show ['-'].intercalate (variantWords name) = _ from h] at hmem
      exact bar_not_mem_hyphened _ hmem
    · rintro ⟨h, hbar⟩
      rw [← joinedVariant_eq h, hyphened_joinedVariant hbar]
      rfl
  | screamingKebab =>
    cases hserde
    constructor
    · intro h
      have hlength := congrArg List.length h
      rw [Serde.hyphened, List.length_map, List.length_map] at hlength
      refine ⟨length_snakeVariant_iff '-' name ((List.length_map _).symm.trans hlength),
        fun hbar => ?_⟩
      have hmem : '_' ∈ (joinedVariant '-' name).map Char.toUpper :=
        List.mem_map.mpr ⟨'_', bar_mem_joinedVariant hbar, rfl⟩
      rw [joinedVariant, show (['-'].intercalate (variantWords name)).map Char.toUpper = _ from h]
        at hmem
      exact bar_not_mem_hyphened _ hmem
    · rintro ⟨h, hbar⟩
      rw [hyphened_map_toUpper, ← joinedVariant_eq h, hyphened_joinedVariant hbar]
      rfl

end Variants

end Flusso.Sdk
