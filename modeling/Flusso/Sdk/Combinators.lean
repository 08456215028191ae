import Flusso.Sdk.Readings

/-! # What composed queries match

A bool query matches by what its clauses match. Conjunctions and negations mean
what they say; a disjunction does unless it joins a group of alternatives whose
`minimum_should_match` then counts one clause more.
-/

namespace Flusso

namespace BoolInner

/-- A rendered bool query matches by what its rendered clauses match. -/
theorem searchMatches_toValue {Doc : Type} [Searches Doc] {doc : Doc} (b : BoolInner Json) :
    searchMatches doc b.toValue =
      (b.map fun query => searchMatches doc query).holds (Searches.required Doc) := by
  have hread : searchMatches doc = (QueryReading.matching doc).read :=
    funext (QueryReading.searchMatches_eq_read doc)
  rw [hread, QueryReading.read_toValue]
  rfl

section Holds

variable {required : Json → ℕ → ℕ} {b : BoolInner Bool} {p q : Bool}

theorem holds_not : holds required { empty with mustNot := [p] } = !p := by
  simp [holds, isEmpty, empty, threshold]

theorem holds_both : holds required ((empty.push .must p).push .must q) = (p && q) := by
  simp [holds, isEmpty, empty, push, threshold]

theorem holds_either : holds required ((empty.push .should p).push .should q) = (p || q) := by
  cases p <;> cases q <;> rfl

theorem holds_push_must (hpure : b.isPure .must = true) (hne : b.isEmpty = false) :
    (b.push .must p).holds required = (b.holds required && p) := by
  obtain ⟨must, filter, should, mustNot, spec, boost⟩ := b
  simp only [isPure, Bool.and_eq_true, List.isEmpty_iff] at hpure
  obtain ⟨⟨rfl, rfl⟩, rfl⟩ := hpure
  have hmust : must.isEmpty = false := by simpa [isEmpty] using hne
  have hmust' : (must ++ [p]).isEmpty = false := by simp
  simp [holds, isEmpty, push, threshold, hmust, hmust', Bool.and_assoc, Bool.and_comm,
    Bool.and_left_comm]

/-- A group of alternatives, by the number of them that has to match. -/
theorem holds_group (hpure : b.isPure .should = true) (hne : b.isEmpty = false) :
    b.holds required = decide (max 1 ((b.minimumShouldMatch.map fun spec =>
      required spec b.should.length).getD 0) ≤ b.should.count true) := by
  obtain ⟨must, filter, should, mustNot, spec, boost⟩ := b
  simp only [isPure, Bool.and_eq_true, List.isEmpty_iff] at hpure
  obtain ⟨⟨rfl, rfl⟩, rfl⟩ := hpure
  have hshould : should.isEmpty = false := by simpa [isEmpty] using hne
  simp [holds, isEmpty, threshold, hshould]

end Holds

/-- One more alternative, matching or not, leaves the verdict of a group of alternatives with a
`minimum_should_match` to the group and to itself. -/
def Joins (required : Json → ℕ → ℕ) (b : BoolInner Bool) (p : Bool) : Prop :=
  ∀ spec, b.minimumShouldMatch = some spec →
    if p then required spec (b.should.length + 1) ≤ b.should.count true + 1
    else max 1 (required spec b.should.length) ≤ b.should.count true ↔
      max 1 (required spec (b.should.length + 1)) ≤ b.should.count true

theorem holds_push_should_iff {required : Json → ℕ → ℕ} {b : BoolInner Bool} {p : Bool}
    (hpure : b.isPure .should = true) (hne : b.isEmpty = false) :
    (b.push .should p).holds required = (b.holds required || p) ↔ b.Joins required p := by
  have hpure' : (b.push .should p).isPure .should = true := hpure
  have hne' : (b.push .should p).isEmpty = false := by simp [isEmpty, push]
  have hlength : (b.push .should p).should.length = b.should.length + 1 := by simp [push]
  have hspec : (b.push .should p).minimumShouldMatch = b.minimumShouldMatch := rfl
  rw [holds_group hpure hne, holds_group hpure' hne', hspec, hlength, Bool.eq_iff_iff,
    Bool.or_eq_true, decide_eq_true_iff, decide_eq_true_iff]
  unfold Joins
  cases p with
  | false =>
    have hcount : (b.push .should false).should.count true = b.should.count true := by simp [push]
    rw [hcount]
    cases b.minimumShouldMatch with
    | none => simp
    | some spec =>
      simp only [Option.map_some, Option.getD_some, Bool.false_eq_true, or_false, if_false,
        Option.some.injEq, forall_eq']
      exact iff_comm
  | true =>
    have hcount : (b.push .should true).should.count true = b.should.count true + 1 := by
      simp [push]
    rw [hcount]
    cases b.minimumShouldMatch with
    | none => simp
    | some spec =>
      simp only [Option.map_some, Option.getD_some, or_true, iff_true, if_true, Option.some.injEq,
        forall_eq']
      omega

end BoolInner

namespace Query

/-- Queries built from leaves by the combinators. -/
inductive Composed : Query → Prop where
  | leaf (value : Json) : Composed (.leaf value)
  | and {a b : Query} : Composed a → Composed b → Composed (a.and (some b))
  | or {a b : Query} : Composed a → Composed b → Composed (a.or (some b))
  | not {a : Query} : Composed a → Composed a.not
  | boost {a : Query} (boost : Json) : Composed a → Composed (a.boost boost)
  | minShouldMatch {a : Query} (value : MinimumShouldMatch) :
      Composed a → Composed (a.minShouldMatch value)

/-- A bool query has a clause. -/
def HasClause : Query → Prop
  | leaf _ => True
  | bool inner => inner.isEmpty = false

theorem hasClause_combine (a b : Query) (clause : Clause) : (a.combine b clause).HasClause := by
  cases a with
  | leaf value => cases clause <;> simp [combine, HasClause, BoolInner.push, BoolInner.isEmpty]
  | bool inner =>
    rw [combine]
    split <;> cases clause <;> simp [HasClause, BoolInner.push, BoolInner.isEmpty]

theorem Composed.hasClause {q : Query} (h : Composed q) : q.HasClause := by
  induction h with
  | leaf value => trivial
  | and _ _ _ _ => exact hasClause_combine _ _ .must
  | or _ _ _ _ => exact hasClause_combine _ _ .should
  | not _ _ => rfl
  | @boost a boost _ ih =>
    cases a with
    | leaf value => rfl
    | bool inner => exact ih
  | @minShouldMatch a value _ ih =>
    cases a with
    | leaf q => rfl
    | bool inner => exact ih

section Laws

variable {Doc : Type} [Searches Doc] (doc : Doc) {a b : Query}

/-- Whether a document matches a query, as it is rendered. -/
def Matches (q : Query) : Bool := searchMatches doc q.toValue

theorem toValues_eq_map (queries : List Query) : toValues queries = queries.map toValue := by
  induction queries with
  | nil => rfl
  | cons query queries ih => rw [toValues, ih, List.map_cons]

theorem matches_bool (inner : BoolInner Query) : (bool inner).Matches doc =
    (inner.map (Matches doc)).holds (Searches.required Doc) := by
  rw [Matches, toValue, BoolInner.searchMatches_toValue]
  simp only [BoolInner.map, toValues_eq_map, List.map_map]
  rfl

theorem map_push (inner : BoolInner Query) (clause : Clause) :
    (inner.push clause b).map (Matches doc) =
      (inner.map (Matches doc)).push clause (b.Matches doc) := by
  cases clause <;> simp [BoolInner.map, BoolInner.push]

theorem isPure_map (inner : BoolInner Query) (clause : Clause) :
    (inner.map (Matches doc)).isPure clause = inner.isPure clause := by
  cases clause <;> simp [BoolInner.map, BoolInner.isPure]

theorem isEmpty_map (inner : BoolInner Query) :
    (inner.map (Matches doc)).isEmpty = inner.isEmpty := by
  simp [BoolInner.map, BoolInner.isEmpty]

theorem matches_not (a : Query) : a.not.Matches doc = !a.Matches doc := by
  rw [not, matches_bool]
  exact BoolInner.holds_not

theorem matches_and (ha : a.HasClause) :
    (a.and (some b)).Matches doc = (a.Matches doc && b.Matches doc) := by
  cases a with
  | leaf value =>
    rw [and, combine, matches_bool, map_push, map_push]
    exact BoolInner.holds_both
  | bool inner =>
    rw [and, combine]
    split
    · next hpure =>
      rw [matches_bool, map_push, matches_bool]
      exact BoolInner.holds_push_must ((isPure_map doc inner _).trans hpure)
        ((isEmpty_map doc inner).trans ha)
    · rw [matches_bool, map_push, map_push]
      exact BoolInner.holds_both

/-- `b` can join `a`: `a` is not a group of alternatives with a `minimum_should_match`, or what
it asks of one alternative more leaves the verdict to `a` and `b`. -/
def Joins (a b : Query) : Prop :=
  match a with
  | leaf _ => True
  | bool inner => inner.isPure .should = true →
      (inner.map (Matches doc)).Joins (Searches.required Doc) (b.Matches doc)

theorem matches_or_iff (ha : a.HasClause) :
    (a.or (some b)).Matches doc = (a.Matches doc || b.Matches doc) ↔ Joins doc a b := by
  cases a with
  | leaf value =>
    refine iff_of_true ?_ trivial
    rw [or, combine, matches_bool, map_push, map_push]
    exact BoolInner.holds_either
  | bool inner =>
    rw [or, combine]
    split
    · next hpure =>
      rw [matches_bool, map_push, matches_bool, BoolInner.holds_push_should_iff
        ((isPure_map doc inner _).trans hpure) ((isEmpty_map doc inner).trans ha)]
      exact ⟨fun h _ => h, fun h => h hpure⟩
    · next hpure =>
      refine iff_of_true ?_ fun h => absurd h hpure
      rw [matches_bool, map_push, map_push]
      exact BoolInner.holds_either

end Laws

/-- The combinators mean what they say of two composed queries exactly when the second can join
the first. -/
theorem combinators_iff {Doc : Type} [Searches Doc] (a b : Query) (ha : Composed a)
    (doc : Doc) :
    (((a.and (some b)).Matches doc = true ↔ a.Matches doc = true ∧ b.Matches doc = true) ∧
      ((a.or (some b)).Matches doc = true ↔ a.Matches doc = true ∨ b.Matches doc = true) ∧
      (a.not.Matches doc = true ↔ ¬ a.Matches doc = true)) ↔ Joins doc a b := by
  have hand := matches_and (b := b) doc ha.hasClause
  have hor := matches_or_iff (b := b) doc ha.hasClause
  rw [Bool.eq_iff_iff, Bool.or_eq_true] at hor
  rw [hand, Bool.and_eq_true, matches_not, Bool.not_eq_true', Bool.not_eq_true, hor]
  simp

/-- Documents by their tags; a minimum is a count, a negative one of the clauses to spare. -/
instance : Searches (List String) where
  leaf query tags :=
    match query with
    | .object [("term", .object [("tag", .string tag)])] => tags.contains tag
    | _ => false
  required spec clauses :=
    match spec with
    | .number token =>
      match token.toList with
      | '-' :: digits => clauses - Nat.ofDigitChars 10 digits 0
      | digits => Nat.ofDigitChars 10 digits 0
    | _ => 0

def tagged (tag : String) : Query := leaf (.object [("term", .object [("tag", .string tag)])])

/-- Both of two alternatives. -/
def redAndGreen : Query := ((tagged "red").or (some (tagged "green"))).minShouldMatch (.count 2)

theorem combinators_iff_tags :
    (((redAndGreen.and (some (tagged "blue"))).Matches ["red", "green"] = true ↔
        redAndGreen.Matches ["red", "green"] = true ∧
          (tagged "blue").Matches ["red", "green"] = true) ∧
      ((redAndGreen.or (some (tagged "blue"))).Matches ["red", "green"] = true ↔
        redAndGreen.Matches ["red", "green"] = true ∨
          (tagged "blue").Matches ["red", "green"] = true) ∧
      (redAndGreen.not.Matches ["red", "green"] = true ↔
        ¬ redAndGreen.Matches ["red", "green"] = true)) ↔
      Joins ["red", "green"] redAndGreen (tagged "blue") :=
  combinators_iff redAndGreen (tagged "blue")
    (.minShouldMatch _ (.or (.leaf _) (.leaf _))) ["red", "green"]

/-- A blue document matches the alternative that joins the group, and not the group joined. -/
theorem not_or_of_minShouldMatch :
    (tagged "blue").Matches ["blue"] = true ∧
      (redAndGreen.or (some (tagged "blue"))).Matches ["blue"] = false := by
  decide

end Query

end Flusso
