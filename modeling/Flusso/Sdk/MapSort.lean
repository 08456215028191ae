import Flusso.Foundation.BinaryFloat
import Flusso.Sdk.Sort
import Flusso.Sink.Naming
import Mathlib.Algebra.Order.Ring.Unbundled.Rat
import Mathlib.Data.String.Basic
import Mathlib.Data.Sum.Lattice
import Mathlib.Order.WithBot

/-! # Documents without the keys of a map sort

The script gives documents without the keys the value in its parameters. Asking for
an end writes the extreme for the direction of that moment, so the value stays at the
asked end while the direction does, and while no other document's value reaches it.
-/

namespace Flusso.Sdk

section Engine

/-- A text or a number a script returns, in the order of the type. -/
abbrev SortValue := Lex (String ⊕ ℚ)

def SortValue.text (s : String) : SortValue := toLex (.inl s)

def SortValue.number (x : ℚ) : SortValue := toLex (.inr x)

/-- A document's place in a sort: a value, or before or after all values. -/
abbrev Standing := WithBot (WithTop SortValue)

def SortValue.standing (v : SortValue) : Standing := ((v : WithTop SortValue) : Standing)

/-- What a script finds under a field. -/
inductive DocValue where
  | text (s : String)
  | long (n : ℤ)
  | double (x : ℚ)
  | date (millis : ℤ)

def DocValue.kind : DocValue → MapSortValueKind
  | text _ => .string
  | long _ | double _ => .number
  | date _ => .date

/-- The fields of one document, or of one element of a nested array, that have a value. -/
abbrev Element := String → Option DocValue

/-- What is the search engine's own. -/
class ScriptEngine where
  toLowerCase : String → String
  /-- Where a document without nested elements stands, for the type of the script. -/
  absent : String → SortOrder → Standing

/-- An integer as the nearest floating point number. -/
def longToDouble (n : ℤ) : ℚ :=
  let place := Nat.log 2 n.natAbs - 52
  n.sign * (BinaryFloat.roundHalfEven n.natAbs (2 ^ place) * 2 ^ place : ℕ)

/-- An integer token. -/
def longOfToken (token : String) : Option ℤ :=
  match token.toList with
  | '-' :: digits => (parseDecimal digits).map fun n => -(n : ℤ)
  | digits => (parseDecimal digits).map fun n => (n : ℤ)

/-- A script sort as the engine reads it. -/
structure ScriptSort where
  type : String
  source : String
  fields : List String
  missing : Json
  order : SortOrder
  nested : Bool
  mode : Option String

namespace ScriptSort

def ofBody (body : SortBody) : Option ScriptSort := do
  let type ← (Json.get body "type").bind Json.asStr
  let order ← (Json.get body "order").bind Json.asStr
  let script ← Json.get body "script"
  let source ← (script.field? "source").bind Json.asStr
  let params ← script.field? "params"
  let fields ← (params.field? "fields").bind Json.asArray
  let missing ← params.field? "missing"
  let names ← fields.mapM Json.asStr
  return {
    type := type
    source := source
    fields := names
    missing := missing
    order := if order = "desc" then .desc else .asc
    nested := (Json.get body "nested").isSome
    mode := (Json.get body "mode").bind Json.asStr }

variable [ScriptEngine]

/-- What the script returns for a value it finds; none where it fails. -/
def returned (s : ScriptSort) : DocValue → Option SortValue
  | .text t =>
    if s.source = stringSource then some (.text (ScriptEngine.toLowerCase t)) else none
  | .long n => if s.source = numberSource then some (.number (longToDouble n)) else none
  | .double x => if s.source = numberSource then some (.number x) else none
  | .date millis => if s.source = dateSource then some (.number (longToDouble millis)) else none

def fallback (s : ScriptSort) : Option SortValue :=
  match s.missing with
  | .string t => if s.type = "string" then some (.text t) else none
  | .number token =>
    if s.type = "number" then (longOfToken token).map fun n => .number (longToDouble n) else none
  | _ => none

/-- The script run on one element. -/
def run (s : ScriptSort) (element : Element) : Option SortValue :=
  match s.fields.findSome? element with
  | some value => s.returned value
  | none => s.fallback

end ScriptSort

/-- The least or the greatest of several values. -/
def pick (mode : Option String) (v : SortValue) : List SortValue → SortValue
  | [] => v
  | w :: ws => if mode = some "max" then max v (pick mode w ws) else min v (pick mode w ws)

/-- A document of an index, with the elements of the nested array that a sort looks at. The fields
it sorts by are of one kind. -/
structure MapDocument (fields : List String) (kind : MapSortValueKind) where
  root : Element
  elements : List Element
  typed : ∀ e ∈ root :: elements, ∀ field ∈ fields, ∀ value, e field = some value →
    value.kind = kind

namespace ScriptSort

variable {fields : List String} {kind : MapSortValueKind} [ScriptEngine]

/-- The elements the script runs on. -/
def elements (s : ScriptSort) (doc : MapDocument fields kind) : List Element :=
  if s.nested then doc.elements else [doc.root]

/-- What a document is sorted by. -/
def value (s : ScriptSort) (doc : MapDocument fields kind) : Option Standing :=
  (s.elements doc).mapM s.run |>.map fun
    | [] => ScriptEngine.absent s.type s.order
    | v :: vs => (pick s.mode v vs).standing

def precedes (order : SortOrder) (a b : Standing) : Prop :=
  match order with
  | .asc => a < b
  | .desc => b < a

end ScriptSort

end Engine

section Calls

/-- A call on a sort about its direction or the place of documents without a value. -/
inductive OrderCall where
  | asc
  | desc
  | missingFirst
  | missingLast
  deriving DecidableEq

def OrderCall.apply (sort : SearchSort) : OrderCall → SearchSort
  | asc => sort.asc
  | desc => sort.desc
  | missingFirst => sort.missingFirst
  | missingLast => sort.missingLast

/-- What calls ask for: the direction, and the end with the direction it was asked in. -/
structure Asked where
  order : SortOrder
  missing : Option (Bool × SortOrder)

namespace Asked

def call (a : Asked) : OrderCall → Asked
  | .asc => { a with order := .asc }
  | .desc => { a with order := .desc }
  | .missingFirst => { a with missing := some (false, a.order) }
  | .missingLast => { a with missing := some (true, a.order) }

def after (order : SortOrder) (calls : List OrderCall) : Asked := calls.foldl call ⟨order, none⟩

/-- Whether the last end is asked for; without a call, first when ascending, last when
descending. -/
def last (a : Asked) : Bool := (a.missing.map Prod.fst).getD (decide (a.order = .desc))

end Asked

inductive Extreme where
  | least
  | greatest
  deriving DecidableEq

/-- The extreme that stands at an end. -/
def extremeAt (last : Bool) (order : SortOrder) : Extreme :=
  if last == decide (order = .asc) then .greatest else .least

def Extreme.value : Extreme → MapSortValueKind → SortValue
  | least, .string => .text ""
  | greatest, .string => .text lastCharacter
  | least, .number | least, .date => .number (-2 ^ 63)
  | greatest, .number | greatest, .date => .number (2 ^ 63)

/-- A value lies on the inner side of an extreme's. -/
def Extreme.Inside {α : Type*} [LT α] (extreme : Extreme) (bound v : α) : Prop :=
  match extreme with
  | least => bound < v
  | greatest => v < bound

/-- The value documents without the keys are given. -/
def Asked.fallback (a : Asked) (kind : MapSortValueKind) : SortValue :=
  match a.missing with
  | some (last, order) => (extremeAt last order).value kind
  | none =>
    match kind with
    | .string => .text ""
    | .number | .date => .number 0

variable [ScriptEngine]

def DocValue.sortValue : DocValue → SortValue
  | text s => .text (ScriptEngine.toLowerCase s)
  | long n => .number (longToDouble n)
  | double x => .number x
  | date millis => .number (longToDouble millis)

namespace MapKeySort

variable (sort : MapKeySort)

/-- The value of the first key an element has. -/
def found (element : Element) : Option SortValue :=
  (sort.fields.findSome? element).map DocValue.sortValue

def isNested : Bool := !(nestedBoundaries sort.scope).isEmpty

def elements (doc : MapDocument sort.fields sort.kind) : List Element :=
  if sort.isNested then doc.elements else [doc.root]

def Lacks (doc : MapDocument sort.fields sort.kind) : Prop :=
  ∀ e ∈ sort.elements doc, sort.found e = none

def Has (doc : MapDocument sort.fields sort.kind) : Prop :=
  ∃ e ∈ sort.elements doc, (sort.found e).isSome

/-- The document's values lie inside a bound: the value that counts is the least of its
elements' when the sort was built ascending, else the greatest. -/
def Clears (order : SortOrder) (extreme : Extreme) (bound : SortValue)
    (doc : MapDocument sort.fields sort.kind) : Prop :=
  if extreme = extremeAt false order then
    ∀ e ∈ sort.elements doc, ∃ v, sort.found e = some v ∧ extreme.Inside bound v
  else ∃ e ∈ sort.elements doc, ∃ v, sort.found e = some v ∧ extreme.Inside bound v

/-- What a document with some elements is sorted by. -/
def reduced (order : SortOrder) (fallback : SortValue) (doc : MapDocument sort.fields sort.kind) :
    Option SortValue :=
  match (sort.elements doc).map fun e => (sort.found e).getD fallback with
  | [] => none
  | v :: vs => some (pick (if sort.isNested then some (defaultMode order) else none) v vs)

end MapKeySort

/-- The sort stands a document before another, or after it. -/
def Placed (last : Bool) (sort : SearchSort) {fields : List String} {kind : MapSortValueKind}
    (doc other : MapDocument fields kind) : Prop :=
  ∃ s a b, ScriptSort.ofBody sort.body = some s ∧ s.value doc = some a ∧ s.value other = some b ∧
    if last then ScriptSort.precedes s.order b a else ScriptSort.precedes s.order a b

end Calls

section Body

variable {sort : MapKeySort} {order built : SortOrder} {missing value : Json} {body : SortBody}

/-- The body of a map sort, as far as the engine reads it. -/
structure IsBody (sort : MapKeySort) (built order : SortOrder) (missing : Json)
    (body : SortBody) : Prop where
  type : Json.get body "type" = some (.string (MapKeySort.sortType sort.kind))
  order : Json.get body "order" = some (.string order.asStr)
  script : ∃ script params, Json.get body "script" = some (.object script) ∧
    Json.get script "source" = some (.string (MapKeySort.source sort.kind)) ∧
    Json.get script "params" = some (.object params) ∧
    Json.get params "fields" = some (.array (sort.fields.map .string)) ∧
    Json.get params "missing" = some missing
  nested : (Json.get body "nested").isSome = sort.isNested
  mode : (Json.get body "mode").bind Json.asStr =
    if sort.isNested then some (defaultMode built) else none

theorem nestedClause_eq_none_iff {paths : List String} :
    nestedClause paths = none ↔ paths = [] := by
  cases paths <;> simp [nestedClause]

theorem isBody_unscoped (sort : MapKeySort) (order : SortOrder) (h : sort.isNested = false) :
    IsBody sort order order (MapKeySort.defaultMissing sort.kind) (sort.unscopedBody order) := by
  refine ⟨?_, ?_, ⟨sort.script, sort.params, ?_, ?_, ?_, ?_, ?_⟩, ?_, ?_⟩
  case refine_8 => rw [h, MapKeySort.unscopedBody, Json.get_ofPairs]; rfl
  case refine_9 => rw [h, MapKeySort.unscopedBody, Json.get_ofPairs]; rfl
  all_goals
    simp only [MapKeySort.unscopedBody, MapKeySort.script, MapKeySort.params, Json.get_ofPairs]
    rfl

theorem isBody_build (sort : MapKeySort) (order : SortOrder) :
    IsBody sort order order (MapKeySort.defaultMissing sort.kind) (sort.build order).body := by
  change IsBody sort order order _ (SearchSort.inScope sort.scope order (sort.unscopedBody order))
  rw [SearchSort.inScope]
  split
  · next nested hnested =>
    have hscope : sort.isNested = true := by
      simp only [MapKeySort.isNested, Bool.not_eq_true', List.isEmpty_eq_false_iff]
      intro hnil
      rw [nestedClause_eq_none_iff.mpr hnil] at hnested
      cases hnested
    refine ⟨?_, ?_, ⟨sort.script, sort.params, ?_, ?_, ?_, ?_, ?_⟩, ?_, ?_⟩
    case refine_8 => simp [Json.get_insert, hscope]
    case refine_9 => simp [Json.get_insert, hscope, Json.asStr]
    all_goals
      simp only [Json.get_insert, MapKeySort.unscopedBody, MapKeySort.script, MapKeySort.params,
        Json.get_ofPairs]
      rfl
  · next hnested =>
    apply isBody_unscoped
    simp [MapKeySort.isNested, nestedClause_eq_none_iff.mp hnested]

theorem IsBody.setOrder (h : IsBody sort built order missing body) (order' : SortOrder) :
    IsBody sort built order' missing (Json.insert "order" (.string order'.asStr) body) := by
  obtain ⟨type, -, script, nested, mode⟩ := h
  exact ⟨by simpa [Json.get_insert] using type, by simp [Json.get_insert],
    by simpa [Json.get_insert] using script, by simpa [Json.get_insert] using nested,
    by simpa [Json.get_insert] using mode⟩

theorem IsBody.setMissing (h : IsBody sort built order missing body) (value : Json) :
    IsBody sort built order value (setScriptMissing value body) := by
  obtain ⟨type, order, ⟨script, params, hscript, hsource, hparams, hfields, -⟩, nested, mode⟩ := h
  rw [setScriptMissing, hscript]
  simp only [hparams]
  refine ⟨by simpa [Json.get_insert] using type, by simpa [Json.get_insert] using order,
    ⟨_, Json.insert "missing" value params, by rw [Json.get_insert, if_pos rfl], ?_, ?_, ?_, ?_⟩,
    by simpa [Json.get_insert] using nested, by simpa [Json.get_insert] using mode⟩
  · simpa [Json.get_insert] using hsource
  · rw [Json.get_insert, if_pos rfl]
  · simpa [Json.get_insert] using hfields
  · rw [Json.get_insert, if_pos rfl]

theorem IsBody.currentOrder {s : SearchSort} (h : IsBody sort built order missing s.body) :
    s.currentOrder = order := by
  rw [SearchSort.currentOrder, h.order]
  cases order <;> rfl

theorem IsBody.ofBody (h : IsBody sort built order missing body) : ScriptSort.ofBody body = some
    { type := MapKeySort.sortType sort.kind
      source := MapKeySort.source sort.kind
      fields := sort.fields
      missing := missing
      order := order
      nested := sort.isNested
      mode := if sort.isNested then some (defaultMode built) else none } := by
  obtain ⟨type, horder, ⟨script, params, hscript, hsource, hparams, hfields, hmissing⟩, nested,
    mode⟩ := h
  have hnames : (sort.fields.map Json.string).mapM Json.asStr = some sort.fields := by
    induction sort.fields with
    | nil => rfl
    | cons field fields ih => simp [Json.asStr, ih]
  rw [ScriptSort.ofBody, type, horder, hscript, nested, mode]
  simp only [Json.field?, hsource, hparams, hfields, hmissing, Json.asStr, Json.asArray,
    Option.bind_eq_bind, Option.bind_some, hnames]
  cases order <;> rfl

end Body

section Values

variable {extreme : Extreme} {mode : Option String} {bound v : SortValue} {vs : List SortValue}

theorem Extreme.inside_standing :
    extreme.Inside bound.standing v.standing ↔ extreme.Inside bound v := by
  cases extreme <;> simp [Inside, SortValue.standing]

theorem Extreme.not_inside_self : ¬ extreme.Inside v v := by
  cases extreme <;> simp [Inside]

theorem inside_max {v w : SortValue} : extreme.Inside bound (max v w) ↔
    if extreme = .least then extreme.Inside bound v ∨ extreme.Inside bound w
    else extreme.Inside bound v ∧ extreme.Inside bound w := by
  rcases le_total v w with h | h <;> cases extreme
  · simpa [Extreme.Inside, sup_of_le_right h] using fun hv => lt_of_lt_of_le hv h
  · simpa [Extreme.Inside, sup_of_le_right h] using fun hw => lt_of_le_of_lt h hw
  · simpa [Extreme.Inside, sup_of_le_left h] using fun hw => lt_of_lt_of_le hw h
  · simpa [Extreme.Inside, sup_of_le_left h] using fun hv => lt_of_le_of_lt h hv

theorem inside_min {v w : SortValue} : extreme.Inside bound (min v w) ↔
    if extreme = .least then extreme.Inside bound v ∧ extreme.Inside bound w
    else extreme.Inside bound v ∨ extreme.Inside bound w := by
  rcases le_total v w with h | h <;> cases extreme
  · simpa [Extreme.Inside, inf_of_le_left h] using fun hv => lt_of_lt_of_le hv h
  · simpa [Extreme.Inside, inf_of_le_left h] using fun hw => lt_of_le_of_lt h hw
  · simpa [Extreme.Inside, inf_of_le_right h] using fun hw => lt_of_lt_of_le hw h
  · simpa [Extreme.Inside, inf_of_le_right h] using fun hv => lt_of_le_of_lt h hv

theorem inside_pick : extreme.Inside bound (pick mode v vs) ↔
    if decide (extreme = .least) = decide (mode ≠ some "max") then
      ∀ w ∈ v :: vs, extreme.Inside bound w
    else ∃ w ∈ v :: vs, extreme.Inside bound w := by
  induction vs generalizing v with
  | nil => simp [pick]
  | cons w vs ih =>
    rw [pick]
    by_cases hmode : mode = some "max"
    · have ihw := @ih w
      simp only [hmode, ne_eq, not_true_eq_false, decide_false, if_true] at ihw ⊢
      cases extreme <;> rw [inside_max, ihw] <;> simp
    · have ihw := @ih w
      simp only [hmode, ne_eq, not_false_eq_true, decide_true, if_false] at ihw ⊢
      cases extreme <;> rw [inside_min, ihw] <;> simp

theorem pick_eq_self (h : ∀ w ∈ vs, w = v) : pick mode v vs = v := by
  induction vs generalizing v with
  | nil => rfl
  | cons w vs ih =>
    obtain ⟨rfl, hvs⟩ := List.forall_mem_cons.mp h
    rw [pick, ih hvs]
    split <;> simp

end Values

section Placing

variable [ScriptEngine] {sort : MapKeySort} {order built : SortOrder} {missing : Json}
  {fallback : SortValue} {doc other : MapDocument sort.fields sort.kind} {s : SearchSort}
  {last : Bool}

/-- The sort the engine reads from a map sort's body. -/
def MapKeySort.reading (sort : MapKeySort) (built order : SortOrder) (missing : Json) :
    ScriptSort where
  type := MapKeySort.sortType sort.kind
  source := MapKeySort.source sort.kind
  fields := sort.fields
  missing := missing
  order := order
  nested := sort.isNested
  mode := if sort.isNested then some (defaultMode built) else none

theorem returned_reading {value : DocValue} (h : value.kind = sort.kind) :
    (sort.reading built order missing).returned value = some value.sortValue := by
  cases value <;>
    simp [ScriptSort.returned, MapKeySort.reading, ← h, DocValue.kind, MapKeySort.source,
      DocValue.sortValue]

theorem run_reading (hfallback : (sort.reading built order missing).fallback = some fallback)
    {e : Element} (he : e ∈ sort.elements doc) :
    (sort.reading built order missing).run e = some ((sort.found e).getD fallback) := by
  have hmem : e ∈ doc.root :: doc.elements := by
    unfold MapKeySort.elements at he
    split at he
    · exact List.mem_cons_of_mem _ he
    · rw [List.mem_singleton.mp he]
      exact List.mem_cons_self
  have hfields : (sort.reading built order missing).fields = sort.fields := rfl
  rw [ScriptSort.run, MapKeySort.found, hfields]
  cases hfind : sort.fields.findSome? e with
  | none => simpa using hfallback
  | some value =>
    obtain ⟨field, hfield, hvalue⟩ := List.exists_of_findSome?_eq_some hfind
    simpa using returned_reading (doc.typed e hmem field hfield value hvalue)

theorem value_reading (hfallback : (sort.reading built order missing).fallback = some fallback)
    (doc : MapDocument sort.fields sort.kind) : (sort.reading built order missing).value doc =
      some (((sort.reduced built fallback doc).map SortValue.standing).getD
        (ScriptEngine.absent (MapKeySort.sortType sort.kind) order)) := by
  have helements : (sort.reading built order missing).elements doc = sort.elements doc := rfl
  have hrun : (sort.elements doc).mapM (sort.reading built order missing).run =
      some ((sort.elements doc).map fun e => (sort.found e).getD fallback) := by
    have hall : ∀ e ∈ sort.elements doc, (sort.reading built order missing).run e =
        some ((sort.found e).getD fallback) := fun e he => run_reading hfallback he
    generalize sort.elements doc = es at hall
    induction es with
    | nil => rfl
    | cons e es ih =>
      rw [List.forall_mem_cons] at hall
      simp [hall.1, ih hall.2]
  rw [ScriptSort.value, helements, hrun, MapKeySort.reduced]
  cases (sort.elements doc).map fun e => (sort.found e).getD fallback <;> rfl

omit [ScriptEngine] in
theorem precedes_iff {a b : Standing} :
    (if last then ScriptSort.precedes order b a else ScriptSort.precedes order a b) ↔
      (extremeAt last order).Inside a b := by
  cases last <;> cases order <;> simp [ScriptSort.precedes, extremeAt, Extreme.Inside]

theorem clears_iff {extreme : Extreme} (h : sort.Has other) :
    (∃ v, sort.reduced built fallback other = some v ∧ extreme.Inside fallback v) ↔
      sort.Clears built extreme fallback other := by
  have hfound (e : Element) : extreme.Inside fallback ((sort.found e).getD fallback) ↔
      ∃ v, sort.found e = some v ∧ extreme.Inside fallback v := by
    cases sort.found e with
    | none => simp [Extreme.not_inside_self]
    | some v => simp
  unfold MapKeySort.Clears MapKeySort.reduced
  obtain ⟨e, he, -⟩ := h
  cases hes : sort.elements other with
  | nil =>
    rw [hes] at he
    cases he
  | cons first es =>
    have hmap : (sort.found first).getD fallback ::
        es.map (fun e => (sort.found e).getD fallback) =
          (first :: es).map fun e => (sort.found e).getD fallback := rfl
    have hall : (∀ w ∈ (first :: es).map fun e => (sort.found e).getD fallback,
        extreme.Inside fallback w) ↔
          ∀ e ∈ first :: es, ∃ v, sort.found e = some v ∧ extreme.Inside fallback v := by
      rw [List.forall_mem_map]
      simp only [hfound]
    have hsome : (∃ w ∈ (first :: es).map fun e => (sort.found e).getD fallback,
        extreme.Inside fallback w) ↔
          ∃ e ∈ first :: es, ∃ v, sort.found e = some v ∧ extreme.Inside fallback v := by
      simp only [List.mem_map, exists_exists_and_eq_and, hfound]
    rw [List.map_cons]
    simp only [Option.some.injEq, exists_eq_left', inside_pick, hmap]
    rw [hall, hsome]
    by_cases hnested : sort.isNested = true
    · rw [if_pos hnested]
      cases built <;> cases extreme <;> rfl
    · have hes' : es = [] := by
        rw [MapKeySort.elements, if_neg hnested] at hes
        exact (List.cons.inj hes).2.symm
      -- With a single element, all and some are the same.
      rw [hes']
      simp only [List.mem_singleton, forall_eq, exists_eq_left, ite_self]

/-- What a sort with a given fallback does with a document without the keys. -/
theorem placed_of_isBody (hbody : IsBody sort built order missing s.body)
    (hfallback : (sort.reading built order missing).fallback = some fallback)
    (hdoc : sort.Lacks doc) (hother : sort.Has other) :
    Placed last s doc other ↔
      if sort.elements doc = [] then ∃ v, sort.reduced built fallback other = some v ∧
        (extremeAt last order).Inside
          (ScriptEngine.absent (MapKeySort.sortType sort.kind) order) v.standing
      else sort.Clears built (extremeAt last order) fallback other := by
  have hread : ScriptSort.ofBody s.body = some (sort.reading built order missing) := hbody.ofBody
  have hplaced : Placed last s doc other ↔ (extremeAt last order).Inside
      (((sort.reduced built fallback doc).map SortValue.standing).getD
        (ScriptEngine.absent (MapKeySort.sortType sort.kind) order))
      (((sort.reduced built fallback other).map SortValue.standing).getD
        (ScriptEngine.absent (MapKeySort.sortType sort.kind) order)) := by
    rw [← precedes_iff]
    constructor
    · rintro ⟨t, a, b, ht, ha, hb, h⟩
      rw [hread] at ht
      cases ht
      rw [value_reading hfallback] at ha hb
      cases ha
      cases hb
      exact h
    · intro h
      exact ⟨_, _, _, hread, value_reading hfallback doc, value_reading hfallback other, h⟩
  obtain ⟨v, hv⟩ : ∃ v, sort.reduced built fallback other = some v := by
    obtain ⟨e, he, -⟩ := hother
    unfold MapKeySort.reduced
    split
    · next hnil =>
      rw [List.map_eq_nil_iff] at hnil
      rw [hnil] at he
      cases he
    · exact ⟨_, rfl⟩
  rw [hplaced, hv, Option.map_some, Option.getD_some]
  split
  · next hnil =>
    have hnone : sort.reduced built fallback doc = none := by
      unfold MapKeySort.reduced
      rw [hnil]
      rfl
    rw [hnone]
    simp
  · next hne =>
    have hsome : sort.reduced built fallback doc = some fallback := by
      have hall : ∀ w ∈ (sort.elements doc).map (fun e => (sort.found e).getD fallback),
          w = fallback := by
        simp only [List.forall_mem_map]
        intro e he
        rw [hdoc e he]
        rfl
      unfold MapKeySort.reduced
      cases hes : (sort.elements doc).map fun e => (sort.found e).getD fallback with
      | nil => exact absurd (List.map_eq_nil_iff.mp hes) hne
      | cons w ws =>
        rw [hes, List.forall_mem_cons] at hall
        obtain ⟨rfl, hws⟩ := hall
        exact congrArg some (pick_eq_self hws)
    rw [hsome, ← clears_iff hother, hv, Option.map_some, Option.getD_some, Extreme.inside_standing]
    simp

/-- What the calls leave in the script's parameters. -/
def Asked.written (a : Asked) (kind : MapSortValueKind) : Json :=
  match a.missing with
  | some (last, order) => missingSentinel last order kind
  | none => MapKeySort.defaultMissing kind

omit [ScriptEngine] in
theorem isBody_calls (sort : MapKeySort) (built : SortOrder) (calls : List OrderCall) :
    (calls.foldl OrderCall.apply (sort.build built)).scriptKind = some sort.kind ∧
      IsBody sort built (Asked.after built calls).order
        ((Asked.after built calls).written sort.kind)
        (calls.foldl OrderCall.apply (sort.build built)).body := by
  induction calls using List.reverseRecOn with
  | nil => exact ⟨rfl, isBody_build sort built⟩
  | append_singleton calls call ih =>
    obtain ⟨hkind, hbody⟩ := ih
    rw [Asked.after, List.foldl_append, List.foldl_append]
    rw [Asked.after] at hbody
    cases call with
    | asc => exact ⟨hkind, hbody.setOrder .asc⟩
    | desc => exact ⟨hkind, hbody.setOrder .desc⟩
    | missingFirst =>
      simp only [List.foldl_cons, List.foldl_nil, OrderCall.apply, SearchSort.missingFirst, hkind,
        hbody.currentOrder]
      exact ⟨trivial, hbody.setMissing _⟩
    | missingLast =>
      simp only [List.foldl_cons, List.foldl_nil, OrderCall.apply, SearchSort.missingLast, hkind,
        hbody.currentOrder]
      exact ⟨trivial, hbody.setMissing _⟩

omit [ScriptEngine] in
theorem number_of_token {token : String} {n : ℤ} {x : ℚ} (hn : longOfToken token = some n)
    (hx : longToDouble n = x) :
    (longOfToken token).map (fun n => SortValue.number (longToDouble n)) = some (.number x) := by
  rw [hn, Option.map_some, hx]

omit [ScriptEngine] in
theorem fallback_written {s : ScriptSort} {kind : MapSortValueKind} {a : Asked}
    (htype : s.type = MapKeySort.sortType kind) (hmissing : s.missing = a.written kind) :
    s.fallback = some (a.fallback kind) := by
  have hzero := @number_of_token "0" 0 0 (by decide +kernel) (by decide +kernel)
  have hmax := @number_of_token "9223372036854775807" (2 ^ 63 - 1) (2 ^ 63) (by decide +kernel)
    (by decide +kernel)
  have hmin := @number_of_token "-9223372036854775808" (-2 ^ 63) (-2 ^ 63) (by decide +kernel)
    (by decide +kernel)
  rw [ScriptSort.fallback, htype, hmissing]
  obtain ⟨order, missing⟩ := a
  cases missing with
  | none =>
    cases kind <;> simp only [Asked.written, Asked.fallback, MapKeySort.defaultMissing,
      MapKeySort.sortType, hzero, if_true]
  | some asked =>
    obtain ⟨last, order⟩ := asked
    cases hextreme : last == decide (order = .asc) <;> cases kind <;>
      simp only [Asked.written, Asked.fallback, missingSentinel, extremeAt, hextreme, Extreme.value,
        MapKeySort.sortType, i64Max, i64Min, hmax, hmin, if_true, if_false, Bool.false_eq_true]

/-- Where the calls on a map sort put a document without the keys: the end asked for last, so
far as the other document's value lies inside the value the calls left. -/
theorem placed_iff (sort : MapKeySort) (built : SortOrder) (calls : List OrderCall)
    (doc other : MapDocument sort.fields sort.kind) (hdoc : sort.Lacks doc)
    (hother : sort.Has other) :
    let asked := Asked.after built calls
    let extreme := extremeAt asked.last asked.order
    let fallback := asked.fallback sort.kind
    Placed asked.last (calls.foldl OrderCall.apply (sort.build built)) doc other ↔
      if sort.elements doc = [] then ∃ v, sort.reduced built fallback other = some v ∧
        extreme.Inside (ScriptEngine.absent (MapKeySort.sortType sort.kind) asked.order) v.standing
      else sort.Clears built extreme fallback other :=
  placed_of_isBody (isBody_calls sort built calls).2 (fallback_written rfl rfl) hdoc hother

end Placing

section Prices

/-- An engine that sorts documents without nested elements by the greatest number, and last. -/
@[reducible] def sampleEngine : ScriptEngine where
  toLowerCase := String.toLower
  absent type order :=
    if type = "number" then (SortValue.number ((2 ^ 53 - 1) * 2 ^ 971)).standing
    else if order = .asc then ⊤ else ⊥

def prices : MapKeySort := ⟨"prices", ["usd"], .number, []⟩

def priced (usd : Option ℤ) : MapDocument prices.fields prices.kind where
  root field := if field = "prices.usd" then usd.map DocValue.long else none
  elements := []
  typed := by
    rintro e he field - value hvalue
    rw [List.mem_singleton.mp he] at hvalue
    beta_reduce at hvalue
    split at hvalue
    · obtain ⟨n, -, rfl⟩ := Option.map_eq_some_iff.mp hvalue
      rfl
    · cases hvalue

theorem found_priced (n : ℤ) : @MapKeySort.found sampleEngine prices (priced (some n)).root =
    some (.number (longToDouble n)) := rfl

theorem placed_iff_prices :
    @Placed sampleEngine false (prices.build .asc) _ _ (priced none) (priced (some 5)) := by
  have hfive : longToDouble 5 = 5 := by decide +kernel
  refine (@placed_iff sampleEngine prices .asc [] (priced none) (priced (some 5)) ?_ ?_).mpr ?_
  · exact List.forall_mem_singleton.mpr rfl
  · exact ⟨_, List.mem_singleton_self _, rfl⟩
  · rintro e he
    rw [List.mem_singleton.mp he]
    refine ⟨_, found_priced 5, ?_⟩
    rw [hfive]
    exact Sum.Lex.inr_lt_inr_iff.mpr (by decide +kernel)

/-- A negative price comes before no price at all, although no call asks for that. -/
theorem not_placed_prices :
    ¬ @Placed sampleEngine (Asked.after .asc []).last (prices.build .asc) _ _ (priced none)
      (priced (some (-5))) := by
  have hfive : longToDouble (-5) = -5 := by decide +kernel
  rw [@placed_of_isBody sampleEngine prices .asc .asc _ (.number 0) _ _ _ _
    (isBody_build prices .asc)
    (@fallback_written _ .number ⟨.asc, none⟩ rfl rfl)
    (List.forall_mem_singleton.mpr rfl) ⟨_, List.mem_singleton_self _, rfl⟩, if_neg (by nofun)]
  intro h
  obtain ⟨v, hv, hlt⟩ := h _ (List.mem_singleton_self _)
  rw [found_priced, hfive] at hv
  cases hv
  exact absurd (Sum.Lex.inr_lt_inr_iff.mp hlt) (by decide +kernel)

end Prices

end Flusso.Sdk
