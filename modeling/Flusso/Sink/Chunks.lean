import Flusso.Foundation.Attempts
import Flusso.Sink.Bulk
import Mathlib.Data.Nat.Digits.Defs

/-! # Chunking a flush

The requests of a flush carry the serialized actions one after another. A
request ends only where its next action would not fit.
-/

namespace Json

def escapedChar (c : Char) : List Char :=
  if c = '"' then ['\\', '"']
  else if c = '\\' then ['\\', '\\']
  else if c.toNat = 8 then ['\\', 'b']
  else if c.toNat = 9 then ['\\', 't']
  else if c.toNat = 10 then ['\\', 'n']
  else if c.toNat = 12 then ['\\', 'f']
  else if c.toNat = 13 then ['\\', 'r']
  else if c.toNat < 32 then
    ['\\', 'u', '0', '0', Nat.digitChar (c.toNat / 16), Nat.digitChar (c.toNat % 16)]
  else [c]

def quoted (s : String) : String := String.ofList ('"' :: s.toList.flatMap escapedChar ++ ['"'])

mutual

/-- The value without whitespace. -/
def text : Json → String
  | null => "null"
  | bool b => toString b
  | number token => token
  | string s => quoted s
  | array items => "[" ++ ",".intercalate (itemTexts items) ++ "]"
  | object fields => "\x7b" ++ ",".intercalate (fieldTexts fields) ++ "\x7d"

def itemTexts : List Json → List String
  | [] => []
  | item :: items => item.text :: itemTexts items

def fieldTexts : List (String × Json) → List String
  | [] => []
  | (key, value) :: fields => (quoted key ++ ":" ++ value.text) :: fieldTexts fields

end

end Json

namespace Flusso

/-- The line that names the operation. -/
def bulkActionMeta (action : BulkAction) : Json :=
  .object [(action.op,
    .object [("_index", .string action.indexName), ("_id", .string action.documentId)])]

/-- An action on the wire: its lines, each ended. -/
def bulkActionFragment : BulkAction → String
  | .index name id doc => (bulkActionMeta (.index name id doc)).text ++ "\n" ++ doc.text ++ "\n"
  | .delete name id => (bulkActionMeta (.delete name id)).text ++ "\n"

def bulkBody (actions : List BulkAction) : String := String.join (actions.map bulkActionFragment)

namespace OpensearchSink

/-- A sink by its settings; neither cap is ever zero. -/
def fromConfig (baseUrl : String) (pipeline : Option String) (batchSize maxBytes maxRetries : ℕ)
    (indexNames : List (String × String)) : OpensearchSink where
  baseUrl := baseUrl
  pipeline := pipeline
  batchSize := max batchSize 1
  maxBytes := max maxBytes 1
  maxRetries := maxRetries
  fragment := bulkActionFragment
  indexNames := indexNames

variable (s : OpensearchSink)

/-- The actions of each request of a flush. -/
def chunked (actions : List BulkAction) : List (List BulkAction) :=
  (s.plan actions).splitLengths actions

/-- What a request takes on the wire. -/
def bytes (request : List BulkAction) : ℕ := (request.map s.fragmentLength).sum

/-- Whether a request has room for another action. -/
def takes (request : List BulkAction) (action : BulkAction) : Bool :=
  request.length < s.batchSize && s.bytes request + s.fragmentLength action ≤ s.maxBytes

/-- The request that carries some actions. -/
def posting (refresh : Bool) (actions : List BulkAction) : BulkPost where
  url := buildBulkUrl s.baseUrl s.pipeline refresh
  body := String.join (actions.map s.fragment)

variable {s}

@[simp] theorem bytes_nil : s.bytes [] = 0 := rfl

@[simp] theorem bytes_append {a b : List BulkAction} : s.bytes (a ++ b) = s.bytes a + s.bytes b := by
  simp [bytes]

@[simp] theorem bytes_cons {action : BulkAction} {actions : List BulkAction} :
    s.bytes (action :: actions) = s.fragmentLength action + s.bytes actions := by
  simp [bytes]

theorem takes_eq_false_iff {request : List BulkAction} {action : BulkAction} :
    s.takes request action = false ↔
      s.batchSize ≤ request.length ∨ s.maxBytes < s.bytes request + s.fragmentLength action := by
  rw [takes, Bool.and_eq_false_iff, decide_eq_false_iff_not, decide_eq_false_iff_not, not_lt, not_le]

end OpensearchSink

theorem saturatingAdd_eq {a b : ℕ} (h : a + b < 2 ^ 64) : saturatingAdd a b = a + b := by
  unfold saturatingAdd
  omega

namespace ChunkPlan

theorem add_eq {s : OpensearchSink} {current : List BulkAction} {action : BulkAction}
    {chunks : List ℕ} (h : s.bytes current + s.fragmentLength action < 2 ^ 64) :
    add s.batchSize s.maxBytes ⟨chunks, current.length, s.bytes current⟩ (s.fragmentLength action) =
      if !current.isEmpty && !s.takes current action then
        ⟨chunks ++ [current.length], [action].length, s.bytes [action]⟩
      else ⟨chunks, (current ++ [action]).length, s.bytes (current ++ [action])⟩ := by
  have hcut : (0 < current.length ∧ (s.batchSize ≤ current.length ∨
      s.maxBytes < saturatingAdd (s.bytes current) (s.fragmentLength action))) ↔
        (!current.isEmpty && !s.takes current action) = true := by
    rw [saturatingAdd_eq h, Bool.and_eq_true, Bool.not_eq_true', Bool.not_eq_true',
      OpensearchSink.takes_eq_false_iff, List.isEmpty_eq_false_iff, List.length_pos_iff]
  have hone : saturatingAdd 0 (s.fragmentLength action) = s.fragmentLength action := by
    rw [saturatingAdd_eq (by omega), Nat.zero_add]
  unfold add
  simp only [hcut]
  split
  · simp [hone]
  · simp [saturatingAdd_eq h]

/-- What a plan closes with are the lengths of the requests it gathers. -/
theorem close_foldl_add {s : OpensearchSink} {current actions : List BulkAction} (chunks : List ℕ)
    (h : s.bytes (current ++ actions) < 2 ^ 64) :
    ((actions.map s.fragmentLength).foldl (add s.batchSize s.maxBytes)
      ⟨chunks, current.length, s.bytes current⟩).close =
        chunks ++ (Segments.gather s.takes current actions).map List.length := by
  induction actions generalizing chunks current with
  | nil =>
    cases current with
    | nil => simp [close, Segments.gather]
    | cons action current => simp [close, Segments.gather]
  | cons action actions ih =>
    rw [OpensearchSink.bytes_append, OpensearchSink.bytes_cons] at h
    rw [List.map_cons, List.foldl_cons, add_eq (by omega), Segments.gather]
    split
    · rw [ih]
      · simp
      · rw [OpensearchSink.bytes_append, OpensearchSink.bytes_cons, OpensearchSink.bytes_nil]
        omega
    · rw [ih]
      rw [OpensearchSink.bytes_append, OpensearchSink.bytes_append, OpensearchSink.bytes_cons,
        OpensearchSink.bytes_nil]
      omega

end ChunkPlan

namespace OpensearchSink

variable {s : OpensearchSink} {actions : List BulkAction}

theorem chunked_eq_gather (h : s.bytes actions < 2 ^ 64) :
    s.chunked actions = Segments.gather s.takes [] actions := by
  have hplan : s.plan actions = (Segments.gather s.takes [] actions).map List.length :=
    @ChunkPlan.close_foldl_add s [] actions [] h
  have hflatten : (Segments.gather s.takes [] actions).flatten = actions := Segments.flatten_gather
  calc s.chunked actions = ((Segments.gather s.takes [] actions).map List.length).splitLengths
        (Segments.gather s.takes [] actions).flatten := by rw [chunked, hplan, hflatten]
    _ = Segments.gather s.takes [] actions := Segments.splitLengths_flatten _

/-- A request within both caps, unless it is one action that is too large by itself. -/
structure Bounded (s : OpensearchSink) (request : List BulkAction) : Prop where
  nonempty : request ≠ []
  length_le : request.length ≤ s.batchSize
  bytes_le : s.bytes request ≤ s.maxBytes ∨
    ∃ action, request = [action] ∧ s.maxBytes < s.fragmentLength action

theorem bounded_gather (hbatch : 1 ≤ s.batchSize) :
    ∀ request ∈ Segments.gather s.takes [] actions, s.Bounded request := by
  apply Segments.forall_gather
  · intro action
    refine ⟨List.cons_ne_nil _ _, hbatch, ?_⟩
    rcases Nat.lt_or_ge s.maxBytes (s.fragmentLength action) with hlt | hle
    · exact Or.inr ⟨action, rfl, hlt⟩
    · exact Or.inl (by simpa using hle)
  · intro request action _ htakes _
    rw [takes, Bool.and_eq_true, decide_eq_true_eq, decide_eq_true_eq] at htakes
    refine ⟨by simp, ?_, Or.inl ?_⟩
    · rw [List.length_append, List.length_singleton]
      omega
    · simpa using htakes.2
  · exact fun hne => absurd rfl hne

theorem emitted_sendBulkChunk {attempt : ℕ → BulkAttempt} {refresh : Bool} (hne : actions ≠ []) :
    ∃ n, 1 ≤ n ∧ n ≤ s.maxRetries + 1 ∧
      (s.sendBulkChunk attempt (String.join (actions.map s.fragment)) actions refresh).emitted =
        List.replicate n (s.posting refresh actions) := by
  rw [sendBulkChunk, if_neg (by simpa using hne)]
  obtain ⟨n, hle, hpos, hposts⟩ := emitted_sendAttempts
  exact ⟨n, hpos (Nat.succ_pos _), hle, hposts⟩

/-- Requests are posted in turn, each as often as it is tried, and all of them if they succeed. -/
theorem emitted_sendChunks {exchange : ℕ → ℕ → BulkAttempt} {refresh : Bool} {k : ℕ}
    {chunks : List (List BulkAction)} (hne : ∀ chunk ∈ chunks, chunk ≠ []) :
    ∃ tries : List ℕ, (∀ n ∈ tries, 1 ≤ n ∧ n ≤ s.maxRetries + 1) ∧
      tries.length ≤ chunks.length ∧
      (∀ rejected, (s.sendChunks exchange refresh k chunks).outcome = .ok rejected →
        tries.length = chunks.length) ∧
      (s.sendChunks exchange refresh k chunks).emitted =
        (List.zipWith List.replicate tries (chunks.map (s.posting refresh))).flatten := by
  induction chunks generalizing k with
  | nil => exact ⟨[], nofun, le_rfl, fun _ _ => rfl, rfl⟩
  | cons chunk chunks ih =>
    obtain ⟨hchunk, hchunks⟩ := List.forall_mem_cons.mp hne
    obtain ⟨n, hpos, hle, hposts⟩ :=
      @emitted_sendBulkChunk s _ (exchange k) refresh hchunk
    obtain ⟨tries, hbounds, hlength, hall, hrest⟩ := @ih (k + 1) hchunks
    rw [sendChunks]
    cases hsent : (s.sendBulkChunk (exchange k) (String.join (chunk.map s.fragment)) chunk
        refresh).outcome with
    | error e =>
      rw [Emitting.bind_of_error hsent]
      refine ⟨[n], by simpa using ⟨hpos, hle⟩, by simp, nofun, ?_⟩
      simpa using hposts
    | ok rejected =>
      rw [Emitting.bind_of_ok hsent]
      refine ⟨n :: tries, List.forall_mem_cons.mpr ⟨⟨hpos, hle⟩, hbounds⟩,
        Nat.succ_le_succ hlength, ?_, ?_⟩
      · intro all hok
        obtain ⟨rest, hok, -⟩ := Emitting.outcome_bind_eq_ok.mp hok
        rw [List.length_cons, List.length_cons, hall rest hok]
      · rw [hposts, Emitting.emitted_bind_pure, hrest]
        rfl

theorem emitted_flush {exchange : ℕ → ℕ → BulkAttempt} {caughtUp : Bool}
    (hne : ∀ request ∈ s.chunked actions, request ≠ []) :
    ∃ tries : List ℕ,
      (s.flush exchange actions caughtUp).emitted =
        (List.zipWith List.replicate tries
          ((s.chunked actions).map (s.posting caughtUp))).flatten ∧
      (∀ n ∈ tries, 1 ≤ n ∧ n ≤ s.maxRetries + 1) ∧
      tries.length ≤ (s.chunked actions).length ∧
      ∀ report, (s.flush exchange actions caughtUp).outcome = .ok report →
        tries.length = (s.chunked actions).length := by
  by_cases hempty : actions = []
  · subst hempty
    exact ⟨[], rfl, nofun, Nat.zero_le _, fun _ _ => rfl⟩
  · rw [flush, if_neg (by simpa using hempty), Emitting.emitted_bind_pure]
    obtain ⟨tries, htries, hlength, hall, hposts⟩ :=
      @emitted_sendChunks s exchange caughtUp 0 _ hne
    refine ⟨tries, hposts, htries, hlength, fun report hok => ?_⟩
    obtain ⟨rejected, hok, -⟩ := Emitting.outcome_bind_eq_ok.mp hok
    exact hall rejected hok

theorem bytes_fromConfig {baseUrl : String} {pipeline : Option String}
    {batchSize maxBytes maxRetries : ℕ} {indexNames : List (String × String)}
    {request : List BulkAction} :
    (fromConfig baseUrl pipeline batchSize maxBytes maxRetries indexNames).bytes request =
      (bulkBody request).utf8ByteSize := by
  induction request with
  | nil => rfl
  | cons action request ih =>
    rw [bytes_cons, ih, bulkBody, bulkBody, List.map_cons, String.join_cons,
      String.utf8ByteSize_append]
    rfl

theorem join_bulkBody (requests : List (List BulkAction)) :
    String.join (requests.map bulkBody) = bulkBody requests.flatten := by
  induction requests with
  | nil => rfl
  | cons request requests ih =>
    rw [List.map_cons, String.join_cons, ih, bulkBody, bulkBody, bulkBody, List.flatten_cons,
      List.map_append, String.join_append]

end OpensearchSink

end Flusso
