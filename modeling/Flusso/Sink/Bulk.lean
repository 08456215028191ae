import Flusso.Foundation.Emitting
import Flusso.Foundation.Json
import Flusso.Foundation.Segments
import Mathlib.Algebra.GroupWithZero.Nat

/-! # Bulk requests

A flush cuts the buffered actions into bulk requests and collects, request by
request, the actions the cluster refused.
-/

namespace Flusso

/-- A buffered write. -/
inductive BulkAction where
  | index (index id : String) (doc : Json)
  | delete (index id : String)

namespace BulkAction

def indexName : BulkAction → String
  | index name _ _ => name
  | delete name _ => name

def documentId : BulkAction → String
  | index _ id _ => id
  | delete _ id => id

/-- The key the action and its result stand under on the wire. -/
def op : BulkAction → String
  | index .. => "index"
  | delete .. => "delete"

end BulkAction

structure RejectedDocument where
  index : String
  id : String
  reason : String
  deriving DecidableEq

structure FlushReport where
  rejected : List RejectedDocument
  deriving DecidableEq

inductive SinkError where
  | write (message : String)
  deriving DecidableEq

def saturatingAdd (a b : ℕ) : ℕ := min (a + b) (2 ^ 64 - 1)

/-- The requests planned so far, and the actions and the bytes of the current one. -/
structure ChunkPlan where
  chunks : List ℕ
  count : ℕ
  bytes : ℕ

namespace ChunkPlan

def empty : ChunkPlan where
  chunks := []
  count := 0
  bytes := 0

def add (batchSize maxBytes : ℕ) (plan : ChunkPlan) (size : ℕ) : ChunkPlan :=
  let plan :=
    if 0 < plan.count ∧ (batchSize ≤ plan.count ∨ maxBytes < saturatingAdd plan.bytes size) then
      { chunks := plan.chunks ++ [plan.count], count := 0, bytes := 0 }
    else plan
  { plan with count := plan.count + 1, bytes := saturatingAdd plan.bytes size }

def close (plan : ChunkPlan) : List ℕ :=
  if 0 < plan.count then plan.chunks ++ [plan.count] else plan.chunks

end ChunkPlan

/-- The number of actions of each request. -/
def planChunks (sizes : List ℕ) (batchSize maxBytes : ℕ) : List ℕ :=
  (sizes.foldl (ChunkPlan.add batchSize maxBytes) ChunkPlan.empty).close

/-- The result of one item, under whichever operation it names. -/
def itemOp (item : Json) : Option Json :=
  (item.field? "index").or <| (item.field? "create").or <| (item.field? "delete").or <|
    item.field? "update"

/-- One item of a response against the action at its position. -/
def itemRejected (item : Json) (action : Option BulkAction) : Option RejectedDocument := do
  let op ← itemOp item
  let status := ((op.field? "status").bind Json.asU64).getD 0
  guard (400 ≤ status)
  let reason := (((op.field? "error").bind (Json.field? "reason")).bind Json.asStr).getD
    ("rejected with status " ++ status.repr)
  match action with
  | some action => some ⟨action.indexName, action.documentId, reason⟩
  | none =>
    some ⟨((op.field? "_index").bind Json.asStr).getD "",
      ((op.field? "_id").bind Json.asStr).getD "", reason⟩

/-- The item-level rejections of a response. -/
def bulkRejected (response : Json) (actions : List BulkAction) : List RejectedDocument :=
  if ((response.field? "errors").bind Json.asBool).getD false then
    match (response.field? "items").bind Json.asArray with
    | none => []
    | some items => items.zipIdx.filterMap fun item => itemRejected item.1 actions[item.2]?
  else []

/-- The address of bulk requests. -/
def buildBulkUrl (baseUrl : String) (pipeline : Option String) (refresh : Bool) : String :=
  let params := (pipeline.map ("pipeline=" ++ ·)).toList ++
    if refresh then ["refresh=true"] else []
  if params.isEmpty then baseUrl ++ "/_bulk" else baseUrl ++ "/_bulk?" ++ "&".intercalate params

/-- A request as it goes out. -/
structure BulkPost where
  url : String
  body : String
  deriving DecidableEq

/-- A step that posts requests and may fail. -/
abbrev Posting := Emitting BulkPost SinkError

/-- What one attempt at a bulk request comes to. -/
inductive BulkAttempt where
  | unreachable (error : String)
  | failed (status text : String)
  | unreadable (error : String)
  | answered (response : Json)

/-- The attempts left, from the next one on, with the error of the last one. -/
def sendAttempts (request : BulkPost) (attempt : ℕ → BulkAttempt) (actions : List BulkAction) :
    ℕ → ℕ → SinkError → Posting (List RejectedDocument)
  | 0, _, last => Emitting.fail last
  | left + 1, k, _ => do
    Emitting.emit request
    match attempt k with
    | .answered response => pure (bulkRejected response actions)
    | .unreadable e => Emitting.fail (.write s!"failed to read bulk response: {e}")
    | .failed status text =>
      sendAttempts request attempt actions left (k + 1)
        (.write s!"bulk request failed: HTTP {status}: {text}")
    | .unreachable e =>
      sendAttempts request attempt actions left (k + 1) (.write s!"bulk request error: {e}")

/-- The settings of the sink a flush reads, how an action is written, and the physical name of each
logical index, in the order the table yields them. -/
structure OpensearchSink where
  baseUrl : String
  pipeline : Option String
  batchSize : ℕ
  maxBytes : ℕ
  maxRetries : ℕ
  fragment : BulkAction → String
  indexNames : List (String × String)

namespace OpensearchSink

variable (s : OpensearchSink)

/-- The bytes an action takes on the wire. -/
def fragmentLength (action : BulkAction) : ℕ := (s.fragment action).utf8ByteSize

def plan (actions : List BulkAction) : List ℕ :=
  planChunks (actions.map s.fragmentLength) s.batchSize s.maxBytes

/-- The logical name of a physical index, which stands for itself when it is unknown. -/
def logical (physical : String) : String :=
  ((s.indexNames.reverse.find? fun name => name.2 = physical).map Prod.fst).getD physical

/-- Send one request, retrying what is transient. -/
def sendBulkChunk (attempt : ℕ → BulkAttempt) (body : String) (actions : List BulkAction)
    (refresh : Bool) : Posting (List RejectedDocument) :=
  if actions.isEmpty then pure []
  else sendAttempts ⟨buildBulkUrl s.baseUrl s.pipeline refresh, body⟩ attempt actions
    (s.maxRetries + 1) 0 (.write "bulk request failed with no error detail")

/-- Send the requests of a flush in turn, each with its actions' fragments for a body; the first
that fails ends it. -/
def sendChunks (exchange : ℕ → ℕ → BulkAttempt) (caughtUp : Bool) :
    ℕ → List (List BulkAction) → Posting (List RejectedDocument)
  | _, [] => pure []
  | k, chunk :: chunks => do
    let rejected ← s.sendBulkChunk (exchange k) (String.join (chunk.map s.fragment)) chunk caughtUp
    let rest ← sendChunks exchange caughtUp (k + 1) chunks
    pure (rejected ++ rest)

/-- Send the buffered actions; `exchange k` is what the attempts at request `k` come to. -/
def flush (exchange : ℕ → ℕ → BulkAttempt) (actions : List BulkAction) (caughtUp : Bool) :
    Posting FlushReport :=
  if actions.isEmpty then pure ⟨[]⟩
  else do
    let rejected ← s.sendChunks exchange caughtUp 0 ((s.plan actions).splitLengths actions)
    pure ⟨rejected.map fun doc => { doc with index := s.logical doc.index }⟩

end OpensearchSink

namespace ChunkPlan

variable {batchSize maxBytes : ℕ} (plan : ChunkPlan)

/-- The actions of a plan, planned and current. -/
def total : ℕ := plan.chunks.sum + plan.count

theorem total_add (size : ℕ) : (plan.add batchSize maxBytes size).total = plan.total + 1 := by
  unfold add total
  split
  · simp
  · simp [Nat.add_assoc]

theorem total_foldl (sizes : List ℕ) :
    (sizes.foldl (add batchSize maxBytes) plan).total = plan.total + sizes.length := by
  induction sizes generalizing plan with
  | nil => rfl
  | cons size sizes ih =>
    rw [List.foldl_cons, ih, total_add, List.length_cons]
    omega

theorem sum_close : plan.close.sum = plan.total := by
  unfold close total
  split
  · simp
  · omega

end ChunkPlan

theorem sum_planChunks (sizes : List ℕ) (batchSize maxBytes : ℕ) :
    (planChunks sizes batchSize maxBytes).sum = sizes.length := by
  rw [planChunks, ChunkPlan.sum_close, ChunkPlan.total_foldl]
  simp [ChunkPlan.total, ChunkPlan.empty]

/-- An attempt worth another one. -/
def BulkAttempt.Transient : BulkAttempt → Prop
  | .unreachable _ | .failed _ _ => True
  | _ => False

/-- The attempts at a request end in a response. -/
def Answered (maxRetries : ℕ) (attempt : ℕ → BulkAttempt) (response : Json) : Prop :=
  ∃ k ≤ maxRetries, attempt k = .answered response ∧ ∀ j < k, (attempt j).Transient

theorem sendAttempts_eq_ok {request : BulkPost} {attempt : ℕ → BulkAttempt}
    {actions : List BulkAction} {response : Json} {left start k : ℕ} {last : SinkError}
    (hk : start ≤ k) (hleft : k < start + left) (hanswer : attempt k = .answered response)
    (hbefore : ∀ j, start ≤ j → j < k → (attempt j).Transient) :
    (sendAttempts request attempt actions left start last).outcome =
      .ok (bulkRejected response actions) := by
  induction left generalizing start last with
  | zero => omega
  | succ left ih =>
    rw [sendAttempts, Emitting.emit_bind]
    rcases Nat.eq_or_lt_of_le hk with rfl | hlt
    · rw [hanswer]
      rfl
    · have htransient := hbefore start le_rfl hlt
      have hrest : ∀ last, (sendAttempts request attempt actions left (start + 1) last).outcome =
          .ok (bulkRejected response actions) := fun last =>
        ih hlt (by omega) fun j hj => hbefore j (by omega)
      cases hattempt : attempt start with
      | unreachable e => exact hrest _
      | failed status text => exact hrest _
      | unreadable e => exact (hattempt ▸ htransient).elim
      | answered response => exact (hattempt ▸ htransient).elim

theorem emitted_sendAttempts {request : BulkPost} {attempt : ℕ → BulkAttempt}
    {actions : List BulkAction} {left k : ℕ} {last : SinkError} :
    ∃ n ≤ left, (0 < left → 0 < n) ∧
      (sendAttempts request attempt actions left k last).emitted = List.replicate n request := by
  induction left generalizing k last with
  | zero => exact ⟨0, le_rfl, id, rfl⟩
  | succ left ih =>
    have hmore : ∀ last, ∃ n ≤ left + 1, (0 < left + 1 → 0 < n) ∧
        request :: (sendAttempts request attempt actions left (k + 1) last).emitted =
          List.replicate n request := by
      intro last
      obtain ⟨n, hn, -, hposts⟩ := @ih (k + 1) last
      exact ⟨n + 1, Nat.succ_le_succ hn, fun _ => Nat.succ_pos n, by
        rw [hposts, List.replicate_succ]⟩
    have hlast : ∃ n ≤ left + 1, (0 < left + 1 → 0 < n) ∧ [request] = List.replicate n request :=
      ⟨1, Nat.succ_le_succ (Nat.zero_le _), fun _ => Nat.one_pos, rfl⟩
    rw [sendAttempts, Emitting.emit_bind]
    cases attempt k with
    | unreachable e => exact hmore _
    | failed status text => exact hmore _
    | unreadable e => exact hlast
    | answered response => exact hlast

theorem Answered.sendBulkChunk_eq {s : OpensearchSink} {attempt : ℕ → BulkAttempt}
    {response : Json} {body : String} {actions : List BulkAction} {refresh : Bool}
    (h : Answered s.maxRetries attempt response) (hne : actions ≠ []) :
    (s.sendBulkChunk attempt body actions refresh).outcome =
      .ok (bulkRejected response actions) := by
  obtain ⟨k, hk, hanswer, hbefore⟩ := h
  rw [OpensearchSink.sendBulkChunk, if_neg (by simpa using hne)]
  exact sendAttempts_eq_ok (Nat.zero_le k) (by omega) hanswer fun j _ => hbefore j

end Flusso
