import Flusso.Sink.Bulk
import Mathlib.Data.List.Forall2
import Mathlib.Data.Option.Basic

/-! # Refusals item by item

The cluster answers a request with one result for each action and flags the
response when some item failed. A delete of a missing document does not fail,
though its status is 404; it is reported as a rejection exactly when another
action of its request was refused.
-/

namespace Flusso

/-- The result of one action. A delete of a missing document carries no error. -/
inductive ItemResult where
  | applied (status : ℕ) (below : status < 400)
  | missing
  | refused (status : ℕ) (reason : Option String) (above : 400 ≤ status ∧ status < 600)
  deriving DecidableEq

namespace ItemResult

def status : ItemResult → ℕ
  | applied status _ => status
  | missing => 404
  | refused status _ _ => status

def reason : ItemResult → Option String
  | refused _ reason _ => reason
  | _ => none

def isRefused : ItemResult → Bool
  | refused .. => true
  | _ => false

/-- A result as the cluster writes it. -/
structure Written (result : ItemResult) (body : Json) : Prop where
  status : body.field? "status" = some (Json.ofNat result.status)
  reason : ((body.field? "error").bind (Json.field? "reason")).bind Json.asStr = result.reason

end ItemResult

structure BulkItem where
  action : BulkAction
  result : ItemResult

namespace BulkItem

/-- An item as the cluster writes it, under the operation of its action. -/
def Written (item : BulkItem) (json : Json) : Prop :=
  ∃ body, json = .object [(item.action.op, body)] ∧ item.result.Written body

def rejection (item : BulkItem) : RejectedDocument where
  index := item.action.indexName
  id := item.action.documentId
  reason := item.result.reason.getD ("rejected with status " ++ item.result.status.repr)

/-- What the item alone says: the cluster refused the action. -/
def refusal (item : BulkItem) : Option RejectedDocument :=
  if item.result.isRefused then some item.rejection else none

/-- What is read from the item by its status. -/
def reported (item : BulkItem) : Option RejectedDocument :=
  if 400 ≤ item.result.status then some item.rejection else none

variable {item : BulkItem}

theorem refusal_sublist_reported : item.refusal.toList.Sublist item.reported.toList := by
  rcases item with ⟨action, _ | _ | ⟨status, reason, above⟩⟩
  · exact List.nil_sublist _
  · exact List.nil_sublist _
  · have hreported : reported ⟨action, .refused status reason above⟩ =
        refusal ⟨action, .refused status reason above⟩ := if_pos above.1
    rw [hreported]

theorem refusal_eq_reported_iff :
    item.refusal.toList = item.reported.toList ↔ item.result ≠ .missing := by
  rcases item with ⟨action, ⟨status, below⟩ | _ | ⟨status, reason, above⟩⟩
  · have hreported : reported ⟨action, .applied status below⟩ = none :=
      if_neg (Nat.not_le.mpr below)
    rw [hreported]
    simp [refusal, ItemResult.isRefused]
  · simp [refusal, reported, ItemResult.isRefused, ItemResult.status]
  · have hreported : reported ⟨action, .refused status reason above⟩ =
        refusal ⟨action, .refused status reason above⟩ := if_pos above.1
    rw [hreported]
    simp


theorem Written.itemRejected {json : Json} (h : item.Written json) :
    itemRejected json (some item.action) = item.reported := by
  obtain ⟨body, rfl, hbody⟩ := h
  have hop : itemOp (.object [(item.action.op, body)]) = some body := by
    rcases item with ⟨_ | _, result⟩ <;> simp [itemOp, Json.field?, Json.get, BulkAction.op]
  have hstatus : ((body.field? "status").bind Json.asU64).getD 0 = item.result.status := by
    have hbound : item.result.status < 2 ^ 64 := by
      rcases item.result with ⟨status, below⟩ | _ | ⟨status, reason, above⟩ <;>
        simp only [ItemResult.status] <;> omega
    rw [hbody.status, Option.bind_some, Json.asU64_ofNat hbound]
    rfl
  simp only [Flusso.itemRejected, hop, hstatus, hbody.reason, Option.bind_eq_bind,
    Option.bind_some]
  unfold reported
  split
  · next h => simp [guard, h, rejection]
  · next h => simp [guard, h]

end BulkItem

/-- A response to a request: one result for each action, and a flag that says whether some
item failed. -/
structure Reports (request : List BulkItem) (response : Json) : Prop where
  errors : response.field? "errors" = some (.bool (request.any fun item => item.result.isRefused))
  items : ∃ written, response.field? "items" = some (.array written) ∧
    List.Forall₂ BulkItem.Written request written

/-- A refused action stands beside a delete of a missing document. -/
def Mixed (request : List BulkItem) : Prop :=
  (∃ item ∈ request, item.result.isRefused = true) ∧ ∃ item ∈ request, item.result = .missing

instance (request : List BulkItem) : Decidable (Mixed request) :=
  inferInstanceAs (Decidable (_ ∧ _))

/-- What is read from the response to a request. -/
def reportedTogether (request : List BulkItem) : List RejectedDocument :=
  if request.any fun item => item.result.isRefused then request.filterMap BulkItem.reported else []

namespace ItemResult

/-- The body of a result under its action. -/
def body (action : BulkAction) (result : ItemResult) : List (String × Json) :=
  let error := match result with
    | refused _ reason _ => [("error", .object [("reason", (reason.map Json.string).getD .null)])]
    | _ => []
  [("_id", .string action.documentId), ("_index", .string action.indexName)] ++ error ++
    [("status", Json.ofNat result.status)]

theorem written_body (action : BulkAction) (result : ItemResult) :
    result.Written (.object (result.body action)) := by
  rcases result with _ | _ | ⟨status, _ | reason, above⟩ <;>
    exact ⟨by simp [body, Json.field?, Json.get],
      by simp [body, Json.field?, Json.get, Json.asStr, ItemResult.reason]⟩

end ItemResult

/-- The response to a request. -/
def respond (request : List BulkItem) : Json :=
  .object [("errors", .bool (request.any fun item => item.result.isRefused)),
    ("items", .array <| request.map fun item =>
      .object [(item.action.op, .object (item.result.body item.action))])]

theorem reports_respond (request : List BulkItem) : Reports request (respond request) where
  errors := by simp [respond, Json.field?, Json.get]
  items := by
    refine ⟨request.map fun item =>
      .object [(item.action.op, .object (item.result.body item.action))], ?_, ?_⟩
    · simp [respond, Json.field?, Json.get]
    · rw [List.forall₂_map_right_iff, List.forall₂_same]
      exact fun item _ => ⟨_, rfl, item.result.written_body item.action⟩

section Response

variable {request : List BulkItem} {response : Json}

theorem filterMap_zipIdx {written : List Json} (h : List.Forall₂ BulkItem.Written request written)
    (done : List BulkAction) :
    (written.zipIdx done.length).filterMap
        (fun item => itemRejected item.1 (done ++ request.map BulkItem.action)[item.2]?) =
      request.filterMap BulkItem.reported := by
  induction h generalizing done with
  | nil => rfl
  | @cons item json request written hitem _ ih =>
    have hlist : done ++ (item :: request).map BulkItem.action =
        (done ++ [item.action]) ++ request.map BulkItem.action := by
      simp
    have haction : ((done ++ [item.action]) ++ request.map BulkItem.action)[done.length]? =
        some item.action := by
      simp
    have hrest := ih (done ++ [item.action])
    rw [List.length_append, List.length_singleton] at hrest
    rw [hlist, List.zipIdx_cons, List.filterMap_cons, List.filterMap_cons]
    simp only [haction, hitem.itemRejected, hrest]

theorem Reports.bulkRejected (h : Reports request response) :
    bulkRejected response (request.map BulkItem.action) = reportedTogether request := by
  obtain ⟨written, hitems, hwritten⟩ := h.items
  have hpositions := filterMap_zipIdx hwritten []
  rw [List.nil_append] at hpositions
  unfold Flusso.bulkRejected reportedTogether
  simp only [h.errors, hitems, Option.bind_some, Json.asBool, Json.asArray, Option.getD_some]
  split
  · exact hpositions
  · rfl

theorem filterMap_refusal_of_not_any
    (h : ¬ (request.any fun item => item.result.isRefused) = true) :
    request.filterMap BulkItem.refusal = [] := by
  rw [List.filterMap_eq_nil_iff]
  intro item hitem
  refine if_neg fun hrefused => h ?_
  exact List.any_eq_true.mpr ⟨item, hitem, hrefused⟩

theorem refusals_sublist_reportedTogether :
    (request.filterMap BulkItem.refusal).Sublist (reportedTogether request) := by
  unfold reportedTogether
  split
  · rw [List.filterMap_eq_flatMap_toList, List.filterMap_eq_flatMap_toList]
    exact List.Sublist.flatMap_right _ fun _ _ => BulkItem.refusal_sublist_reported
  · next h => rw [filterMap_refusal_of_not_any h]

/-- A request's refusals are what is read from its response unless the request is mixed. -/
theorem refusals_eq_reportedTogether_iff :
    request.filterMap BulkItem.refusal = reportedTogether request ↔ ¬ Mixed request := by
  unfold reportedTogether Mixed
  split
  · next h =>
    rw [List.filterMap_eq_flatMap_toList, List.filterMap_eq_flatMap_toList,
      Segments.flatMap_eq_iff fun _ _ => BulkItem.refusal_sublist_reported]
    have hany := List.any_eq_true.mp h
    simp only [BulkItem.refusal_eq_reported_iff, not_and, not_exists]
    exact ⟨fun hnone _ item hitem => hnone item hitem, fun hnone item hitem => hnone hany item hitem⟩
  · next h =>
    have hany : ¬ ∃ item ∈ request, item.result.isRefused = true := fun hex =>
      h (List.any_eq_true.mpr hex)
    exact iff_of_true (filterMap_refusal_of_not_any h) fun hmixed => hany hmixed.1

end Response

namespace OpensearchSink

variable (s : OpensearchSink)

/-- The requests a buffer is cut into, each with the results of its actions. -/
def requests (items : List BulkItem) : List (List BulkItem) :=
  (s.plan (items.map BulkItem.action)).splitLengths items

/-- A rejection under its index's logical name. -/
def relabel (doc : RejectedDocument) : RejectedDocument := { doc with index := s.logical doc.index }

/-- The actions whose own result is a refusal. -/
def refusals (items : List BulkItem) : List RejectedDocument :=
  (items.filterMap BulkItem.refusal).map s.relabel

/-- Every request is answered in the end, with one result for each of its actions. -/
def AllAnswered (exchange : ℕ → ℕ → BulkAttempt) (start : ℕ) (requests : List (List BulkItem)) :
    Prop :=
  ∀ k request, requests[k]? = some request →
    ∃ response, Answered s.maxRetries (exchange (start + k)) response ∧ Reports request response

variable {s} {exchange : ℕ → ℕ → BulkAttempt} {items : List BulkItem}

theorem flatten_requests : (s.requests items).flatten = items := by
  refine List.flatten_splitLengths _ _ ?_
  rw [plan, sum_planChunks]
  simp

theorem sendChunks_eq {requests : List (List BulkItem)} {start : ℕ} (refresh : Bool)
    (h : s.AllAnswered exchange start requests) :
    (s.sendChunks exchange refresh start (requests.map (List.map BulkItem.action))).outcome =
      .ok (requests.flatMap reportedTogether) := by
  induction requests generalizing start with
  | nil => rfl
  | cons request requests ih =>
    have hrest : s.AllAnswered exchange (start + 1) requests := by
      intro k request' hk
      have hnext := h (k + 1) request' hk
      rwa [← Nat.add_assoc, Nat.add_right_comm] at hnext
    obtain ⟨response, hanswered, hreports⟩ := h 0 request rfl
    have hsend : ∀ body, (s.sendBulkChunk (exchange start) body (request.map BulkItem.action)
        refresh).outcome = .ok (reportedTogether request) := by
      intro body
      rcases request with _ | ⟨item, request⟩
      · rfl
      · rw [← hreports.bulkRejected]
        exact hanswered.sendBulkChunk_eq (by simp)
    rw [List.map_cons, sendChunks]
    exact Emitting.outcome_bind_eq_ok.mpr
      ⟨_, hsend _, Emitting.outcome_bind_eq_ok.mpr ⟨_, ih hrest, rfl⟩⟩

theorem flush_eq (caughtUp : Bool) (h : s.AllAnswered exchange 0 (s.requests items)) :
    (s.flush exchange (items.map BulkItem.action) caughtUp).outcome =
      .ok ⟨((s.requests items).flatMap reportedTogether).map s.relabel⟩ := by
  rcases items with _ | ⟨item, items⟩
  · rfl
  · have hsend := sendChunks_eq caughtUp h
    rw [requests, Segments.map_splitLengths] at hsend
    rw [flush, if_neg (by simp)]
    exact Emitting.outcome_bind_eq_ok.mpr ⟨_, hsend, rfl⟩

/-- A flush reports the actions the cluster refused, no more, exactly when no request holds a
refused action beside a delete of a missing document. -/
theorem flush_rejected_iff (s : OpensearchSink) (exchange : ℕ → ℕ → BulkAttempt)
    (items : List BulkItem) (caughtUp : Bool)
    (h : s.AllAnswered exchange 0 (s.requests items)) :
    ∃ report, (s.flush exchange (items.map BulkItem.action) caughtUp).outcome = .ok report ∧
      (report.rejected = s.refusals items ↔ ∀ request ∈ s.requests items, ¬ Mixed request) := by
  refine ⟨_, flush_eq caughtUp h, ?_⟩
  have hrefusals : s.refusals items =
      (s.requests items).flatMap fun r => (r.filterMap BulkItem.refusal).map s.relabel := by
    rw [refusals, ← List.map_flatMap, List.flatMap_def, ← List.filterMap_flatten, flatten_requests]
  have hsublist : ∀ r ∈ s.requests items,
      ((r.filterMap BulkItem.refusal).map s.relabel).Sublist
        ((reportedTogether r).map s.relabel) := fun r _ =>
    refusals_sublist_reportedTogether.map _
  rw [hrefusals, List.map_flatMap, eq_comm, Segments.flatMap_eq_iff hsublist]
  refine forall₂_congr fun r _ => ?_
  rw [← refusals_eq_reportedTogether_iff]
  constructor
  · intro heq
    have hlength := congrArg List.length heq
    rw [List.length_map, List.length_map] at hlength
    exact refusals_sublist_reportedTogether.eq_of_length hlength
  · intro heq
    rw [heq]

/-- A sink with one index. -/
def users : OpensearchSink where
  baseUrl := "http://localhost:9200"
  pipeline := none
  batchSize := 1000
  maxBytes := 10000000
  maxRetries := 3
  fragment action := action.op ++ " " ++ action.documentId ++ "\n"
  indexNames := [("users", "users_1f_1")]

/-- A delete of a document that is not there, and a document the mapping refuses. -/
def goneAndRefused : List BulkItem :=
  [⟨.delete "users_1f_1" "7", .missing⟩,
    ⟨.index "users_1f_1" "8" .null, .refused 400 (some "failed to parse") (by decide)⟩]

theorem allAnswered_respond (items : List BulkItem) (h : users.requests items = [items]) :
    users.AllAnswered (fun _ _ => .answered (respond items)) 0 (users.requests items) := by
  intro k request hk
  rw [h, List.getElem?_singleton] at hk
  split at hk
  · cases hk
    exact ⟨_, ⟨0, Nat.zero_le _, rfl, fun j hj => (Nat.not_lt_zero j hj).elim⟩,
      reports_respond _⟩
  · cases hk

theorem flush_rejected_iff_mixed :
    ∃ report, (users.flush (fun _ _ => .answered (respond goneAndRefused))
        (goneAndRefused.map BulkItem.action) true).outcome = .ok report ∧
      (report.rejected = users.refusals goneAndRefused ↔
        ∀ request ∈ users.requests goneAndRefused, ¬ Mixed request) :=
  flush_rejected_iff users _ goneAndRefused true (allAnswered_respond _ rfl)

/-- The delete is not reported alone, and it is reported beside the refused document. -/
theorem delete_judged_by_sibling :
    (users.flush (fun _ _ => .answered (respond (goneAndRefused.take 1)))
        ((goneAndRefused.take 1).map BulkItem.action) true).outcome = .ok ⟨[]⟩ ∧
      ∃ report, (users.flush (fun _ _ => .answered (respond goneAndRefused))
          (goneAndRefused.map BulkItem.action) true).outcome = .ok report ∧
        ⟨"users", "7", "rejected with status 404"⟩ ∈ report.rejected ∧
        report.rejected ≠ users.refusals goneAndRefused := by
  have halone := flush_eq true (allAnswered_respond (goneAndRefused.take 1) rfl)
  have hboth := flush_eq true (allAnswered_respond goneAndRefused rfl)
  refine ⟨halone, _, hboth, ?_, ?_⟩ <;> decide

end OpensearchSink

end Flusso
