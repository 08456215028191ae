import Mathlib.Logic.Function.Basic
import Flusso.Foundation.Faulty
import Flusso.Foundation.Transition
import Flusso.Sink.Bulk
import Flusso.Sink.Naming

/-! # Alias-over-generations addressing

The sink's calls on one index, step by step: every request to the cluster is a
remote step of its own, and a call stops at the first one that fails.
-/

namespace Flusso

open Faulty Function

/-- One index of a sink: its logical name, the hash of its schema and the sink's prefix. -/
structure SinkIndex where
  indexPrefix : String
  logical : String
  hash : String
  bare : '_' ∉ hash.toList

namespace SinkIndex

/-- The stable alias the generations sit behind. -/
def hashAlias (i : SinkIndex) : String := i.indexPrefix ++ i.logical ++ "_" ++ i.hash

def convenienceAlias (i : SinkIndex) : String := i.indexPrefix ++ i.logical

theorem length_hashAlias (i : SinkIndex) :
    i.convenienceAlias.length < i.hashAlias.length ∧ i.logical.length < i.hashAlias.length := by
  simp only [hashAlias, convenienceAlias, String.length_append]
  have : "_".length = 1 := rfl
  omega

theorem hashAlias_inj {i j : SinkIndex} (hsink : i.indexPrefix = j.indexPrefix) :
    i.hashAlias = j.hashAlias ↔ i = j := by
  constructor
  · intro h
    have hname (k : SinkIndex) : k.hashAlias.toList =
        (k.indexPrefix ++ k.logical).toList ++ '_' :: k.hash.toList := by simp [hashAlias]
    have hsplit := congrArg (fun name => rsplitUnderscore (String.toList name)) h
    simp only [hname, rsplitUnderscore_append i.bare, rsplitUnderscore_append j.bare,
      Option.some.injEq, Prod.mk.injEq, String.toList_inj] at hsplit
    obtain ⟨hnames, hhash⟩ := hsplit
    rw [hsink, String.append_right_inj] at hnames
    cases i
    cases j
    rw [SinkIndex.mk.injEq]
    exact ⟨hsink, hnames, hhash⟩
  · rintro rfl
    rfl

end SinkIndex

/-- What the calls did, for statements about a history. -/
inductive GenerationEvent where
  /-- `reindex`, or a first `ensure_index`, chose a number while these indexes existed. -/
  | staged (hashAlias : String) (generation : UInt64) (existing : List String)
  /-- `mark_seeded` was called for a generation. -/
  | asked (index : String)
  /-- The cluster moved an alias. -/
  | moved (aliasName index : String)
  /-- The cluster stored a meta document. -/
  | recorded (hashAlias : String) (generation : UInt64) (seeded : Bool)
  deriving DecidableEq

/-- The cluster's indexes, aliases and meta documents, and the process's memory of the physical
name of each logical one. -/
structure Cluster where
  indices : List String
  aliases : String → List String
  metaDocs : String → Option (UInt64 × Bool)
  physical : String → Option String
  log : List GenerationEvent

/-- A call of the sink; it fails with a message. -/
abbrev SinkProgram := Program Cluster SinkError

namespace Cluster

def note (event : GenerationEvent) (w : Cluster) : Cluster := { w with log := w.log ++ [event] }

/-- Nothing on the cluster yet. -/
def empty : Cluster where
  indices := []
  aliases _ := []
  metaDocs _ := none
  physical _ := none
  log := []

/-- The name is an index or an alias of some. -/
def Addressable (w : Cluster) (name : String) : Prop := name ∈ w.indices ∨ w.aliases name ≠ []

instance (w : Cluster) (name : String) : Decidable (w.Addressable name) :=
  inferInstanceAs (Decidable (_ ∨ _))

/-- The indexes behind a name. -/
def resolve (w : Cluster) (name : String) : List String :=
  if name ∈ w.indices then [name] else w.aliases name

def putMeta (hashAlias : String) (generation : UInt64) (seeded : Bool) (w : Cluster) : Cluster :=
  { w with
    metaDocs := update w.metaDocs hashAlias (some (generation, seeded))
    log := w.log ++ [.recorded hashAlias generation seeded] }

def setAlias (aliasName target : String) (holders : List String) (w : Cluster) : Cluster :=
  { w with
    aliases := update w.aliases aliasName holders
    log := w.log ++ [.moved aliasName target] }

/-- Deleting an index takes it out of every alias. -/
def drop (index : String) (w : Cluster) : Cluster :=
  { w with
    indices := w.indices.filter (· ≠ index)
    aliases := fun aliasName => (w.aliases aliasName).filter (· ≠ index) }

/-- The process learns the physical name of an index. -/
def announce (logical index : String) (w : Cluster) : Cluster :=
  { w with physical := update w.physical logical (some index) }

section Updates

variable (w : Cluster) (logical : String) (event : GenerationEvent)
  (hashAlias index target : String) (n : UInt64) (seeded : Bool) (holders : List String)

@[simp] theorem indices_note : (w.note event).indices = w.indices := rfl
@[simp] theorem aliases_note : (w.note event).aliases = w.aliases := rfl
@[simp] theorem metaDocs_note : (w.note event).metaDocs = w.metaDocs := rfl
@[simp] theorem physical_note : (w.note event).physical = w.physical := rfl
@[simp] theorem log_note : (w.note event).log = w.log ++ [event] := rfl

@[simp] theorem indices_putMeta : (w.putMeta hashAlias n seeded).indices = w.indices := rfl
@[simp] theorem aliases_putMeta : (w.putMeta hashAlias n seeded).aliases = w.aliases := rfl
@[simp] theorem metaDocs_putMeta : (w.putMeta hashAlias n seeded).metaDocs =
    update w.metaDocs hashAlias (some (n, seeded)) := rfl
theorem metaDocs_putMeta_self :
    (w.putMeta hashAlias n seeded).metaDocs hashAlias = some (n, seeded) := update_self _ _ _
@[simp] theorem physical_putMeta : (w.putMeta hashAlias n seeded).physical = w.physical := rfl
@[simp] theorem log_putMeta : (w.putMeta hashAlias n seeded).log =
    w.log ++ [.recorded hashAlias n seeded] := rfl

@[simp] theorem indices_setAlias : (w.setAlias hashAlias target holders).indices = w.indices := rfl
@[simp] theorem aliases_setAlias : (w.setAlias hashAlias target holders).aliases =
    update w.aliases hashAlias holders := rfl
theorem aliases_setAlias_self :
    (w.setAlias hashAlias target holders).aliases hashAlias = holders := update_self _ _ _
@[simp] theorem metaDocs_setAlias :
    (w.setAlias hashAlias target holders).metaDocs = w.metaDocs := rfl
@[simp] theorem physical_setAlias :
    (w.setAlias hashAlias target holders).physical = w.physical := rfl
@[simp] theorem log_setAlias : (w.setAlias hashAlias target holders).log =
    w.log ++ [.moved hashAlias target] := rfl

@[simp] theorem indices_drop : (w.drop index).indices = w.indices.filter (· ≠ index) := rfl
@[simp] theorem aliases_drop (aliasName : String) :
    (w.drop index).aliases aliasName = (w.aliases aliasName).filter (· ≠ index) := rfl
@[simp] theorem metaDocs_drop : (w.drop index).metaDocs = w.metaDocs := rfl
@[simp] theorem physical_drop : (w.drop index).physical = w.physical := rfl
@[simp] theorem log_drop : (w.drop index).log = w.log := rfl

@[simp] theorem indices_announce : (w.announce logical index).indices = w.indices := rfl
@[simp] theorem aliases_announce : (w.announce logical index).aliases = w.aliases := rfl
@[simp] theorem metaDocs_announce : (w.announce logical index).metaDocs = w.metaDocs := rfl
@[simp] theorem physical_announce : (w.announce logical index).physical =
    update w.physical logical (some index) := rfl
theorem physical_announce_self :
    (w.announce logical index).physical logical = some index := update_self _ _ _
@[simp] theorem log_announce : (w.announce logical index).log = w.log := rfl

end Updates

end Cluster

/-- One action of an `_aliases` request. -/
inductive AliasAction where
  | remove (index : String)
  | add (index : String)
  deriving DecidableEq

/-- The actions that make an alias point at exactly the target; none when it does already. -/
def planAliasActions (target : String) (holders : List String) : Option (List AliasAction) :=
  if holders.length = 1 ∧ holders.all (· = target) then none
  else some ((holders.filter (· ≠ target)).map .remove ++ [.add target])

/-- One action on the holders of an alias; it names an index that does not exist, or one that
does not hold the alias, in vain. -/
def applyAliasAction (indices : List String) (holders : List String) :
    AliasAction → Except SinkError (List String)
  | .remove index =>
    if index ∈ indices ∧ index ∈ holders then .ok (holders.filter (· ≠ index))
    else .error (.write "alias update failed")
  | .add index =>
    if index ∈ indices then .ok (if index ∈ holders then holders else holders ++ [index])
    else .error (.write "alias update failed")

/-- All actions in one atomic request. The name of an index is no alias. -/
def Cluster.applyAliasActions (aliasName target : String) (actions : List AliasAction)
    (w : Cluster) : Except SinkError (Unit × Cluster) :=
  if aliasName ∈ w.indices then .error (.write "alias update failed")
  else
    (actions.foldlM (applyAliasAction w.indices) (w.aliases aliasName)).map fun holders =>
      ((), w.setAlias aliasName target holders)

section AliasActions

variable {indices holders : List String} {aliasName target : String} {actions : List AliasAction}
  {w w' : Cluster}

theorem eq_setAlias_of_applyAliasActions {u : Unit}
    (h : w.applyAliasActions aliasName target actions = .ok (u, w')) :
    ∃ holders, actions.foldlM (applyAliasAction w.indices) (w.aliases aliasName) = .ok holders ∧
      w' = w.setAlias aliasName target holders := by
  unfold Cluster.applyAliasActions at h
  split at h
  · cases h
  · rcases hfold : actions.foldlM (applyAliasAction w.indices) (w.aliases aliasName) with e | holders
    · rw [hfold] at h
      cases h
    · rw [hfold] at h
      cases h
      exact ⟨holders, rfl, rfl⟩

theorem eq_of_planAliasActions_eq_none (h : planAliasActions target holders = none) :
    holders = [target] := by
  unfold planAliasActions at h
  split at h
  · next hholders =>
    obtain ⟨hlength, hall⟩ := hholders
    obtain ⟨holder, rfl⟩ := List.length_eq_one_iff.mp hlength
    simpa using hall
  · cases h

/-- The planned actions leave an alias with one holder at most on the target, which exists. -/
theorem of_foldlM_planAliasActions {left : List String}
    (h : planAliasActions target holders = some actions) (hsingle : holders.length ≤ 1)
    (hleft : actions.foldlM (applyAliasAction indices) holders = .ok left) :
    left = [target] ∧ target ∈ indices := by
  have hadd (hleft : [AliasAction.add target].foldlM (applyAliasAction indices) [] = .ok left) :
      left = [target] ∧ target ∈ indices := by
    rw [List.foldlM_cons, applyAliasAction] at hleft
    split at hleft
    · next htarget =>
      cases hleft
      exact ⟨rfl, htarget⟩
    · cases hleft
  rcases holders with _ | ⟨holder, rest⟩
  · cases h
    exact hadd hleft
  · have hrest : rest = [] := List.eq_nil_of_length_eq_zero (by simpa using hsingle)
    subst hrest
    have hne : holder ≠ target := by
      rintro rfl
      simp [planAliasActions] at h
    have hactions : actions = [.remove holder, .add target] := by
      simpa [planAliasActions, hne] using h.symm
    subst hactions
    rw [List.foldlM_cons, applyAliasAction] at hleft
    split at hleft
    · exact hadd (by simpa [bind, Except.bind] using hleft)
    · cases hleft

end AliasActions

section Requests

def concreteIndexExists (name : String) : SinkProgram Bool :=
  remote (.write "listing indices failed") fun w => .ok (decide (name ∈ w.resolve name), w)

/-- The existing indexes whose name begins like a generation's. -/
def listGenerations (hashAlias : String) : SinkProgram (List String) :=
  remote (.write "listing indices failed") fun w =>
    .ok (w.indices.filter fun index => (hashAlias.toList ++ ['_']).isPrefixOf index.toList, w)

def readIndexMeta (hashAlias : String) : SinkProgram (Option (UInt64 × Bool)) :=
  remote (.write "meta get failed") fun w => .ok (w.metaDocs hashAlias, w)

def writeIndexMeta (hashAlias : String) (generation : UInt64) (seeded : Bool) : SinkProgram Unit :=
  remote (.write "meta put failed") fun w => .ok ((), w.putMeta hashAlias generation seeded)

def aliasHolders (aliasName : String) : SinkProgram (List String) :=
  remote (.write "alias lookup failed") fun w => .ok (w.aliases aliasName, w)

def updateAliases (aliasName target : String) (actions : List AliasAction) : SinkProgram Unit :=
  remote (.write "alias update failed") (Cluster.applyAliasActions aliasName target actions)

def indexExists (index : String) : SinkProgram Bool :=
  remote (.write "index check failed") fun w => .ok (decide (w.Addressable index), w)

/-- An index that exists already is fine; an alias of that name is not. -/
def Cluster.addIndex (index : String) (w : Cluster) : Except SinkError (Unit × Cluster) :=
  if index ∈ w.indices then .ok ((), w)
  else if w.aliases index ≠ [] then .error (.write "index create failed")
  else .ok ((), { w with indices := w.indices ++ [index] })

def createIndex (index : String) : SinkProgram Unit :=
  remote (.write "index create failed") (Cluster.addIndex index)

def refreshIndex (index : String) : SinkProgram Unit :=
  remote (.write "refresh failed") fun w =>
    if w.Addressable index then .ok ((), w) else .error (.write "refresh failed")

def restoreAutoRefresh (index : String) : SinkProgram Unit :=
  remote (.write "restore refresh failed") fun w =>
    if w.Addressable index then .ok ((), w) else .error (.write "restore refresh failed")

/-- An index already gone is fine; an alias of that name is not. -/
def Cluster.removeIndex (index : String) (w : Cluster) : Except SinkError (Unit × Cluster) :=
  if index ∈ w.indices then .ok ((), w.drop index)
  else if w.aliases index ≠ [] then .error (.write "index delete failed")
  else .ok ((), w)

def deleteIndex (index : String) : SinkProgram Unit :=
  remote (.write "index delete failed") (Cluster.removeIndex index)

/-- The table of physical names learns where the writes of an index go. -/
def remember (logical index : String) : SinkProgram Unit :=
  locally fun w => ((), w.announce logical index)

def note (event : Cluster → GenerationEvent) : SinkProgram Unit :=
  locally fun w => ((), w.note (event w))

/-- The physical name of the index, or the logical one when it was never announced. -/
def physicalName (logical : String) : SinkProgram String :=
  locally fun w => ((w.physical logical).getD logical, w)

end Requests

section Effects

variable {index : String} {w w' : Cluster} {u : Unit}

theorem addIndex_eq_ok (h : w.addIndex index = .ok (u, w')) :
    index ∈ w'.indices ∧
      (w' = w ∨ index ∉ w.indices ∧ w' = { w with indices := w.indices ++ [index] }) := by
  unfold Cluster.addIndex at h
  split at h
  · next hmem =>
    cases h
    exact ⟨hmem, .inl rfl⟩
  · split at h
    · cases h
    · next hmem _ =>
      cases h
      exact ⟨List.mem_append_right _ List.mem_cons_self, .inr ⟨hmem, rfl⟩⟩

theorem removeIndex_eq_ok (h : w.removeIndex index = .ok (u, w')) :
    w' = w.drop index ∨ index ∉ w.indices ∧ w' = w := by
  unfold Cluster.removeIndex at h
  split at h
  · cases h
    exact .inl rfl
  · split at h
    · cases h
    · next hmem _ =>
      cases h
      exact .inr ⟨hmem, rfl⟩

end Effects

def tryEnsureAlias (aliasName target : String) : SinkProgram Unit := do
  let holders ← aliasHolders aliasName
  match planAliasActions target holders with
  | none => pure ()
  | some actions => updateAliases aliasName target actions

/-- Nothing reads through the convenience alias, so its failures are swallowed. -/
def ensureAlias (aliasName target : String) : SinkProgram Unit :=
  attempt (tryEnsureAlias aliasName target)

/-- The number after the existing generations. -/
def stageGeneration (hashAlias : String) : SinkProgram UInt64 := do
  let existing ← listGenerations hashAlias
  note fun w => .staged hashAlias (nextGeneration existing hashAlias) w.indices
  pure (nextGeneration existing hashAlias)

section Calls

variable (i : SinkIndex)

/-- The active generation and whether its meta document says seeded. -/
def activeGeneration : SinkProgram (UInt64 × Bool) := do
  match ← readIndexMeta i.hashAlias with
  | some state => pure state
  | none => do
    let generation ← stageGeneration i.hashAlias
    pure (generation, false)

/-- Make sure the generation's index exists. A seed marker whose generation is gone no longer
counts. -/
def ensureGeneration (index : String) (marked : Bool) : SinkProgram Bool := do
  if ← indexExists index then pure marked
  else do
    createIndex index
    pure false

/-- A concrete index from before there were generations has the alias's name. -/
def refuseConcreteIndex : SinkProgram Unit := do
  if ← concreteIndexExists i.hashAlias then
    throw (.write (i.hashAlias ++ " exists as a concrete index from an older flusso version; "
      ++ "reindex it into " ++ i.hashAlias ++ "_1 and delete " ++ i.hashAlias
      ++ " so the name can become an alias"))
  else pure ()

/-- A resumed run targets the same generation. -/
def persistUnseeded (generation : UInt64) (seeded : Bool) : SinkProgram Unit :=
  if seeded then pure () else writeIndexMeta i.hashAlias generation false

/-- Serve the generation when it is the live one or nothing else is serving. -/
def serveUnlessRebuilding (index : String) (seeded : Bool) : SinkProgram Unit := do
  let serving ← aliasHolders i.hashAlias
  if seeded || serving.isEmpty then do
    tryEnsureAlias i.hashAlias index
    ensureAlias i.convenienceAlias index
  else pure ()

def ensureIndex : SinkProgram Unit := do
  refuseConcreteIndex i
  let (generation, marked) ← activeGeneration i
  let index := generationName i.hashAlias generation
  remember i.logical index
  let seeded ← ensureGeneration index marked
  persistUnseeded i generation seeded
  serveUnlessRebuilding i index seeded

/-- Make the generation searchable, move the aliases onto it, drop those the hash alias held
before, then write the seed marker. -/
def markGeneration (hashAlias generation : String) : SinkProgram Unit := do
  note fun _ => .asked generation
  refreshIndex generation
  restoreAutoRefresh generation
  let holders ← aliasHolders hashAlias
  let superseded := holders.filter fun holder =>
    holder ≠ generation ∧ (parseGeneration hashAlias holder).isSome
  tryEnsureAlias hashAlias generation
  ensureAlias i.convenienceAlias generation
  superseded.forM deleteIndex
  writeIndexMeta hashAlias ((parseGeneration hashAlias generation).getD 1) true

def markSeeded : SinkProgram Unit := do
  let generation ← physicalName i.logical
  match hashAliasOf generation with
  | none =>
    throw (.write ("cannot mark " ++ i.logical ++
      " seeded: it has no active generation (ensure_index not run?)"))
  | some hashAlias => markGeneration i hashAlias generation

/-- Name the next generation in the meta document; the next `ensureIndex` creates it. -/
def reindex : SinkProgram Unit := do
  let next ← stageGeneration i.hashAlias
  writeIndexMeta i.hashAlias next false

end Calls

/-- A call with the faults its steps meet, or a restart of the process. -/
inductive SinkCallStep where
  | ensureIndex (faults : List Fault)
  | reindex (faults : List Fault)
  | markSeeded (faults : List Fault)
  | restart

/-- What a call on an index makes of the cluster and of the process's memory. -/
def SinkIndex.call (i : SinkIndex) (w : Cluster) : SinkCallStep → Cluster
  | .ensureIndex faults => ((ensureIndex i).runWith w faults).2.1
  | .reindex faults => ((reindex i).runWith w faults).2.1
  | .markSeeded faults => ((markSeeded i).runWith w faults).2.1
  | .restart => { w with physical := fun _ => none }

/-- Nothing of an index exists, and no call was made. -/
def Untouched (i : SinkIndex) (w : Cluster) : Prop :=
  (∀ index ∈ w.indices, parseGeneration i.hashAlias index = none) ∧
    w.aliases i.hashAlias = [] ∧ w.metaDocs i.hashAlias = none ∧
    (∀ logical, w.physical logical = none) ∧ w.log = []

/-- Any sequence of calls on one index, from a cluster that has nothing of it. -/
def generations (i : SinkIndex) : Transition.Machine Cluster SinkCallStep where
  init w := Untouched i w ∧ ∀ n, w.aliases (generationName i.hashAlias n) = []
  step w a := some (i.call w a)

/-- Any sequence of calls on the indexes of one sink, from a cluster that has nothing of one of
them. -/
def sinkCalls (i : SinkIndex) : Transition.Machine Cluster (SinkIndex × SinkCallStep) where
  init := Untouched i
  step w a := if a.1.indexPrefix = i.indexPrefix then some (a.1.call w a.2) else none

end Flusso
