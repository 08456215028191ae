import Flusso.Foundation.Attempts
import Flusso.Kernel.Schema

/-! # The publication of a database

A source streams the tables its publication covers. Starting inspects the publication
and, where it may, creates it or adds the tables that are missing.

The tables here are permanent tables of users, ordinary or partitioned. A publication
is for tables by name or for all tables, and publishes partitions under their own
names: a partitioned table is never among the tables it lists, which are its
partitions.
-/

namespace Flusso.Cdc

structure QualifiedTable where
  schema : DatabaseSchema
  table : TableName
  deriving DecidableEq

def QualifiedTable.text (t : QualifiedTable) : String := t.schema.name ++ "." ++ t.table.name

/-- A permanent table of a user, ordinary or partitioned, as the connected role sees it. -/
structure ServerTable where
  /-- The role is the owner or a member of it. -/
  owned : Bool
  partitioned : Bool
  /-- The partitioned tables that it is a partition of, directly or not. -/
  ancestors : List QualifiedTable

/-- A publication for tables by name or for all tables, not via partition roots. -/
structure Publication where
  owned : Bool
  allTables : Bool
  members : List QualifiedTable

/-- A database and what the connected role may do there. -/
structure Server where
  tables : QualifiedTable → Option ServerTable
  publications : String → Option Publication
  superuser : Bool
  canCreate : Bool

namespace Publication

/-- Whether a publication lists a table that is no partitioned one. -/
def covers (p : Publication) (t : QualifiedTable) (table : ServerTable) : Bool :=
  !table.partitioned &&
    (p.allTables || t ∈ p.members || table.ancestors.any fun ancestor => ancestor ∈ p.members)

end Publication

/-- What a source may ask of the database to have tables published. -/
inductive Provision where
  | create (name : String) (tables : List QualifiedTable)
  | addTables (name : String) (tables : List QualifiedTable)

section Texts

def quoteIdent (ident : String) : String :=
  "\"" ++ String.ofList (ident.toList.flatMap fun c => if c = '"' then ['"', '"'] else [c]) ++ "\""

def qualifiedIdent (t : QualifiedTable) : String :=
  quoteIdent t.schema.name ++ "." ++ quoteIdent t.table.name

def Provision.text : Provision → String
  | .create name tables =>
    "CREATE PUBLICATION " ++ quoteIdent name ++ " FOR TABLE " ++
      ", ".intercalate (tables.map qualifiedIdent) ++ ";"
  | .addTables name tables =>
    "ALTER PUBLICATION " ++ quoteIdent name ++ " ADD TABLE " ++
      ", ".intercalate (tables.map qualifiedIdent) ++ ";"

end Texts

namespace Server

/-- A table that exists and that the role may publish. -/
def mayPublish (s : Server) (t : QualifiedTable) : Bool :=
  (s.tables t).any fun table => s.superuser || table.owned

/-- The tables of `pg_publication_tables`. -/
def streams (s : Server) (name : String) (t : QualifiedTable) : Bool :=
  (s.publications name).any fun p => (s.tables t).any (p.covers t)

def withPublication (s : Server) (name : String) (p : Publication) : Server :=
  { s with publications := Function.update s.publications name (some p) }

/-- The database after a statement, unless it is refused. -/
def execute (s : Server) : Provision → Option Server
  | .create name tables =>
    match s.publications name with
    | none =>
      if (s.superuser || s.canCreate) && tables.all s.mayPublish then
        some (s.withPublication name ⟨true, false, tables⟩)
      else none
    | some _ => none
  | .addTables name tables =>
    match s.publications name with
    | none => none
    | some p =>
      if (s.superuser || p.owned) && !p.allTables && tables.all s.mayPublish &&
          tables.all (fun t => t ∉ p.members) then
        some (s.withPublication name { p with members := p.members ++ tables })
      else none

end Server

section Coverage

def publicationSql (s : Server) (name : String) (missing : List QualifiedTable) : Provision :=
  if (s.publications name).isSome then .addTables name missing else .create name missing

structure CoverageReport where
  satisfied : Bool
  present : List QualifiedTable
  missing : List QualifiedTable
  manageable : Bool
  blockers : List String
  remediation : List String

/-- Why the role may not publish a table. -/
def tableBlocker (s : Server) (t : QualifiedTable) : Option String :=
  match s.tables t with
  | some table => if table.owned then none else some ("role does not own table " ++ t.text)
  | none => some ("table " ++ t.text ++ " does not exist")

/-- Why the role may not create the publication, or extend it. -/
def publicationBlocker (s : Server) (name : String) : Option String :=
  match s.publications name with
  | some p => if p.owned then none else some ("role does not own publication \"" ++ name ++ "\"")
  | none =>
    if s.canCreate then none else some "role lacks the CREATE privilege on the database"

/-- Which of the required tables are streamed, and whether the role could publish the others. -/
def inspectPublication (s : Server) (name : String) (required : List QualifiedTable) :
    CoverageReport :=
  let ownsPub := (s.publications name).map fun p => p.owned
  let missing := required.filter fun t => !s.streams name t
  let satisfied := missing.isEmpty
  let ownsAllMissing := missing.all fun t => (s.tables t).any fun table => table.owned
  let manageable :=
    if satisfied || s.superuser then true
    else if ownsPub.isSome then ownsAllMissing && ownsPub.getD false
    else ownsAllMissing && s.canCreate
  { satisfied
    present := required.filter (s.streams name)
    missing
    manageable
    blockers :=
      if manageable then []
      else missing.filterMap (tableBlocker s) ++ (publicationBlocker s name).toList
    remediation := if satisfied then [] else [(publicationSql s name missing).text] }

/-- A refused statement. -/
inductive SetupError where
  | failed (verb name : String)

def applyPublication (s : Server) (name : String) (missing : List QualifiedTable) :
    Except SetupError Server :=
  if missing.isEmpty then .ok s
  else
    match s.execute (publicationSql s name missing) with
    | some s' => .ok s'
    | none =>
      .error (.failed (if (s.publications name).isSome then "extend" else "create") name)

/-- Publish the missing tables, where that is wanted and may succeed. The report is of what was
found. -/
def ensureCoverage (s : Server) (name : String) (required : List QualifiedTable) (manage : Bool) :
    Except SetupError (CoverageReport × Server) := do
  let report := inspectPublication s name required
  if report.satisfied then pure (report, s)
  else if manage && report.manageable then do
    let s' ← applyPublication s name report.missing
    pure (report, s')
  else pure (report, s)

/-- The live stream is opened a number of times. -/
def starts (name : String) (required : List QualifiedTable) : ℕ → Server → Except SetupError Server
  | 0, s => .ok s
  | n + 1, s => do
    let (_, s') ← ensureCoverage s name required true
    starts name required n s'

end Coverage

section Verdict

variable {s s' : Server} {name : String} {required missing : List QualifiedTable}
  {t : QualifiedTable}

/-- A table that is there and is not partitioned. -/
def Server.IsPlain (s : Server) (t : QualifiedTable) : Prop :=
  ∃ table, s.tables t = some table ∧ table.partitioned = false

/-- A table that is there; a partitioned one is not published yet. -/
def Server.IsAddable (s : Server) (name : String) (t : QualifiedTable) : Prop :=
  ∃ table, s.tables t = some table ∧ (table.partitioned = true →
    ∀ p, s.publications name = some p → p.allTables = false ∧ t ∉ p.members)

/-- The publication is the role's; where there is none, the role may create it. -/
def Server.ownsPublication (s : Server) (name : String) : Bool :=
  match s.publications name with
  | some p => p.owned
  | none => s.canCreate

theorem mem_missing : t ∈ (inspectPublication s name required).missing ↔
    t ∈ required ∧ s.streams name t = false := by
  simp [inspectPublication]

theorem satisfied_iff : (inspectPublication s name required).satisfied = true ↔
    (inspectPublication s name required).missing = [] := by
  simp [inspectPublication]

theorem streams_iff : s.streams name t = true ↔ ∃ p table, s.publications name = some p ∧
    s.tables t = some table ∧ table.partitioned = false ∧ (p.allTables = true ∨ t ∈ p.members ∨
      ∃ ancestor ∈ table.ancestors, ancestor ∈ p.members) := by
  simp only [Server.streams, Publication.covers, Option.any_eq_true, Bool.and_eq_true,
    Bool.or_eq_true, Bool.not_eq_true', decide_eq_true_eq, List.any_eq_true, or_assoc]
  constructor
  · rintro ⟨p, hp, table, htable, h⟩
    exact ⟨p, table, hp, htable, h⟩
  · rintro ⟨p, table, hp, htable, h⟩
    exact ⟨p, hp, table, htable, h⟩

theorem mayPublish_iff : s.mayPublish t = true ↔ ∃ table, s.tables t = some table ∧
    (s.superuser = true ∨ table.owned = true) := by
  simp [Server.mayPublish, Option.any_eq_true]

theorem execute_create (h : s.publications name = none) :
    s.execute (.create name missing) = some s' ↔ (s.superuser = true ∨ s.canCreate = true) ∧
      (∀ t ∈ missing, s.mayPublish t = true) ∧
        s' = s.withPublication name ⟨true, false, missing⟩ := by
  simp only [Server.execute, h]
  constructor
  · intro hs'
    split at hs'
    · next hmay =>
      cases hs'
      simpa [and_assoc] using hmay
    · cases hs'
  · rintro ⟨hcreate, hmay, rfl⟩
    rw [if_pos]
    simpa using ⟨hcreate, hmay⟩

theorem execute_addTables {p : Publication} (h : s.publications name = some p) :
    s.execute (.addTables name missing) = some s' ↔ (s.superuser = true ∨ p.owned = true) ∧
      p.allTables = false ∧ (∀ t ∈ missing, s.mayPublish t = true) ∧
        (∀ t ∈ missing, t ∉ p.members) ∧
        s' = s.withPublication name { p with members := p.members ++ missing } := by
  simp only [Server.execute, h]
  constructor
  · intro hs'
    split at hs'
    · next hmay =>
      cases hs'
      simpa [and_assoc] using hmay
    · cases hs'
  · rintro ⟨howned, hall, hmay, hmembers, rfl⟩
    rw [if_pos]
    simpa [and_assoc] using ⟨howned, hall, hmay, hmembers⟩

theorem manageable_iff (hmissing : (inspectPublication s name required).missing ≠ []) :
    (inspectPublication s name required).manageable = true ↔ s.superuser = true ∨
      (∀ t ∈ (inspectPublication s name required).missing, ∃ table, s.tables t = some table ∧
        table.owned = true) ∧ s.ownsPublication name = true := by
  have hgap : (required.filter fun t => !s.streams name t).isEmpty = false := by
    rw [List.isEmpty_eq_false_iff]
    exact hmissing
  simp only [inspectPublication, hgap, Bool.false_or, Server.ownsPublication]
  generalize required.filter (fun t => !s.streams name t) = missing
  by_cases hsuper : s.superuser = true
  · simp [hsuper]
  · rw [if_neg hsuper, iff_false_intro hsuper, false_or]
    cases s.publications name with
    | none => simp [Option.any_eq_true]
    | some p => simp [Option.any_eq_true]

/-- A statement that publishes the missing tables succeeds where the gap is found manageable, save
for tables that are not there and partitioned ones that are published already. -/
theorem execute_isSome_iff (hmissing : (inspectPublication s name required).missing ≠ []) :
    (s.execute (publicationSql s name (inspectPublication s name required).missing)).isSome = true ↔
      (inspectPublication s name required).manageable = true ∧
        ∀ t ∈ (inspectPublication s name required).missing, s.IsAddable name t := by
  rw [manageable_iff hmissing, Option.isSome_iff_exists]
  have hstreams : ∀ t ∈ (inspectPublication s name required).missing, s.streams name t = false :=
    fun t ht => (mem_missing.mp ht).2
  obtain ⟨first, hfirst⟩ := List.exists_mem_of_ne_nil _ hmissing
  generalize (inspectPublication s name required).missing = missing at *
  cases hp : s.publications name with
  | none =>
    simp only [publicationSql, hp, Option.isSome_none, Bool.false_eq_true, if_false,
      execute_create hp, Server.ownsPublication, mayPublish_iff]
    constructor
    · rintro ⟨_, hcreate, hmay, -⟩
      refine ⟨?_, fun t ht => ?_⟩
      · rw [or_iff_not_imp_left]
        intro hsuper
        refine ⟨fun t ht => ?_, hcreate.resolve_left hsuper⟩
        obtain ⟨table, htable, howned⟩ := hmay t ht
        exact ⟨table, htable, howned.resolve_left hsuper⟩
      · obtain ⟨table, htable, -⟩ := hmay t ht
        refine ⟨table, htable, fun _ p hp' => ?_⟩
        rw [hp] at hp'
        cases hp'
    · rintro ⟨hmanage, haddable⟩
      refine ⟨_, hmanage.imp_right And.right, fun t ht => ?_, rfl⟩
      obtain ⟨table, htable, -⟩ := haddable t ht
      refine ⟨table, htable, hmanage.imp_right fun h => ?_⟩
      obtain ⟨table', htable', howned⟩ := h.1 t ht
      rw [htable] at htable'
      cases htable'
      exact howned
  | some p =>
    simp only [publicationSql, hp, Option.isSome_some, if_true, execute_addTables hp,
      Server.ownsPublication, mayPublish_iff]
    constructor
    · rintro ⟨_, hown, hall, hmay, hmembers, -⟩
      refine ⟨?_, fun t ht => ?_⟩
      · rw [or_iff_not_imp_left]
        intro hsuper
        refine ⟨fun t ht => ?_, hown.resolve_left hsuper⟩
        obtain ⟨table, htable, howned⟩ := hmay t ht
        exact ⟨table, htable, howned.resolve_left hsuper⟩
      · obtain ⟨table, htable, -⟩ := hmay t ht
        refine ⟨table, htable, fun _ p' hp' => ?_⟩
        rw [hp] at hp'
        cases hp'
        exact ⟨hall, hmembers t ht⟩
    · rintro ⟨hmanage, haddable⟩
      -- A table that is missing is not listed for the whole publication nor by itself.
      have hunlisted : ∀ t ∈ missing, p.allTables = false ∧ t ∉ p.members := by
        intro t ht
        obtain ⟨table, htable, hpartitioned⟩ := haddable t ht
        cases hplain : table.partitioned with
        | true => exact hpartitioned hplain p hp
        | false =>
          have hstreamed := mt streams_iff.mpr (by rw [hstreams t ht]; exact Bool.false_ne_true)
          constructor
          · by_contra hall
            exact hstreamed ⟨p, table, hp, htable, hplain, .inl (by simpa using hall)⟩
          · intro hmember
            exact hstreamed ⟨p, table, hp, htable, hplain, .inr (.inl hmember)⟩
      refine ⟨_, hmanage.imp_right And.right, (hunlisted first hfirst).1, fun t ht => ?_,
        fun t ht => (hunlisted t ht).2, rfl⟩
      obtain ⟨table, htable, -⟩ := haddable t ht
      refine ⟨table, htable, hmanage.imp_right fun h => ?_⟩
      obtain ⟨table', htable', howned⟩ := h.1 t ht
      rw [htable] at htable'
      cases htable'
      exact howned

theorem publications_of_execute
    (h : s.execute (publicationSql s name missing) = some s') :
    ∃ p, s' = s.withPublication name p ∧ (s.superuser = true ∨ p.owned = true) ∧
      (∀ t ∈ missing, s.mayPublish t = true) ∧ (∀ t ∈ missing, t ∈ p.members) ∧
        p.allTables = false ∧ ∀ q, s.publications name = some q →
          q.allTables = false ∧ ∀ t ∈ q.members, t ∈ p.members := by
  cases hp : s.publications name with
  | none =>
    simp only [publicationSql, hp, Option.isSome_none, Bool.false_eq_true, if_false,
      execute_create hp] at h
    obtain ⟨-, hmay, rfl⟩ := h
    refine ⟨_, rfl, .inr rfl, hmay, fun t ht => ht, rfl, ?_⟩
    rintro q ⟨⟩
  | some p =>
    simp only [publicationSql, hp, Option.isSome_some, if_true, execute_addTables hp] at h
    obtain ⟨hown, hall, hmay, -, rfl⟩ := h
    refine ⟨_, rfl, hown, hmay, fun t ht => List.mem_append_right _ ht, hall, ?_⟩
    rintro q ⟨⟩
    exact ⟨hall, fun t ht => List.mem_append_left _ ht⟩

end Verdict

section Starts

variable {s s' : Server} {name : String} {required : List QualifiedTable} {t : QualifiedTable}

theorem ensureCoverage_satisfied (h : (inspectPublication s name required).missing = []) :
    ensureCoverage s name required true = .ok (inspectPublication s name required, s) := by
  rw [ensureCoverage, if_pos (satisfied_iff.mpr h)]
  rfl

theorem ensureCoverage_unmanageable
    (h : ¬ (inspectPublication s name required).manageable = true) :
    ensureCoverage s name required true = .ok (inspectPublication s name required, s) := by
  dsimp only [ensureCoverage]
  split
  · rfl
  · rw [if_neg (by simpa using h)]
    rfl

theorem ensureCoverage_manageable (hmissing : (inspectPublication s name required).missing ≠ [])
    (hmanageable : (inspectPublication s name required).manageable = true)
    {result : CoverageReport × Server} :
    ensureCoverage s name required true = .ok result ↔
      result.1 = inspectPublication s name required ∧ s.execute
        (publicationSql s name (inspectPublication s name required).missing) = some result.2 := by
  have hgap : (inspectPublication s name required).missing.isEmpty = false :=
    List.isEmpty_eq_false_iff.mpr hmissing
  dsimp only [ensureCoverage]
  rw [if_neg (mt satisfied_iff.mp hmissing), hmanageable, Bool.and_self, if_pos rfl,
    applyPublication, hgap, if_neg Bool.false_ne_true]
  cases s.execute (publicationSql s name (inspectPublication s name required).missing) with
  | none =>
    constructor
    · rintro ⟨⟩
    · rintro ⟨-, ⟨⟩⟩
  | some s' =>
    constructor
    · rintro ⟨⟩
      exact ⟨rfl, rfl⟩
    · rintro ⟨hreport, hs'⟩
      cases hs'
      rw [← hreport]
      rfl

theorem starts_of_fixed (h : ensureCoverage s name required true =
    .ok (inspectPublication s name required, s)) (n : ℕ) : starts name required n s = .ok s := by
  induction n with
  | zero => rfl
  | succ n ih =>
    rw [starts, h]
    exact ih

theorem starts_succ {n : ℕ} : starts name required (n + 1) s = .ok s' ↔
    ∃ report s₁, ensureCoverage s name required true = .ok (report, s₁) ∧
      starts name required n s₁ = .ok s' := by
  constructor
  · intro h
    obtain ⟨⟨report, s₁⟩, hfirst, hrest⟩ := Attempts.bind_ok.mp h
    exact ⟨report, s₁, hfirst, hrest⟩
  · rintro ⟨report, s₁, hfirst, hrest⟩
    exact Attempts.bind_ok.mpr ⟨(report, s₁), hfirst, hrest⟩

theorem streams_mono {missing : List QualifiedTable}
    (h : s.execute (publicationSql s name missing) = some s') (hstreams : s.streams name t = true) :
    s'.streams name t = true := by
  obtain ⟨p, rfl, -, -, -, -, hkept⟩ := publications_of_execute h
  obtain ⟨q, table, hq, htable, hplain, hlists⟩ := streams_iff.mp hstreams
  obtain ⟨hall, hkept⟩ := hkept q hq
  refine streams_iff.mpr ⟨p, table, by simp [Server.withPublication], htable, hplain, .inr ?_⟩
  rw [hall] at hlists
  refine (hlists.resolve_left Bool.false_ne_true).imp (hkept t) ?_
  rintro ⟨ancestor, hancestor, hmember⟩
  exact ⟨ancestor, hancestor, hkept ancestor hmember⟩

theorem isPlain_of_streams (h : s.streams name t = true) : s.IsPlain t := by
  obtain ⟨-, table, -, htable, hplain, -⟩ := streams_iff.mp h
  exact ⟨table, htable, hplain⟩

/-- Once the missing tables were added, the required ones that are streamed are the unpartitioned
ones. -/
theorem streams_of_execute (h : s.execute (publicationSql s name
      (inspectPublication s name required).missing) = some s') (ht : t ∈ required) :
    s'.streams name t = true ↔ s.IsPlain t := by
  have hmono := streams_mono (t := t) h
  obtain ⟨p, rfl, -, -, hmembers, -, -⟩ := publications_of_execute h
  constructor
  · exact isPlain_of_streams
  · rintro ⟨table, htable, hplain⟩
    cases hold : s.streams name t with
    | true => exact hmono hold
    | false =>
      exact streams_iff.mpr ⟨p, table, by simp [Server.withPublication], htable, hplain,
        .inr (.inl (hmembers t (mem_missing.mpr ⟨ht, hold⟩)))⟩

theorem mem_missing_after (h : s.execute (publicationSql s name
      (inspectPublication s name required).missing) = some s') :
    t ∈ (inspectPublication s' name required).missing ↔
      t ∈ (inspectPublication s name required).missing ∧ ¬ s.IsPlain t := by
  rw [mem_missing, mem_missing, ← Bool.not_eq_true, ← Bool.not_eq_true]
  constructor
  · rintro ⟨ht, hnot⟩
    exact ⟨⟨ht, fun hstreams => hnot (streams_mono h hstreams)⟩,
      fun hplain => hnot ((streams_of_execute h ht).mpr hplain)⟩
  · rintro ⟨⟨ht, -⟩, hplain⟩
    exact ⟨ht, fun hstreams => hplain ((streams_of_execute h ht).mp hstreams)⟩

theorem missing_after_of_plain (h : s.execute (publicationSql s name
      (inspectPublication s name required).missing) = some s')
    (hplain : ∀ t ∈ (inspectPublication s name required).missing, s.IsPlain t) :
    (inspectPublication s' name required).missing = [] := by
  rw [List.eq_nil_iff_forall_not_mem]
  intro t ht
  obtain ⟨ht, hnot⟩ := (mem_missing_after h).mp ht
  exact hnot (hplain t ht)

/-- Over what a start has left, the next one succeeds where no partitioned table was added. -/
theorem plain_of_again (h : s.execute (publicationSql s name
      (inspectPublication s name required).missing) = some s') {result : CoverageReport × Server}
    (hresult : ensureCoverage s' name required true = .ok result) :
    ∀ t ∈ (inspectPublication s name required).missing, s.IsPlain t := by
  intro t ht
  by_contra hplain
  have ht' := (mem_missing_after h).mpr ⟨ht, hplain⟩
  have hmissing := List.ne_nil_of_mem ht'
  obtain ⟨p, rfl, hown, hmay, hmembers, -⟩ := publications_of_execute h
  have hp : (s.withPublication name p).publications name = some p := by
    simp [Server.withPublication]
  have hmanageable : (inspectPublication (s.withPublication name p) name required).manageable =
      true := by
    rw [manageable_iff hmissing, or_iff_not_imp_left]
    intro hsuper
    refine ⟨fun t ht => ?_, ?_⟩
    · obtain ⟨table, htable, howned⟩ := mayPublish_iff.mp (hmay t ((mem_missing_after h).mp ht).1)
      exact ⟨table, htable, howned.resolve_left hsuper⟩
    · rw [Server.ownsPublication, hp]
      exact hown.resolve_left hsuper
  obtain ⟨-, hexecute⟩ := (ensureCoverage_manageable hmissing hmanageable).mp hresult
  obtain ⟨-, haddable⟩ := (execute_isSome_iff hmissing).mp (Option.isSome_of_eq_some hexecute)
  obtain ⟨table, htable, hpartitioned⟩ := haddable t ht'
  cases hkind : table.partitioned with
  | true => exact (hpartitioned hkind p hp).2 (hmembers t ht)
  | false => exact hplain ⟨table, htable, hkind⟩

/-- One start: nothing changes, or the missing tables are added. -/
theorem ensureCoverage_cases {result : CoverageReport × Server}
    (h : ensureCoverage s name required true = .ok result) :
    (result.2 = s ∧ ensureCoverage s name required true =
        .ok (inspectPublication s name required, s) ∧
      ((inspectPublication s name required).missing = [] ∨
        ¬ (inspectPublication s name required).manageable = true)) ∨
      (inspectPublication s name required).missing ≠ [] ∧ s.execute
        (publicationSql s name (inspectPublication s name required).missing) = some result.2 := by
  by_cases hmissing : (inspectPublication s name required).missing = []
  · have hfixed := ensureCoverage_satisfied hmissing
    rw [hfixed] at h
    cases h
    exact .inl ⟨rfl, hfixed, .inl hmissing⟩
  by_cases hmanageable : (inspectPublication s name required).manageable = true
  · exact .inr ⟨hmissing, ((ensureCoverage_manageable hmissing hmanageable).mp h).2⟩
  · have hfixed := ensureCoverage_unmanageable hmanageable
    rw [hfixed] at h
    cases h
    exact .inl ⟨rfl, hfixed, .inr hmanageable⟩

theorem ensureCoverage_of_starts {n : ℕ} (h : starts name required (n + 1) s = .ok s') :
    ∃ report, ensureCoverage s name required true = .ok (report, s') := by
  obtain ⟨report, s₁, hfirst, hrest⟩ := starts_succ.mp h
  obtain ⟨rfl, hfixed, -⟩ | ⟨-, hexecute⟩ := ensureCoverage_cases hfirst
  · rw [starts_of_fixed hfixed] at hrest
    cases hrest
    exact ⟨_, hfixed⟩
  · cases n with
    | zero =>
      cases hrest
      exact ⟨report, hfirst⟩
    | succ n =>
      obtain ⟨report', s₂, hsecond, -⟩ := starts_succ.mp hrest
      have hnone := missing_after_of_plain hexecute (plain_of_again hexecute hsecond)
      rw [starts_of_fixed (ensureCoverage_satisfied hnone)] at hrest
      cases hrest
      exact ⟨report, hfirst⟩

theorem tableBlocker_eq_none :
    tableBlocker s t = none ↔ ∃ table, s.tables t = some table ∧ table.owned = true := by
  unfold tableBlocker
  cases s.tables t <;> simp

theorem publicationBlocker_eq_none :
    publicationBlocker s name = none ↔ s.ownsPublication name = true := by
  unfold publicationBlocker Server.ownsPublication
  cases s.publications name <;> simp

/-- A verdict that the gap cannot be closed comes with a reason, and only that one does. -/
theorem blockers_eq_nil_iff : (inspectPublication s name required).blockers = [] ↔
    (inspectPublication s name required).manageable = true := by
  constructor
  · intro hblockers
    by_contra hmanageable
    have hmissing : (inspectPublication s name required).missing ≠ [] := by
      intro hnone
      apply hmanageable
      have hgap : (required.filter fun t => !s.streams name t).isEmpty = true :=
        List.isEmpty_iff.mpr hnone
      simp only [inspectPublication, hgap, Bool.true_or, if_true]
    have hreasons : (inspectPublication s name required).blockers =
        (inspectPublication s name required).missing.filterMap (tableBlocker s) ++
          (publicationBlocker s name).toList := if_neg hmanageable
    rw [hreasons, List.append_eq_nil_iff, List.filterMap_eq_nil_iff,
      Option.toList_eq_nil_iff] at hblockers
    apply hmanageable
    rw [manageable_iff hmissing]
    exact .inr ⟨fun t ht => tableBlocker_eq_none.mp (hblockers.1 t ht),
      publicationBlocker_eq_none.mp hblockers.2⟩
  · intro hmanageable
    exact if_pos hmanageable

theorem streams_of_starts {n : ℕ} (h : starts name required (n + 1) s = .ok s')
    (hmanageable : (inspectPublication s name required).manageable = true) (ht : t ∈ required) :
    s'.streams name t = true ↔ s.IsPlain t := by
  obtain ⟨report, hfirst⟩ := ensureCoverage_of_starts h
  obtain ⟨rfl, -, hkept⟩ | ⟨-, hexecute⟩ := ensureCoverage_cases hfirst
  · have hmissing := hkept.resolve_right (not_not_intro hmanageable)
    refine ⟨isPlain_of_streams, fun _ => ?_⟩
    by_contra hnot
    exact List.ne_nil_of_mem (mem_missing.mpr ⟨ht, by simpa using hnot⟩) hmissing
  · exact streams_of_execute hexecute ht

/-- However often the source starts, it touches no other publication and takes no table out of its
own; where it may manage the gap, the required tables that are streamed are the unpartitioned
ones. -/
theorem starts_streams {n : ℕ} (h : starts name required (n + 1) s = .ok s') :
    s'.tables = s.tables ∧ (∀ other ≠ name, s'.publications other = s.publications other) ∧
      (∀ t, s.streams name t = true → s'.streams name t = true) ∧
      ((inspectPublication s name required).manageable = true →
        ∀ t ∈ required, s'.streams name t = true ↔ s.IsPlain t) := by
  have hstreams := fun hmanageable t => streams_of_starts (t := t) h hmanageable
  obtain ⟨report, hfirst⟩ := ensureCoverage_of_starts h
  obtain ⟨rfl, -⟩ | ⟨-, hexecute⟩ := ensureCoverage_cases hfirst
  · exact ⟨rfl, fun _ _ => rfl, fun _ => id, hstreams⟩
  · have hmono : ∀ t, s.streams name t = true → s'.streams name t = true := fun t =>
      streams_mono hexecute
    obtain ⟨p, rfl, -⟩ : ∃ p, s' = s.withPublication name p ∧ _ := publications_of_execute hexecute
    exact ⟨rfl, fun other hother => Function.update_of_ne hother _ _, hmono, hstreams⟩

/-- A database with a table of users that the role owns, and no publication. -/
def usersServer : Server where
  tables t := if t = ⟨⟨"public"⟩, ⟨"users"⟩⟩ then some ⟨true, false, []⟩ else none
  publications _ := none
  superuser := false
  canCreate := true

theorem starts_streams_users : ∃ s',
    starts "flusso" [⟨⟨"public"⟩, ⟨"users"⟩⟩] 2 usersServer = .ok s' ∧
      s'.tables = usersServer.tables ∧
      (∀ other ≠ "flusso", s'.publications other = usersServer.publications other) ∧
      (∀ t, usersServer.streams "flusso" t = true → s'.streams "flusso" t = true) ∧
      ((inspectPublication usersServer "flusso" [⟨⟨"public"⟩, ⟨"users"⟩⟩]).manageable = true →
        ∀ t ∈ ([⟨⟨"public"⟩, ⟨"users"⟩⟩] : List QualifiedTable),
          s'.streams "flusso" t = true ↔ usersServer.IsPlain t) :=
  ⟨_, rfl, starts_streams (n := 1) rfl⟩

end Starts

end Flusso.Cdc
