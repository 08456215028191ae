import Flusso.Document.Evaluation

/-! # Constants in assembled documents

The builder writes every constant as a string literal, or as null where it is no
scalar. The assembled document is the row's document just where each constant it
shows reads so, the server accepts the query, and the query does not take the row
for deleted.
-/

namespace Flusso

namespace GenericValue

/-- A float as JSON, which has no other numbers than finite ones. -/
def floatJson (f : BinaryFloat.Format) (signBit bits : ℕ) : Json :=
  if f.infinity ≤ bits % signBit then .null else .number (floatText f signBit bits)

mutual

/-- The JSON a constant stands for. -/
def constantJson : GenericValue → Json
  | null => .null
  | bool b => .bool b
  | smallInt i => .number (toString i.toInt)
  | int i => .number (toString i.toInt)
  | bigInt i => .number (toString i.toInt)
  | float bits => floatJson BinaryFloat.single (2 ^ 31) bits.toNat
  | double bits => floatJson BinaryFloat.double (2 ^ 63) bits.toNat
  | decimal d => .number d.text
  | string s => .string s
  | uuid u => .string (uuidText u)
  | date d => .string d.text
  | time t => .string t.text
  | timestamp t => .string t.text
  | timestampTz t => .string t.rfc3339
  | bytes bs => .string (hexText bs)
  | array items => .array (constantItems items)
  | map fields => .object (Json.ofPairs (constantFields fields))

def constantItems : List GenericValue → List Json
  | [] => []
  | v :: items => constantJson v :: constantItems items

def constantFields : List (String × GenericValue) → List (String × Json)
  | [] => []
  | (key, v) :: fields => (key, constantJson v) :: constantFields fields

end

/-- Null, or a scalar whose JSON is a string. -/
def isText : GenericValue → Bool
  | null | string _ | uuid _ | date _ | time _ | timestamp _ | timestampTz _ => true
  | _ => false

end GenericValue

namespace Document

theorem literalJson_eq_iff {v : GenericValue} :
    literalJson v = v.constantJson ↔ v.isText = true := by
  cases v with
  | float bits =>
    simp only [literalJson, scalarLiteral, GenericValue.display, GenericValue.constantJson,
      GenericValue.floatJson, GenericValue.isText]
    split <;> simp
  | double bits =>
    simp only [literalJson, scalarLiteral, GenericValue.display, GenericValue.constantJson,
      GenericValue.floatJson, GenericValue.isText]
    split <;> simp
  | _ =>
    simp [literalJson, scalarLiteral, GenericValue.display, GenericValue.constantJson,
      GenericValue.isText]

section Shown

variable {S : Type} [Postgres S] [Sql.Values S] (db : Database S) (schema : DatabaseSchema)

/-- The related rows a join shows the documents of. -/
def shownRows (join : Join) (row : Row S) (pk : Option ColumnName) : List (Row S) :=
  let related := joinRows db schema join row pk
  if join.kind.isToMany then related else related.head?.toList

mutual

def fieldConstants : Field → TableName → Row S → Option ColumnName → List GenericValue
  | .constant _ _ value, _, _, _ => [value]
  | .group _ _ fields, table, row, pk => shownConstants fields table row pk
  | .join _ _ join fields, _, row, pk =>
    (shownRows db schema join row pk).flatMap fun r =>
      shownConstants fields join.table r (keyColumn db schema join.table)
  | .column .., _, _, _ | .geo .., _, _, _ | .aggregate .., _, _, _ => []

/-- The constants a row's document shows; of several fields of one name it shows the last. -/
def shownConstants : List Field → TableName → Row S → Option ColumnName → List GenericValue
  | [], _, _, _ => []
  | field :: fields, table, row, pk =>
    (if field.field ∈ fields.map Field.field then [] else fieldConstants field table row pk) ++
      shownConstants fields table row pk

end

end Shown

section Objects

variable {α : Type*} {key : String} {v w : α} {as bs : List (String × α)}

theorem get_reverse_cons {k : String} : Json.get ((key, v) :: as).reverse k =
    (Json.get as.reverse k).or (if key = k then some v else none) := by
  rw [List.reverse_cons, Json.get, List.find?_append, Option.map_or]
  congr 1
  rw [← Json.get, Json.get_cons]
  rfl

theorem get_reverse_isSome {k : String} :
    (Json.get as.reverse k).isSome = true ↔ k ∈ as.map Prod.fst := by
  simp [Json.get]

theorem ofPairs_eq_iff :
    Json.ofPairs as = Json.ofPairs bs ↔ ∀ k, Json.get as.reverse k = Json.get bs.reverse k := by
  simp only [← Json.get_ofPairs]
  exact ⟨fun h k => by rw [h], fun h => Json.sorted_ofPairs.ext Json.sorted_ofPairs h⟩

theorem ofPairs_cons_eq_iff (hkeys : as.map Prod.fst = bs.map Prod.fst) :
    Json.ofPairs ((key, v) :: as) = Json.ofPairs ((key, w) :: bs) ↔
      (key ∈ as.map Prod.fst ∨ v = w) ∧ Json.ofPairs as = Json.ofPairs bs := by
  have hsome (k : String) :
      (Json.get as.reverse k).isSome = (Json.get bs.reverse k).isSome := by
    rw [Bool.eq_iff_iff, get_reverse_isSome, get_reverse_isSome, hkeys]
  simp only [ofPairs_eq_iff, get_reverse_cons]
  constructor
  · intro h
    have hrest (k : String) : Json.get as.reverse k = Json.get bs.reverse k := by
      have hk := h k
      have hk' := hsome k
      cases ha : Json.get as.reverse k with
      | none =>
        rw [ha] at hk'
        exact (Option.not_isSome_iff_eq_none.mp (by simp [← hk'])).symm
      | some x =>
        rw [ha] at hk hk'
        obtain ⟨y, hy⟩ := Option.isSome_iff_exists.mp hk'.symm
        rw [hy] at hk ⊢
        exact hk
    refine ⟨?_, hrest⟩
    by_cases hmem : key ∈ as.map Prod.fst
    · exact Or.inl hmem
    · have hnone : Json.get as.reverse key = none :=
        Option.not_isSome_iff_eq_none.mp (mt get_reverse_isSome.mp hmem)
      have hk := h key
      rw [← hrest key, hnone] at hk
      exact Or.inr (by simpa using hk)
  · rintro ⟨hmem | rfl, hrest⟩ k
    · rw [← hrest k]
      by_cases hk : key = k
      · subst hk
        obtain ⟨x, hx⟩ := Option.isSome_iff_exists.mp (get_reverse_isSome.mpr hmem)
        rw [hx]
        rfl
      · simp [hk]
    · rw [hrest k]

end Objects

section Agreement

variable {S : Type} [Postgres S] [Sql.Values S] {db : Database S} {schema : DatabaseSchema}
  {c c' : GenericValue → Json} {table : TableName} {row : Row S} {pk : Option ColumnName}

theorem map_fst_pairContents {fields : List Field} :
    (pairContents db schema c fields table row pk).map Prod.fst =
      fields.map fun field => field.field.name := by
  induction fields with
  | nil => rfl
  | cons field fields ih => rw [pairContents, List.map_cons, List.map_cons, ih]

theorem name_mem_iff {field : Field} {fields : List Field} :
    field.field.name ∈ (pairContents db schema c fields table row pk).map Prod.fst ↔
      field.field ∈ fields.map Field.field := by
  rw [map_fst_pairContents, List.mem_map, List.mem_map]
  constructor
  · rintro ⟨g, hg, hname⟩
    exact ⟨g, hg, by cases hfield : g.field; cases hfield' : field.field; simp_all⟩
  · rintro ⟨g, hg, hname⟩
    exact ⟨g, hg, by rw [hname]⟩

theorem object_eq_iff_of {fields : List Field}
    (hfields : ∀ g ∈ fields, fieldContents db schema c g table row pk =
      fieldContents db schema c' g table row pk ↔
        ∀ v ∈ fieldConstants db schema g table row pk, c v = c' v) :
    Json.ofPairs (pairContents db schema c fields table row pk) =
      Json.ofPairs (pairContents db schema c' fields table row pk) ↔
        ∀ v ∈ shownConstants db schema fields table row pk, c v = c' v := by
  induction fields with
  | nil => simp [pairContents, shownConstants]
  | cons g fields ih =>
    have hrest := ih fun g' hg' => hfields g' (List.mem_cons_of_mem _ hg')
    have hkeys : (pairContents db schema c fields table row pk).map Prod.fst =
        (pairContents db schema c' fields table row pk).map Prod.fst := by
      rw [map_fst_pairContents, map_fst_pairContents]
    rw [pairContents, pairContents, ofPairs_cons_eq_iff hkeys, name_mem_iff,
      hfields g List.mem_cons_self, hrest, shownConstants]
    simp only [List.mem_append]
    split
    · next hlater => simp [hlater]
    · next hlast =>
      constructor
      · rintro ⟨hfirst, hothers⟩ v (hv | hv)
        · exact hfirst.resolve_left hlast v hv
        · exact hothers v hv
      · intro h
        exact ⟨Or.inr fun v hv => h v (Or.inl hv), fun v hv => h v (Or.inr hv)⟩

theorem fieldContents_eq_iff (field : Field) :
    ∀ {table : TableName} {row : Row S} {pk : Option ColumnName},
      fieldContents db schema c field table row pk = fieldContents db schema c' field table row pk ↔
        ∀ v ∈ fieldConstants db schema field table row pk, c v = c' v := by
  induction field using Field.induct with
  | node field ih =>
    intro table row pk
    have hobject (table : TableName) (row : Row S) (pk : Option ColumnName) :
        Json.ofPairs (pairContents db schema c field.children table row pk) =
          Json.ofPairs (pairContents db schema c' field.children table row pk) ↔
            ∀ v ∈ shownConstants db schema field.children table row pk, c v = c' v :=
      object_eq_iff_of fun g hg => ih g hg
    cases field with
    | column => simp [fieldContents, fieldConstants]
    | geo => simp [fieldContents, fieldConstants]
    | aggregate => simp [fieldContents, fieldConstants]
    | constant name options value => simp [fieldContents, fieldConstants]
    | group name options fields =>
      rw [fieldContents, fieldContents, fieldConstants, Json.object.injEq]
      exact hobject table row pk
    | join name options join fields =>
      rw [fieldContents, fieldContents, fieldConstants, shownRows]
      simp only [List.mem_flatMap, forall_exists_index, and_imp]
      have hrow (r : Row S) : Json.object (Json.ofPairs (pairContents db schema c fields join.table r
            (keyColumn db schema join.table))) =
          Json.object (Json.ofPairs (pairContents db schema c' fields join.table r
            (keyColumn db schema join.table))) ↔
          ∀ v ∈ shownConstants db schema fields join.table r (keyColumn db schema join.table),
            c v = c' v := by
        rw [Json.object.injEq]
        exact hobject join.table r _
      split
      · rw [Json.array.injEq, List.map_inj_left]
        simp only [hrow]
        exact ⟨fun h v r hr hv => h r hr v hv, fun h r hr v hv => h v r hr hv⟩
      · cases (joinRows db schema join row pk).head? with
        | none => simp
        | some r => simpa using hrow r

/-- Two readings of constants give one document where they agree on the constants it shows. -/
theorem documentContents_eq_iff {fields : List Field} :
    documentContents db schema c fields table row pk =
      documentContents db schema c' fields table row pk ↔
        ∀ v ∈ shownConstants db schema fields table row pk, c v = c' v := by
  rw [documentContents, documentContents, Json.object.injEq]
  exact object_eq_iff_of fun g _ => fieldContents_eq_iff g

end Agreement

section Lookup

variable {S : Type} [Postgres S] [Sql.Values S]

/-- A document query for the key of a row of the root table that passes the root filters and is
not deleted. -/
structure Lookup (db : Database S) (index : IndexSchema) (key : RowKey GenericValue)
    (q : DocumentQuery) (params : List GenericValue) (row : Row S) : Prop where
  fits : IndexFits db index
  query : ∃ pks colTypes operands, Catalog db index.dbSchema pks colTypes ∧
    documentQuery pks colTypes index key = .ok (q, params) ∧
    keyOperands db index key = some operands ∧
    (rowsOf db index.dbSchema index.table).filter (hasKey operands) = [row]
  filters : passesAll db index.dbSchema index.table index.filters row = true
  live : softDeleted db index row = false

variable (S) in
/-- Every lookup returns the document of its row. -/
def Assembles : Prop :=
  ∀ (db : Database S) (index : IndexSchema) (key : RowKey GenericValue) (q : DocumentQuery)
    (params : List GenericValue) (row : Row S) (raw : RawTexts S),
    Lookup db index key q params row →
      q.run (session db raw params) =
        some [(none, documentContents db index.dbSchema GenericValue.constantJson index.fields
          index.table row index.primaryKey)]

variable [Sql.LawfulValues S] {db : Database S} {index : IndexSchema} {key : RowKey GenericValue}
  {q : DocumentQuery} {params : List GenericValue} {row : Row S} {raw : RawTexts S}

theorem Lookup.run (h : Lookup db index key q params row) :
    q.run (session db raw params) =
      if keyAccepted db index (key.map Prod.fst) && indexAccepted db index raw then
        some (if spared db index row then
          [(none, documentContents db index.dbSchema literalJson index.fields index.table row
            index.primaryKey)] else [])
      else none := by
  obtain ⟨pks, colTypes, operands, hcatalog, hquery, hoperands, hkey⟩ := h.query
  have hrows : (rowsOf db index.dbSchema index.table).filter (fun row =>
      hasKey operands row && indexed db index row) = if spared db index row then [row] else [] := by
    have hsplit := congrArg (List.filter (indexed db index)) hkey
    rw [List.filter_filter] at hsplit
    simp only [Bool.and_comm (indexed db index _)] at hsplit
    rw [hsplit, List.filter_cons, List.filter_nil, indexed, h.filters, Bool.and_true]
  rw [documentQuery_run hcatalog h.fits hquery hoperands, hrows, apply_ite (List.map _)]
  rfl

/-- A lookup returns the document of its row just where the server accepts what the index names,
the row is certain not to be deleted, and it shows no constant but null and texts. -/
theorem assembles_iff (h : Lookup db index key q params row) :
    q.run (session db raw params) =
        some [(none, documentContents db index.dbSchema GenericValue.constantJson index.fields
          index.table row index.primaryKey)] ↔
      keyAccepted db index (key.map Prod.fst) = true ∧ indexAccepted db index raw = true ∧
        spared db index row = true ∧ ∀ v ∈ shownConstants db index.dbSchema index.fields
          index.table row index.primaryKey, v.isText = true := by
  rw [h.run]
  simp only [← literalJson_eq_iff]
  rw [← documentContents_eq_iff, ← and_assoc, ← Bool.and_eq_true]
  split
  · next haccepted =>
    split
    · next hspared => simp [haccepted, hspared]
    · next hspared => simp [hspared]
  · next hrefused => simp [hrefused]

end Lookup

section Example

/-- Text columns, or those of an enum type; no value is matched to a pattern. -/
instance : Sql.Values (Option String) where
  operator op a b :=
    a = b && match op with
      | .like | .ilike => a = "text"
      | _ => true
  function f sqlType :=
    match f with
    | .sum | .avg => false
    | .lower | .trim | .min | .max => sqlType = "text"
  sorts _ := true
  reads sqlType _ := sqlType = "text"
  isNull v := v.isNone
  compare op a b := do
    let x ← a
    let y ← b
    match op with
    | .eq => some (x = y)
    | .ne => some (x ≠ y)
    | .lt => some (x < y)
    | .le => some (x ≤ y)
    | .gt => some (y < x)
    | .ge => some (y ≤ x)
    | .like | .ilike => none
  le a b :=
    match a, b with
    | _, none => true
    | none, some _ => false
    | some x, some y => x ≤ y
  boolean _ := none
  lower v := v.map String.toLower
  trim v := v.map fun s =>
    String.ofList ((s.toList.dropWhile (· = ' ')).reverse.dropWhile (· = ' ')).reverse
  literal _ text := some text
  toJson
    | none => .null
    | some text => .string text
  sum _ := none
  avg _ := none
  min _ := none
  max _ := none

instance : Sql.LawfulValues (Option String) where
  le_total a b := by
    cases a <;> cases b <;> simp [Sql.Values.le, le_total]
  le_trans a b c := by
    cases a <;> cases b <;> cases c <;> simp [Sql.Values.le]
    exact le_trans

/-- An index of users, with a constant beside the name. -/
def sourcedUsers (source : GenericValue) : IndexSchema where
  version := 1
  table := ⟨"users"⟩
  dbSchema := ⟨"public"⟩
  primaryKey := some ⟨"id"⟩
  docId := none
  softDelete := none
  filters := none
  fields := [.column ⟨"name"⟩ [] ⟨⟨"name"⟩, .text, false, [], none, []⟩,
    .constant ⟨"source"⟩ [] source]

def oneUser : Row (Option String) := fun column =>
  if column.name = "id" then some "1" else some "Ada"

def usersDatabase : Database (Option String) := fun _ _ =>
  some ⟨fun _ => some "text", [⟨"id"⟩], [oneUser]⟩

theorem lookup_oneUser (source : GenericValue) : ∃ q params,
    Lookup usersDatabase (sourcedUsers source) [(⟨"id"⟩, .string "1")] q params oneUser := by
  refine ⟨_, _, ⟨rfl, ?_, ?_, ?_⟩, ⟨fun _ => none, fun _ _ => some "text", [(⟨"id"⟩, some "1")],
    ⟨?_, ?_⟩, rfl, rfl, ?_⟩, rfl, rfl⟩
  · exact fun _ h => absurd h List.not_mem_nil
  · exact fun _ h => absurd h List.not_mem_nil
  · rintro _ _ ⟨⟩
  · rintro _ _ ⟨⟩
  · rintro _ _ _ ⟨⟩
    rfl
  · have hkey : hasKey [(⟨"id"⟩, some "1")] oneUser = true := by decide
    exact List.filter_cons_of_pos hkey

theorem assembles_iff_oneUser : ∃ q params, Lookup usersDatabase (sourcedUsers (.string "crm"))
    [(⟨"id"⟩, .string "1")] q params oneUser ∧ q.run (session usersDatabase (fun _ => none) params) =
      some [(none, documentContents usersDatabase ⟨"public"⟩ GenericValue.constantJson
        (sourcedUsers (.string "crm")).fields ⟨"users"⟩ oneUser (some ⟨"id"⟩))] := by
  obtain ⟨q, params, h⟩ := lookup_oneUser (.string "crm")
  refine ⟨q, params, h, (assembles_iff h).mpr ⟨rfl, rfl, rfl, ?_⟩⟩
  simp [shownConstants, fieldConstants, sourcedUsers, Field.field, GenericValue.isText]

/-- A constant 5 is assembled as the string "5". -/
theorem not_assembles_number : ¬ Assembles (Option String) := by
  intro h
  obtain ⟨q, params, hlookup⟩ := lookup_oneUser (.bigInt 5)
  have hrun := h _ _ _ q params _ (fun _ => none) hlookup
  have hspared : spared usersDatabase (sourcedUsers (.bigInt 5)) oneUser = true := rfl
  have haccepted : (keyAccepted usersDatabase (sourcedUsers (.bigInt 5)) [⟨"id"⟩] &&
      indexAccepted usersDatabase (sourcedUsers (.bigInt 5)) fun _ => none) = true := rfl
  rw [hlookup.run, List.map_singleton, if_pos haccepted, if_pos hspared, Option.some.injEq,
    List.cons.injEq, Prod.mk.injEq] at hrun
  have hagree := documentContents_eq_iff.mp hrun.1.2 (.bigInt 5) (by
    simp [shownConstants, fieldConstants, sourcedUsers, Field.field])
  exact absurd (literalJson_eq_iff.mp hagree) (by simp [GenericValue.isText])

end Example

end Document

end Flusso
