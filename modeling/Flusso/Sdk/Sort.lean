import Flusso.Foundation.Json

/-! # Sort keys

A sort is one entry of the `sort` array: the key it sorts on, its options, and what
the builder tells it apart by. A sort by a map's key is a script, which keeps the
value for documents without the key in its parameters.
-/

namespace Flusso.Sdk

inductive SegmentKind where
  | object
  | nested
  deriving DecidableEq

/-- One level of a document path. -/
structure Segment where
  name : String
  kind : SegmentKind

/-- The dotted path of each nested level, the outermost first. -/
def nestedBoundariesFrom (running : String) : List Segment → List String
  | [] => []
  | segment :: path =>
    let running := (if running = "" then running else running ++ ".") ++ segment.name
    (if segment.kind = .nested then [running] else []) ++ nestedBoundariesFrom running path

def nestedBoundaries (path : List Segment) : List String := nestedBoundariesFrom "" path

def nestedClause : List String → Option Json
  | [] => none
  | path :: rest =>
    let clause := [("path", Json.string path)]
    some (.object (match nestedClause rest with
      | some inner => Json.insert "nested" inner clause
      | none => clause))

inductive SortOrder where
  | asc
  | desc
  deriving DecidableEq

def SortOrder.asStr : SortOrder → String
  | asc => "asc"
  | desc => "desc"

inductive SortMode where
  | min
  | max
  | avg
  | sum
  | median
  deriving DecidableEq

def SortMode.asStr : SortMode → String
  | min => "min"
  | max => "max"
  | avg => "avg"
  | sum => "sum"
  | median => "median"

inductive NumericType where
  | double
  | long
  | date
  | dateNanos

def NumericType.asStr : NumericType → String
  | double => "double"
  | long => "long"
  | date => "date"
  | dateNanos => "date_nanos"

/-- The smallest element when ascending, the largest when descending. -/
def defaultMode : SortOrder → String
  | .asc => "min"
  | .desc => "max"

/-- The shape of a map's values. -/
inductive MapSortValueKind where
  | string
  | number
  | date
  deriving DecidableEq

abbrev SortBody := List (String × Json)

structure SearchSort where
  key : String
  body : SortBody
  dedupId : String
  scriptKind : Option MapSortValueKind

def i64Max : Json := .number "9223372036854775807"

def i64Min : Json := .number "-9223372036854775808"

def lastCharacter : String := String.singleton (Char.ofNat 0x10ffff)

/-- The fallback that sorts past every value, at the end for the direction. -/
def missingSentinel (last : Bool) (order : SortOrder) (kind : MapSortValueKind) : Json :=
  let high := last == decide (order = .asc)
  match kind with
  | .string => .string (if high then lastCharacter else "")
  | .number | .date => if high then i64Max else i64Min

/-- `params.missing` of a script sort set; a body of another shape stays as it is. -/
def setScriptMissing (value : Json) (body : SortBody) : SortBody :=
  match Json.get body "script" with
  | some (.object script) =>
    match Json.get script "params" with
    | some (.object params) =>
      Json.insert "script"
        (.object (Json.insert "params" (.object (Json.insert "missing" value params)) script)) body
    | _ => body
  | _ => body

namespace SearchSort

def plain (key : String) (body : SortBody) : SearchSort := ⟨key, body, key, none⟩

def new (field : String) (order : SortOrder) : SearchSort :=
  plain field [("order", .string order.asStr)]

def score : SearchSort := plain "_score" [("order", .string "desc")]

def mapScript (dedupId : String) (body : SortBody) (kind : MapSortValueKind) : SearchSort :=
  ⟨"_script", body, dedupId, some kind⟩

/-- A body inside the nested arrays of a scope. -/
def inScope (scope : List Segment) (order : SortOrder) (body : SortBody) : SortBody :=
  match nestedClause (nestedBoundaries scope) with
  | some nested =>
    Json.insert "mode" (.string (defaultMode order)) (Json.insert "nested" nested body)
  | none => body

/-- A field sort, inside the nested arrays of its scope. -/
def field (scope : List Segment) (path : String) (order : SortOrder) : SearchSort :=
  let sort := new path order
  { sort with body := inScope scope order sort.body }

def set (name : String) (value : Json) (sort : SearchSort) : SearchSort :=
  { sort with body := Json.insert name value sort.body }

def asc (sort : SearchSort) : SearchSort := sort.set "order" (.string "asc")

def desc (sort : SearchSort) : SearchSort := sort.set "order" (.string "desc")

/-- The direction as the body has it. -/
def currentOrder (sort : SearchSort) : SortOrder :=
  if (Json.get sort.body "order").bind Json.asStr = some "desc" then .desc else .asc

def missingFirst (sort : SearchSort) : SearchSort :=
  match sort.scriptKind with
  | some kind =>
    { sort with body := setScriptMissing (missingSentinel false sort.currentOrder kind) sort.body }
  | none => sort.set "missing" (.string "_first")

def missingLast (sort : SearchSort) : SearchSort :=
  match sort.scriptKind with
  | some kind =>
    { sort with body := setScriptMissing (missingSentinel true sort.currentOrder kind) sort.body }
  | none => sort.set "missing" (.string "_last")

def missing (value : Json) (sort : SearchSort) : SearchSort :=
  match sort.scriptKind with
  | some _ => { sort with body := setScriptMissing value sort.body }
  | none => sort.set "missing" value

def mode (mode : SortMode) (sort : SearchSort) : SearchSort := sort.set "mode" (.string mode.asStr)

/-- An option of field sorts only. -/
def setFieldOption (name : String) (value : Json) (sort : SearchSort) : SearchSort :=
  if sort.scriptKind.isNone then sort.set name value else sort

def unmappedType (unmapped : String) (sort : SearchSort) : SearchSort :=
  sort.setFieldOption "unmapped_type" (.string unmapped)

def numericType (type : NumericType) (sort : SearchSort) : SearchSort :=
  sort.setFieldOption "numeric_type" (.string type.asStr)

def format (format : String) (sort : SearchSort) : SearchSort :=
  sort.setFieldOption "format" (.string format)

def toValue (sort : SearchSort) : Json := .object [(sort.key, .object sort.body)]

section DedupId

variable (sort : SearchSort) (name : String) (value : Json)

@[simp] theorem dedupId_set : (sort.set name value).dedupId = sort.dedupId := rfl
@[simp] theorem dedupId_mode (m : SortMode) : (sort.mode m).dedupId = sort.dedupId := rfl

@[simp] theorem dedupId_missingFirst : sort.missingFirst.dedupId = sort.dedupId := by
  unfold missingFirst
  split <;> rfl

@[simp] theorem dedupId_missingLast : sort.missingLast.dedupId = sort.dedupId := by
  unfold missingLast
  split <;> rfl

@[simp] theorem dedupId_missing : (sort.missing value).dedupId = sort.dedupId := by
  unfold missing
  split <;> rfl

@[simp] theorem dedupId_setFieldOption :
    (sort.setFieldOption name value).dedupId = sort.dedupId := by
  unfold setFieldOption
  split <;> rfl

end DedupId

end SearchSort

def stringSource : String :=
  "for (def f : params.fields) \x7b if (doc.containsKey(f) && doc[f].size() > 0) \x7b " ++
    "return doc[f].value.toLowerCase(); \x7d \x7d return params.missing;"

def numberSource : String :=
  "for (def f : params.fields) \x7b if (doc.containsKey(f) && doc[f].size() > 0) \x7b " ++
    "return doc[f].value; \x7d \x7d return params.missing;"

def dateSource : String :=
  "for (def f : params.fields) \x7b if (doc.containsKey(f) && doc[f].size() > 0) \x7b " ++
    "return doc[f].value.toInstant().toEpochMilli(); \x7d \x7d return params.missing;"

/-- A sort by the first of several keys of a map that a document has. -/
structure MapKeySort where
  path : String
  keys : List String
  kind : MapSortValueKind
  scope : List Segment

namespace MapKeySort

def or (key : String) (sort : MapKeySort) : MapKeySort := { sort with keys := sort.keys ++ [key] }

def leafField (sort : MapKeySort) (key : String) : String :=
  match sort.kind with
  | .string => s!"{sort.path}.{key}.keyword"
  | .number | .date => s!"{sort.path}.{key}"

def fields (sort : MapKeySort) : List String := sort.keys.map sort.leafField

def sortType : MapSortValueKind → String
  | .string => "string"
  | .number | .date => "number"

def source : MapSortValueKind → String
  | .string => stringSource
  | .number => numberSource
  | .date => dateSource

def defaultMissing : MapSortValueKind → Json
  | .string => .string ""
  | .number | .date => .number "0"

def params (sort : MapKeySort) : List (String × Json) :=
  Json.ofPairs [("fields", .array (sort.fields.map .string)),
    ("missing", defaultMissing sort.kind)]

def script (sort : MapKeySort) : List (String × Json) :=
  Json.ofPairs [("source", .string (source sort.kind)), ("params", .object sort.params)]

def unscopedBody (sort : MapKeySort) (order : SortOrder) : SortBody :=
  Json.ofPairs [("type", .string (sortType sort.kind)), ("script", .object sort.script),
    ("order", .string order.asStr)]

def build (sort : MapKeySort) (order : SortOrder) : SearchSort :=
  .mapScript sort.path (SearchSort.inScope sort.scope order (sort.unscopedBody order)) sort.kind

end MapKeySort

/-- A handle that can be sorted by. -/
inductive Sortable where
  /-- A boolean, a number, a date or a keyword. -/
  | scalar (scope : List Segment) (path : String)
  | text (scope : List Segment) (path : String)
  | enum (scope : List Segment) (path : String)
  | mapKey (sort : MapKeySort)

def Sortable.sort (order : SortOrder) : Sortable → SearchSort
  | scalar scope path => .field scope path order
  | text scope path => .field scope s!"{path}.keyword_lowercase" order
  | enum scope path => .field scope s!"{path}.sort" order
  | mapKey sort => sort.build order

inductive Missing where
  | first
  | last
  | value (value : Json)

/-- A field sort without its field. -/
structure OrderBy where
  order : SortOrder
  missing : Option Missing
  mode : Option SortMode
  numericType : Option NumericType
  unmappedType : Option String
  format : Option String

def OrderBy.intoSort (order : OrderBy) (handle : Sortable) : SearchSort :=
  let sort := handle.sort order.order
  let sort := match order.missing with
    | some .first => sort.missingFirst
    | some .last => sort.missingLast
    | some (.value value) => sort.missing value
    | none => sort
  let sort := order.mode.elim sort fun mode => sort.mode mode
  let sort := order.numericType.elim sort fun type => sort.numericType type
  let sort := order.unmappedType.elim sort fun type => sort.unmappedType type
  order.format.elim sort fun format => sort.format format

structure GeoPoint where
  lat : String
  lon : String

def GeoPoint.toValue (point : GeoPoint) : Json :=
  .object [("lat", .number point.lat), ("lon", .number point.lon)]

/-- The distance of a geo field from a point, the nearest first. -/
def distanceFrom (path : String) (center : GeoPoint) : SearchSort :=
  .plain "_geo_distance"
    (Json.insert "order" (.string "asc") (Json.insert path center.toValue []))

end Flusso.Sdk
