import Flusso.Kernel.Mapping
import Flusso.Sink.Values

/-! # The body an index is created from

The resolved fields become a strict mapping, with sub-fields for texts and
keywords and a rank to sort an ordered enum by. The rank is baked in by a
normalizer of the field's own, whose char filter replaces each variant.
-/

namespace Flusso

inductive TextAnalysis where
  | builtin
  | icu
  deriving DecidableEq

structure IndexOptions where
  numberOfShards : UInt32
  numberOfReplicas : UInt32
  textAnalysis : TextAnalysis
  autoSubfields : Bool

namespace JsonValue

def ofNat (n : ℕ) : JsonValue := .number (.posInt (UInt64.ofNat n))

/-- An object written out field by field. -/
def ofFields (fields : List (String × JsonValue)) : JsonValue := .object (Json.ofPairs fields)

def strings (items : List String) : JsonValue := .array (items.map .string)

def field? (key : String) : JsonValue → Option JsonValue
  | .object fields => Json.get fields key
  | _ => none

/-- The value under a path of keys. -/
def under : List String → JsonValue → Option JsonValue
  | [], value => some value
  | key :: keys, value => (value.field? key).bind (under keys)

def string? : JsonValue → Option String
  | .string s => some s
  | _ => none

def array? : JsonValue → Option (List JsonValue)
  | .array items => some items
  | _ => none

end JsonValue

namespace IndexBody

open JsonValue (ofNat ofFields strings)

def keywordSubfield : String := "keyword"

def keywordLowercaseSubfield : String := "keyword_lowercase"

def textSubfield : String := "text"

def codeAnalyzer : String := "flusso_code"

def textAnalyzer : String := "flusso_text"

def lowercaseNormalizer : String := "flusso_lowercase"

def keywordIgnoreAbove : ℕ := 256

def enumSortSubfield : String := "sort"

def enumSortPrefix : String := "flusso_enumsort"

def isAsciiAlphanumeric (c : Char) : Bool :=
  ('0' ≤ c && c ≤ '9') || ('A' ≤ c && c ≤ 'Z') || ('a' ≤ c && c ≤ 'z')

/-- The name of the char filter and of the normalizer of an ordered enum. -/
def enumSortName (path : String) : String :=
  enumSortPrefix ++ "__" ++
    String.ofList (path.toList.map fun c => if isAsciiAlphanumeric c then c else '_')

/-- A rule that replaces a variant by its rank. -/
def enumSortRule (width : ℕ) (variant : String × ℕ) : String :=
  variant.1 ++ " => " ++ padded width variant.2

/-- The ranks are of one width. -/
def enumSortMappings (variants : List String) : List String :=
  let width := (toString (variants.length - 1)).length
  variants.zipIdx.map (enumSortRule width)

/-- A field's dotted path from the index root. -/
def fieldPath (path : String) (field : ResolvedField) : String :=
  if path.isEmpty then field.name.name else path ++ "." ++ field.name.name

mutual

/-- The ordered enums of a field with their paths, at any depth. -/
def collectEnumSort (path : String) : ResolvedField → List (String × List String)
  | ⟨name, mapping, nullable, array, children⟩ =>
    let path := fieldPath path ⟨name, mapping, nullable, array, children⟩
    (mapping.enumOrder.map fun order => (path, order)).toList ++ collectEnumSorts path children

def collectEnumSorts (path : String) : List ResolvedField → List (String × List String)
  | [] => []
  | field :: fields => collectEnumSort path field ++ collectEnumSorts path fields

end

section Subfields

def keywordLowercase : JsonValue := ofFields [
  ("type", .string "keyword"),
  ("normalizer", .string lowercaseNormalizer),
  ("ignore_above", ofNat keywordIgnoreAbove)]

def textSubfields : List (String × JsonValue) := Json.ofPairs [
  (keywordSubfield, ofFields [
    ("type", .string "keyword"),
    ("ignore_above", ofNat keywordIgnoreAbove)]),
  (keywordLowercaseSubfield, keywordLowercase)]

def keywordSubfields : List (String × JsonValue) := Json.ofPairs [
  (textSubfield, ofFields [("type", .string "text"), ("analyzer", .string codeAnalyzer)]),
  (keywordLowercaseSubfield, keywordLowercase)]

/-- The sub-field an ordered enum is sorted by. -/
def enumSort (path : String) : JsonValue := ofFields [
  ("type", .string "keyword"),
  ("normalizer", .string (enumSortName path)),
  ("ignore_above", ofNat keywordIgnoreAbove)]

end Subfields

section Properties

variable [Decimals] (options : IndexOptions)

/-- A leaf's type with the sub-fields it has by default. -/
def baseProperty (field : ResolvedField) : List (String × JsonValue) :=
  let prop := [("type", JsonValue.string field.mapping.mappingType.name)]
  if options.autoSubfields && field.children.isEmpty then
    match field.mapping.mappingType with
    | .text => Json.insert "fields" (.object textSubfields)
        (Json.insert "analyzer" (.string textAnalyzer) prop)
    | .keyword => Json.insert "fields" (.object keywordSubfields) prop
    | _ => prop
  else prop

/-- The sub-field to sort by stands beside the others. -/
def addEnumSort (field : ResolvedField) (path : String) (prop : List (String × JsonValue)) :
    List (String × JsonValue) :=
  if field.mapping.enumOrder.isSome then
    match Json.get prop "fields" with
    | some (.object fields) =>
      Json.insert "fields" (.object (Json.insert enumSortSubfield (enumSort path) fields)) prop
    | _ => Json.insert "fields" (.object [(enumSortSubfield, enumSort path)]) prop
  else prop

/-- A property without the fields below it: the field's own options come last and win. -/
def ownProperty (field : ResolvedField) (path : String) : List (String × JsonValue) :=
  Json.merge (addEnumSort field path (baseProperty options field))
    (field.mapping.extra.map fun option => (option.1, toJson option.2))

mutual

def buildProperty (path : String) : ResolvedField → JsonValue
  | ⟨name, mapping, nullable, array, children⟩ =>
    let prop := ownProperty options ⟨name, mapping, nullable, array, children⟩ path
    .object (if children.isEmpty then prop
      else Json.insert "properties" (.object (buildProperties path children [])) prop)

def buildProperties (path : String) :
    List ResolvedField → List (String × JsonValue) → List (String × JsonValue)
  | [], props => props
  | field :: fields, props =>
    buildProperties path fields
      (Json.insert field.name.name (buildProperty (fieldPath path field) field) props)

end

end Properties

section Analysis

def codeFold : TextAnalysis → String
  | .builtin => "asciifolding"
  | .icu => "icu_folding"

def codeAnalyzerBody (mode : TextAnalysis) : JsonValue := ofFields [
  ("type", .string "custom"),
  ("tokenizer", .string "whitespace"),
  ("filter", strings ["flusso_word_delimiter", "flatten_graph", "lowercase", codeFold mode])]

def textAnalyzerBody : TextAnalysis → JsonValue
  | .builtin => ofFields [
    ("type", .string "custom"),
    ("tokenizer", .string "standard"),
    ("filter", strings ["lowercase", "asciifolding"])]
  | .icu => ofFields [
    ("type", .string "custom"),
    ("tokenizer", .string "icu_tokenizer"),
    ("filter", strings ["icu_normalizer", "icu_folding"])]

def normalizerFilters : TextAnalysis → JsonValue
  | .builtin => strings ["lowercase", "asciifolding"]
  | .icu => strings ["icu_normalizer"]

/-- The char filter of an ordered enum. -/
def enumCharFilter (sort : String × List String) : String × JsonValue :=
  (enumSortName sort.1, ofFields [
    ("type", .string "mapping"),
    ("mappings", strings (enumSortMappings sort.2))])

/-- The normalizer of an ordered enum. -/
def enumNormalizer (sort : String × List String) : String × JsonValue :=
  (enumSortName sort.1, ofFields [
    ("type", .string "custom"),
    ("char_filter", strings [enumSortName sort.1]),
    ("filter", .array [])])

def analyzers (mode : TextAnalysis) : List (String × JsonValue) :=
  Json.ofPairs [(codeAnalyzer, codeAnalyzerBody mode), (textAnalyzer, textAnalyzerBody mode)]

def charFilters (enumSorts : List (String × List String)) : List (String × JsonValue) :=
  Json.ofPairs (enumSorts.map enumCharFilter)

def normalizers (mode : TextAnalysis) (enumSorts : List (String × List String)) :
    List (String × JsonValue) :=
  Json.merge [(lowercaseNormalizer, ofFields [
    ("type", .string "custom"),
    ("filter", normalizerFilters mode)])] (enumSorts.map enumNormalizer)

def tokenFilters : JsonValue := ofFields [
  ("flusso_word_delimiter", ofFields [
    ("type", .string "word_delimiter_graph"),
    ("catenate_all", .bool true),
    ("preserve_original", .bool true)])]

def buildAnalysis (mode : TextAnalysis) (enumSorts : List (String × List String)) : JsonValue :=
  ofFields ([("filter", tokenFilters)] ++
    (if (charFilters enumSorts).isEmpty then []
      else [("char_filter", JsonValue.object (charFilters enumSorts))]) ++
    [("analyzer", .object (analyzers mode)),
      ("normalizer", .object (normalizers mode enumSorts))])

end Analysis

/-- The body of the request that creates the index. -/
def buildIndexBody [Decimals] (fields : List ResolvedField) (options : IndexOptions) : JsonValue :=
  ofFields [
    ("settings", ofFields [
      ("index", ofFields [
        ("refresh_interval", .string "-1"),
        ("number_of_shards", ofNat options.numberOfShards.toNat),
        ("number_of_replicas", ofNat options.numberOfReplicas.toNat)]),
      ("analysis", buildAnalysis options.textAnalysis (collectEnumSorts "" fields))]),
    ("mappings", ofFields [
      ("dynamic", .string "strict"),
      ("properties", .object (buildProperties options "" fields []))])]

end IndexBody

end Flusso
