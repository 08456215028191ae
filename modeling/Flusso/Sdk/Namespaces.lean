import Flusso.Foundation.Casing
import Flusso.Sdk.Root

/-! # Generated query namespaces

Every container level of a mapping gets a type, named for the words of its path, and
every field a function, named for the words of the field. Both spellings forget how the
words were told apart, so names meet exactly where the words do.
-/

namespace Flusso.Sdk

section Spelling

/-- A character goes on with the word, or starts one where the next has to. -/
def pascalFrom (upperNext : Bool) : List Char → List Char
  | [] => []
  | ch :: rest =>
    if ch = '_' ∨ ch = '-' then pascalFrom true rest
    else if upperNext then ch.toUpper :: pascalFrom false rest
    else ch :: pascalFrom false rest

/-- A document key as part of a type's name. -/
def toPascalCase (name : String) : String := String.ofList (pascalFrom true name.toList)

/-- One more character of a function's name. -/
def snakeStep (out : List Char) (c : Char) : List Char :=
  if c.isUpper then
    (if out ≠ [] ∧ out.getLast? ≠ some '_' then out ++ ['_'] else out) ++ [c.toLower]
  else out ++ [c]

/-- A document key as a function's name. -/
def toSnakeCase (name : String) : String := String.ofList (name.toList.foldl snakeStep [])

/-- One respelling of a text with the same words: a separator at an end or beside another, the
case of a word's first letter, or the separator before a word that needs none. -/
inductive PascalEdit : List Char → List Char → Prop
  | hyphen (s t : List Char) : PascalEdit (s ++ '-' :: t) (s ++ '_' :: t)
  | leading (t : List Char) : PascalEdit ('_' :: t) t
  | trailing (s : List Char) : PascalEdit (s ++ ['_']) s
  | doubled (s t : List Char) : PascalEdit (s ++ '_' :: '_' :: t) (s ++ '_' :: t)
  | first (c : Char) (t : List Char) : PascalEdit (c :: t) (c.toUpper :: t)
  | word (s : List Char) (c : Char) (t : List Char) :
      PascalEdit (s ++ '_' :: c :: t) (s ++ '_' :: c.toUpper :: t)
  | joined (s : List Char) {c : Char} (t : List Char) (hc : c.toUpper = c) (hbar : c ≠ '_')
      (hhyphen : c ≠ '-') : PascalEdit (s ++ '_' :: c :: t) (s ++ c :: t)

/-- One respelling of a text with the same words: a capital letter is a separator and a small
letter, where no separator stands before it. -/
inductive SnakeEdit : List Char → List Char → Prop
  | first {c : Char} (t : List Char) (hc : c.isUpper = true) : SnakeEdit (c :: t) (c.toLower :: t)
  | word (s : List Char) {c : Char} (t : List Char) (hc : c.isUpper = true) :
      SnakeEdit (s ++ '_' :: c :: t) (s ++ '_' :: c.toLower :: t)
  | split (s : List Char) {b c : Char} (t : List Char) (hb : b ≠ '_') (hc : c.isUpper = true) :
      SnakeEdit (s ++ b :: c :: t) (s ++ b :: '_' :: c.toLower :: t)

/-- The words of two texts make the same type name. -/
def SamePascal (s t : String) : Prop := Relation.EqvGen PascalEdit s.toList t.toList

/-- The words of two texts make the same function name. -/
def SameSnake (s t : String) : Prop := Relation.EqvGen SnakeEdit s.toList t.toList

variable {α β : Type*} {r : α → α → Prop} {f : α → β} {g : α → α} {a b : α}

/-- Steps that keep a value and lead everything to what the value tells: the value decides
what they connect. -/
theorem eqvGen_iff_of_normal (hstep : ∀ a b, r a b → f a = f b)
    (hnormal : ∀ a, Relation.EqvGen r a (g a)) (hg : ∀ a b, f a = f b → g a = g b) :
    Relation.EqvGen r a b ↔ f a = f b := by
  constructor
  · intro h
    induction h with
    | rel a b h => exact hstep a b h
    | refl a => rfl
    | symm a b _ ih => exact ih.symm
    | trans a b c _ _ ih ih' => exact ih.trans ih'
  · intro h
    have hb := hnormal b
    rw [← hg a b h] at hb
    exact (hnormal a).trans _ _ _ (hb.symm _ _)

end Spelling

section Pascal

variable {s t : List Char} {c : Char} {upperNext : Bool}

theorem pascalFrom_separator (h : c = '_' ∨ c = '-') :
    pascalFrom upperNext (c :: t) = pascalFrom true t := by
  rw [pascalFrom, if_pos h]

theorem pascalFrom_letter (h : ¬ (c = '_' ∨ c = '-')) :
    pascalFrom upperNext (c :: t) = (if upperNext then c.toUpper else c) :: pascalFrom false t := by
  rw [pascalFrom, if_neg h]
  split <;> rfl

theorem exists_pascalFrom_append (upperNext : Bool) (s : List Char) : ∃ next : Bool, ∀ t,
    pascalFrom upperNext (s ++ t) = pascalFrom upperNext s ++ pascalFrom next t := by
  induction s generalizing upperNext with
  | nil => exact ⟨upperNext, fun t => rfl⟩
  | cons c s ih =>
    by_cases h : c = '_' ∨ c = '-'
    · obtain ⟨next, hnext⟩ := ih true
      refine ⟨next, fun t => ?_⟩
      rw [List.cons_append, pascalFrom_separator h, pascalFrom_separator h, hnext]
    · obtain ⟨next, hnext⟩ := ih false
      refine ⟨next, fun t => ?_⟩
      rw [List.cons_append, pascalFrom_letter h, pascalFrom_letter h, hnext, List.cons_append]

theorem separator_toUpper_iff : (c.toUpper = '_' ∨ c.toUpper = '-') ↔ (c = '_' ∨ c = '-') := by
  rw [Casing.toUpper_eq_iff (by decide), Casing.toUpper_eq_iff (by decide)]

theorem pascalFrom_toUpper (c : Char) (t : List Char) :
    pascalFrom true (c.toUpper :: t) = pascalFrom true (c :: t) := by
  by_cases h : c = '_' ∨ c = '-'
  · rw [pascalFrom_separator h, pascalFrom_separator (separator_toUpper_iff.mpr h)]
  · have h' : ¬ (c.toUpper = '_' ∨ c.toUpper = '-') := fun hu => h (separator_toUpper_iff.mp hu)
    rw [pascalFrom_letter h, pascalFrom_letter h', if_pos rfl, if_pos rfl,
      Char.toUpper_toUpper_eq_toUpper]

theorem pascalFrom_of_edit (h : PascalEdit s t) : pascalFrom true s = pascalFrom true t := by
  have hbar {next : Bool} (t : List Char) : pascalFrom next ('_' :: t) = pascalFrom true t :=
    pascalFrom_separator (.inl rfl)
  cases h with
  | hyphen s t =>
    obtain ⟨next, hnext⟩ := exists_pascalFrom_append true s
    rw [hnext, hnext, hbar, pascalFrom_separator (.inr rfl)]
  | leading t => exact hbar t
  | trailing s =>
    obtain ⟨next, hnext⟩ := exists_pascalFrom_append true t
    rw [hnext, hbar]
    exact List.append_nil _
  | doubled s t =>
    obtain ⟨next, hnext⟩ := exists_pascalFrom_append true s
    rw [hnext, hnext, hbar, hbar, hbar]
  | first c t => exact (pascalFrom_toUpper c t).symm
  | word s c t =>
    obtain ⟨next, hnext⟩ := exists_pascalFrom_append true s
    rw [hnext, hnext, hbar, hbar, pascalFrom_toUpper]
  | joined s t hc hbar' hhyphen =>
    obtain ⟨next, hnext⟩ := exists_pascalFrom_append true s
    rw [hnext, hnext, hbar, pascalFrom_letter (not_or.mpr ⟨hbar', hhyphen⟩),
      pascalFrom_letter (not_or.mpr ⟨hbar', hhyphen⟩), hc, ite_self, ite_self]

theorem eqvGen_pascalFrom (t : List Char) : ∀ s : List Char,
    Relation.EqvGen PascalEdit (s ++ t) (s ++ pascalFrom false t) ∧
      Relation.EqvGen PascalEdit (s ++ '_' :: t) (s ++ pascalFrom true t) := by
  induction t with
  | nil =>
    intro s
    exact ⟨.refl _, by simpa [pascalFrom] using Relation.EqvGen.rel _ _ (PascalEdit.trailing s)⟩
  | cons c t ih =>
    intro s
    have hdoubled : Relation.EqvGen PascalEdit (s ++ '_' :: '_' :: t) (s ++ '_' :: t) :=
      .rel _ _ (.doubled s t)
    have hhyphen {s : List Char} : Relation.EqvGen PascalEdit (s ++ '-' :: t) (s ++ '_' :: t) :=
      .rel _ _ (.hyphen s t)
    by_cases h : c = '_' ∨ c = '-'
    · rw [pascalFrom_separator h, pascalFrom_separator h]
      have hbelow := (ih s).2
      rcases h with rfl | rfl
      · exact ⟨hbelow, hdoubled.trans _ _ _ hbelow⟩
      · have hbar := @hhyphen (s ++ ['_'])
        rw [List.append_assoc, List.append_assoc] at hbar
        exact ⟨hhyphen.trans _ _ _ hbelow, hbar.trans _ _ _ (hdoubled.trans _ _ _ hbelow)⟩
    · have hletter (d : Char) :
          Relation.EqvGen PascalEdit (s ++ d :: t) (s ++ d :: pascalFrom false t) := by
        simpa using (ih (s ++ [d])).1
      have h' := not_or.mp fun hu => h (separator_toUpper_iff.mp hu)
      rw [pascalFrom_letter h, pascalFrom_letter h]
      refine ⟨hletter c, ?_⟩
      have hupper : Relation.EqvGen PascalEdit (s ++ '_' :: c :: t) (s ++ '_' :: c.toUpper :: t) :=
        .rel _ _ (.word s c t)
      have hjoined :
          Relation.EqvGen PascalEdit (s ++ '_' :: c.toUpper :: t) (s ++ c.toUpper :: t) :=
        .rel _ _ (.joined s t (Char.toUpper_toUpper_eq_toUpper c) h'.1 h'.2)
      exact hupper.trans _ _ _ (hjoined.trans _ _ _ (hletter c.toUpper))

theorem eqvGen_pascalFrom_true (t : List Char) :
    Relation.EqvGen PascalEdit t (pascalFrom true t) := by
  have hleading : Relation.EqvGen PascalEdit ('_' :: t) t := .rel _ _ (.leading t)
  exact (hleading.symm _ _).trans _ _ _ (eqvGen_pascalFrom t []).2

theorem samePascal_iff {s t : String} : SamePascal s t ↔ toPascalCase s = toPascalCase t := by
  rw [SamePascal, eqvGen_iff_of_normal (fun _ _ h => pascalFrom_of_edit h)
    eqvGen_pascalFrom_true fun _ _ h => h, toPascalCase, toPascalCase, String.ofList_inj]

end Pascal

section Snake

variable {s t out : List Char} {c : Char}

theorem snakeStep_lower (h : c.isUpper = false) : snakeStep out c = out ++ [c] := by
  rw [snakeStep, if_neg (by simp [h])]

theorem snakeStep_bar (h : c.isUpper = true) :
    snakeStep (out ++ ['_']) c = out ++ ['_'] ++ [c.toLower] := by
  rw [snakeStep, if_pos h, if_neg (by simp)]

theorem snakeStep_split (h : c.isUpper = true) (hne : out ≠ [])
    (hlast : out.getLast? ≠ some '_') :
    snakeStep out c = out ++ ['_'] ++ [c.toLower] := by
  rw [snakeStep, if_pos h, if_pos ⟨hne, hlast⟩]

theorem getLast?_snakeStep (h : c ≠ '_') :
    snakeStep out c ≠ [] ∧ (snakeStep out c).getLast? ≠ some '_' := by
  unfold snakeStep
  split
  · have hlower : c.toLower ≠ '_' := fun hc => h ((Casing.toLower_eq_iff (by decide)).mp hc)
    simp [hlower]
  · simp [h]

theorem foldl_snakeStep_of_edit (h : SnakeEdit s t) :
    s.foldl snakeStep [] = t.foldl snakeStep [] := by
  have hbar (out : List Char) : snakeStep out '_' = out ++ ['_'] := snakeStep_lower rfl
  cases h with
  | @first c t hc =>
    have hupper : snakeStep [] c = [c.toLower] := by
      rw [snakeStep, if_pos hc, if_neg (by simp), List.nil_append]
    rw [List.foldl_cons, List.foldl_cons, hupper,
      snakeStep_lower (Char.isUpper_toLower_eq_false c)]
    rfl
  | word s t hc =>
    rw [List.foldl_append, List.foldl_append, List.foldl_cons, List.foldl_cons, List.foldl_cons,
      List.foldl_cons, hbar, snakeStep_bar hc, snakeStep_lower (Char.isUpper_toLower_eq_false _)]
  | @split s b c t hb hc =>
    obtain ⟨hne, hlast⟩ := @getLast?_snakeStep (s.foldl snakeStep []) b hb
    rw [List.foldl_append, List.foldl_append, List.foldl_cons, List.foldl_cons, List.foldl_cons,
      List.foldl_cons, List.foldl_cons, snakeStep_split hc hne hlast, hbar,
      snakeStep_lower (Char.isUpper_toLower_eq_false _)]

theorem eqvGen_foldl_snakeStep (t out : List Char) :
    Relation.EqvGen SnakeEdit (out ++ t) (t.foldl snakeStep out) := by
  induction t generalizing out with
  | nil => simpa using Relation.EqvGen.refl out
  | cons c t ih =>
    have hstep : Relation.EqvGen SnakeEdit (out ++ c :: t) (snakeStep out c ++ t) := by
      by_cases hc : c.isUpper = true
      · rcases List.eq_nil_or_concat out with rfl | ⟨s, b, rfl⟩
        · have hfirst := Relation.EqvGen.rel _ _ (SnakeEdit.first t hc)
          rwa [snakeStep, if_pos hc, if_neg (by simp)]
        · by_cases hb : b = '_'
          · subst hb
            have hword := Relation.EqvGen.rel _ _ (SnakeEdit.word s t hc)
            rw [List.concat_eq_append, snakeStep_bar hc]
            simpa using hword
          · have hsplit := Relation.EqvGen.rel _ _ (SnakeEdit.split s t hb hc)
            rw [List.concat_eq_append, snakeStep_split hc (by simp) (by simpa using hb)]
            simpa using hsplit
      · rw [snakeStep_lower (by simpa using hc), List.append_assoc]
        exact .refl _
    exact hstep.trans _ _ _ (ih _)

/-- Two texts make one function name exactly where they have the same words. -/
theorem sameSnake_iff {s t : String} : SameSnake s t ↔ toSnakeCase s = toSnakeCase t := by
  have hnormal (t : List Char) : Relation.EqvGen SnakeEdit t (t.foldl snakeStep []) :=
    eqvGen_foldl_snakeStep t []
  rw [SameSnake, eqvGen_iff_of_normal (fun _ _ h => foldl_snakeStep_of_edit h) hnormal
    fun _ _ h => h, toSnakeCase, toSnakeCase, String.ofList_inj]

end Snake

section Emit

/-- What a handle function returns. -/
inductive Handle where
  | string (type : String) (subfields : Bool)
  | number (kind : Kind)
  | numberMap (kind : Kind)
  | simple (type : String)
  | nested (child : String)
  | object (child : String)

structure HandleFn where
  field : FieldName
  name : String
  path : String
  handle : Handle

/-- The type of a container level. -/
structure Namespace where
  path : List String
  ident : String
  handles : List HandleFn

structure Emitted where
  handles : List HandleFn
  namespaces : List Namespace

/-- The handle of a field that is no container level. -/
def leafHandle (autoSubfields : Bool) (field : ResolvedField) : Option Handle :=
  let subfielded := autoSubfields && field.children.isEmpty &&
    !field.mapping.extra.any fun option => option.1 = "fields"
  let number := (Root.kindOf field.mapping.mappingType field.mapping.decimal).map Handle.number
  match field.mapping.mappingType with
  | .keyword =>
    some (.string (if field.mapping.enumOrder.isSome then "Enum" else "Keyword") subfielded)
  | .text => some (.string "Text" subfielded)
  | .boolean => some (.simple "Bool")
  | .byte | .short | .integer | .long | .float | .halfFloat | .double | .scaledFloat => number
  | .date => some (.simple "Date")
  | .object =>
    match field.mapping.mapValues with
    | some .text => some (.simple "TextMap")
    | some .keyword => some (.simple "KeywordMap")
    | some .date => some (.simple "DateMap")
    | some value =>
      match value with
      | .byte | .short | .integer | .long | .float | .halfFloat | .double | .scaledFloat =>
        (Root.kindOf value false).map Handle.numberMap
      | _ => some (.simple "Json")
    | none => some (.simple "Json")
  | .nested => none
  | .other name =>
    some (.simple (if name = "geo_point" then "Geo"
      else if name = "binary" then "Binary" else "Json"))

/-- The walk's settings: whether strings have subfields, and the types renamed at the root. -/
structure NamespaceOptions where
  autoSubfields : Bool
  renames : List (String × String)

/-- The type for a child level: directly under the root it is named for the level alone, deeper
levels append to the name they are under. -/
def childIdent (options : NamespaceOptions) (base field : String) (atRoot : Bool) : String :=
  if atRoot then
    ((options.renames.find? fun rename => rename.1 = field).map Prod.snd).getD (toPascalCase field)
  else base ++ toPascalCase field

mutual

def emitField (options : NamespaceOptions) (base : String) (segments : List String)
    (field : ResolvedField) : Emitted :=
  match field with
  | { name, mapping, nullable, array, children } =>
    let below := segments ++ [name.name]
    let child := childIdent options base name.name segments.isEmpty
    let fn (handle : Handle) : HandleFn :=
      ⟨name, toSnakeCase name.name, ".".intercalate below, handle⟩
    let inner := emitLevel options child below children
    let namespaces := inner.namespaces ++ [⟨below, child, inner.handles⟩]
    match mapping.mappingType with
    | .nested => ⟨[fn (.nested child)], namespaces⟩
    | mappingType =>
      if mappingType = .object ∧ mapping.mapValues.isNone ∧ !children.isEmpty then
        ⟨[fn (.object child)], namespaces⟩
      else
        ⟨((leafHandle options.autoSubfields { name, mapping, nullable, array, children }).map
          fn).toList, []⟩

/-- The handle functions of a level, and the types of the levels beneath it. -/
def emitLevel (options : NamespaceOptions) (base : String) (segments : List String)
    (level : List ResolvedField) : Emitted :=
  match level with
  | [] => ⟨[], []⟩
  | field :: level =>
    let first := emitField options base segments field
    let rest := emitLevel options base segments level
    ⟨first.handles ++ rest.handles, first.namespaces ++ rest.namespaces⟩

end

/-- A level of its own: a nested array, or an object with fields that is no map. -/
def isContainer (field : ResolvedField) : Bool :=
  field.mapping.mappingType = .nested ||
    (field.mapping.mappingType = .object && field.mapping.mapValues.isNone &&
      !field.children.isEmpty)

mutual

def fieldContainers (segments : List String) (field : ResolvedField) :
    List (List String × List ResolvedField) :=
  match field with
  | { name, mapping, nullable, array, children } =>
    if isContainer { name, mapping, nullable, array, children } then
      containers (segments ++ [name.name]) children ++ [(segments ++ [name.name], children)]
    else []

/-- The container levels of a mapping, by their paths. -/
def containers (segments : List String) (level : List ResolvedField) :
    List (List String × List ResolvedField) :=
  match level with
  | [] => []
  | field :: level => fieldContainers segments field ++ containers segments level

end

/-- A path as one text. -/
def joined : List String → String
  | [] => ""
  | name :: rest => rest.foldl (fun text name => text ++ "_" ++ name) name

theorem joined_append {path : List String} (name : String) (h : path ≠ []) :
    joined (path ++ [name]) = joined path ++ "_" ++ name := by
  cases path with
  | nil => exact absurd rfl h
  | cons first rest => simp [joined, List.foldl_append]

theorem toPascalCase_joined {path : List String} (name : String) (h : path ≠ []) :
    toPascalCase (joined (path ++ [name])) = toPascalCase (joined path) ++ toPascalCase name := by
  obtain ⟨next, hnext⟩ := exists_pascalFrom_append true (joined path).toList
  rw [joined_append name h, toPascalCase, toPascalCase, toPascalCase, ← String.ofList_append,
    String.toList_append, String.toList_append, List.append_assoc, hnext]
  exact congrArg (fun t => String.ofList (_ ++ t)) (pascalFrom_separator (.inl rfl))

/-- Nothing is renamed. -/
def plain (autoSubfields : Bool) : NamespaceOptions := ⟨autoSubfields, []⟩

theorem childIdent_plain {autoSubfields : Bool} {base : String} {segments : List String}
    (name : String) (hbase : segments ≠ [] → base = toPascalCase (joined segments)) :
    childIdent (plain autoSubfields) base name segments.isEmpty =
      toPascalCase (joined (segments ++ [name])) := by
  cases segments with
  | nil => rfl
  | cons first rest => rw [toPascalCase_joined name (by simp), ← hbase (by simp)]; rfl

theorem leafHandle_isSome {autoSubfields : Bool} {field : ResolvedField}
    (h : isContainer field = false) : (leafHandle autoSubfields field).isSome = true := by
  obtain ⟨name, ⟨mappingType, extra, mapValues, decimal, enumOrder⟩, nullable, array, children⟩ :=
    field
  cases mappingType with
  | nested => simp [isContainer] at h
  | object =>
    cases mapValues with
    | none => rfl
    | some values => cases values <;> rfl
  | _ => rfl

/-- The type of a container level, without renames. -/
def namespaceOf (autoSubfields : Bool) (level : List String × List ResolvedField) : Namespace :=
  ⟨level.1, toPascalCase (joined level.1),
    (emitLevel (plain autoSubfields) (toPascalCase (joined level.1)) level.1 level.2).handles⟩

section Walk

variable {autoSubfields : Bool} {base : String} {segments : List String} {field : ResolvedField}
  {level : List ResolvedField}

theorem names_emitField : (emitField (plain autoSubfields) base segments field).handles.map
    (fun fn => (fn.field, fn.name)) = [(field.name, toSnakeCase field.name.name)] := by
  obtain ⟨name, mapping, nullable, array, children⟩ := field
  rw [emitField]
  split
  · rfl
  · next mappingType hne =>
    split
    · rfl
    · next hobject =>
      have hleaf := @leafHandle_isSome autoSubfields ⟨name, mapping, nullable, array, children⟩ (by
        simp only [isContainer, Bool.or_eq_false_iff, decide_eq_false_iff_not]
        refine ⟨hne, ?_⟩
        simpa using hobject)
      obtain ⟨handle, hhandle⟩ := Option.isSome_iff_exists.mp hleaf
      have hoptions : (plain autoSubfields).autoSubfields = autoSubfields := rfl
      rw [hoptions, hhandle]
      rfl

theorem names_emitLevel : (emitLevel (plain autoSubfields) base segments level).handles.map
    (fun fn => (fn.field, fn.name)) =
      level.map fun field => (field.name, toSnakeCase field.name.name) := by
  induction level with
  | nil => rfl
  | cons field level ih => rw [emitLevel, List.map_append, names_emitField, ih]; rfl

end Walk

mutual

theorem namespaces_emitField {autoSubfields : Bool} {base : String} {segments : List String}
    (hbase : segments ≠ [] → base = toPascalCase (joined segments)) (field : ResolvedField) :
    (emitField (plain autoSubfields) base segments field).namespaces =
      (fieldContainers segments field).map (namespaceOf autoSubfields) := by
  obtain ⟨name, mapping, nullable, array, children⟩ := field
  have hchild := @childIdent_plain autoSubfields base segments name.name hbase
  have hinner := @namespaces_emitLevel autoSubfields
    (toPascalCase (joined (segments ++ [name.name]))) (segments ++ [name.name]) (fun _ => rfl)
    children
  have hthis : (emitLevel (plain autoSubfields) (toPascalCase (joined (segments ++ [name.name])))
        (segments ++ [name.name]) children).namespaces ++
      [⟨segments ++ [name.name], toPascalCase (joined (segments ++ [name.name])),
        (emitLevel (plain autoSubfields) (toPascalCase (joined (segments ++ [name.name])))
          (segments ++ [name.name]) children).handles⟩] =
      (containers (segments ++ [name.name]) children ++
        [(segments ++ [name.name], children)]).map (namespaceOf autoSubfields) := by
    rw [hinner, List.map_append]
    rfl
  rw [emitField, fieldContainers]
  simp only [hchild]
  split
  · next hnested =>
    rw [if_pos (by simp [isContainer, hnested])]
    exact hthis
  · next mappingType hne =>
    split
    · next hobject =>
      rw [if_pos (by simp [isContainer, hobject])]
      exact hthis
    · next hobject =>
      rw [if_neg]
      · rfl
      · simp only [isContainer, Bool.or_eq_true, decide_eq_true_eq]
        rintro (h | h)
        · exact hne h
        · exact hobject (by simpa [and_assoc] using h)

theorem namespaces_emitLevel {autoSubfields : Bool} {base : String} {segments : List String}
    (hbase : segments ≠ [] → base = toPascalCase (joined segments))
    (level : List ResolvedField) :
    (emitLevel (plain autoSubfields) base segments level).namespaces =
      (containers segments level).map (namespaceOf autoSubfields) := by
  match level with
  | [] => rfl
  | field :: level =>
    rw [emitLevel, containers, List.map_append, namespaces_emitField hbase field,
      namespaces_emitLevel hbase level]

end

/-- No two container levels share a type name, nor two fields of one level a function name. -/
def Emitted.Distinct (emitted : Emitted) : Prop :=
  (∀ a ∈ emitted.namespaces, ∀ b ∈ emitted.namespaces, a.path ≠ b.path → a.ident ≠ b.ident) ∧
    ∀ handles ∈ emitted.handles :: emitted.namespaces.map Namespace.handles,
      ∀ a ∈ handles, ∀ b ∈ handles, a.field ≠ b.field → a.name ≠ b.name

/-- No two container paths, nor two fields of one level, have the same words. -/
def Separate (level : List ResolvedField) : Prop :=
  (∀ p ∈ (containers [] level).map Prod.fst, ∀ q ∈ (containers [] level).map Prod.fst,
    p ≠ q → ¬ SamePascal (joined p) (joined q)) ∧
  ∀ fields ∈ level :: (containers [] level).map Prod.snd, ∀ a ∈ fields, ∀ b ∈ fields,
    a.name ≠ b.name → ¬ SameSnake a.name.name b.name.name

/-- The functions of a level differ exactly where its fields differ in their words. -/
theorem names_distinct_iff {autoSubfields : Bool} {base : String} {segments : List String}
    {level : List ResolvedField} :
    (∀ a ∈ (emitLevel (plain autoSubfields) base segments level).handles,
      ∀ b ∈ (emitLevel (plain autoSubfields) base segments level).handles,
        a.field ≠ b.field → a.name ≠ b.name) ↔
      ∀ a ∈ level, ∀ b ∈ level, a.name ≠ b.name → ¬ SameSnake a.name.name b.name.name := by
  have hnames := @names_emitLevel autoSubfields base segments level
  generalize (emitLevel (plain autoSubfields) base segments level).handles = handles at hnames
  have hpairs : (∀ a ∈ handles, ∀ b ∈ handles, a.field ≠ b.field → a.name ≠ b.name) ↔
      ∀ a ∈ handles.map fun fn => (fn.field, fn.name),
        ∀ b ∈ handles.map fun fn => (fn.field, fn.name), a.1 ≠ b.1 → a.2 ≠ b.2 := by
    simp only [List.forall_mem_map]
  rw [hpairs, hnames]
  simp only [List.forall_mem_map, sameSnake_iff, ne_eq]

/-- The generated names differ exactly where the words do: of the paths of two containers, and
of two fields of one level. -/
theorem emitLevel_distinct_iff (autoSubfields : Bool) (root : String)
    (level : List ResolvedField) :
    (emitLevel (plain autoSubfields) root [] level).Distinct ↔ Separate level := by
  have hnamespaces := @namespaces_emitLevel autoSubfields root [] (fun h => absurd rfl h) level
  rw [Emitted.Distinct, Separate, hnamespaces]
  simp only [List.forall_mem_cons, List.forall_mem_map, names_distinct_iff, namespaceOf,
    samePascal_iff, ne_eq]

def sampleField (name : String) (mappingType : MappingType) (children : List ResolvedField) :
    ResolvedField :=
  ⟨⟨name⟩, ⟨mappingType, [], none, false, none⟩, false, false, children⟩

def idField : ResolvedField := sampleField "id" .long []

/-- Orders with their items, and an array of items of orders. -/
def ordersAndItems : List ResolvedField :=
  [sampleField "orders" .nested [sampleField "items" .nested [idField]],
    sampleField "ordersItems" .nested [idField]]

/-- Both arrays of items are to be called the same. -/
theorem not_distinct_ordersAndItems :
    ¬ (emitLevel (plain true) "Shop" [] ordersAndItems).Distinct := by
  rintro ⟨h, -⟩
  have hnamespaces := @namespaces_emitLevel true "Shop" [] (fun h => absurd rfl h) ordersAndItems
  rw [hnamespaces] at h
  simp only [List.forall_mem_map] at h
  have hitems : (["orders", "items"], [idField]) ∈ containers [] ordersAndItems :=
    List.mem_cons_self
  have hflat : (["ordersItems"], [idField]) ∈ containers [] ordersAndItems :=
    List.mem_cons_of_mem _ (List.mem_cons_of_mem _ List.mem_cons_self)
  exact h _ hitems _ hflat (by simp [namespaceOf]) (by decide)

end Emit

end Flusso.Sdk
