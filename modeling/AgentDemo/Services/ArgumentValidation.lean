import AgentDemo.Environment
import AgentDemo.Library.JsonSchema
import Mathlib.Data.List.Sort
import Mathlib.Data.String.Basic

/-! `_validate_arguments`: the checks in front of the validator of JSON Schema. -/
namespace AgentDemo
open JsonSchema

/-- The parameter schema of a manifest, a dictionary. -/
structure ParameterSchema where
  type : Option TypeKeyword
  required : List String
  properties : List (String × Schema)
  patternProperties : List (String × Schema)
  additionalProperties : Option Schema
  format : Option String

def ParameterSchema.schema (p : ParameterSchema) : Schema :=
  .obj p.type p.required p.properties p.patternProperties p.additionalProperties p.format

abbrev Arguments := List (String × Value)

/-- `UUID(value)` succeeds, and `f"{names}"` for a list of names. -/
structure ArgumentReader where
  parsesUuid : String → Bool
  reprNames : List String → String

/-- The first error that the validator reports: its path, and the keyword that failed. -/
abbrev SchemaValidator := Schema → Value → Option (List String × String)

def typeName : SchemaType → String
  | .null => "null"
  | .boolean => "boolean"
  | .integer => "integer"
  | .number => "number"
  | .string => "string"
  | .array => "array"
  | .object => "object"

def typeLabel : TypeKeyword → String
  | .one t => typeName t
  | .many ts => " or ".intercalate (ts.map typeName)

/-- `_matches_schema_type` for one type. -/
def matchesType (value : Value) : SchemaType → Bool
  | .string => match value with
    | .str _ => true
    | _ => false
  | .integer => match value with
    | .int _ => true
    | _ => false
  | .number => match value with
    | .int _ | .float _ => true
    | _ => false
  | .boolean => match value with
    | .bool _ => true
    | _ => false
  | .object => match value with
    | .obj _ => true
    | _ => false
  | .array => match value with
    | .arr _ => true
    | _ => false
  | .null => match value with
    | .null => true
    | _ => false

def matchesSchemaType (value : Value) : TypeKeyword → Bool
  | .one t => matchesType value t
  | .many ts => ts.any (matchesType value)

def matchesFormat (reader : ArgumentReader) (value : Value) (format : String) : Bool :=
  match value with
  | .str s =>
    if format = "path" then strip s ≠ "" && decide (Char.ofNat 0 ∉ s.toList)
    else if format = "uuid" then reader.parsesUuid s
    else true
  | _ => true

/-- `properties.get(name)`. -/
def property? (properties : List (String × Schema)) (name : String) : Option Schema :=
  (properties.find? (·.1 = name)).map (·.2)

def argumentError (reader : ArgumentReader) (properties : List (String × Schema))
    (argument : String × Value) : Option String :=
  match property? properties argument.1 with
  | some (.obj type _ _ _ _ format) =>
    match type.filter fun t => !matchesSchemaType argument.2 t with
    | some t => some (argument.1 ++ " must be " ++ typeLabel t)
    | none =>
      (format.filter fun f => !matchesFormat reader argument.2 f).map fun f =>
        argument.1 ++ " must match format " ++ f
  | _ => none

/-- `additionalProperties is False`. -/
def forbidsAdditional : Option Schema → Bool
  | some (.bool false) => true
  | _ => false

def missingArguments (p : ParameterSchema) (arguments : Arguments) : List String :=
  p.required.filter fun name => decide (name ∉ arguments.map (·.1))

def unknownArguments (p : ParameterSchema) (arguments : Arguments) : List String :=
  if forbidsAdditional p.additionalProperties then
    ((arguments.map (·.1)).filter fun name => decide (name ∉ p.properties.map (·.1))).insertionSort
      (· ≤ ·)
  else []

/-- `validate_tool_schema` for a schema that is valid and without unresolved references. -/
def validateToolSchema (validator : SchemaValidator) (schema : Schema) (value : Value)
    (label : String) : Except HttpException Unit :=
  match validator schema value with
  | none => .ok ()
  | some (path, keyword) =>
    let path := ".".intercalate path
    .error ⟨422, label ++ " at " ++ (if path = "" then "$" else path) ++ " failed " ++ keyword ++
      " validation"⟩

def validateArguments (reader : ArgumentReader) (validator : SchemaValidator) (p : ParameterSchema)
    (arguments : Arguments) : Except HttpException Unit :=
  if p.type.getD (.one .object) ≠ .one .object then
    .error ⟨500, "Tool parameter schema must be an object"⟩
  else
    let missing := missingArguments p arguments
    let unknown := unknownArguments p arguments
    let errors := arguments.filterMap (argumentError reader p.properties)
    if missing ≠ [] then .error ⟨422, "Missing required arguments: " ++ reader.reprNames missing⟩
    else if unknown ≠ [] then .error ⟨422, "Unknown arguments: " ++ reader.reprNames unknown⟩
    else if errors ≠ [] then .error ⟨422, "; ".intercalate errors⟩
    else validateToolSchema validator p.schema (.obj arguments) "Tool arguments"

/-- What the checks in front of the validator reject on their own. -/
inductive Overlooked (reader : ArgumentReader) (p : ParameterSchema) (arguments : Arguments) :
    Prop where
  | listedType (ts : List SchemaType) (h : p.type = some (.many ts))
  | patternName (name : String) (hclosed : forbidsAdditional p.additionalProperties = true)
      (hname : name ∈ arguments.map (·.1)) (hunknown : name ∉ p.properties.map (·.1))
  | integralFloat (name : String) (q : ℚ) (t : TypeKeyword) (required : List String)
      (properties patternProperties : List (String × Schema)) (additional : Option Schema)
      (format : Option String) (hname : (name, .float q) ∈ arguments)
      (hproperty : property? p.properties name =
        some (.obj (some t) required properties patternProperties additional format))
      (hq : q.isInt = true) (htype : matchesSchemaType (.float q) t = false)
  | format (name : String) (value : Value) (f : String) (type : Option TypeKeyword)
      (required : List String) (properties patternProperties : List (String × Schema))
      (additional : Option Schema) (hname : (name, value) ∈ arguments)
      (hproperty : property? p.properties name =
        some (.obj type required properties patternProperties additional (some f)))
      (hformat : matchesFormat reader value f = false)

/-- The checks know the types of the standard, but for floats without a fraction. -/
theorem matchesType_of_admits {value : Value} {t : SchemaType} (h : t.admits value = true)
    (hfloat : ∀ q, value ≠ .float q) : matchesType value t = true := by
  cases t <;> cases value <;> simp_all [SchemaType.admits, matchesType]

theorem matchesSchemaType_of_admits {value : Value} {t : TypeKeyword} (h : t.admits value = true)
    (hfloat : ∀ q, value ≠ .float q) : matchesSchemaType value t = true := by
  cases t with
  | one t => exact matchesType_of_admits h hfloat
  | many ts =>
    obtain ⟨t, ht, hadmits⟩ := List.any_eq_true.mp h
    exact List.any_eq_true.mpr ⟨t, ht, matchesType_of_admits hadmits hfloat⟩

theorem mem_of_property? {properties : List (String × Schema)} {name : String} {schema : Schema}
    (h : property? properties name = some schema) : (name, schema) ∈ properties := by
  obtain ⟨⟨name', schema'⟩, hfind, rfl⟩ := Option.map_eq_some_iff.mp h
  have hname := List.find?_some hfind
  simp only [decide_eq_true_eq] at hname
  exact hname ▸ List.mem_of_find?_eq_some hfind

/-- A float that the standard admits and the checks do not has no fraction. -/
theorem isInt_of_admits {q : ℚ} {t : TypeKeyword} (h : t.admits (.float q) = true)
    (hmatches : matchesSchemaType (.float q) t = false) : q.isInt = true := by
  have hone : ∀ t : SchemaType, t.admits (.float q) = true → matchesType (.float q) t = false →
      q.isInt = true := by
    intro t hadmits hnot
    cases t <;> simp_all [SchemaType.admits, matchesType]
  cases t with
  | one t => exact hone t h hmatches
  | many ts =>
    obtain ⟨t, ht, hadmits⟩ := List.any_eq_true.mp h
    exact hone t hadmits (by simpa using List.any_eq_false.mp hmatches t ht)

theorem argumentError_eq_none_iff {reader : ArgumentReader} {properties : List (String × Schema)}
    {name : String} {value : Value} :
    argumentError reader properties (name, value) = none ↔
      ∀ type required inner patternProperties additional format,
        property? properties name =
          some (.obj type required inner patternProperties additional format) →
        (∀ t, type = some t → matchesSchemaType value t = true) ∧
          ∀ f, format = some f → matchesFormat reader value f = true := by
  unfold argumentError
  cases hproperty : property? properties name with
  | none => simp
  | some schema =>
    cases schema with
    | bool b => simp
    | obj type required inner patternProperties additional format =>
      simp only [Option.some.injEq, Schema.obj.injEq]
      constructor
      · intro h type' required' inner' patterns' additional' format' heq
        obtain ⟨rfl, -, -, -, -, rfl⟩ := heq
        split at h
        · cases h
        · rename_i htype
          have hformat := Option.map_eq_none_iff.mp h
          refine ⟨fun t ht => ?_, fun f hf => ?_⟩
          · simpa [ht] using htype
          · simpa [hf] using hformat
      · intro h
        obtain ⟨htype, hformat⟩ := h type required inner patternProperties additional format
          ⟨rfl, rfl, rfl, rfl, rfl, rfl⟩
        have hnone : (type.filter fun t => !matchesSchemaType value t) = none := by
          cases type with
          | none => rfl
          | some t => simp [htype t rfl]
        rw [hnone]
        cases format with
        | none => rfl
        | some f => simp [hformat f rfl]

theorem validateArguments_eq_ok_iff {reader : ArgumentReader} {validator : SchemaValidator}
    {p : ParameterSchema} {arguments : Arguments} :
    validateArguments reader validator p arguments = .ok () ↔
      p.type.getD (.one .object) = .one .object ∧ missingArguments p arguments = [] ∧
        unknownArguments p arguments = [] ∧
        arguments.filterMap (argumentError reader p.properties) = [] ∧
        validator p.schema (.obj arguments) = none := by
  unfold validateArguments
  dsimp only
  constructor
  · intro h
    split_ifs at h with htype hmissing hunknown herrors
    refine ⟨not_not.mp htype, not_not.mp hmissing, not_not.mp hunknown, not_not.mp herrors, ?_⟩
    unfold validateToolSchema at h
    cases hresult : validator p.schema (.obj arguments) with
    | none => rfl
    | some failure =>
      rw [hresult] at h
      cases h
  · rintro ⟨htype, hmissing, hunknown, herrors, hresult⟩
    rw [if_neg (not_not.mpr htype), if_neg (not_not.mpr hmissing), if_neg (not_not.mpr hunknown),
      if_neg (not_not.mpr herrors), validateToolSchema, hresult]

section agreement

variable {reader : ArgumentReader} {standard : Reader} {p : ParameterSchema} {arguments : Arguments}

/-- What the standard says of an object against the schema of a manifest. -/
theorem valid_parts (h : p.schema.valid standard (.obj arguments) = true) :
    (∀ t, p.type = some t → t.admits (.obj arguments) = true) ∧
      (∀ name ∈ p.required, name ∈ arguments.map (·.1)) ∧
      validProperties standard p.properties arguments = true := by
  refine ⟨fun t ht => Schema.admits_of_valid h ht, ?_⟩
  simp only [ParameterSchema.schema, Schema.valid, Bool.and_eq_true, List.all_eq_true,
    decide_eq_true_eq] at h
  exact ⟨h.2.1.1.1, h.2.1.1.2⟩

theorem type_of_valid (h : p.schema.valid standard (.obj arguments) = true)
    (hnot : ¬ Overlooked reader p arguments) : p.type.getD (.one .object) = .one .object := by
  cases htype : p.type with
  | none => rfl
  | some t =>
    have hadmits := (valid_parts h).1 t htype
    cases t with
    | one t => cases t <;> simp_all [TypeKeyword.admits, SchemaType.admits]
    | many ts => exact absurd (.listedType ts htype) hnot

theorem unknownArguments_eq_nil (hnot : ¬ Overlooked reader p arguments) :
    unknownArguments p arguments = [] := by
  unfold unknownArguments
  split_ifs with hclosed
  · rw [← List.length_eq_zero_iff, List.length_insertionSort, List.length_eq_zero_iff,
      List.filter_eq_nil_iff]
    intro name hname hunknown
    exact hnot (.patternName name hclosed hname (by simpa using hunknown))
  · rfl

theorem argumentErrors_eq_nil (h : p.schema.valid standard (.obj arguments) = true)
    (hnot : ¬ Overlooked reader p arguments) :
    arguments.filterMap (argumentError reader p.properties) = [] := by
  rw [List.filterMap_eq_nil_iff]
  rintro ⟨name, value⟩ hmem
  rw [argumentError_eq_none_iff]
  intro type required inner patterns additional format hproperty
  have hvalid := valid_of_validProperties (valid_parts h).2.2 (mem_of_property? hproperty) hmem
  constructor
  · rintro t rfl
    have hadmits := Schema.admits_of_valid hvalid rfl
    by_cases hfloat : ∃ q, value = .float q
    · obtain ⟨q, rfl⟩ := hfloat
      by_contra hmatches
      have hmatches := Bool.eq_false_of_not_eq_true hmatches
      exact hnot (.integralFloat name q t required inner patterns additional format hmem hproperty
        (isInt_of_admits hadmits hmatches) hmatches)
    · exact matchesSchemaType_of_admits hadmits fun q hq => hfloat ⟨q, hq⟩
  · rintro f rfl
    by_contra hformat
    exact hnot (.format name value f type required inner patterns additional hmem hproperty
      (Bool.eq_false_of_not_eq_true hformat))

/-- Each kind of arguments that is overlooked is rejected. -/
theorem not_ok_of_overlooked {validator : SchemaValidator} (h : Overlooked reader p arguments) :
    validateArguments reader validator p arguments ≠ .ok () := by
  intro hok
  obtain ⟨htype, -, hunknown, herrors, -⟩ := validateArguments_eq_ok_iff.mp hok
  rw [List.filterMap_eq_nil_iff] at herrors
  cases h with
  | listedType ts h => simp [h] at htype
  | patternName name hclosed hname hmissing =>
    have hmem : name ∈ unknownArguments p arguments := by
      rw [unknownArguments, if_pos hclosed, List.mem_insertionSort, List.mem_filter]
      exact ⟨hname, by simpa using hmissing⟩
    rw [hunknown] at hmem
    cases hmem
  | integralFloat name q t required inner patterns additional format hname hproperty hq hmatches =>
    have hnone := argumentError_eq_none_iff.mp (herrors _ hname) _ _ _ _ _ _ hproperty
    rw [hnone.1 t rfl] at hmatches
    cases hmatches
  | format name value f type required inner patterns additional hname hproperty hformat =>
    have hnone := argumentError_eq_none_iff.mp (herrors _ hname) _ _ _ _ _ _ hproperty
    rw [hnone.2 f rfl] at hformat
    cases hformat

end agreement

/-- The code accepts what is valid against the schema, and nothing else, unless valid arguments are
of a kind that the checks in front of the validator overlook. -/
theorem validateArguments_agrees_iff (reader : ArgumentReader) (standard : Reader)
    (validator : SchemaValidator)
    (hvalidator : ∀ schema value, validator schema value = none ↔
      schema.valid standard value = true)
    (p : ParameterSchema) (arguments : Arguments) :
    (validateArguments reader validator p arguments = .ok () ↔
        p.schema.valid standard (.obj arguments) = true) ↔
      ¬ (p.schema.valid standard (.obj arguments) = true ∧ Overlooked reader p arguments) := by
  constructor
  · rintro hagree ⟨hvalid, hoverlooked⟩
    exact not_ok_of_overlooked hoverlooked (hagree.mpr hvalid)
  · intro hnot
    constructor
    · intro hok
      exact (hvalidator _ _).mp (validateArguments_eq_ok_iff.mp hok).2.2.2.2
    · intro hvalid
      have hoverlooked : ¬ Overlooked reader p arguments := fun h => hnot ⟨hvalid, h⟩
      have hmissing : missingArguments p arguments = [] := by
        rw [missingArguments, List.filter_eq_nil_iff]
        intro name hname hmissing
        exact absurd ((valid_parts hvalid).2.1 name hname) (by simpa using hmissing)
      exact validateArguments_eq_ok_iff.mpr ⟨type_of_valid hvalid hoverlooked, hmissing,
        unknownArguments_eq_nil hoverlooked, argumentErrors_eq_nil hvalid hoverlooked,
        (hvalidator _ _).mpr hvalid⟩

/-- A validator that implements the standard. -/
def standardValidator (standard : Reader) : SchemaValidator := fun schema value =>
  if schema.valid standard value then none else some ([], "type")

theorem standardValidator_eq_none_iff (standard : Reader) (schema : Schema) (value : Value) :
    standardValidator standard schema value = none ↔ schema.valid standard value = true := by
  unfold standardValidator
  split_ifs with h <;> simp [h]

/-- Patterns that are prefixes, and no formats. -/
def prefixReader : Reader := ⟨fun pattern name => pattern.toList.isPrefixOf name.toList,
  fun _ _ => true⟩

def sampleArgumentReader : ArgumentReader := ⟨fun _ => false, fun names => ", ".intercalate names⟩

/-- Names that start with `x-` are allowed, all others are not. -/
def patternSchema : ParameterSchema where
  type := some (.one .object)
  required := []
  properties := []
  patternProperties := [("x-", .obj (some (.one .integer)) [] [] [] none none)]
  additionalProperties := some (.bool false)
  format := none

/-- An integer and nothing else. -/
def countSchema : ParameterSchema where
  type := some (.one .object)
  required := ["count"]
  properties := [("count", .obj (some (.one .integer)) [] [] [] none none)]
  patternProperties := []
  additionalProperties := some (.bool false)
  format := none

theorem not_overlooked_count :
    ¬ Overlooked sampleArgumentReader countSchema [("count", .int 3)] := by
  intro h
  cases h with
  | listedType ts h => cases h
  | patternName name _ hname hunknown =>
    obtain rfl : name = "count" := List.mem_singleton.mp hname
    exact hunknown (by decide)
  | integralFloat name q _ _ _ _ _ _ hname => simp at hname
  | format name value f _ _ _ _ _ hname hproperty =>
    simp at hname
    obtain ⟨rfl, rfl⟩ := hname
    simp [countSchema, property?] at hproperty

/-- `{"count": 3}` is accepted by both, `{"count": 3.0}` by the standard alone. -/
theorem validateArguments_agrees_iff_sample :
    validateArguments sampleArgumentReader (standardValidator prefixReader) countSchema
      [("count", .int 3)] = .ok () ∧
    ¬ (validateArguments sampleArgumentReader (standardValidator prefixReader) countSchema
        [("count", .float 3)] = .ok () ↔
      countSchema.schema.valid prefixReader (.obj [("count", .float 3)]) = true) := by
  have agrees := validateArguments_agrees_iff sampleArgumentReader prefixReader _
    (standardValidator_eq_none_iff prefixReader) countSchema
  constructor
  · exact ((agrees [("count", .int 3)]).mpr fun h => not_overlooked_count h.2).mpr (by decide)
  · intro hagree
    exact (agrees [("count", .float 3)]).mp hagree ⟨by decide,
      .integralFloat "count" 3 (.one .integer) [] [] [] none none (by simp) rfl rfl rfl⟩

/-- `{"x-a": 1}` is valid and rejected as an unknown argument. -/
theorem validateArguments_rejects_pattern :
    ¬ ∀ (reader : ArgumentReader) (standard : Reader) (validator : SchemaValidator),
      (∀ schema value, validator schema value = none ↔ schema.valid standard value = true) →
      ∀ (p : ParameterSchema) (arguments : Arguments),
        validateArguments reader validator p arguments = .ok () ↔
          p.schema.valid standard (.obj arguments) = true := by
  intro hclaim
  have hagree :=
    hclaim sampleArgumentReader prefixReader _ (standardValidator_eq_none_iff prefixReader)
    patternSchema [("x-a", .int 1)]
  have hvalid : patternSchema.schema.valid prefixReader (.obj [("x-a", .int 1)]) = true := by decide
  have hok := validateArguments_eq_ok_iff.mp (hagree.mpr hvalid)
  have hunknown : unknownArguments patternSchema [("x-a", .int 1)] = ["x-a"] := by decide
  rw [hunknown] at hok
  exact absurd hok.2.2.1 (by decide)

end AgentDemo
