import Mathlib.Data.Rat.Defs

/-! JSON values as a Python program reads them, and validity against JSON Schema 2020-12 for the
keywords `type`, `required`, `properties`, `patternProperties`, `additionalProperties`, `format`. -/
namespace JsonSchema

/-- Integers and floats are different values, also where they are equal. -/
inductive Value where
  | null
  | bool (b : Bool)
  | int (n : ℤ)
  | float (q : ℚ)
  | str (s : String)
  | arr (items : List Value)
  | obj (fields : List (String × Value))
  deriving Inhabited

inductive SchemaType where
  | null
  | boolean
  | integer
  | number
  | string
  | array
  | object
  deriving DecidableEq, Repr

/-- The two forms of `type`. -/
inductive TypeKeyword where
  | one (t : SchemaType)
  | many (ts : List SchemaType)
  deriving DecidableEq

/-- A keyword that is absent is empty or `none`. -/
inductive Schema where
  | bool (b : Bool)
  | obj (type : Option TypeKeyword) (required : List String) (properties : List (String × Schema))
      (patternProperties : List (String × Schema)) (additionalProperties : Option Schema)
      (format : Option String)
  deriving Inhabited

/-- A value has a type of the standard: a float without a fraction is an integer. -/
def SchemaType.admits : SchemaType → Value → Bool
  | .null, .null => true
  | .boolean, .bool _ => true
  | .integer, .int _ => true
  | .integer, .float q => q.isInt
  | .number, .int _ => true
  | .number, .float _ => true
  | .string, .str _ => true
  | .array, .arr _ => true
  | .object, .obj _ => true
  | _, _ => false

def TypeKeyword.admits : TypeKeyword → Value → Bool
  | .one t, value => t.admits value
  | .many ts, value => ts.any fun t => t.admits value

/-- `re.search` for patterns, and the format checks of a validator. -/
structure Reader where
  search : String → String → Bool
  conforms : String → Value → Bool

mutual

def Schema.valid (reader : Reader) : Schema → Value → Bool
  | .bool b, _ => b
  | .obj type required properties patternProperties additionalProperties format, value =>
    type.all (fun t => t.admits value) && format.all (fun f => reader.conforms f value) &&
      match value with
      | .obj fields =>
        required.all (fun name => decide (name ∈ fields.map (·.1))) &&
          validProperties reader properties fields &&
          validPatterns reader patternProperties fields &&
          validAdditional reader additionalProperties (fields.filter fun field =>
            decide (field.1 ∉ properties.map (·.1)) &&
              patternProperties.all fun pattern => !reader.search pattern.1 field.1)
      | _ => true

def validProperties (reader : Reader) :
    List (String × Schema) → List (String × Value) → Bool
  | [], _ => true
  | (name, schema) :: rest, fields =>
    fields.all (fun field => decide (field.1 ≠ name) || schema.valid reader field.2) &&
      validProperties reader rest fields

def validPatterns (reader : Reader) :
    List (String × Schema) → List (String × Value) → Bool
  | [], _ => true
  | (pattern, schema) :: rest, fields =>
    fields.all (fun field => !reader.search pattern field.1 || schema.valid reader field.2) &&
      validPatterns reader rest fields

def validAdditional (reader : Reader) : Option Schema → List (String × Value) → Bool
  | none, _ => true
  | some schema, fields => fields.all fun field => schema.valid reader field.2

end

/-- What a valid object says of a member with a property of its own. -/
theorem valid_of_validProperties {reader : Reader} {properties : List (String × Schema)}
    {fields : List (String × Value)} (h : validProperties reader properties fields = true)
    {name : String} {schema : Schema} (hschema : (name, schema) ∈ properties) {value : Value}
    (hvalue : (name, value) ∈ fields) : schema.valid reader value = true := by
  induction properties with
  | nil => cases hschema
  | cons property rest ih =>
    obtain ⟨name', schema'⟩ := property
    simp only [validProperties, Bool.and_eq_true] at h
    rcases List.mem_cons.mp hschema with heq | hmem
    · cases heq
      simpa using List.all_eq_true.mp h.1 _ hvalue
    · exact ih h.2 hmem

/-- The type keyword of a valid value admits it. -/
theorem Schema.admits_of_valid {reader : Reader} {type : Option TypeKeyword}
    {required : List String}
    {properties patternProperties : List (String × Schema)} {additionalProperties : Option Schema}
    {format : Option String} {value : Value}
    (h : (Schema.obj type required properties patternProperties additionalProperties format).valid
      reader value = true) {t : TypeKeyword} (ht : type = some t) : t.admits value = true := by
  subst ht
  simp only [Schema.valid, Bool.and_eq_true, Option.all_some] at h
  exact h.1.1

end JsonSchema
