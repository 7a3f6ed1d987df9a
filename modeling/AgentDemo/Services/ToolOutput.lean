import AgentDemo.Values
import Mathlib.Data.Int.Order.Basic

/-! What `ToolExecutor` keeps of the value that a tool returns, within a budget of characters. -/
namespace AgentDemo

/-- A key of a dictionary: a text, or another object by what `str` makes of it; `none` is an
exception. -/
inductive PyKey where
  | text (s : String)
  | other (printed : Option String)
  deriving DecidableEq

/-- A value that a tool returns. A number, or an object that is none of the others, is known by
what `str` makes of it; `none` is an exception. -/
inductive PyValue where
  | null
  | bool (b : Bool)
  | str (s : String)
  | other (printed : Option String)
  | dict (fields : List (PyKey × PyValue))
  | list (items : List PyValue)
  | tuple (items : List PyValue)
  deriving Inhabited

/-- `str(key)`. -/
def PyKey.printed : PyKey → Option String
  | .text s => some s
  | .other printed => printed

/-- `dict.get`, for a key that is a text. -/
def getField (fields : List (PyKey × PyValue)) (key : String) : Option PyValue :=
  (fields.find? fun field => field.1 = .text key).map Prod.snd

/-- `result[key] = value`. -/
def setField (key : String) (value : PyValue) : List (PyKey × PyValue) → List (PyKey × PyValue)
  | [] => [(.text key, value)]
  | field :: rest =>
    if field.1 = .text key then (field.1, value) :: rest else field :: setField key value rest

/-- `value is True`. -/
def isTrue : Option PyValue → Bool
  | some (.bool true) => true
  | _ => false

def isMcpErrorOutput : PyValue → Bool
  | .dict fields =>
    (match getField fields "raw" with
      | some (.dict raw) => isTrue (getField raw "isError")
      | _ => false) || isTrue (getField fields "isError")
  | _ => false

/-- The two variables that the calls of `bounded` share. -/
structure OutputBudget where
  remaining : ℤ
  truncated : Bool

namespace OutputBudget

def charge (budget : OutputBudget) (n : ℤ) : OutputBudget :=
  { budget with remaining := budget.remaining - n }

def cut (budget : OutputBudget) : OutputBudget := { budget with truncated := true }

end OutputBudget

/-- The head of `bounded`: nothing is left, or 4 characters are taken off. -/
def enterValue (depth : ℕ) (budget : OutputBudget)
    (visit : OutputBudget → Option (PyValue × OutputBudget)) : Option (PyValue × OutputBudget) :=
  if budget.remaining < 16 ∨ 16 < depth then some (.null, budget.cut) else visit (budget.charge 4)

def boundedText (s : String) (budget : OutputBudget) : PyValue × OutputBudget :=
  let result := takeText (max 0 budget.remaining).toNat s
  (.str result, { remaining := budget.remaining - result.length
                  truncated := budget.truncated || decide (result.length < s.length) })

/-- A value that is neither a text nor a container is kept and charged afterwards. -/
def boundedScalar (value : PyValue) (printed : Option String) (budget : OutputBudget) :
    Option (PyValue × OutputBudget) :=
  printed.map fun text => (value, budget.charge text.length)

mutual

def bounded : PyValue → ℕ → OutputBudget → Option (PyValue × OutputBudget)
  | .null, depth, budget => enterValue depth budget (boundedScalar .null (some "None"))
  | .bool b, depth, budget =>
    enterValue depth budget (boundedScalar (.bool b) (some (if b then "True" else "False")))
  | .other printed, depth, budget =>
    enterValue depth budget (boundedScalar (.other printed) printed)
  | .str s, depth, budget => enterValue depth budget fun budget => some (boundedText s budget)
  | .dict fields, depth, budget => enterValue depth budget fun budget =>
    (boundedFields fields (depth + 1) budget).map fun (result, budget) => (.dict result, budget)
  | .list items, depth, budget => enterValue depth budget fun budget =>
    (boundedItems items (depth + 1) budget).map fun (result, budget) => (.list result, budget)
  | .tuple items, depth, budget => enterValue depth budget fun budget =>
    (boundedItems items (depth + 1) budget).map fun (result, budget) => (.list result, budget)

def boundedFields : List (PyKey × PyValue) → ℕ → OutputBudget →
    Option (List (PyKey × PyValue) × OutputBudget)
  | [], _, budget => some ([], budget)
  | (key, item) :: rest, depth, budget =>
    match key.printed with
    | none => none
    | some text =>
      if budget.remaining < text.length + 16 then some ([], budget.cut)
      else
        match bounded item depth (budget.charge (text.length + 4)) with
        | none => none
        | some (item, budget) =>
          (boundedFields rest depth budget).map fun (fields, budget) =>
            ((key, item) :: fields, budget)

def boundedItems : List PyValue → ℕ → OutputBudget → Option (List PyValue × OutputBudget)
  | [], _, budget => some ([], budget)
  | item :: rest, depth, budget =>
    if budget.remaining < 16 then some ([], budget.cut)
    else
      match bounded item depth budget with
      | none => none
      | some (item, budget) =>
        (boundedItems rest depth budget).map fun (items, budget) => (item :: items, budget)

end

/-- `text[:n]`; a negative `n` counts from the end. -/
def sliceText (n : ℤ) (s : String) : String :=
  takeText (if 0 ≤ n then n.toNat else (s.length + n).toNat) s

def markTruncated (output result : PyValue) : PyValue :=
  let fields := match result with
    | .dict fields => fields
    | result => [(.text "content", result)]
  let fields := setField "_truncated" (.bool true) fields
  .dict (if isMcpErrorOutput output then setField "isError" (.bool true) fields else fields)

/-- `_limit_output`, with the limit that `_output_limit` gives; `none` where `str` raises. -/
def limitOutput (maxChars : ℤ) : PyValue → Option PyValue
  | .str s => some (.str (sliceText maxChars s))
  | output => (bounded output 0 ⟨maxChars, false⟩).map fun (result, budget) =>
    if budget.truncated then markTruncated output result else result

/-- `_output_limit`: the `max_chars` of the manifest, if it is a positive integer, within the
limit of the settings. -/
def outputLimit (maxToolOutputChars : ℤ) (policyLimit : Option ℤ) : ℤ :=
  match policyLimit with
  | some limit => if 0 < limit then min limit maxToolOutputChars else maxToolOutputChars
  | none => maxToolOutputChars

mutual

/-- The value with lists in place of its tuples. -/
def PyValue.listed : PyValue → PyValue
  | .dict fields => .dict (listedFields fields)
  | .list items | .tuple items => .list (listedItems items)
  | .null => .null
  | .bool b => .bool b
  | .str s => .str s
  | .other printed => .other printed

def listedFields : List (PyKey × PyValue) → List (PyKey × PyValue)
  | [] => []
  | (key, item) :: rest => (key, item.listed) :: listedFields rest

def listedItems : List PyValue → List PyValue
  | [] => []
  | item :: rest => item.listed :: listedItems rest

end

end AgentDemo
