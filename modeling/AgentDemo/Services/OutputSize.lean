import AgentDemo.Services.OutputTruncation

/-! How large the output is that `_limit_output` returns: what a value is charged for, and what
escapes the budget. -/
namespace AgentDemo

/-- What `str` makes of a value that is neither a text nor a container. -/
def PyValue.printed : PyValue → Option String
  | .null => some "None"
  | .bool b => some (if b then "True" else "False")
  | .other printed => printed
  | _ => none

def textSize (printed : Option String) : ℕ := (printed.getD "").length

mutual

/-- The nodes of a value and the characters of its texts, keys and printed scalars. -/
def PyValue.size : PyValue → ℕ
  | .null => 1 + 4
  | .bool b => 1 + (if b then 4 else 5)
  | .other printed => 1 + textSize printed
  | .str s => 1 + s.length
  | .dict fields => 1 + fieldsSize fields
  | .list items | .tuple items => 1 + itemsSize items

def fieldsSize : List (PyKey × PyValue) → ℕ
  | [] => 0
  | (key, item) :: rest => textSize key.printed + item.size + fieldsSize rest

def itemsSize : List PyValue → ℕ
  | [] => 0
  | item :: rest => item.size + itemsSize rest

end

/-- The walk goes into a value where 16 characters are left in front of it, below 16 containers at
most. -/
def Enters (depth : ℕ) (before : ℤ) : Prop := 16 ≤ before ∧ depth ≤ 16

instance (depth : ℕ) (before : ℤ) : Decidable (Enters depth before) :=
  inferInstanceAs (Decidable (_ ∧ _))

mutual

/-- What is left behind a value of what is left in front of it, below `depth` containers. A text
takes its characters while there are some, a scalar all of its own. -/
def leftBehind : PyValue → ℕ → ℤ → ℤ
  | .null, depth, before => if Enters depth before then before - (4 + 4) else before
  | .bool b, depth, before =>
    if Enters depth before then before - (4 + (if b then 4 else 5)) else before
  | .other printed, depth, before =>
    if Enters depth before then before - (4 + textSize printed) else before
  | .str s, depth, before =>
    if Enters depth before then before - 4 - min (before - 4) s.length else before
  | .dict fields, depth, before =>
    if Enters depth before then leftBehindFields fields (depth + 1) (before - 4) else before
  | .list items, depth, before | .tuple items, depth, before =>
    if Enters depth before then leftBehindItems items (depth + 1) (before - 4) else before

def leftBehindFields : List (PyKey × PyValue) → ℕ → ℤ → ℤ
  | [], _, before => before
  | (key, item) :: rest, depth, before =>
    if textSize key.printed + 16 ≤ before then
      leftBehindFields rest depth (leftBehind item depth (before - (textSize key.printed + 4)))
    else before

def leftBehindItems : List PyValue → ℕ → ℤ → ℤ
  | [], _, before => before
  | item :: rest, depth, before =>
    if 16 ≤ before then leftBehindItems rest depth (leftBehind item depth before) else before

end

mutual

/-- What a value adds to the output without being charged, as far as what is left in front of it
reaches: an element of a list at depth 17 stays as `None`, an entry of a dictionary there is charged
one character too little. -/
def escapes : PyValue → ℕ → ℤ → ℕ
  | .dict fields, depth, before =>
    if Enters depth before then escapesFields fields (depth + 1) (before - 4) else 0
  | .list items, depth, before | .tuple items, depth, before =>
    if Enters depth before then escapesItems items (depth + 1) (before - 4) else 0
  | _, _, _ => 0

def escapesFields : List (PyKey × PyValue) → ℕ → ℤ → ℕ
  | [], _, _ => 0
  | (key, item) :: rest, depth, before =>
    if textSize key.printed + 16 ≤ before then
      (if 16 < depth then 1 else escapes item depth (before - (textSize key.printed + 4))) +
        escapesFields rest depth (leftBehind item depth (before - (textSize key.printed + 4)))
    else 0

def escapesItems : List PyValue → ℕ → ℤ → ℕ
  | [], _, _ => 0
  | item :: rest, depth, before =>
    if 16 ≤ before then
      (if 16 < depth then 5 else escapes item depth before) +
        escapesItems rest depth (leftBehind item depth before)
    else 0

end

/-- What a walk has done to the budget: the size of its result is charged up to what escapes. -/
structure Metered (size escapes : ℕ) (left before after : ℤ) : Prop where
  size_le : (size : ℤ) ≤ before - after + escapes
  left_eq : after = left

theorem length_takeText_le (n : ℕ) (s : String) :
    (takeText n s).length ≤ n ∧ (takeText n s).length ≤ s.length := by
  simp only [takeText, String.length_ofList, List.length_take, String.length_toList]
  omega

theorem boundedText_metered (s : String) {depth : ℕ} {budget : OutputBudget}
    (h : Enters depth budget.remaining) :
    Metered (boundedText s (budget.charge 4)).1.size 0 (leftBehind (.str s) depth budget.remaining)
      budget.remaining (boundedText s (budget.charge 4)).2.remaining := by
  have hentered := h.1
  have hlength : (takeText (max 0 (budget.remaining - 4)).toNat s).length =
      min (max 0 (budget.remaining - 4)).toNat s.length := by
    simp only [takeText, String.length_ofList, List.length_take, String.length_toList]
  simp only [boundedText, OutputBudget.charge, PyValue.size, leftBehind, if_pos h]
  constructor <;> push_cast <;> omega

theorem boundedScalar_metered {value : PyValue} {printed : Option String} {budget : OutputBudget}
    {r : PyValue × OutputBudget} (hsize : value.size = 1 + textSize printed)
    (h : boundedScalar value printed (budget.charge 4) = some r) :
    Metered r.1.size 0 (budget.remaining - (4 + textSize printed)) budget.remaining
      r.2.remaining := by
  obtain ⟨text, rfl, rfl⟩ := Option.map_eq_some_iff.mp h
  simp only [hsize, textSize, Option.getD_some, OutputBudget.charge]
  constructor <;> push_cast <;> omega

/-- A loop over entries takes nothing from a budget that is used up. -/
theorem boundedFields_exhausted {fields : List (PyKey × PyValue)} {depth : ℕ}
    {budget : OutputBudget} {r : List (PyKey × PyValue) × OutputBudget}
    (h : boundedFields fields depth budget = some r) (hbudget : budget.remaining < 16) :
    r.1 = [] ∧ r.2.remaining = budget.remaining := by
  cases fields with
  | nil =>
    cases h
    exact ⟨rfl, rfl⟩
  | cons field rest =>
    obtain ⟨text, _, ⟨_, rfl⟩ | ⟨hle, _⟩⟩ := boundedFields_cons h
    · exact ⟨rfl, rfl⟩
    · omega

theorem not_enters_iff {depth : ℕ} {before : ℤ} :
    ¬ Enters depth before ↔ before < 16 ∨ 16 < depth := by
  unfold Enters
  omega

theorem bounded_cut {value : PyValue} {depth : ℕ} {budget : OutputBudget}
    {r : PyValue × OutputBudget} (h : bounded value depth budget = some r)
    (hcut : ¬ Enters depth budget.remaining) : r = (.null, budget.cut) := by
  rw [not_enters_iff] at hcut
  cases value <;>
    (unfold bounded enterValue at h; rw [if_pos hcut] at h; exact (Option.some.inj h).symm)

theorem leftBehind_cut {depth : ℕ} {before : ℤ} (hcut : ¬ Enters depth before) (value : PyValue) :
    leftBehind value depth before = before ∧ escapes value depth before = 0 := by
  cases value <;> simp [leftBehind, escapes, hcut]

/-- A loop over entries takes nothing where little is left. -/
theorem leftBehindFields_exhausted {before : ℤ} (h : before < 16) (depth : ℕ)
    (fields : List (PyKey × PyValue)) :
    leftBehindFields fields depth before = before ∧ escapesFields fields depth before = 0 := by
  cases fields with
  | nil => exact ⟨rfl, rfl⟩
  | cons field rest =>
    have hlong : ¬ (textSize field.1.printed : ℤ) + 16 ≤ before := by omega
    simp [leftBehindFields, escapesFields, hlong]

mutual

theorem bounded_metered : ∀ (value : PyValue) {depth : ℕ} {budget : OutputBudget}
    {r : PyValue × OutputBudget}, bounded value depth budget = some r →
      Enters depth budget.remaining → Metered r.1.size (escapes value depth budget.remaining)
        (leftBehind value depth budget.remaining) budget.remaining r.2.remaining
  | .null, depth, budget, r, h, henters => by
    unfold bounded enterValue at h
    rw [if_neg (not_enters_iff.not_right.mp henters)] at h
    have hmetered := boundedScalar_metered rfl h
    simp only [escapes, leftBehind, if_pos henters]
    exact hmetered
  | .bool b, depth, budget, r, h, henters => by
    unfold bounded enterValue at h
    rw [if_neg (not_enters_iff.not_right.mp henters)] at h
    have hmetered := boundedScalar_metered (by cases b <;> rfl) h
    simp only [escapes, leftBehind, if_pos henters]
    cases b <;> exact hmetered
  | .other printed, depth, budget, r, h, henters => by
    unfold bounded enterValue at h
    rw [if_neg (not_enters_iff.not_right.mp henters)] at h
    have hmetered := boundedScalar_metered rfl h
    simp only [escapes, leftBehind, if_pos henters]
    exact hmetered
  | .str s, depth, budget, r, h, henters => by
    unfold bounded enterValue at h
    rw [if_neg (not_enters_iff.not_right.mp henters)] at h
    cases h
    exact boundedText_metered s henters
  | .dict fields, depth, budget, r, h, henters => by
    unfold bounded enterValue at h
    rw [if_neg (not_enters_iff.not_right.mp henters)] at h
    obtain ⟨⟨result, after⟩, hfields, rfl⟩ := Option.map_eq_some_iff.mp h
    obtain ⟨hsize, hleft⟩ := boundedFields_metered fields hfields
    simp only [OutputBudget.charge] at hsize hleft
    simp only [PyValue.size, escapes, leftBehind, if_pos henters]
    constructor <;> push_cast at * <;> omega
  | .list items, depth, budget, r, h, henters
  | .tuple items, depth, budget, r, h, henters => by
    unfold bounded enterValue at h
    rw [if_neg (not_enters_iff.not_right.mp henters)] at h
    obtain ⟨⟨result, after⟩, hitems, rfl⟩ := Option.map_eq_some_iff.mp h
    obtain ⟨hsize, hleft⟩ := boundedItems_metered items hitems
    simp only [OutputBudget.charge] at hsize hleft
    simp only [PyValue.size, escapes, leftBehind, if_pos henters]
    constructor <;> push_cast at * <;> omega

theorem boundedFields_metered : ∀ (fields : List (PyKey × PyValue)) {depth : ℕ}
    {budget : OutputBudget} {r : List (PyKey × PyValue) × OutputBudget},
    boundedFields fields depth budget = some r →
      Metered (fieldsSize r.1) (escapesFields fields depth budget.remaining + 1)
        (leftBehindFields fields depth budget.remaining) budget.remaining r.2.remaining
  | [], depth, budget, r, h => by
    cases h
    simp only [fieldsSize, escapesFields, leftBehindFields]
    constructor <;> omega
  | (key, item) :: rest, depth, budget, r, h => by
    obtain ⟨text, htext, ⟨hlong, rfl⟩ | ⟨hle, first, others, hfirst, hothers, rfl⟩⟩ :=
      boundedFields_cons h
    · have hkey : textSize key.printed = text.length := by rw [htext]; rfl
      simp only [fieldsSize, escapesFields, leftBehindFields, hkey, if_neg (not_le.mpr hlong),
        OutputBudget.cut]
      constructor <;> omega
    · have hkey : textSize key.printed = text.length := by rw [htext]; rfl
      have hrest := boundedFields_metered rest hothers
      simp only [fieldsSize, escapesFields, leftBehindFields, hkey, if_pos hle]
      by_cases henters : Enters depth (budget.charge (text.length + 4)).remaining
      · obtain ⟨hsize, hleft⟩ := bounded_metered item hfirst henters
        obtain ⟨hsize', hleft'⟩ := hrest
        have hdeep : ¬ 16 < depth := not_lt.mpr henters.2
        simp only [OutputBudget.charge] at hsize hleft
        rw [hleft] at hsize' hleft'
        simp only [if_neg hdeep]
        constructor <;> push_cast at * <;> omega
      · have hnull := bounded_cut hfirst henters
        obtain ⟨hsame, hnone⟩ := leftBehind_cut henters item
        subst hnull
        simp only [OutputBudget.cut, OutputBudget.charge] at hrest hsame hnone henters
        simp only [hsame, hnone]
        by_cases hdeep : 16 < depth
        · obtain ⟨hsize, hleft⟩ := hrest
          simp only [PyValue.size, if_pos hdeep]
          constructor <;> push_cast at * <;> omega
        · have hlow : budget.remaining - (text.length + 4) < 16 :=
            (not_enters_iff.mp henters).resolve_right hdeep
          obtain ⟨hnil, hleft⟩ := boundedFields_exhausted hothers hlow
          obtain ⟨hsame, hnone⟩ := leftBehindFields_exhausted hlow depth rest
          simp only [OutputBudget.cut, OutputBudget.charge] at hleft
          simp only [hnil, hleft, hsame, hnone, fieldsSize, PyValue.size, if_neg hdeep]
          constructor <;> push_cast <;> omega

theorem boundedItems_metered : ∀ (items : List PyValue) {depth : ℕ}
    {budget : OutputBudget} {r : List PyValue × OutputBudget},
    boundedItems items depth budget = some r →
      Metered (itemsSize r.1) (escapesItems items depth budget.remaining)
        (leftBehindItems items depth budget.remaining) budget.remaining r.2.remaining
  | [], depth, budget, r, h => by
    cases h
    simp only [itemsSize, escapesItems, leftBehindItems]
    constructor <;> omega
  | item :: rest, depth, budget, r, h => by
    obtain ⟨hlow, rfl⟩ | ⟨hle, first, others, hfirst, hothers, rfl⟩ := boundedItems_cons h
    · simp only [itemsSize, escapesItems, leftBehindItems, if_neg (not_le.mpr hlow),
        OutputBudget.cut]
      constructor <;> omega
    · have hrest := boundedItems_metered rest hothers
      simp only [itemsSize, escapesItems, leftBehindItems, if_pos hle]
      by_cases hdeep : 16 < depth
      · have henters : ¬ Enters depth budget.remaining := not_enters_iff.mpr (Or.inr hdeep)
        have hnull := bounded_cut hfirst henters
        obtain ⟨hsame, -⟩ := leftBehind_cut henters item
        subst hnull
        obtain ⟨hsize, hleft⟩ := hrest
        simp only [OutputBudget.cut, hsame, PyValue.size, if_pos hdeep] at *
        constructor <;> push_cast at * <;> omega
      · obtain ⟨hsize, hleft⟩ := bounded_metered item hfirst ⟨hle, not_lt.mp hdeep⟩
        obtain ⟨hsize', hleft'⟩ := hrest
        rw [hleft] at hsize' hleft'
        simp only [if_neg hdeep]
        constructor <;> push_cast at * <;> omega

end

theorem fieldsSize_setField (key : String) (value : PyValue) (fields : List (PyKey × PyValue)) :
    fieldsSize (setField key value fields) ≤ fieldsSize fields + (key.length + value.size) := by
  induction fields with
  | nil => simp [setField, fieldsSize, textSize, PyKey.printed]
  | cons field rest ih =>
    obtain ⟨name, old⟩ := field
    unfold setField
    split_ifs
    · simp only [fieldsSize]
      omega
    · simp only [fieldsSize]
      omega

/-- The marks take 27 characters at most. -/
theorem size_markTruncated {output result : PyValue}
    (hdict : isMcpErrorOutput output = true → ∃ fields, result = .dict fields) :
    (markTruncated output result).size ≤ result.size + 27 := by
  have hflag (fields : List (PyKey × PyValue)) :
      fieldsSize (setField "_truncated" (.bool true) fields) ≤ fieldsSize fields + 15 :=
    fieldsSize_setField "_truncated" (.bool true) fields
  have herror (fields : List (PyKey × PyValue)) :
      fieldsSize (setField "isError" (.bool true) fields) ≤ fieldsSize fields + 12 :=
    fieldsSize_setField "isError" (.bool true) fields
  cases houtput : isMcpErrorOutput output with
  | true =>
    obtain ⟨fields, rfl⟩ := hdict houtput
    have h₁ := hflag fields
    have h₂ := herror (setField "_truncated" (.bool true) fields)
    simp only [markTruncated, houtput, if_true, PyValue.size]
    omega
  | false =>
    cases result with
    | dict fields =>
      have h₁ := hflag fields
      simp only [markTruncated, houtput, Bool.false_eq_true, if_false, PyValue.size]
      omega
    | _ =>
      simp only [markTruncated, houtput, Bool.false_eq_true, if_false, PyValue.size]
      refine (Nat.add_le_add_left (hflag _) 1).trans ?_
      simp only [fieldsSize, textSize, PyKey.printed, Option.getD_some, PyValue.size,
        show "content".length = 7 from rfl]
      omega

theorem size_markTruncated_null (output : PyValue) : (markTruncated output .null).size ≤ 40 := by
  cases houtput : isMcpErrorOutput output with
  | true =>
    simp only [markTruncated, houtput, if_true]
    decide
  | false =>
    simp only [markTruncated, houtput, Bool.false_eq_true, if_false]
    decide

/-- An error comes back as a dictionary, unless the budget is too small for any value. -/
theorem bounded_error {output : PyValue} {depth : ℕ} {budget : OutputBudget}
    {r : PyValue × OutputBudget} (h : bounded output depth budget = some r) (hdepth : depth ≤ 16)
    (hbudget : 16 ≤ budget.remaining) (herror : isMcpErrorOutput output = true) :
    ∃ fields, r.1 = .dict fields := by
  cases output with
  | dict fields =>
    unfold bounded enterValue at h
    rw [if_neg (by omega)] at h
    obtain ⟨⟨result, after⟩, _, rfl⟩ := Option.map_eq_some_iff.mp h
    exact ⟨result, rfl⟩
  | _ => simp [isMcpErrorOutput] at herror

mutual

def nesting : PyValue → ℕ
  | .dict fields => 1 + nestingField fields
  | .list items | .tuple items => 1 + nestingItem items
  | _ => 0

def nestingField : List (PyKey × PyValue) → ℕ
  | [] => 0
  | (_, item) :: rest => max (nesting item) (nestingField rest)

def nestingItem : List PyValue → ℕ
  | [] => 0
  | item :: rest => max (nesting item) (nestingItem rest)

end

mutual

def longest : PyValue → ℕ
  | .null => 4
  | .bool b => if b then 4 else 5
  | .other printed => textSize printed
  | .str _ => 0
  | .dict fields => longestField fields
  | .list items | .tuple items => longestItem items

def longestField : List (PyKey × PyValue) → ℕ
  | [] => 0
  | (_, item) :: rest => max (longest item) (longestField rest)

def longestItem : List PyValue → ℕ
  | [] => 0
  | item :: rest => max (longest item) (longestItem rest)

end

mutual

theorem escapes_shallow : ∀ (value : PyValue) {depth : ℕ} (before : ℤ),
    depth + nesting value ≤ 16 → escapes value depth before = 0
  | .null, _, _, _ | .bool _, _, _, _ | .other _, _, _, _ | .str _, _, _, _ => rfl
  | .dict fields, depth, before, h => by
    simp only [nesting] at h
    simp only [escapes, escapesFields_shallow fields (before - 4) (by omega : depth + 1 + _ ≤ 16),
      ite_self]
  | .list items, depth, before, h | .tuple items, depth, before, h => by
    simp only [nesting] at h
    simp only [escapes, escapesItems_shallow items (before - 4) (by omega : depth + 1 + _ ≤ 16),
      ite_self]

theorem escapesFields_shallow : ∀ (fields : List (PyKey × PyValue)) {depth : ℕ} (before : ℤ),
    depth + nestingField fields ≤ 16 → escapesFields fields depth before = 0
  | [], _, _, _ => rfl
  | (key, item) :: rest, depth, before, h => by
    simp only [nestingField] at h
    have hdeep : ¬ 16 < depth := by omega
    have hitem :=
      escapes_shallow item (before - (textSize key.printed + 4)) (by omega : depth + _ ≤ 16)
    have hrest := escapesFields_shallow rest
      (leftBehind item depth (before - (textSize key.printed + 4))) (by omega : depth + _ ≤ 16)
    simp only [escapesFields, if_neg hdeep, hitem, hrest, ite_self, add_zero]

theorem escapesItems_shallow : ∀ (items : List PyValue) {depth : ℕ} (before : ℤ),
    depth + nestingItem items ≤ 16 → escapesItems items depth before = 0
  | [], _, _, _ => rfl
  | item :: rest, depth, before, h => by
    simp only [nestingItem] at h
    have hdeep : ¬ 16 < depth := by omega
    have hitem := escapes_shallow item before (by omega : depth + _ ≤ 16)
    have hrest := escapesItems_shallow rest (leftBehind item depth before)
      (by omega : depth + _ ≤ 16)
    simp only [escapesItems, if_neg hdeep, hitem, hrest, ite_self, add_zero]

end

mutual

/-- Only the last scalar overdraws the budget. -/
theorem leftBehind_ge : ∀ (value : PyValue) (depth : ℕ) (before : ℤ),
    min before (min 0 (12 - longest value)) ≤ leftBehind value depth before
  | .null, depth, before | .bool _, depth, before | .other _, depth, before
  | .str _, depth, before => by
    simp only [leftBehind, longest, Enters]
    split_ifs <;> omega
  | .dict fields, depth, before => by
    have hfields := leftBehindFields_ge fields (depth + 1) (before - 4)
    simp only [leftBehind, longest, Enters] at *
    split_ifs <;> omega
  | .list items, depth, before | .tuple items, depth, before => by
    have hitems := leftBehindItems_ge items (depth + 1) (before - 4)
    simp only [leftBehind, longest, Enters] at *
    split_ifs <;> omega

theorem leftBehindFields_ge : ∀ (fields : List (PyKey × PyValue)) (depth : ℕ) (before : ℤ),
    min before (min 0 (12 - longestField fields)) ≤ leftBehindFields fields depth before
  | [], depth, before => by
    simp only [leftBehindFields]
    omega
  | (key, item) :: rest, depth, before => by
    have hitem := leftBehind_ge item depth (before - (textSize key.printed + 4))
    have hrest := leftBehindFields_ge rest depth
      (leftBehind item depth (before - (textSize key.printed + 4)))
    simp only [leftBehindFields, longestField]
    push_cast
    split_ifs <;> omega

theorem leftBehindItems_ge : ∀ (items : List PyValue) (depth : ℕ) (before : ℤ),
    min before (min 0 (12 - longestItem items)) ≤ leftBehindItems items depth before
  | [], depth, before => by
    simp only [leftBehindItems]
    omega
  | item :: rest, depth, before => by
    have hitem := leftBehind_ge item depth before
    have hrest := leftBehindItems_ge rest depth (leftBehind item depth before)
    simp only [leftBehindItems, longestItem]
    push_cast
    split_ifs <;> omega

end

/-- Next to nothing escapes of a value that is not nested too deep and has no long scalar. -/
theorem escapes_le_of_shallow {maxChars : ℤ} {output : PyValue} (hmax : 0 ≤ maxChars)
    (hnesting : nesting output ≤ 16) (hlongest : longest output ≤ 49) :
    escapes output 0 maxChars - leftBehind output 0 maxChars ≤ 37 := by
  have hnone := escapes_shallow output maxChars (by omega : 0 + _ ≤ 16)
  have hleft := leftBehind_ge output 0 maxChars
  omega

def nestedList : ℕ → PyValue → PyValue
  | 0, value => value
  | n + 1, value => .list [nestedList n value]

end AgentDemo
