import AgentDemo.Services.ToolOutput

/-! A truncated output says so, and keeps its class: an error stays an error. -/
namespace AgentDemo

theorem enterValue_eq_some {depth : ℕ} {budget : OutputBudget}
    {visit : OutputBudget → Option (PyValue × OutputBudget)} {r : PyValue × OutputBudget}
    (h : enterValue depth budget visit = some r) :
    ((budget.remaining < 16 ∨ 16 < depth) ∧ r = (.null, budget.cut)) ∨
      (16 ≤ budget.remaining ∧ depth ≤ 16 ∧ visit (budget.charge 4) = some r) := by
  unfold enterValue at h
  split_ifs at h with hcut
  · exact Or.inl ⟨hcut, (Option.some.inj h).symm⟩
  · right
    have hnot := not_or.mp hcut
    exact ⟨not_lt.mp hnot.1, not_lt.mp hnot.2, h⟩

/-- One round of the loop over a dictionary. -/
theorem boundedFields_cons {key : PyKey} {item : PyValue} {rest : List (PyKey × PyValue)}
    {depth : ℕ} {budget : OutputBudget} {r : List (PyKey × PyValue) × OutputBudget}
    (h : boundedFields ((key, item) :: rest) depth budget = some r) :
    ∃ text, key.printed = some text ∧
      ((budget.remaining < text.length + 16 ∧ r = ([], budget.cut)) ∨
      (text.length + 16 ≤ budget.remaining ∧ ∃ first others,
        bounded item depth (budget.charge (text.length + 4)) = some first ∧
        boundedFields rest depth first.2 = some others ∧
        r = ((key, first.1) :: others.1, others.2))) := by
  unfold boundedFields at h
  cases htext : key.printed with
  | none => simp [htext] at h
  | some text =>
    refine ⟨text, rfl, ?_⟩
    simp only [htext] at h
    split_ifs at h with hcut
    · exact Or.inl ⟨hcut, (Option.some.inj h).symm⟩
    · right
      cases hfirst : bounded item depth (budget.charge (text.length + 4)) with
      | none => simp [hfirst] at h
      | some first =>
        simp only [hfirst] at h
        obtain ⟨others, hothers, rfl⟩ := Option.map_eq_some_iff.mp h
        exact ⟨not_lt.mp hcut, first, others, rfl, hothers, rfl⟩

/-- One round of the loop over a list. -/
theorem boundedItems_cons {item : PyValue} {rest : List PyValue} {depth : ℕ}
    {budget : OutputBudget} {r : List PyValue × OutputBudget}
    (h : boundedItems (item :: rest) depth budget = some r) :
    (budget.remaining < 16 ∧ r = ([], budget.cut)) ∨
      (16 ≤ budget.remaining ∧ ∃ first others, bounded item depth budget = some first ∧
        boundedItems rest depth first.2 = some others ∧
        r = (first.1 :: others.1, others.2)) := by
  unfold boundedItems at h
  split_ifs at h with hcut
  · exact Or.inl ⟨hcut, (Option.some.inj h).symm⟩
  · right
    cases hfirst : bounded item depth budget with
    | none => simp [hfirst] at h
    | some first =>
      simp only [hfirst] at h
      obtain ⟨others, hothers, rfl⟩ := Option.map_eq_some_iff.mp h
      exact ⟨not_lt.mp hcut, first, others, rfl, hothers, rfl⟩

theorem boundedText_kept {s : String} {budget : OutputBudget}
    (h : (boundedText s budget).2.truncated = false) :
    budget.truncated = false ∧ (boundedText s budget).1 = .str s := by
  unfold boundedText at h ⊢
  simp only [Bool.or_eq_false_iff, decide_eq_false_iff_not, not_lt] at h
  refine ⟨h.1, ?_⟩
  have hlength := h.2
  simp only [takeText, String.length_ofList, List.length_take, String.length_toList] at hlength
  simp only [takeText, PyValue.str.injEq]
  rw [List.take_of_length_le (by rw [String.length_toList]; omega), String.ofList_toList]

/-- A walk that does not flag anything has kept everything. -/
def KeptBy {α : Type} (kept : α) (r : α × OutputBudget) (budget : OutputBudget) : Prop :=
  r.2.truncated = false → budget.truncated = false ∧ r.1 = kept

theorem enterValue_kept {depth : ℕ} {budget : OutputBudget} {kept : PyValue}
    {visit : OutputBudget → Option (PyValue × OutputBudget)} {r : PyValue × OutputBudget}
    (h : enterValue depth budget visit = some r)
    (hvisit : ∀ budget r, visit budget = some r → KeptBy kept r budget) : KeptBy kept r budget := by
  rcases enterValue_eq_some h with ⟨_, rfl⟩ | ⟨_, _, hrun⟩
  · intro hflag
    cases hflag
  · exact hvisit (budget.charge 4) r hrun

theorem boundedScalar_kept {value : PyValue} {printed : Option String} {budget : OutputBudget}
    {r : PyValue × OutputBudget} (h : boundedScalar value printed budget = some r) :
    KeptBy value r budget := by
  obtain ⟨text, _, rfl⟩ := Option.map_eq_some_iff.mp h
  exact fun hflag => ⟨hflag, rfl⟩

mutual

theorem bounded_kept : ∀ (value : PyValue) {depth : ℕ} {budget : OutputBudget}
    {r : PyValue × OutputBudget}, bounded value depth budget = some r →
      KeptBy value.listed r budget
  | .null, _, _, _, h | .bool _, _, _, _, h | .other _, _, _, _, h => by
    unfold bounded at h
    exact enterValue_kept h fun _ _ hrun => boundedScalar_kept hrun
  | .str s, _, _, _, h => by
    unfold bounded at h
    refine enterValue_kept h fun budget r hrun => ?_
    cases hrun
    exact boundedText_kept
  | .dict fields, _, _, _, h => by
    unfold bounded at h
    refine enterValue_kept h fun budget r hrun hflag => ?_
    obtain ⟨⟨result, budget'⟩, hfields, rfl⟩ := Option.map_eq_some_iff.mp hrun
    obtain ⟨hbudget, rfl⟩ := boundedFields_kept fields hfields hflag
    exact ⟨hbudget, rfl⟩
  | .list items, _, _, _, h | .tuple items, _, _, _, h => by
    unfold bounded at h
    refine enterValue_kept h fun budget r hrun hflag => ?_
    obtain ⟨⟨result, budget'⟩, hitems, rfl⟩ := Option.map_eq_some_iff.mp hrun
    obtain ⟨hbudget, rfl⟩ := boundedItems_kept items hitems hflag
    exact ⟨hbudget, rfl⟩

theorem boundedFields_kept : ∀ (fields : List (PyKey × PyValue)) {depth : ℕ}
    {budget : OutputBudget} {r : List (PyKey × PyValue) × OutputBudget},
    boundedFields fields depth budget = some r → KeptBy (listedFields fields) r budget
  | [], _, _, _, h => by
    cases h
    exact fun hflag => ⟨hflag, rfl⟩
  | (key, item) :: rest, _, _, _, h => by
    obtain ⟨text, _, ⟨_, rfl⟩ | ⟨_, first, others, hfirst, hothers, rfl⟩⟩ := boundedFields_cons h
    · intro hflag
      cases hflag
    · intro hflag
      obtain ⟨hflag, hrest⟩ := boundedFields_kept rest hothers hflag
      obtain ⟨hflag, hitem⟩ := bounded_kept item hfirst hflag
      exact ⟨hflag, by simp only [listedFields, hitem, hrest]⟩

theorem boundedItems_kept : ∀ (items : List PyValue) {depth : ℕ}
    {budget : OutputBudget} {r : List PyValue × OutputBudget},
    boundedItems items depth budget = some r → KeptBy (listedItems items) r budget
  | [], _, _, _, h => by
    cases h
    exact fun hflag => ⟨hflag, rfl⟩
  | item :: rest, _, _, _, h => by
    obtain ⟨_, rfl⟩ | ⟨_, first, others, hfirst, hothers, rfl⟩ := boundedItems_cons h
    · intro hflag
      cases hflag
    · intro hflag
      obtain ⟨hflag, hrest⟩ := boundedItems_kept rest hothers hflag
      obtain ⟨hflag, hitem⟩ := bounded_kept item hfirst hflag
      exact ⟨hflag, by simp only [listedItems, hitem, hrest]⟩

end

@[simp] theorem getField_nil (key : String) : getField [] key = none := rfl

theorem getField_cons (name : PyKey) (value : PyValue) (rest : List (PyKey × PyValue))
    (key : String) : getField ((name, value) :: rest) key =
      if name = .text key then some value else getField rest key := by
  unfold getField
  rw [List.find?_cons]
  split_ifs with h <;> simp [h]

theorem getField_setField (key other : String) (value : PyValue) (fields : List (PyKey × PyValue)) :
    getField (setField key value fields) other =
      if key = other then some value else getField fields other := by
  induction fields with
  | nil => simp [setField, getField_cons]
  | cons field rest ih =>
    obtain ⟨name, old⟩ := field
    unfold setField
    split_ifs with hname hkey hkey <;> simp_all [getField_cons]

theorem getField_listed (fields : List (PyKey × PyValue)) (key : String) :
    getField (listedFields fields) key = (getField fields key).map PyValue.listed := by
  induction fields with
  | nil => rfl
  | cons field rest ih =>
    obtain ⟨name, value⟩ := field
    simp only [listedFields, getField_cons, ih]
    split_ifs <;> rfl

theorem isTrue_listed (value : Option PyValue) :
    isTrue (value.map PyValue.listed) = isTrue value := by
  cases value with
  | none => rfl
  | some value => cases value <;> simp [isTrue, PyValue.listed]

theorem isMcpErrorOutput_listed (value : PyValue) :
    isMcpErrorOutput value.listed = isMcpErrorOutput value := by
  cases value with
  | dict fields =>
    simp only [PyValue.listed, isMcpErrorOutput, getField_listed, isTrue_listed]
    congr 1
    cases getField fields "raw" with
    | none => rfl
    | some raw => cases raw <;> simp [PyValue.listed, getField_listed, isTrue_listed]
  | _ => simp [PyValue.listed, isMcpErrorOutput]

/-- Only a dictionary is bounded to a dictionary. -/
theorem bounded_dict {value : PyValue} {depth : ℕ} {budget budget' : OutputBudget}
    {result : List (PyKey × PyValue)}
    (h : bounded value depth budget = some (.dict result, budget')) :
    ∃ fields budget, value = .dict fields ∧
      boundedFields fields (depth + 1) budget = some (result, budget') := by
  cases value with
  | dict fields =>
    unfold bounded at h
    rcases enterValue_eq_some h with ⟨_, hr⟩ | ⟨_, _, hrun⟩
    · cases hr
    · obtain ⟨⟨result', budget''⟩, hfields, hr⟩ := Option.map_eq_some_iff.mp hrun
      cases hr
      exact ⟨fields, _, rfl, hfields⟩
  | _ =>
    unfold bounded at h
    rcases enterValue_eq_some h with ⟨_, hr⟩ | ⟨_, _, hrun⟩
    · cases hr
    · simp [boundedScalar, boundedText] at hrun

/-- Only `True` is bounded to `True`. -/
theorem bounded_true {value : PyValue} {depth : ℕ} {budget budget' : OutputBudget}
    (h : bounded value depth budget = some (.bool true, budget')) : value = .bool true := by
  cases value with
  | bool b =>
    unfold bounded at h
    rcases enterValue_eq_some h with ⟨_, hr⟩ | ⟨_, _, hrun⟩
    · cases hr
    · simp only [boundedScalar, Option.map_some, Option.some.injEq, Prod.mk.injEq] at hrun
      exact hrun.1
  | _ =>
    unfold bounded at h
    rcases enterValue_eq_some h with ⟨_, hr⟩ | ⟨_, _, hrun⟩
    · cases hr
    · simp [boundedScalar, boundedText] at hrun

/-- What a bounded dictionary has under a key comes from what the dictionary has there. -/
theorem boundedFields_getField {fields : List (PyKey × PyValue)} {depth : ℕ}
    {budget : OutputBudget} {r : List (PyKey × PyValue) × OutputBudget}
    (h : boundedFields fields depth budget = some r) {key : String} {result : PyValue}
    (hget : getField r.1 key = some result) :
    ∃ value before after, getField fields key = some value ∧
      bounded value depth before = some (result, after) := by
  induction fields generalizing budget r with
  | nil =>
    cases h
    cases hget
  | cons field rest ih =>
    obtain ⟨name, item⟩ := field
    obtain ⟨text, _, ⟨_, rfl⟩ | ⟨_, first, others, hfirst, hothers, rfl⟩⟩ := boundedFields_cons h
    · cases hget
    · rw [getField_cons] at hget ⊢
      split_ifs at hget ⊢ with hname
      · cases hget
        exact ⟨item, _, first.2, rfl, hfirst⟩
      · exact ih hothers hget

theorem isTrue_eq_true {value : Option PyValue} :
    isTrue value = true ↔ value = some (.bool true) := by
  rcases value with _ | (_ | (_ | _) | _ | _ | _ | _ | _) <;> simp [isTrue]

/-- An error of the bounded dictionary is one of the dictionary. -/
theorem boundedFields_isTrue {fields : List (PyKey × PyValue)} {depth : ℕ}
    {budget : OutputBudget} {r : List (PyKey × PyValue) × OutputBudget}
    (h : boundedFields fields depth budget = some r) {key : String}
    (htrue : isTrue (getField r.1 key) = true) : isTrue (getField fields key) = true := by
  obtain ⟨value, before, after, hvalue, hbounded⟩ :=
    boundedFields_getField h (isTrue_eq_true.mp htrue)
  rw [hvalue, bounded_true hbounded]
  rfl

theorem isMcpErrorOutput_iff {fields : List (PyKey × PyValue)} :
    isMcpErrorOutput (.dict fields) = true ↔
      (∃ raw, getField fields "raw" = some (.dict raw) ∧ isTrue (getField raw "isError") = true) ∨
        isTrue (getField fields "isError") = true := by
  simp only [isMcpErrorOutput, Bool.or_eq_true]
  apply or_congr_left
  cases getField fields "raw" with
  | none => simp
  | some raw => cases raw <;> simp

/-- The walk makes no error out of a success. -/
theorem isMcpErrorOutput_of_bounded {value : PyValue} {depth : ℕ} {budget : OutputBudget}
    {r : PyValue × OutputBudget} (h : bounded value depth budget = some r)
    (herror : isMcpErrorOutput r.1 = true) : isMcpErrorOutput value = true := by
  obtain ⟨result, budget'⟩ := r
  cases result with
  | dict result =>
    obtain ⟨fields, inner, rfl, hfields⟩ := bounded_dict h
    rw [isMcpErrorOutput_iff] at herror ⊢
    apply herror.imp
    · rintro ⟨raw', hraw', htrue⟩
      obtain ⟨value, before, after, hvalue, hbounded⟩ := boundedFields_getField hfields hraw'
      obtain ⟨raw, inner', rfl, hraw⟩ := bounded_dict hbounded
      exact ⟨raw, hvalue, boundedFields_isTrue hraw htrue⟩
    · exact boundedFields_isTrue hfields
  | _ => simp [isMcpErrorOutput] at herror

/-- The marks say that the value is truncated, and that an error is one. -/
theorem markTruncated_eq (output result : PyValue) : ∃ fields,
    markTruncated output result = .dict fields ∧
      getField fields "_truncated" = some (.bool true) := by
  unfold markTruncated
  refine ⟨_, rfl, ?_⟩
  split_ifs <;> simp [getField_setField]

theorem isMcpErrorOutput_markTruncated {output result : PyValue}
    (h : isMcpErrorOutput result = true → isMcpErrorOutput output = true) :
    isMcpErrorOutput (markTruncated output result) = isMcpErrorOutput output := by
  cases houtput : isMcpErrorOutput output with
  | true =>
    unfold markTruncated
    dsimp only
    rw [if_pos houtput, isMcpErrorOutput_iff]
    right
    simp [getField_setField, isTrue]
  | false =>
    have hresult : isMcpErrorOutput result = false := by
      by_contra hne
      rw [h (by simpa using hne)] at houtput
      cases houtput
    unfold markTruncated
    dsimp only
    rw [if_neg (by rw [houtput]; exact Bool.false_ne_true)]
    cases result with
    | dict fields => simpa [isMcpErrorOutput, getField_setField] using hresult
    | _ => simp [isMcpErrorOutput, getField_setField, getField_cons, isTrue]

/-- A value that is not a text comes back as it was, with lists for tuples, or it is an object that
says it is truncated; and it is an error of an MCP tool if and only if it was one. -/
theorem limitOutput_flags_truncation (maxChars : ℤ) (output : PyValue)
    (hvalue : ∀ s, output ≠ .str s) {result : PyValue}
    (h : limitOutput maxChars output = some result) :
    (result ≠ output.listed → ∃ fields, result = .dict fields ∧
      getField fields "_truncated" = some (.bool true)) ∧
    isMcpErrorOutput result = isMcpErrorOutput output := by
  have hrun : ∃ r, bounded output 0 ⟨maxChars, false⟩ = some r ∧
      (if r.2.truncated then markTruncated output r.1 else r.1) = result := by
    cases output with
    | str s => exact absurd rfl (hvalue s)
    | _ => exact Option.map_eq_some_iff.mp h
  obtain ⟨r, hr, rfl⟩ := hrun
  split_ifs with hflag
  · exact ⟨fun _ => markTruncated_eq output r.1,
      isMcpErrorOutput_markTruncated (isMcpErrorOutput_of_bounded hr)⟩
  · have hkept := (bounded_kept output hr (by simpa using hflag)).2
    exact ⟨fun hne => absurd hkept hne, by rw [hkept, isMcpErrorOutput_listed]⟩

/-- An error of an MCP tool with a long text, cut to 64 characters. -/
theorem limitOutput_flags_truncation_sample :
    let output : PyValue := .dict [(.text "content", .tuple [.str "a text longer than the budget"]),
      (.text "raw", .dict [(.text "isError", .bool true)])]
    let result : PyValue := .dict [(.text "content", .list [.str "a text longer than the budget"]),
      (.text "_truncated", .bool true), (.text "isError", .bool true)]
    (result ≠ output.listed → ∃ fields, result = .dict fields ∧
      getField fields "_truncated" = some (.bool true)) ∧
    isMcpErrorOutput result = isMcpErrorOutput output :=
  limitOutput_flags_truncation 64 _ (fun s h => by cases h) rfl

end AgentDemo
