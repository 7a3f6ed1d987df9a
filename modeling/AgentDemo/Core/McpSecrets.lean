import AgentDemo.Values
import Mathlib.Data.List.Infix
import Mathlib.Data.List.TakeWhile

/-! Secrets in MCP configurations: `contains_plaintext_mcp_secret`, by which the loader refuses a
configuration, and `scrub_mcp_config`. -/
namespace AgentDemo

def secretFieldMarkers : List String :=
  ["key", "secret", "token", "password", "credential", "authorization"]

def scrubbedText : String := "***REDACTED***"

/-- `[A-Za-z_]` without regard to case, which takes in four letters beyond ASCII. -/
def startsReference (c : Char) : Bool :=
  c.isAlpha || c = '_' || c.toNat ∈ [0x130, 0x131, 0x17f, 0x212a]

def continuesReference (c : Char) : Bool := startsReference c || c.isDigit

/-- What follows `Bearer\s+` without regard to case, or the text itself. -/
def withoutBearer (text : List Char) : List Char :=
  match text.drop 6 with
  | c :: rest =>
    if (text.take 6).map Char.toLower = "bearer".toList ∧ isSpace c then rest.dropWhile isSpace
    else text
  | [] => text

/-- The regular expression of `_is_safe_secret_reference` matches the whole text. -/
def isVariableReference (text : List Char) : Bool :=
  match withoutBearer text with
  | '$' :: '\x7b' :: c :: rest => startsReference c && rest.dropWhile continuesReference = ['\x7d']
  | _ => false

def isSafeSecretReference : Json → Bool
  | .null => true
  | .str s => s = "" || s = scrubbedText || isVariableReference (stripList s.toList)
  | _ => false

section

variable (lower : String → String)

def looksSecretKey (key : String) : Bool :=
  secretFieldMarkers.any fun marker => decide (marker.toList <:+: (lower key).toList)

mutual

def containsPlaintextMcpSecret : Json → Bool
  | .obj fields => plaintextInFields fields
  | .arr items => plaintextInItems items
  | _ => false

def plaintextInFields : List (String × Json) → Bool
  | [] => false
  | (key, item) :: fields =>
    (looksSecretKey lower key && !isSafeSecretReference item) || containsPlaintextMcpSecret item ||
      plaintextInFields fields

def plaintextInItems : List Json → Bool
  | [] => false
  | item :: items => containsPlaintextMcpSecret item || plaintextInItems items

end

mutual

def scrubMcpConfig : Json → Json
  | .obj fields => .obj (scrubFields fields)
  | .arr items => .arr (scrubItems items)
  | value => value

def scrubFields : List (String × Json) → List (String × Json)
  | [] => []
  | (key, item) :: fields =>
    (key, if looksSecretKey lower key then .str scrubbedText else scrubMcpConfig item) ::
      scrubFields fields

def scrubItems : List Json → List Json
  | [] => []
  | item :: items => scrubMcpConfig item :: scrubItems items

end

/-! ### What a configuration exposes, and where two of them differ -/

/-- Empty, scrubbed before, or a reference to a variable, perhaps after the word `Bearer`. -/
inductive SafeSecret : Json → Prop where
  | null : SafeSecret .null
  | empty : SafeSecret (.str "")
  | scrubbed : SafeSecret (.str scrubbedText)
  | reference {s : String} {bearer name : List Char} {c : Char}
      (hbearer : bearer = [] ∨ ∃ word spaces, bearer = word ++ spaces ∧
        word.map Char.toLower = "bearer".toList ∧ spaces ≠ [] ∧ ∀ d ∈ spaces, isSpace d = true)
      (hc : startsReference c = true) (hname : ∀ d ∈ name, continuesReference d = true)
      (hs : stripList s.toList = bearer ++ '$' :: '\x7b' :: c :: (name ++ ['\x7d'])) :
      SafeSecret (.str s)

/-- Some field with the name of a secret holds a plain text, at any depth. -/
inductive Exposed : Json → Prop where
  | secret {fields : List (String × Json)} {key : String} {item : Json}
      (hmem : (key, item) ∈ fields) (hkey : looksSecretKey lower key = true)
      (hplain : ¬ SafeSecret item) : Exposed (.obj fields)
  | field {fields : List (String × Json)} {key : String} {item : Json}
      (hmem : (key, item) ∈ fields) (h : Exposed item) : Exposed (.obj fields)
  | item {items : List Json} {item : Json} (hmem : item ∈ items) (h : Exposed item) :
      Exposed (.arr items)

mutual

/-- The configurations differ at most in fields with the name of a secret. -/
inductive SameOutside : Json → Json → Prop where
  | refl (v : Json) : SameOutside v v
  | obj {fields fields' : List (String × Json)} (h : SameFields fields fields') :
      SameOutside (.obj fields) (.obj fields')
  | arr {items items' : List Json} (h : SameItems items items') :
      SameOutside (.arr items) (.arr items')

inductive SameFields : List (String × Json) → List (String × Json) → Prop where
  | nil : SameFields [] []
  | secret {key : String} {item item' : Json} {fields fields' : List (String × Json)}
      (hkey : looksSecretKey lower key = true) (h : SameFields fields fields') :
      SameFields ((key, item) :: fields) ((key, item') :: fields')
  | field {key : String} {item item' : Json} {fields fields' : List (String × Json)}
      (hitem : SameOutside item item') (h : SameFields fields fields') :
      SameFields ((key, item) :: fields) ((key, item') :: fields')

inductive SameItems : List Json → List Json → Prop where
  | nil : SameItems [] []
  | cons {item item' : Json} {items items' : List Json} (hitem : SameOutside item item')
      (h : SameItems items items') : SameItems (item :: items) (item' :: items')

end

end

/-! ### References -/

theorem withoutBearer_dollar (rest : List Char) : withoutBearer ('$' :: rest) = '$' :: rest := by
  unfold withoutBearer
  split
  · have hhead : ¬ ((('$' :: rest).take 6).map Char.toLower = "bearer".toList) := by
      intro h
      have hfirst := congrArg List.head? h
      revert hfirst
      simp only [List.take_succ_cons, List.map_cons, List.head?_cons]
      decide
    rw [if_neg fun h => hhead h.1]
  · rfl

theorem withoutBearer_bearer {word spaces rest : List Char}
    (hword : word.map Char.toLower = "bearer".toList) (hne : spaces ≠ [])
    (hspaces : ∀ c ∈ spaces, isSpace c = true)
    (hrest : ∀ c, rest.head? = some c → isSpace c = false) :
    withoutBearer (word ++ spaces ++ rest) = rest := by
  have hlength : word.length = 6 := by simpa using congrArg List.length hword
  obtain ⟨c, spaces, rfl⟩ := List.exists_cons_of_ne_nil hne
  have hdrop : (word ++ c :: spaces ++ rest).drop 6 = c :: (spaces ++ rest) := by
    rw [← hlength, List.append_assoc, List.drop_left]
    rfl
  have htake : (word ++ c :: spaces ++ rest).take 6 = word := by
    rw [← hlength, List.append_assoc, List.take_left]
  unfold withoutBearer
  rw [hdrop]
  dsimp only
  rw [htake, if_pos ⟨hword, hspaces c List.mem_cons_self⟩]
  rw [List.dropWhile_append_of_pos fun d hd => hspaces d (List.mem_cons_of_mem c hd)]
  exact dropWhile_isSpace hrest

/-- A text is what comes after `Bearer` with at most this word and white space in front. -/
theorem withoutBearer_split (text : List Char) : ∃ bearer, text = bearer ++ withoutBearer text ∧
    (bearer = [] ∨ ∃ word spaces, bearer = word ++ spaces ∧
      word.map Char.toLower = "bearer".toList ∧ spaces ≠ [] ∧ ∀ d ∈ spaces, isSpace d = true) := by
  unfold withoutBearer
  split
  next c rest hdrop =>
    split_ifs with h
    · refine ⟨text.take 6 ++ c :: rest.takeWhile isSpace, ?_, Or.inr
        ⟨_, _, rfl, h.1, List.cons_ne_nil _ _, ?_⟩⟩
      · rw [List.append_assoc, List.cons_append, List.takeWhile_append_dropWhile, ← hdrop,
          List.take_append_drop]
      · intro d hd
        rcases List.mem_cons.mp hd with rfl | hd
        · exact h.2
        · exact List.mem_takeWhile_imp hd
    · exact ⟨[], rfl, Or.inl rfl⟩
  next => exact ⟨[], rfl, Or.inl rfl⟩

theorem isVariableReference_iff {text : List Char} : isVariableReference text = true ↔
    ∃ c name, withoutBearer text = '$' :: '\x7b' :: c :: (name ++ ['\x7d']) ∧
      startsReference c = true ∧ ∀ d ∈ name, continuesReference d = true := by
  unfold isVariableReference
  constructor
  · intro h
    split at h
    next c rest htext =>
      obtain ⟨hc, hrest⟩ := Bool.and_eq_true_iff.mp h
      have hend : rest.dropWhile continuesReference = ['\x7d'] := of_decide_eq_true hrest
      refine ⟨c, rest.takeWhile continuesReference, ?_, hc, fun d hd => List.mem_takeWhile_imp hd⟩
      rw [htext, ← hend, List.takeWhile_append_dropWhile]
    next => cases h
  · rintro ⟨c, name, htext, hc, hname⟩
    rw [htext]
    show (startsReference c &&
      decide ((name ++ ['\x7d']).dropWhile continuesReference = ['\x7d'])) = true
    rw [List.dropWhile_append_of_pos hname, hc]
    decide

theorem isSafeSecretReference_iff {v : Json} : isSafeSecretReference v = true ↔ SafeSecret v := by
  constructor
  · intro h
    cases v with
    | null => exact .null
    | str s =>
      simp only [isSafeSecretReference, Bool.or_eq_true, decide_eq_true_eq] at h
      rcases h with (rfl | rfl) | h
      · exact .empty
      · exact .scrubbed
      · obtain ⟨c, name, htext, hc, hname⟩ := isVariableReference_iff.mp h
        obtain ⟨bearer, hsplit, hbearer⟩ := withoutBearer_split (stripList s.toList)
        rw [htext] at hsplit
        exact .reference hbearer hc hname hsplit
    | _ => cases h
  · intro h
    cases h with
    | null => rfl
    | empty => rfl
    | scrubbed => simp [isSafeSecretReference]
    | @reference s bearer name c hbearer hc hname hs =>
      have hwithout : withoutBearer (stripList s.toList) =
          '$' :: '\x7b' :: c :: (name ++ ['\x7d']) := by
        rw [hs]
        rcases hbearer with rfl | ⟨word, spaces, rfl, hword, hne, hspaces⟩
        · exact withoutBearer_dollar _
        · exact withoutBearer_bearer hword hne hspaces (by simp; decide)
      have href := isVariableReference_iff.mpr ⟨c, name, hwithout, hc, hname⟩
      simp [isSafeSecretReference, href]

/-! ### Detection and scrubbing -/

section

variable {lower : String → String}

mutual

theorem containsPlaintext_iff : ∀ v : Json,
    containsPlaintextMcpSecret lower v = true ↔ Exposed lower v
  | .obj fields => by
    rw [containsPlaintextMcpSecret, plaintextInFields_iff fields]
    constructor
    · rintro ⟨⟨key, item⟩, hmem, ⟨hkey, hplain⟩ | h⟩
      · exact .secret hmem hkey hplain
      · exact .field hmem h
    · intro h
      cases h with
      | secret hmem hkey hplain => exact ⟨_, hmem, Or.inl ⟨hkey, hplain⟩⟩
      | field hmem h => exact ⟨_, hmem, Or.inr h⟩
  | .arr items => by
    rw [containsPlaintextMcpSecret, plaintextInItems_iff items]
    constructor
    · rintro ⟨item, hmem, h⟩
      exact .item hmem h
    · intro h
      cases h with
      | item hmem h => exact ⟨_, hmem, h⟩
  | .null | .bool _ | .num _ | .str _ => by
    constructor
    · intro h
      cases h
    · intro h
      cases h

theorem plaintextInFields_iff : ∀ fields : List (String × Json),
    plaintextInFields lower fields = true ↔ ∃ field ∈ fields,
      (looksSecretKey lower field.1 = true ∧ ¬ SafeSecret field.2) ∨ Exposed lower field.2
  | [] => by simp [plaintextInFields]
  | (key, item) :: fields => by
    have hsafe : (!isSafeSecretReference item) = true ↔ ¬ SafeSecret item := by
      rw [← isSafeSecretReference_iff, Bool.not_eq_true', Bool.not_eq_true]
    rw [plaintextInFields, Bool.or_eq_true, Bool.or_eq_true, Bool.and_eq_true, hsafe,
      containsPlaintext_iff item, plaintextInFields_iff fields]
    simp only [List.mem_cons, exists_eq_or_imp]

theorem plaintextInItems_iff : ∀ items : List Json,
    plaintextInItems lower items = true ↔ ∃ item ∈ items, Exposed lower item
  | [] => by simp [plaintextInItems]
  | item :: items => by
    rw [plaintextInItems, Bool.or_eq_true, containsPlaintext_iff item, plaintextInItems_iff items]
    simp only [List.mem_cons, exists_eq_or_imp]

end

mutual

theorem plaintext_scrub : ∀ v : Json,
    containsPlaintextMcpSecret lower (scrubMcpConfig lower v) = false
  | .obj fields => by
    rw [scrubMcpConfig, containsPlaintextMcpSecret, plaintext_scrubFields fields]
  | .arr items => by rw [scrubMcpConfig, containsPlaintextMcpSecret, plaintext_scrubItems items]
  | .null | .bool _ | .num _ | .str _ => rfl

theorem plaintext_scrubFields : ∀ fields : List (String × Json),
    plaintextInFields lower (scrubFields lower fields) = false
  | [] => rfl
  | (key, item) :: fields => by
    rw [scrubFields, plaintextInFields, plaintext_scrubFields fields]
    cases hkey : looksSecretKey lower key with
    | true =>
      have hsafe : isSafeSecretReference (.str scrubbedText) = true :=
        isSafeSecretReference_iff.mpr .scrubbed
      simp [hsafe, containsPlaintextMcpSecret]
    | false => simp [plaintext_scrub item]

theorem plaintext_scrubItems : ∀ items : List Json,
    plaintextInItems lower (scrubItems lower items) = false
  | [] => rfl
  | item :: items => by
    rw [scrubItems, plaintextInItems, plaintext_scrub item, plaintext_scrubItems items]
    rfl

end

mutual

theorem sameOutside_scrub : ∀ v : Json, SameOutside lower (scrubMcpConfig lower v) v
  | .obj fields => .obj (sameFields_scrub fields)
  | .arr items => .arr (sameItems_scrub items)
  | .null | .bool _ | .num _ | .str _ => .refl _

theorem sameFields_scrub : ∀ fields : List (String × Json),
    SameFields lower (scrubFields lower fields) fields
  | [] => .nil
  | (key, item) :: fields => by
    rw [scrubFields]
    cases hkey : looksSecretKey lower key with
    | true => exact .secret hkey (sameFields_scrub fields)
    | false => exact .field (sameOutside_scrub item) (sameFields_scrub fields)

theorem sameItems_scrub : ∀ items : List Json, SameItems lower (scrubItems lower items) items
  | [] => .nil
  | item :: items => .cons (sameOutside_scrub item) (sameItems_scrub items)

end

mutual

theorem scrub_of_same : ∀ {v w : Json}, SameOutside lower v w →
    scrubMcpConfig lower v = scrubMcpConfig lower w
  | _, _, .refl _ => rfl
  | _, _, .obj h => by rw [scrubMcpConfig, scrubMcpConfig, scrubFields_of_same h]
  | _, _, .arr h => by rw [scrubMcpConfig, scrubMcpConfig, scrubItems_of_same h]

theorem scrubFields_of_same : ∀ {fields fields' : List (String × Json)},
    SameFields lower fields fields' → scrubFields lower fields = scrubFields lower fields'
  | _, _, .nil => rfl
  | _, _, .secret hkey h => by
    rw [scrubFields, scrubFields, if_pos hkey, if_pos hkey, scrubFields_of_same h]
  | _, _, .field hitem h => by
    rw [scrubFields, scrubFields, scrub_of_same hitem, scrubFields_of_same h]

theorem scrubItems_of_same : ∀ {items items' : List Json},
    SameItems lower items items' → scrubItems lower items = scrubItems lower items'
  | _, _, .nil => rfl
  | _, _, .cons hitem h => by
    rw [scrubItems, scrubItems, scrub_of_same hitem, scrubItems_of_same h]

end

mutual

theorem same_of_scrub : ∀ v w : Json, scrubMcpConfig lower v = scrubMcpConfig lower w →
    SameOutside lower v w
  | .obj fields, w, h => by
    cases w with
    | obj fields' =>
      rw [scrubMcpConfig, scrubMcpConfig] at h
      exact .obj (same_of_scrubFields fields fields' (Json.obj.inj h))
    | _ => simp [scrubMcpConfig] at h
  | .arr items, w, h => by
    cases w with
    | arr items' =>
      rw [scrubMcpConfig, scrubMcpConfig] at h
      exact .arr (same_of_scrubItems items items' (Json.arr.inj h))
    | _ => simp [scrubMcpConfig] at h
  | .null, w, h | .bool _, w, h | .num _, w, h | .str _, w, h => by
    cases w with
    | obj | arr => simp [scrubMcpConfig] at h
    | _ =>
      unfold scrubMcpConfig at h
      rw [h]
      exact .refl _

theorem same_of_scrubFields : ∀ fields fields' : List (String × Json),
    scrubFields lower fields = scrubFields lower fields' → SameFields lower fields fields'
  | [], [], _ => .nil
  | [], _ :: _, h => by simp [scrubFields] at h
  | _ :: _, [], h => by simp [scrubFields] at h
  | (key, item) :: fields, (key', item') :: fields', h => by
    rw [scrubFields, scrubFields] at h
    obtain ⟨hhead, hrest⟩ := List.cons.inj h
    obtain ⟨rfl, hitem⟩ := Prod.mk.inj hhead
    cases hkey : looksSecretKey lower key with
    | true => exact .secret hkey (same_of_scrubFields fields fields' hrest)
    | false =>
      simp only [hkey, Bool.false_eq_true, if_false] at hitem
      exact .field (same_of_scrub item item' hitem) (same_of_scrubFields fields fields' hrest)

theorem same_of_scrubItems : ∀ items items' : List Json,
    scrubItems lower items = scrubItems lower items' → SameItems lower items items'
  | [], [], _ => .nil
  | [], _ :: _, h => by simp [scrubItems] at h
  | _ :: _, [], h => by simp [scrubItems] at h
  | item :: items, item' :: items', h => by
    rw [scrubItems, scrubItems] at h
    obtain ⟨hhead, hrest⟩ := List.cons.inj h
    exact .cons (same_of_scrub item item' hhead) (same_of_scrubItems items items' hrest)

end

/-- A configuration is refused exactly where it exposes a secret. A scrubbed one exposes none and is
not scrubbed further, and two of them are the same exactly when the configurations differ in secret
fields only: scrubbing gives away nothing of these and loses nothing else. -/
theorem mcp_config_secrets (lower : String → String) (v w : Json) :
    (containsPlaintextMcpSecret lower v = true ↔ Exposed lower v) ∧
    ¬ Exposed lower (scrubMcpConfig lower v) ∧
    scrubMcpConfig lower (scrubMcpConfig lower v) = scrubMcpConfig lower v ∧
    (scrubMcpConfig lower v = scrubMcpConfig lower w ↔ SameOutside lower v w) := by
  refine ⟨containsPlaintext_iff v, ?_, scrub_of_same (sameOutside_scrub v),
    same_of_scrub v w, scrub_of_same⟩
  rw [← containsPlaintext_iff, plaintext_scrub]
  exact Bool.false_ne_true

end

end AgentDemo
