import AgentDemo.Library.JsonText

/-! What `json.dumps` writes is read back by `json.loads`, in front of any text that does not go on
with the value. -/
namespace JsonText

/-! ### Numbers -/

theorem NumberEnd.nil : NumberEnd [] := by
  intro c hc
  simp at hc

theorem NumberEnd.cons {c : Char} {text : List Char}
    (h : c.isDigit = false ∧ c ≠ '-' ∧ c ≠ '+' ∧ c ≠ '.' ∧ c ≠ 'e' ∧ c ≠ 'E') :
    NumberEnd (c :: text) := by
  intro d hd
  obtain rfl := Option.some.inj hd
  exact h

theorem takeWhile_append_end {text rest : List Char} (h : NumberEnd rest) :
    (text ++ rest).takeWhile Char.isDigit = text.takeWhile Char.isDigit := by
  induction text with
  | nil =>
    cases rest with
    | nil => rfl
    | cons c rest => rw [List.nil_append, List.takeWhile_cons_of_neg (by simp [(h c rfl).1])]; rfl
  | cons c text ih =>
    rw [List.cons_append, List.takeWhile_cons, List.takeWhile_cons, ih]

theorem sign_append {text rest : List Char} (h : NumberEnd rest) :
    sign (text ++ rest) = sign text := by
  cases text with
  | nil =>
    cases rest with
    | nil => rfl
    | cons c rest =>
      have := (h c rfl).2.1
      simp [sign, this]
  | cons c text =>
    rw [List.cons_append]
    by_cases hc : c = '-' <;> simp [sign, hc]

theorem whole_cons_of_ne {c : Char} {text : List Char} (h : c ≠ '0') :
    whole (c :: text) = (c :: text).takeWhile Char.isDigit := by
  simp [whole, h]

theorem whole_append {text rest : List Char} (h : NumberEnd rest) :
    whole (text ++ rest) = whole text := by
  cases text with
  | nil =>
    cases rest with
    | nil => rfl
    | cons c rest =>
      have hdigit := (h c rfl).1
      have hzero : c ≠ '0' := by
        rintro rfl
        simp at hdigit
      simp [whole, hzero, hdigit]
  | cons c text =>
    by_cases hc : c = '0'
    · simp [whole, hc]
    · rw [List.cons_append, whole_cons_of_ne hc, whole_cons_of_ne hc, ← List.cons_append,
        takeWhile_append_end h]

theorem fraction_append {text rest : List Char} (h : NumberEnd rest) :
    fraction (text ++ rest) = fraction text := by
  cases text with
  | nil =>
    cases rest with
    | nil => rfl
    | cons c rest =>
      have := (h c rfl).2.2.2.1
      simp [fraction, this]
  | cons c text =>
    rw [List.cons_append]
    by_cases hc : c = '.'
    · simp only [fraction, hc, takeWhile_append_end h]
    · simp [fraction, hc]

theorem exponentSign_append {text rest : List Char} (h : NumberEnd rest) :
    exponentSign (text ++ rest) = exponentSign text := by
  cases text with
  | nil =>
    cases rest with
    | nil => rfl
    | cons c rest =>
      have hc := h c rfl
      simp [exponentSign, hc.2.1, hc.2.2.1]
  | cons c text =>
    rw [List.cons_append]
    by_cases hplus : c = '+'
    · simp [exponentSign, hplus]
    · by_cases hminus : c = '-' <;> simp [exponentSign, hplus, hminus]

theorem length_exponentSign_le (text : List Char) : (exponentSign text).length ≤ text.length := by
  unfold exponentSign
  split <;> simp

theorem exponent_append {text rest : List Char} (h : NumberEnd rest) :
    exponent (text ++ rest) = exponent text := by
  cases text with
  | nil =>
    cases rest with
    | nil => rfl
    | cons c rest =>
      have hc := h c rfl
      simp [exponent, hc.2.2.2.2.1, hc.2.2.2.2.2]
  | cons c text =>
    rw [List.cons_append]
    simp only [exponent]
    rw [exponentSign_append h, List.drop_append_of_le_length (length_exponentSign_le text),
      takeWhile_append_end h]

/-! Each group is a part of its text. -/

theorem isPrefix_sign (text : List Char) : sign text <+: text := by
  unfold sign
  split
  · exact List.prefix_iff_eq_take.mpr rfl
  · exact List.nil_prefix

theorem isPrefix_whole (text : List Char) : whole text <+: text := by
  unfold whole
  split
  · exact List.prefix_iff_eq_take.mpr rfl
  · exact List.takeWhile_prefix _

theorem isPrefix_fraction (text : List Char) : fraction text <+: text := by
  unfold fraction
  split
  · split_ifs
    · exact List.nil_prefix
    · exact (List.prefix_cons_inj _).mpr (List.takeWhile_prefix _)
  · exact List.nil_prefix

theorem isPrefix_exponentSign (text : List Char) : exponentSign text <+: text := by
  unfold exponentSign
  split
  · exact List.prefix_iff_eq_take.mpr rfl
  · exact List.prefix_iff_eq_take.mpr rfl
  · exact List.nil_prefix

theorem append_drop_of_isPrefix {part text : List Char} (h : part <+: text) :
    part ++ text.drop part.length = text := by
  obtain ⟨rest, rfl⟩ := h
  rw [List.drop_left]

theorem isPrefix_exponent (text : List Char) : exponent text <+: text := by
  cases text with
  | nil => exact List.nil_prefix
  | cons c text =>
    simp only [exponent]
    split_ifs
    · rw [List.cons_append]
      refine (List.prefix_cons_inj _).mpr ?_
      have hsign := append_drop_of_isPrefix (isPrefix_exponentSign text)
      conv_rhs => rw [← hsign]
      exact (List.prefix_append_right_inj _).mpr (List.takeWhile_prefix _)
    · exact List.nil_prefix

/-- What is scanned and what is left are the text. -/
theorem scanNumber_text {text rest : List Char} {n : Number}
    (h : scanNumber text = some (n, rest)) :
    n.text ++ rest = text := by
  unfold scanNumber at h
  dsimp only at h
  split_ifs at h
  obtain ⟨rfl, rfl⟩ := Prod.mk.inj (Option.some.inj h)
  unfold Number.text
  simp only [List.append_assoc]
  rw [append_drop_of_isPrefix (isPrefix_exponent _), append_drop_of_isPrefix (isPrefix_fraction _),
    append_drop_of_isPrefix (isPrefix_whole _), append_drop_of_isPrefix (isPrefix_sign _)]

theorem drop_append_of_isPrefix {part text rest : List Char} (h : part <+: text) :
    (text ++ rest).drop part.length = text.drop part.length ++ rest :=
  List.drop_append_of_le_length h.length_le

/-- A number is scanned in the same way before a text that does not go on with it. -/
theorem scanNumber_append {text rest : List Char} (h : NumberEnd rest) :
    scanNumber (text ++ rest) = (scanNumber text).map fun p => (p.1, p.2 ++ rest) := by
  unfold scanNumber
  dsimp only
  rw [sign_append h, drop_append_of_isPrefix (isPrefix_sign text), whole_append h,
    drop_append_of_isPrefix (isPrefix_whole _), fraction_append h,
    drop_append_of_isPrefix (isPrefix_fraction _), exponent_append h,
    drop_append_of_isPrefix (isPrefix_exponent _)]
  split_ifs <;> rfl

/-- A positive number has no leading zero. -/
theorem head?_toDigits (m : ℕ) : m = 0 ∨ (Nat.toDigits 10 m).head? ≠ some '0' := by
  induction m using Nat.base_induction 10 (by decide) with
  | single m hm =>
    have hdigit : ∀ d < 10, d = 0 ∨ [Nat.digitChar d].head? ≠ some '0' := by decide
    rw [Nat.toDigits_of_lt_base hm]
    exact hdigit m hm
  | digit m k hk hm ih =>
    right
    rw [← Nat.toDigits_append_toDigits (by decide) hm hk, List.head?_append]
    rcases ih with rfl | ih
    · omega
    · cases hdigits : Nat.toDigits 10 m with
      | nil => exact absurd hdigits Nat.toDigits_ne_nil
      | cons c digits => simpa [hdigits] using ih

theorem isDigit_toDigits {m : ℕ} {c : Char} (h : c ∈ Nat.toDigits 10 m) : c.isDigit = true :=
  Nat.isDigit_of_mem_toDigits (by decide) (by decide) h

theorem whole_toDigits (m : ℕ) : whole (Nat.toDigits 10 m) = Nat.toDigits 10 m := by
  have hall : (Nat.toDigits 10 m).takeWhile Char.isDigit = Nat.toDigits 10 m :=
    List.takeWhile_eq_self_iff.mpr fun c hc => isDigit_toDigits hc
  rcases head?_toDigits m with rfl | hhead
  · rfl
  · cases hdigits : Nat.toDigits 10 m with
    | nil => rfl
    | cons c digits =>
      rw [hdigits] at hhead hall
      have hc : c ≠ '0' := fun heq => hhead (by rw [heq]; rfl)
      rw [whole_cons_of_ne hc, hall]

theorem sign_toDigits (m : ℕ) : sign (Nat.toDigits 10 m) = [] := by
  cases hdigits : Nat.toDigits 10 m with
  | nil => rfl
  | cons c digits =>
    have hdigit : c.isDigit = true := isDigit_toDigits (hdigits ▸ List.mem_cons_self)
    have hc : c ≠ '-' := by
      rintro rfl
      simp at hdigit
    simp [sign, hc]

/-- The token of an integer is the integer. -/
theorem scanNumber_intText (z : ℤ) : ∃ n, scanNumber (intText z) = some (n, []) ∧
    n.isFloat = false ∧ n.whole.length = digitCount z ∧ n.toInt = z := by
  have hne : Nat.toDigits 10 z.natAbs ≠ [] := Nat.toDigits_ne_nil
  by_cases hz : z < 0
  · refine ⟨⟨['-'], Nat.toDigits 10 z.natAbs, [], []⟩, ?_, rfl, rfl, ?_⟩
    · simp [intText, hz, scanNumber, sign, whole_toDigits, hne, fraction, exponent]
    · simp only [Number.toInt, Nat.ofDigitChars_ten_toDigits]
      rw [if_neg (by simp)]
      omega
  · refine ⟨⟨[], Nat.toDigits 10 z.natAbs, [], []⟩, ?_, rfl, rfl, ?_⟩
    · simp [intText, hz, scanNumber, sign_toDigits, whole_toDigits, hne, fraction, exponent]
    · simp only [Number.toInt, Nat.ofDigitChars_ten_toDigits, if_true]
      omega

/-! ### Strings -/

@[simp] theorem runes_nil : runes [] = [] := rfl

@[simp] theorem runes_cons (c : Char) (text : List Char) :
    runes (c :: text) = .char c :: runes text := rfl

@[simp] theorem runes_append (a b : List Char) : runes (a ++ b) = runes a ++ runes b :=
  List.map_append

@[simp] theorem length_runes (text : List Char) : (runes text).length = text.length :=
  List.length_map _

@[simp] theorem lit_inj {a b : String} : lit a = lit b ↔ a = b := by
  unfold lit runes
  rw [List.map_inj_right fun c d h => Rune.char.inj h, String.toList_inj]

theorem isHigh_toNat (c : Char) : isHigh c.toNat = false := by
  have hvalid : c.toNat < 0xd800 ∨ 0xdfff < c.toNat ∧ c.toNat < 0x110000 := c.valid
  simp only [isHigh, Bool.and_eq_false_iff, decide_eq_false_iff_not]
  omega

theorem unpaired_runes (text : List Char) : Unpaired (runes text) := by
  induction text with
  | nil => exact .nil
  | cons c text ih =>
    cases text with
    | nil => exact .singleton _
    | cons d text => exact .cons_cons (by simp [Rune.code, isHigh_toNat]) ih

@[simp] theorem unpaired_lit (s : String) : Unpaired (lit s) := unpaired_runes _

theorem plain_append (text : List Char) (rest : Text) :
    plain (runes text ++ rest) = text ++ plain rest := by
  induction text with
  | nil => rfl
  | cons c text ih => rw [runes_cons, List.cons_append, plain, ih, List.cons_append]

theorem hexValue_digitChar : ∀ d < 16, hexValue (.char (Nat.digitChar d)) = some d := by
  decide

theorem scanPieces_unit {n : ℕ} (h : n < 65536) (rest : Text) :
    scanPieces (runes (unitText n) ++ rest) =
      (scanPieces rest).map fun p => (.unit n :: p.1, p.2) := by
  have hunit : hexUnit (.char (Nat.digitChar (n / 4096))) (.char (Nat.digitChar (n / 256 % 16)))
      (.char (Nat.digitChar (n / 16 % 16))) (.char (Nat.digitChar (n % 16))) = some n := by
    unfold hexUnit
    rw [hexValue_digitChar _ (by omega), hexValue_digitChar _ (by omega),
      hexValue_digitChar _ (by omega), hexValue_digitChar _ (by omega)]
    simp only [Option.bind_eq_bind, Option.bind_some, Option.pure_def, Option.some.injEq]
    omega
  simp only [unitText, runes_cons, runes_nil, List.cons_append, List.nil_append, scanPieces, hunit,
    Option.bind_some]

/-- The pieces that a code point is written as. -/
def pieces : Rune → List Piece
  | .surrogate place => [.unit (0xd800 + place)]
  | .char c =>
    if (shortEscapes.lookup c).isSome ∨ (32 ≤ c.toNat ∧ c.toNat ≤ 126) then [.rune (.char c)]
    else if c.toNat < 65536 then [.unit c.toNat]
    else [.unit (0xd800 + (c.toNat - 65536) / 1024), .unit (0xdc00 + (c.toNat - 65536) % 1024)]

theorem unescape_of_shortEscapes {c e : Char} (h : shortEscapes.lookup c = some e) :
    unescape (.char e) = some c ∧ e ≠ 'u' := by
  have hall : ∀ p ∈ shortEscapes, unescape (.char p.2) = some p.1 ∧ p.2 ≠ 'u' := by decide
  obtain ⟨before, after, hlist, -⟩ := List.lookup_eq_some_iff.mp h
  exact hall (c, e) (hlist ▸ List.mem_append_right _ List.mem_cons_self)

theorem scanPieces_escape (r : Rune) (rest : Text) :
    scanPieces (runes (escape r) ++ rest) =
      (scanPieces rest).map fun p => (pieces r ++ p.1, p.2) := by
  cases r with
  | surrogate place => exact scanPieces_unit (by omega) rest
  | char c =>
    cases hshort : shortEscapes.lookup c with
    | some e =>
      obtain ⟨hback, hu⟩ := unescape_of_shortEscapes hshort
      simp [escape, pieces, hshort, scanPieces, hu, hback]
    | none =>
      by_cases hplain : 32 ≤ c.toNat ∧ c.toNat ≤ 126
      · have hquote : c ≠ '"' := by
          rintro rfl
          simp [shortEscapes] at hshort
        have hbackslash : c ≠ '\\' := by
          rintro rfl
          simp [shortEscapes] at hshort
        have hcontrol : ¬ (Rune.char c).code < 32 := by
          simp only [Rune.code]
          omega
        simp [escape, pieces, hshort, scanPieces, hplain, hquote, hbackslash, hcontrol]
      · simp only [escape, pieces, hshort, hplain, Option.isSome_none, Bool.false_eq_true, or_self,
          if_false]
        split_ifs with hsmall
        · rw [scanPieces_unit hsmall]
          rfl
        · have hmax : c.toNat < 0xd800 ∨ 0xdfff < c.toNat ∧ c.toNat < 0x110000 := c.valid
          rw [runes_append, List.append_assoc, scanPieces_unit (by omega),
            scanPieces_unit (by omega), Option.map_map]
          rfl

theorem scanPieces_flatMap (s : Text) (rest : Text) :
    scanPieces (runes (s.flatMap escape) ++ .char '"' :: rest) = some (s.flatMap pieces, rest) := by
  induction s with
  | nil => simp [scanPieces]
  | cons r s ih =>
    rw [List.flatMap_cons, runes_append, List.append_assoc, scanPieces_escape, ih]
    rfl

@[simp] theorem ofCode_toNat (c : Char) : Rune.ofCode c.toNat = .char c := by
  have hvalid : c.toNat < 0xd800 ∨ 0xdfff < c.toNat ∧ c.toNat < 0x110000 := c.valid
  unfold Rune.ofCode
  rw [dif_neg (by omega), Char.ofNat_toNat]

@[simp] theorem ofCode_surrogate (place : Fin 2048) :
    Rune.ofCode (0xd800 + place) = .surrogate place := by
  unfold Rune.ofCode
  rw [dif_pos (by omega)]
  exact congrArg Rune.surrogate (Fin.ext (Nat.add_sub_cancel_left _ _))

theorem joinPieces_unit {n : ℕ} {rest : List Piece}
    (h : isHigh n = true → ∀ m tail, rest = .unit m :: tail → isLow m = false) :
    joinPieces (.unit n :: rest) = Rune.ofCode n :: joinPieces rest := by
  cases rest with
  | nil => simp [joinPieces]
  | cons piece rest =>
    cases piece with
    | rune r => simp [joinPieces]
    | unit m =>
      have hpair : (isHigh n && isLow m) = false := by
        cases hn : isHigh n with
        | false => rfl
        | true => rw [h hn m rest rfl]; rfl
      simp [joinPieces, hpair]

theorem joinPieces_pieces {r : Rune} {rest : List Piece}
    (h : isHigh r.code = true → ∀ m tail, rest = .unit m :: tail → isLow m = false) :
    joinPieces (pieces r ++ rest) = r :: joinPieces rest := by
  cases r with
  | surrogate place =>
    have hunit : joinPieces (.unit (0xd800 + place) :: rest) =
        Rune.ofCode (0xd800 + place) :: joinPieces rest := joinPieces_unit h
    rw [pieces, List.singleton_append, hunit, ofCode_surrogate]
  | char c =>
    have hvalid : c.toNat < 0xd800 ∨ 0xdfff < c.toNat ∧ c.toNat < 0x110000 := c.valid
    rw [pieces]
    split_ifs with hchar hsmall
    · simp [joinPieces]
    · have hunit : joinPieces (.unit c.toNat :: rest) = Rune.ofCode c.toNat :: joinPieces rest :=
        joinPieces_unit h
      rw [List.singleton_append, hunit, ofCode_toNat]
    · have hpair : (isHigh (0xd800 + (c.toNat - 65536) / 1024) &&
          isLow (0xdc00 + (c.toNat - 65536) % 1024)) = true := by
        simp only [isHigh, isLow, Bool.and_eq_true, decide_eq_true_eq]
        omega
      have hback : 65536 + (0xd800 + (c.toNat - 65536) / 1024 - 0xd800) * 1024 +
          (0xdc00 + (c.toNat - 65536) % 1024 - 0xdc00) = c.toNat := by
        omega
      rw [List.cons_append, List.singleton_append, joinPieces, if_pos hpair, hback, ofCode_toNat]

/-- Only a low surrogate is written as one in front. -/
theorem isLow_code {r : Rune} {rest tail : List Piece} {m : ℕ}
    (h : pieces r ++ rest = .unit m :: tail) (hlow : isLow m = true) : isLow r.code = true := by
  cases r with
  | surrogate place =>
    obtain ⟨hm, -⟩ := List.cons.inj h
    obtain rfl := Piece.unit.inj hm
    exact hlow
  | char c =>
    rw [pieces] at h
    split_ifs at h with hchar hsmall
    · cases (List.cons.inj h).1
    · obtain rfl := Piece.unit.inj (List.cons.inj h).1
      exact hlow
    · obtain rfl := Piece.unit.inj (List.cons.inj h).1
      have hvalid : c.toNat < 0xd800 ∨ 0xdfff < c.toNat ∧ c.toNat < 0x110000 := c.valid
      simp only [isLow, Bool.and_eq_true, decide_eq_true_eq] at hlow
      omega

theorem joinPieces_flatMap {s : Text} (h : Unpaired s) : joinPieces (s.flatMap pieces) = s := by
  induction s with
  | nil => rfl
  | cons r s ih =>
    unfold Unpaired at h
    rw [List.flatMap_cons, joinPieces_pieces, ih]
    · cases h with
      | singleton => exact .nil
      | cons_cons _ h => exact h
    · intro hhigh m tail htail
      cases h with
      | singleton => cases htail
      | @cons_cons _ r' s hpair h =>
        rw [List.flatMap_cons] at htail
        cases hlow : isLow m with
        | false => rfl
        | true => exact absurd ⟨hhigh, isLow_code htail hlow⟩ hpair

/-- A quoted string is read back, whatever follows it. -/
theorem scanString_quoted {s : Text} (h : Unpaired s) (rest : Text) :
    ∃ body, runes (quoted s) ++ rest = .char '"' :: body ∧ scanString body = some (s, rest) := by
  refine ⟨runes (s.flatMap escape) ++ .char '"' :: rest, by simp [quoted], ?_⟩
  unfold scanString
  rw [scanPieces_flatMap, Option.map_some, joinPieces_flatMap h]

/-! ### Values -/

mutual

/-- The keys of each object are distinct, as in every dictionary, and no string has a pair of
surrogates. -/
def Valid : Value F → Prop
  | .str s => Unpaired s
  | .arr items => ItemsValid items
  | .obj fields => (fields.map Prod.fst).Nodup ∧ FieldsValid fields
  | _ => True

def ItemsValid : List (Value F) → Prop
  | [] => True
  | value :: rest => Valid value ∧ ItemsValid rest

def FieldsValid : List (Text × Value F) → Prop
  | [] => True
  | (key, value) :: rest => Unpaired key ∧ Valid value ∧ FieldsValid rest

end

theorem put_of_fresh {d : List (Text × Value F)} {key : Text} (value : Value F)
    (h : key ∉ d.map Prod.fst) : Dictionary.put d key value = d ++ [(key, value)] := by
  unfold Dictionary.put
  rw [if_neg (Dictionary.any_eq_true_iff.not.mpr h)]

/-- Pairs with distinct keys are the dictionary. -/
theorem dictOf_of_nodup {pairs : List (Text × Value F)} (h : (pairs.map Prod.fst).Nodup) :
    dictOf pairs = pairs := by
  have go : ∀ (pairs d : List (Text × Value F)), ((d ++ pairs).map Prod.fst).Nodup →
      pairs.foldl (fun d pair => Dictionary.put d pair.1 pair.2) d = d ++ pairs := by
    intro pairs
    induction pairs with
    | nil => simp
    | cons pair pairs ih =>
      intro d hd
      have hfresh : pair.1 ∉ d.map Prod.fst := by
        rw [List.map_append, List.map_cons, List.nodup_append] at hd
        exact fun hmem => hd.2.2 _ hmem _ List.mem_cons_self rfl
      rw [List.foldl_cons, put_of_fresh _ hfresh, ih _ (by simpa using hd)]
      simp
  exact go pairs [] (by simpa using h)

/-- A number starts with its sign or a digit. -/
theorem scanNumber_head {text : List Char} {p : Number × List Char}
    (h : scanNumber text = some p) : ∃ c rest, text = c :: rest ∧ (c = '-' ∨ c.isDigit = true) := by
  cases text with
  | nil => simp [scanNumber, whole] at h
  | cons c rest =>
    refine ⟨c, rest, rfl, ?_⟩
    by_contra hne
    obtain ⟨hminus, hdigit⟩ := not_or.mp hne
    have hzero : c ≠ '0' := by
      rintro rfl
      simp at hdigit
    have hsign : sign (c :: rest) = [] := by simp [sign, hminus]
    have hwhole : whole (c :: rest) = [] := by
      rw [whole_cons_of_ne hzero, List.takeWhile_cons_of_neg hdigit]
    simp [scanNumber, hsign, hwhole] at h

variable (py : Interpreter F)

/-- The text of a number is a token of its own before a text that does not go on with it. -/
theorem scanAtom_number {text : List Char} {rest : Text} {n : Number}
    (h : scanNumber text = some (n, [])) (hrest : NumberEnd (plain rest)) :
    scanAtom py (runes text ++ rest) = (n.value py).map fun value => (value, rest) := by
  have htext : n.text = text := by
    rw [← scanNumber_text h, List.append_nil]
  unfold scanAtom
  rw [plain_append, scanNumber_append hrest, h]
  simp only [Option.map_some, htext]
  rw [← length_runes, List.drop_left]

/-- The names of the constants are read as such. -/
theorem scanAtom_constant {named : List Char × Value F} (h : named ∈ constants py)
    (rest : Text) : scanAtom py (runes named.1 ++ rest) = .ok (named.2, rest) := by
  have hnone : scanNumber (named.1 ++ plain rest) = none := by
    simp only [constants, List.mem_cons, List.not_mem_nil, or_false] at h
    rcases h with rfl | rfl | rfl | rfl | rfl | rfl <;> simp [scanNumber, sign, whole]
  have hfind : (constants py).find? (fun constant => constant.1.isPrefixOf
      (named.1 ++ plain rest)) = some named := by
    simp only [constants, List.mem_cons, List.not_mem_nil, or_false] at h
    rcases h with rfl | rfl | rfl | rfl | rfl | rfl <;> simp [constants]
  unfold scanAtom
  rw [plain_append, hnone]
  simp only
  rw [hfind]
  simp only [orInvalid, Except.map]
  rw [← length_runes, List.drop_left]

/-- A number or a constant with what follows it. -/
theorem scanOnce_atom {c : Char} {n room : ℕ} {text : Text} (hc : c ≠ '"' ∧ c ≠ '[' ∧ c ≠ '{') :
    scanOnce py (n + 1) room (.char c :: text) = scanAtom py (.char c :: text) := by
  simp [scanOnce, hc]

def AtomHead (c : Char) : Prop :=
  isBlank (.char c) = false ∧ c ≠ ']' ∧ c ≠ '"' ∧ c ≠ '[' ∧ c ≠ '{'

theorem atomHead_of_number {c : Char} (h : c = '-' ∨ c.isDigit = true) : AtomHead c := by
  rcases h with rfl | hdigit
  · exact ⟨rfl, by decide, by decide, by decide, by decide⟩
  · have hne : ∀ d : Char, d.isDigit = false → c ≠ d := by
      rintro d hd rfl
      simp [hd] at hdigit
    refine ⟨?_, hne _ rfl, hne _ rfl, hne _ rfl, hne _ rfl⟩
    simp [isBlank, hne ' ' rfl, hne '\t' rfl, hne '\n' rfl, hne '\r' rfl]

theorem head_constant {named : List Char × Value F} (h : named ∈ constants py) :
    ∃ c text, named.1 = c :: text ∧ AtomHead c := by
  simp only [constants, List.mem_cons, List.not_mem_nil, or_false] at h
  rcases h with rfl | rfl | rfl | rfl | rfl | rfl <;>
    exact ⟨_, _, rfl, rfl, by decide, by decide, by decide, by decide⟩

/-- What is written for numbers and constants is one token, which is read as the value if it may be
read at all. -/
structure AtomText (text : List Char) (value : Value F) : Prop where
  head : ∃ c rest, text = c :: rest ∧ AtomHead c
  scan : ∀ room rest, NumberEnd (plain rest) → scanAtom py (runes text ++ rest) =
    (inspect py.maxDigits room value).map fun _ => (value, rest)

theorem atomText_constant {text : List Char} {value : Value F}
    (h : (text, value) ∈ constants py) : AtomText py text value := by
  refine ⟨head_constant py h, fun room rest _ => (scanAtom_constant py h rest).trans ?_⟩
  simp only [constants, List.mem_cons, List.not_mem_nil, or_false, Prod.mk.injEq] at h
  rcases h with ⟨-, rfl⟩ | ⟨-, rfl⟩ | ⟨-, rfl⟩ | ⟨-, rfl⟩ | ⟨-, rfl⟩ | ⟨-, rfl⟩ <;>
    simp [inspect, Except.map]

theorem atomText_int (z : ℤ) : AtomText py (intText z) (.int z) := by
  obtain ⟨n, hscan, hfloat, hdigits, hint⟩ := scanNumber_intText z
  constructor
  · obtain ⟨c, rest, htext, hc⟩ := scanNumber_head hscan
    exact ⟨c, rest, htext, atomHead_of_number hc⟩
  · intro room rest hrest
    rw [scanAtom_number py hscan hrest, Number.value, if_neg (by simp [hfloat]), hdigits, hint,
      inspect]
    split_ifs <;> rfl

theorem atomText_float (x : F) : AtomText py (py.text x) (.float x) := by
  rcases py.read_text x with ⟨n, hscan, hfloat, hback⟩ | ⟨htext, rfl⟩ | ⟨htext, rfl⟩ | ⟨htext, rfl⟩
  · have htext : n.text = py.text x := by
      rw [← scanNumber_text hscan, List.append_nil]
    constructor
    · obtain ⟨c, rest, htext, hc⟩ := scanNumber_head hscan
      exact ⟨c, rest, htext, atomHead_of_number hc⟩
    · intro room rest hrest
      rw [scanAtom_number py hscan hrest, Number.value, if_pos hfloat, htext, hback]
      simp only [inspect]
      rfl
  all_goals
    rw [htext]
    exact atomText_constant py (by simp [constants])

/-- A value starts with a character that is neither a blank nor the end of a list. -/
theorem head_render (value : Value F) :
    ∃ c text, render py value = c :: text ∧ isBlank (.char c) = false ∧ c ≠ ']' := by
  have of_atom : ∀ {text : List Char} {value : Value F}, AtomText py text value →
      ∃ c rest, text = c :: rest ∧ isBlank (.char c) = false ∧ c ≠ ']' := by
    intro text value h
    obtain ⟨c, rest, htext, hc⟩ := h.head
    exact ⟨c, rest, htext, hc.1, hc.2.1⟩
  cases value with
  | null => exact ⟨_, _, by rw [render], rfl, by decide⟩
  | bool b => cases b <;> exact ⟨_, _, by rw [render], rfl, by decide⟩
  | int z => rw [render]; exact of_atom (atomText_int py z)
  | float x => rw [render]; exact of_atom (atomText_float py x)
  | str s => exact ⟨_, _, by rw [render, quoted, List.cons_append], rfl, by decide⟩
  | arr items => exact ⟨_, _, by rw [render], rfl, by decide⟩
  | obj fields => exact ⟨_, _, by rw [render], rfl, by decide⟩

theorem skip_cons {r : Rune} {text : Text} (h : isBlank r = false) :
    skip (r :: text) = r :: text := by
  unfold skip
  rw [List.dropWhile_cons_of_neg (by simp [h])]

theorem skip_render (value : Value F) (rest : Text) :
    skip (runes (render py value) ++ rest) = runes (render py value) ++ rest := by
  obtain ⟨c, text, htext, hblank, -⟩ := head_render py value
  rw [htext, runes_cons, List.cons_append, skip_cons hblank]

theorem length_render_pos (value : Value F) : 0 < (render py value).length := by
  obtain ⟨c, text, htext, -⟩ := head_render py value
  simp [htext]

/-- The items that follow one: the end, or a comma and the next. -/
theorem renderItems_comma (value : Value F) (items : List (Value F)) :
    renderItems py [','] (value :: items) = ',' :: renderItems py [] (value :: items) := by
  simp [renderItems]

theorem renderFields_comma (field : Text × Value F) (fields : List (Text × Value F)) :
    renderFields py [','] (field :: fields) = ',' :: renderFields py [] (field :: fields) := by
  simp [renderFields]

theorem skip_renderItems (value : Value F) (items : List (Value F)) (rest : Text) :
    skip (runes (renderItems py [] (value :: items)) ++ rest) =
      runes (renderItems py [] (value :: items)) ++ rest := by
  simp only [renderItems, List.nil_append, runes_append, List.append_assoc, skip_render]

theorem skip_renderFields (field : Text × Value F) (fields : List (Text × Value F)) (rest : Text) :
    skip (runes (renderFields py [] (field :: fields)) ++ rest) =
      runes (renderFields py [] (field :: fields)) ++ rest := by
  simp only [renderFields, quoted, List.nil_append, List.cons_append, runes_cons,
    skip_cons (show isBlank (.char '"') = false from rfl)]

theorem scanOnce_atomText {text : List Char} {value : Value F} (h : AtomText py text value)
    {n : ℕ} (hn : text.length ≤ n) (room : ℕ) {rest : Text} (hrest : NumberEnd (plain rest)) :
    scanOnce py n room (runes text ++ rest) =
      (inspect py.maxDigits room value).map fun _ => (value, rest) := by
  have hscan := h.scan room rest hrest
  obtain ⟨c, tail, rfl, hc⟩ := h.head
  cases n with
  | zero => simp at hn
  | succ n =>
    rw [runes_cons, List.cons_append] at hscan ⊢
    rw [scanOnce_atom py hc.2.2, hscan]

mutual

/-- A value is read back in front of any text that does not go on with it, or refused where the
interpreter cannot go through it. -/
theorem scanOnce_render : ∀ (value : Value F), Valid value → ∀ (n room : ℕ) (rest : Text),
    (render py value).length ≤ n → NumberEnd (plain rest) →
      scanOnce py n room (runes (render py value) ++ rest) =
        (inspect py.maxDigits room value).map fun _ => (value, rest)
  | .null, _, n, room, rest, hn, hrest =>
    scanOnce_atomText py (atomText_constant py (by simp [constants, render])) hn room hrest
  | .bool true, _, n, room, rest, hn, hrest =>
    scanOnce_atomText py (atomText_constant py (by simp [constants, render])) hn room hrest
  | .bool false, _, n, room, rest, hn, hrest =>
    scanOnce_atomText py (atomText_constant py (by simp [constants, render])) hn room hrest
  | .int z, _, n, room, rest, hn, hrest => by
    rw [render] at hn ⊢
    exact scanOnce_atomText py (atomText_int py z) hn room hrest
  | .float x, _, n, room, rest, hn, hrest => by
    rw [render] at hn ⊢
    exact scanOnce_atomText py (atomText_float py x) hn room hrest
  | .str s, _, 0, room, rest, hn, _ => by simp [render, quoted] at hn
  | .str s, hvalid, n + 1, room, rest, _, _ => by
    obtain ⟨body, hbody, hscan⟩ := scanString_quoted (by simpa [Valid] using hvalid) rest
    rw [render, hbody]
    simp only [scanOnce, hscan, inspect]
    rfl
  | .arr items, _, 0, room, rest, hn, _ => by simp [render] at hn
  | .arr items, _, n + 1, 0, rest, _, _ => by
    rw [render, runes_cons, List.cons_append, scanOnce, inspect]
    rfl
  | .arr [], _, n + 1, room + 1, rest, _, _ => by
    simp [render, renderItems, scanOnce, skip_cons (show isBlank (.char ']') = false from rfl),
      inspect, inspectItems, Except.map]
  | .arr (value :: items), hvalid, n + 1, room + 1, rest, hn, hrest => by
    rw [render, List.length_cons] at hn
    have hitems := scanItems_render (value :: items) (by simp) (by simpa [Valid] using hvalid) n
      room rest (by omega)
    obtain ⟨c, text, htext, hblank, hclose⟩ := head_render py value
    have hhead : (runes (renderItems py [] (value :: items)) ++ rest).head? ≠
        some (.char ']') := by
      simp [renderItems, htext, hclose]
    rw [render, runes_cons, List.cons_append, scanOnce, if_neg (by omega), skip_renderItems,
      if_neg hhead, Nat.add_sub_cancel, hitems, inspect, if_neg (by omega), Nat.add_sub_cancel]
    cases inspectItems py.maxDigits room (value :: items) <;> rfl
  | .obj fields, _, 0, room, rest, hn, _ => by simp [render] at hn
  | .obj fields, _, n + 1, 0, rest, _, _ => by
    rw [render, runes_cons, List.cons_append, scanOnce, inspect]
    rfl
  | .obj [], _, n + 1, room + 1, rest, _, _ => by
    simp [render, renderFields, scanOnce, skip_cons (show isBlank (.char '}') = false from rfl),
      inspect, inspectFields, Except.map]
  | .obj (field :: fields), hvalid, n + 1, room + 1, rest, hn, _ => by
    rw [render, List.length_cons] at hn
    rw [Valid] at hvalid
    have hfields := scanFields_render (field :: fields) (by simp) hvalid.2 n room rest (by omega)
    have hhead : (runes (renderFields py [] (field :: fields)) ++ rest).head? ≠
        some (.char '}') := by
      simp [renderFields, quoted]
    rw [render, runes_cons, List.cons_append, scanOnce, if_neg (by omega), skip_renderFields,
      if_neg hhead, Nat.add_sub_cancel, hfields, inspect, if_neg (by omega), Nat.add_sub_cancel]
    cases inspectFields py.maxDigits room (field :: fields) with
    | error e => rfl
    | ok _ => simp only [Except.map, dictOf_of_nodup hvalid.1]

theorem scanItems_render : ∀ (items : List (Value F)), items ≠ [] → ItemsValid items →
    ∀ (n room : ℕ) (rest : Text), (renderItems py [] items).length ≤ n →
      scanItems py n room (runes (renderItems py [] items) ++ rest) =
        (inspectItems py.maxDigits room items).map fun _ => (items, rest)
  | [], hne, _, _, _, _, _ => absurd rfl hne
  | value :: items, _, hvalid, 0, room, rest, hn => by
    have hpos := length_render_pos py value
    simp only [renderItems, List.nil_append, List.length_append] at hn
    omega
  | [value], _, hvalid, n + 1, room, rest, hn => by
    have hvalue := scanOnce_render value hvalid.1 n room (.char ']' :: rest)
      (by simpa [renderItems] using hn) (.cons (by decide))
    simp only [renderItems, List.nil_append, runes_append, runes_cons, runes_nil,
      List.append_assoc, List.cons_append]
    rw [scanItems, hvalue, inspectItems, inspectItems]
    cases inspect py.maxDigits room value with
    | error e => rfl
    | ok _ => simp [Except.bind, Except.map, skip_cons (show isBlank (.char ']') = false from rfl)]
  | value :: next :: items, _, hvalid, n + 1, room, rest, hn => by
    have hlen : (renderItems py [] (value :: next :: items)).length =
        (render py value).length + (1 + (renderItems py [] (next :: items)).length) := by
      rw [renderItems, List.nil_append, List.length_append, renderItems_comma, List.length_cons]
      omega
    have hvalue := scanOnce_render value hvalid.1 n room
      (.char ',' :: (runes (renderItems py [] (next :: items)) ++ rest)) (by omega)
      (.cons (by decide))
    have hitems := scanItems_render (next :: items) (by simp) hvalid.2 n room rest (by omega)
    rw [renderItems, List.nil_append, runes_append, List.append_assoc, renderItems_comma,
      runes_cons, List.cons_append, scanItems, hvalue, inspectItems]
    cases inspect py.maxDigits room value with
    | error e => rfl
    | ok _ =>
      simp only [Except.bind, Except.map, skip_cons (show isBlank (.char ',') = false from rfl),
        skip_renderItems]
      rw [hitems]
      cases inspectItems py.maxDigits room (next :: items) <;> rfl

theorem scanFields_render : ∀ (fields : List (Text × Value F)), fields ≠ [] → FieldsValid fields →
    ∀ (n room : ℕ) (rest : Text), (renderFields py [] fields).length ≤ n →
      scanFields py n room (runes (renderFields py [] fields) ++ rest) =
        (inspectFields py.maxDigits room fields).map fun _ => (fields, rest)
  | [], hne, _, _, _, _, _ => absurd rfl hne
  | (key, value) :: fields, _, hvalid, 0, room, rest, hn => by
    simp [renderFields, quoted] at hn
  | [(key, value)], _, hvalid, n + 1, room, rest, hn => by
    have hlen : (renderFields py [] [(key, value)]).length =
        (quoted key).length + (1 + (render py value).length) + 1 := by
      simp [renderFields]
      omega
    have hvalue := scanOnce_render value hvalid.2.1 n room (.char '}' :: rest) (by omega)
      (.cons (by decide))
    obtain ⟨body, hbody, hkey⟩ := scanString_quoted hvalid.1
      (.char ':' :: (runes (render py value) ++ .char '}' :: rest))
    simp only [renderFields, List.nil_append, runes_append, runes_cons, runes_nil,
      List.append_assoc, List.cons_append]
    rw [hbody, scanFields, hkey]
    simp only [orInvalid, Except.bind, skip_cons (show isBlank (.char ':') = false from rfl),
      skip_render]
    rw [hvalue, inspectFields, inspectFields]
    cases inspect py.maxDigits room value with
    | error e => rfl
    | ok _ => simp [Except.bind, Except.map, skip_cons (show isBlank (.char '}') = false from rfl)]
  | (key, value) :: next :: fields, _, hvalid, n + 1, room, rest, hn => by
    have hlen : (renderFields py [] ((key, value) :: next :: fields)).length =
        (quoted key).length + (1 + (render py value).length) +
          (1 + (renderFields py [] (next :: fields)).length) := by
      rw [renderFields, renderFields_comma]
      simp only [List.nil_append, List.length_append, List.length_cons]
      omega
    have hvalue := scanOnce_render value hvalid.2.1 n room
      (.char ',' :: (runes (renderFields py [] (next :: fields)) ++ rest)) (by omega)
      (.cons (by decide))
    have hfields := scanFields_render (next :: fields) (by simp) hvalid.2.2 n room rest (by omega)
    obtain ⟨body, hbody, hkey⟩ := scanString_quoted hvalid.1 (.char ':' :: (runes (render py value)
      ++ .char ',' :: (runes (renderFields py [] (next :: fields)) ++ rest)))
    rw [renderFields, renderFields_comma]
    simp only [List.nil_append, runes_append, runes_cons, List.append_assoc, List.cons_append]
    rw [hbody, scanFields, hkey]
    simp only [orInvalid, Except.bind, skip_cons (show isBlank (.char ':') = false from rfl),
      skip_render]
    rw [hvalue, inspectFields]
    cases inspect py.maxDigits room value with
    | error e => rfl
    | ok _ =>
      simp only [Except.bind, Except.map, skip_cons (show isBlank (.char ',') = false from rfl),
        skip_renderFields]
      rw [hfields]
      cases inspectFields py.maxDigits room (next :: fields) <;> rfl

end

/-- `json.loads` of the text of a value is the value, unless the limits keep it from being read. -/
theorem loadsText_render {value : Value F} (h : Valid value) :
    loadsText py (runes (render py value)) =
      (inspect py.maxDigits py.scanRoom value).map fun _ => value := by
  have hscan := scanOnce_render py value h (2 * (runes (render py value)).length + 2) py.scanRoom []
    (by rw [length_runes]; omega) .nil
  have hskip := skip_render py value []
  rw [List.append_nil] at hscan hskip
  unfold loadsText
  rw [hskip, hscan]
  cases inspect py.maxDigits py.scanRoom value <;> rfl

/-! ### Limits -/

mutual

theorem inspect_eq_ok {digits : ℕ} : ∀ {room : ℕ} {value : Value F},
    inspect digits room value = .ok () ↔ Within digits room value
  | room, .null | room, .bool _ | room, .float _ | room, .str _ => by simp [inspect, Within]
  | room, .int z => by
    rw [inspect, Within]
    split_ifs with h <;> simp [h]
  | room, .arr items => by
    rw [inspect, Within, ← inspectItems_eq_ok]
    split_ifs with h
    · simp [h]
    · simp [Nat.pos_of_ne_zero h]
  | room, .obj fields => by
    rw [inspect, Within, ← inspectFields_eq_ok]
    split_ifs with h
    · simp [h]
    · simp [Nat.pos_of_ne_zero h]

theorem inspectItems_eq_ok {digits : ℕ} : ∀ {room : ℕ} {items : List (Value F)},
    inspectItems digits room items = .ok () ↔ ItemsWithin digits room items
  | _, [] => by simp [inspectItems, ItemsWithin]
  | room, value :: rest => by
    rw [inspectItems, ItemsWithin, ← inspect_eq_ok, ← inspectItems_eq_ok]
    cases inspect digits room value <;> simp [Except.bind]

theorem inspectFields_eq_ok {digits : ℕ} : ∀ {room : ℕ} {fields : List (Text × Value F)},
    inspectFields digits room fields = .ok () ↔ FieldsWithin digits room fields
  | _, [] => by simp [inspectFields, FieldsWithin]
  | room, (key, value) :: rest => by
    rw [inspectFields, FieldsWithin, ← inspect_eq_ok, ← inspectFields_eq_ok]
    cases inspect digits room value <;> simp [Except.bind]

end

end JsonText
