import AgentDemo.Library.JsonRoundTrip

/-! JSON texts as bytes: `json.loads` finds out the encoding and lets surrogates pass. -/
namespace JsonText

/-! ### Decoding -/

def isTail (b : UInt8) : Bool := 0x80 ≤ b && b ≤ 0xbf

def twoBytes (a b : UInt8) : Option ℕ :=
  if 0xc2 ≤ a ∧ a ≤ 0xdf ∧ isTail b then some ((a.toNat - 0xc0) * 64 + (b.toNat - 0x80)) else none

def threeBytes (a b c : UInt8) : Option ℕ :=
  let n := (a.toNat - 0xe0) * 4096 + (b.toNat - 0x80) * 64 + (c.toNat - 0x80)
  if 0xe0 ≤ a ∧ a ≤ 0xef ∧ isTail b ∧ isTail c ∧ 0x800 ≤ n then some n else none

def fourBytes (a b c d : UInt8) : Option ℕ :=
  let n := (a.toNat - 0xf0) * 262144 + (b.toNat - 0x80) * 4096 + (c.toNat - 0x80) * 64 +
    (d.toNat - 0x80)
  if 0xf0 ≤ a ∧ a ≤ 0xf4 ∧ isTail b ∧ isTail c ∧ isTail d ∧ 0x10000 ≤ n ∧ n < 0x110000 then some n
  else none

/-- UTF-8, in which three bytes may give a surrogate. -/
def decodeUtf8 : List UInt8 → Option Text
  | [] => some []
  | a :: rest =>
    if a < 0x80 then (decodeUtf8 rest).map (Rune.ofCode a.toNat :: ·)
    else
      match rest with
      | [] => none
      | b :: rest =>
        match twoBytes a b with
        | some n => (decodeUtf8 rest).map (Rune.ofCode n :: ·)
        | none =>
          match rest with
          | [] => none
          | c :: rest =>
            match threeBytes a b c with
            | some n => (decodeUtf8 rest).map (Rune.ofCode n :: ·)
            | none =>
              match rest with
              | [] => none
              | d :: rest =>
                (fourBytes a b c d).bind fun n => (decodeUtf8 rest).map (Rune.ofCode n :: ·)

def unitsOf (big : Bool) : List UInt8 → Option (List ℕ)
  | [] => some []
  | [_] => none
  | a :: b :: rest =>
    (unitsOf big rest).map
      ((if big then a.toNat * 256 + b.toNat else b.toNat * 256 + a.toNat) :: ·)

def decodeUtf16 (big : Bool) (bytes : List UInt8) : Option Text :=
  (unitsOf big bytes).map fun units => joinPieces (units.map .unit)

def decodeUtf32 (big : Bool) : List UInt8 → Option Text
  | [] => some []
  | a :: b :: c :: d :: rest =>
    let n := if big then ((a.toNat * 256 + b.toNat) * 256 + c.toNat) * 256 + d.toNat
      else ((d.toNat * 256 + c.toNat) * 256 + b.toNat) * 256 + a.toNat
    if n < 0x110000 then (decodeUtf32 big rest).map (Rune.ofCode n :: ·) else none
  | _ => none

inductive Encoding where
  | utf8
  | utf16 (big : Bool)
  | utf32 (big : Bool)

/-- `json.detect_encoding`, with the length of the byte order mark. -/
def detectEncoding (bytes : List UInt8) : Encoding × ℕ :=
  if [0, 0, 0xfe, 0xff].isPrefixOf bytes then (.utf32 true, 4)
  else if [0xff, 0xfe, 0, 0].isPrefixOf bytes then (.utf32 false, 4)
  else if [0xfe, 0xff].isPrefixOf bytes then (.utf16 true, 2)
  else if [0xff, 0xfe].isPrefixOf bytes then (.utf16 false, 2)
  else if [0xef, 0xbb, 0xbf].isPrefixOf bytes then (.utf8, 3)
  else
    match bytes with
    | a :: b :: c :: d :: _ =>
      if a = 0 then (if b = 0 then .utf32 true else .utf16 true, 0)
      else if b = 0 then (if c = 0 ∧ d = 0 then .utf32 false else .utf16 false, 0)
      else (.utf8, 0)
    | [a, b] => (if a = 0 then .utf16 true else if b = 0 then .utf16 false else .utf8, 0)
    | _ => (.utf8, 0)

/-- `bytes.decode(encoding, "surrogatepass")`. -/
def decodeAs (bytes : List UInt8) : Encoding → Option Text
  | .utf8 => decodeUtf8 bytes
  | .utf16 big => decodeUtf16 big bytes
  | .utf32 big => decodeUtf32 big bytes

variable {F : Type} (py : Interpreter F)

/-- `json.loads` of bytes. -/
def loads (bytes : List UInt8) : Except Failure (Value F) :=
  let detected := detectEncoding bytes
  (orInvalid (decodeAs (bytes.drop detected.2) detected.1)).bind (loadsText py)

/-! ### What is written is printable -/

def Printable (c : Char) : Prop := 32 ≤ c.toNat ∧ c.toNat ≤ 126

instance (c : Char) : Decidable (Printable c) := inferInstanceAs (Decidable (_ ∧ _))

theorem printable_of_mem {text : List Char} (hall : text.all fun c => decide (Printable c))
    {c : Char} (h : c ∈ text) : Printable c :=
  of_decide_eq_true (List.all_eq_true.mp hall c h)

theorem printable_digit {c : Char} (h : c.isDigit = true) : Printable c := by
  unfold Char.isDigit at h
  simp only [Bool.and_eq_true, decide_eq_true_eq] at h
  have hlow : 48 ≤ c.toNat := UInt32.le_iff_toNat_le.mp h.1
  have hhigh : c.toNat ≤ 57 := UInt32.le_iff_toNat_le.mp h.2
  constructor <;> omega

theorem printable_digits {text : List Char} {c : Char} (h : c ∈ text.takeWhile Char.isDigit) :
    Printable c :=
  printable_digit (List.mem_takeWhile_imp h)

theorem printable_sign {text : List Char} {c : Char} (h : c ∈ sign text) : Printable c := by
  unfold sign at h
  split at h
  · obtain rfl := List.mem_singleton.mp h
    decide
  · cases h

theorem printable_whole {text : List Char} {c : Char} (h : c ∈ whole text) : Printable c := by
  unfold whole at h
  split at h
  · obtain rfl := List.mem_singleton.mp h
    decide
  · exact printable_digits h

theorem printable_fraction {text : List Char} {c : Char} (h : c ∈ fraction text) :
    Printable c := by
  unfold fraction at h
  split at h
  · split_ifs at h
    · cases h
    · rcases List.mem_cons.mp h with rfl | h
      · decide
      · exact printable_digits h
  · cases h

theorem printable_exponent {text : List Char} {c : Char} (h : c ∈ exponent text) :
    Printable c := by
  cases text with
  | nil => cases h
  | cons e text =>
    rw [exponent] at h
    split_ifs at h with he
    · rcases List.mem_append.mp h with h | h
      · rcases List.mem_cons.mp h with rfl | h
        · rcases he.1 with rfl | rfl <;> decide
        · unfold exponentSign at h
          split at h
          · obtain rfl := List.mem_singleton.mp h
            decide
          · obtain rfl := List.mem_singleton.mp h
            decide
          · cases h
      · exact printable_digits h
    · cases h

theorem printable_number {text : List Char} {n : Number} (h : scanNumber text = some (n, []))
    {c : Char} (hc : c ∈ text) : Printable c := by
  rw [← scanNumber_text h, List.append_nil, Number.text] at hc
  unfold scanNumber at h
  dsimp only at h
  split_ifs at h
  obtain ⟨rfl, -⟩ := Prod.mk.inj (Option.some.inj h)
  simp only [List.mem_append] at hc
  rcases hc with ((hc | hc) | hc) | hc
  · exact printable_sign hc
  · exact printable_whole hc
  · exact printable_fraction hc
  · exact printable_exponent hc

theorem printable_intText {z : ℤ} {c : Char} (h : c ∈ intText z) : Printable c := by
  obtain ⟨n, hscan, -⟩ := scanNumber_intText z
  exact printable_number hscan h

theorem printable_unitText {n : ℕ} (hn : n < 65536) {c : Char} (h : c ∈ unitText n) :
    Printable c := by
  have hdigit : ∀ d < 16, Printable (Nat.digitChar d) := by decide
  simp only [unitText, List.mem_cons, List.not_mem_nil, or_false] at h
  rcases h with rfl | rfl | rfl | rfl | rfl | rfl
  · decide
  · decide
  all_goals exact hdigit _ (by omega)

theorem printable_escape {r : Rune} {c : Char} (h : c ∈ escape r) : Printable c := by
  cases r with
  | surrogate place => exact printable_unitText (by omega) h
  | char d =>
    unfold escape at h
    cases hshort : shortEscapes.lookup d with
    | some e =>
      have hall : ∀ p ∈ shortEscapes, Printable p.2 := by decide
      obtain ⟨before, after, hlist, -⟩ := List.lookup_eq_some_iff.mp hshort
      simp only [hshort, List.mem_cons, List.not_mem_nil, or_false] at h
      rcases h with rfl | rfl
      · decide
      · exact hall (d, c) (hlist ▸ List.mem_append_right _ List.mem_cons_self)
    | none =>
      have hmax : d.toNat < 0xd800 ∨ 0xdfff < d.toNat ∧ d.toNat < 0x110000 := d.valid
      simp only [hshort] at h
      split_ifs at h with hplain hsmall
      · obtain rfl := List.mem_singleton.mp h
        exact hplain
      · exact printable_unitText hsmall h
      · rcases List.mem_append.mp h with h | h <;> exact printable_unitText (by omega) h

theorem printable_quoted {s : Text} {c : Char} (h : c ∈ quoted s) : Printable c := by
  simp only [quoted, List.cons_append, List.mem_cons, List.mem_append, List.mem_flatMap,
    List.not_mem_nil, or_false] at h
  rcases h with rfl | ⟨r, -, h⟩ | rfl
  · decide
  · exact printable_escape h
  · decide

theorem printable_float {x : F} {c : Char} (h : c ∈ py.text x) : Printable c := by
  rcases py.read_text x with ⟨n, hscan, -⟩ | ⟨htext, -⟩ | ⟨htext, -⟩ | ⟨htext, -⟩
  · exact printable_number hscan h
  all_goals
    rw [htext] at h
    exact printable_of_mem (by decide) h

mutual

theorem printable_render : ∀ {value : Value F} {c : Char}, c ∈ render py value → Printable c
  | .null, c, h => by
    rw [render] at h
    exact printable_of_mem (by decide) h
  | .bool true, c, h => by
    rw [render] at h
    exact printable_of_mem (by decide) h
  | .bool false, c, h => by
    rw [render] at h
    exact printable_of_mem (by decide) h
  | .int z, c, h => by
    rw [render] at h
    exact printable_intText h
  | .float x, c, h => by
    rw [render] at h
    exact printable_float py h
  | .str s, c, h => by
    rw [render] at h
    exact printable_quoted h
  | .arr items, c, h => by
    rw [render] at h
    rcases List.mem_cons.mp h with rfl | h
    · decide
    · exact printable_renderItems (fun _ => printable_of_mem (by decide)) h
  | .obj fields, c, h => by
    rw [render] at h
    rcases List.mem_cons.mp h with rfl | h
    · decide
    · exact printable_renderFields (fun _ => printable_of_mem (by decide)) h

theorem printable_renderItems : ∀ {separator : List Char} {items : List (Value F)} {c : Char},
    (∀ d ∈ separator, Printable d) → c ∈ renderItems py separator items → Printable c
  | _, [], c, _, h => by
    rw [renderItems] at h
    exact printable_of_mem (by decide) h
  | separator, value :: rest, c, hseparator, h => by
    rw [renderItems] at h
    rcases List.mem_append.mp h with h | h
    · rcases List.mem_append.mp h with h | h
      · exact hseparator c h
      · exact printable_render h
    · exact printable_renderItems (fun _ => printable_of_mem (by decide)) h

theorem printable_renderFields : ∀ {separator : List Char} {fields : List (Text × Value F)}
    {c : Char}, (∀ d ∈ separator, Printable d) → c ∈ renderFields py separator fields → Printable c
  | _, [], c, _, h => by
    rw [renderFields] at h
    exact printable_of_mem (by decide) h
  | separator, (key, value) :: rest, c, hseparator, h => by
    rw [renderFields] at h
    simp only [List.mem_append, List.mem_cons] at h
    rcases h with ((h | h) | rfl | h) | h
    · exact hseparator c h
    · exact printable_quoted h
    · decide
    · exact printable_render h
    · exact printable_renderFields (fun _ => printable_of_mem (by decide)) h

end

/-! ### Bytes -/

theorem encode_append (a b : List Char) : encode (a ++ b) = encode a ++ encode b :=
  List.flatMap_append

/-- The characters of the first half of a byte are one byte each. -/
theorem encode_ascii {text : List Char} (h : ∀ c ∈ text, c.toNat < 128) :
    encode text = text.map fun c => c.val.toUInt8 := by
  induction text with
  | nil => rfl
  | cons c text ih =>
    have hc : c.val ≤ 127 := UInt32.le_iff_toNat_le.mpr (Nat.le_of_lt_succ (h c List.mem_cons_self))
    have hrest := ih fun d hd => h d (List.mem_cons_of_mem c hd)
    unfold encode at hrest ⊢
    rw [List.flatMap_cons, String.utf8EncodeChar_eq_singleton (Char.utf8Size_eq_one_iff.mpr hc),
      hrest]
    rfl

theorem toNat_byte {c : Char} (h : c.toNat < 128) : c.val.toUInt8.toNat = c.toNat := by
  have hval : c.val.toNat = c.toNat := rfl
  rw [UInt32.toNat_toUInt8, hval]
  omega

theorem ofNat_encode_ascii {text : List Char} (h : ∀ c ∈ text, c.toNat < 128) :
    (encode text).map (fun b => Char.ofNat b.toNat) = text := by
  rw [encode_ascii h, List.map_map]
  calc text.map ((fun b => Char.ofNat b.toNat) ∘ fun c : Char => c.val.toUInt8)
      _ = text.map id := by
        refine List.map_congr_left fun c hc => ?_
        simp only [Function.comp_apply, toNat_byte (h c hc), Char.ofNat_toNat, id]
      _ = text := List.map_id _

theorem length_encode_pos {text : List Char} (h : text ≠ []) : 0 < (encode text).length := by
  cases text with
  | nil => exact absurd rfl h
  | cons c text =>
    have hc : 0 < (String.utf8EncodeChar c).length := by
      rw [String.length_utf8EncodeChar]
      exact c.utf8Size_pos
    unfold encode
    rw [List.flatMap_cons, List.length_append]
    omega

theorem decodeUtf8_ascii {text : List Char} (h : ∀ c ∈ text, c.toNat < 128) :
    decodeUtf8 (text.map fun c => c.val.toUInt8) = some (runes text) := by
  induction text with
  | nil => rfl
  | cons c text ih =>
    have hc := toNat_byte (h c List.mem_cons_self)
    have hlt : c.val.toUInt8 < 0x80 := by
      rw [UInt8.lt_iff_toNat_lt, hc]
      exact h c List.mem_cons_self
    have hrest := ih fun d hd => h d (List.mem_cons_of_mem c hd)
    rw [List.map_cons, decodeUtf8.eq_def]
    simp only [hlt, if_true, hrest, hc, ofCode_toNat, Option.map_some, runes_cons]

/-- Bytes of printable characters are taken for UTF-8. -/
theorem detectEncoding_ascii {bytes : List UInt8} (h : ∀ b ∈ bytes, b ≠ 0 ∧ b < 0x80) :
    detectEncoding bytes = (.utf8, 0) := by
  have hmark : ∀ b ∈ bytes, (0 == b) = false ∧ ((0xff : UInt8) == b) = false ∧
      ((0xfe : UInt8) == b) = false ∧ ((0xef : UInt8) == b) = false := by
    intro b hb
    obtain ⟨hzero, hlt⟩ := h b hb
    have hne : ∀ mark : UInt8, ¬ mark < 0x80 → (mark == b) = false := by
      intro mark hmark
      rw [beq_eq_false_iff_ne]
      rintro rfl
      exact hmark hlt
    exact ⟨beq_eq_false_iff_ne.mpr (Ne.symm hzero), hne _ (by decide), hne _ (by decide),
      hne _ (by decide)⟩
  match bytes, h, hmark with
  | [], _, _ => rfl
  | [a], _, hmark =>
    have ha := hmark a (by simp)
    simp [detectEncoding, List.isPrefixOf, ha]
  | [a, b], h, hmark =>
    have ha := hmark a (by simp)
    simp [detectEncoding, List.isPrefixOf, ha, (h a (by simp)).1, (h b (by simp)).1]
  | [a, b, c], _, hmark =>
    have ha := hmark a (by simp)
    simp [detectEncoding, List.isPrefixOf, ha]
  | a :: b :: c :: d :: rest, h, hmark =>
    have ha := hmark a (by simp)
    simp [detectEncoding, List.isPrefixOf, ha, (h a (by simp)).1, (h b (by simp)).1]

theorem render_ascii {value : Value F} : ∀ c ∈ render py value, c.toNat < 128 := by
  intro c hc
  have := (printable_render py hc).2
  omega

theorem length_encode_render (value : Value F) :
    (encode (render py value)).length = (render py value).length := by
  rw [encode_ascii (render_ascii py), List.length_map]

/-- `json.loads` of the bytes of a value is the value, unless the limits keep it from being read. -/
theorem loads_render {value : Value F} (h : Valid value) :
    loads py (encode (render py value)) =
      (inspect py.maxDigits py.scanRoom value).map fun _ => value := by
  have hascii := @render_ascii _ py value
  have hdetect : detectEncoding ((render py value).map fun c => c.val.toUInt8) = (.utf8, 0) := by
    apply detectEncoding_ascii
    intro b hb
    obtain ⟨c, hc, rfl⟩ := List.mem_map.mp hb
    have hlow := (printable_render py hc).1
    constructor
    · intro hzero
      have := toNat_byte (hascii c hc)
      rw [hzero] at this
      simp at this
      omega
    · rw [UInt8.lt_iff_toNat_lt, toNat_byte (hascii c hc)]
      exact hascii c hc
  unfold loads
  rw [encode_ascii hascii, hdetect]
  simp only [List.drop_zero, decodeAs, decodeUtf8_ascii hascii, orInvalid, Except.bind]
  exact loadsText_render py h

end JsonText
