import AgentDemo.Library.IsoFormat
import Mathlib.Data.Rat.Defs

/-! Plain values of the backend: instants, UUIDs, JSON and the text functions it uses. -/
namespace AgentDemo

/-- A timezone-aware `datetime` or a `timedelta`, in microseconds (since the epoch, UTC). -/
abbrev Instant := ℤ

/-- `timedelta(seconds=n)`. -/
def seconds (n : ℤ) : Instant := n * 1000000

abbrev UUID := BitVec 128

instance lawfulBEq_uuid : LawfulBEq UUID := inferInstance

instance lawfulBEq_chars : LawfulBEq (List Char) := inferInstance

/-- `uuid.hex`. -/
def UUID.hex (u : UUID) : String := String.ofList (IsoFormat.numeral 16 32 u.toNat)

/-- `str(uuid)`: groups of 8, 4, 4, 4 and 12 hexadecimal digits. -/
def UUID.str (u : UUID) : String :=
  let h := IsoFormat.numeral 16 32 u.toNat
  String.ofList (h.take 8 ++ '-' :: (h.drop 8).take 4 ++ '-' :: (h.drop 12).take 4 ++
    '-' :: (h.drop 16).take 4 ++ '-' :: h.drop 20)

inductive Json where
  | null
  | bool (b : Bool)
  | num (q : ℚ)
  | str (s : String)
  | arr (items : List Json)
  | obj (fields : List (String × Json))
  deriving Inhabited

/-- A text that may be `None`. -/
def Json.ofText : Option String → Json
  | some s => .str s
  | none => .null

abbrev JsonObject := List (String × Json)

/-- `dict.get`. -/
def JsonObject.get? (o : JsonObject) (key : String) : Option Json := (o.find? (·.1 = key)).map (·.2)

def JsonObject.getStr? (o : JsonObject) (key : String) : Option String :=
  match o.get? key with
  | some (.str s) => some s
  | _ => none

def Json.truthy : Json → Bool
  | .null => false
  | .bool b => b
  | .num q => q ≠ 0
  | .str s => s ≠ ""
  | .arr items => !items.isEmpty
  | .obj fields => !fields.isEmpty

/-- `dict.get(key) or default`. -/
def JsonObject.getOr (o : JsonObject) (key : String) (default : Json) : Json :=
  match o.get? key with
  | some value => if value.truthy then value else default
  | none => default

/-- `x or y` on texts: the empty string counts as missing. -/
def orText (x : Option String) (y : String) : String :=
  match x with
  | some s => if s = "" then y else s
  | none => y

mutual

/-- `==` on JSON values; objects are compared without regard to order. Python also compares
booleans with numbers, `jsonb` does not. -/
def Json.same (boolsAreNumbers : Bool) : Json → Json → Bool
  | .null, .null => true
  | .bool a, .bool b => a = b
  | .num p, .num q => p = q
  | .bool a, .num q => boolsAreNumbers && decide ((if a then 1 else 0) = q)
  | .num p, .bool b => boolsAreNumbers && decide (p = if b then 1 else 0)
  | .str s, .str t => s = t
  | .arr xs, .arr ys => Json.sameItems boolsAreNumbers xs ys
  | .obj xs, .obj ys => xs.length = ys.length && Json.sameFields boolsAreNumbers xs ys
  | _, _ => false

def Json.sameItems (boolsAreNumbers : Bool) : List Json → List Json → Bool
  | [], [] => true
  | x :: xs, y :: ys => Json.same boolsAreNumbers x y && Json.sameItems boolsAreNumbers xs ys
  | _, _ => false

def Json.sameFields (boolsAreNumbers : Bool) : List (String × Json) → List (String × Json) → Bool
  | [], _ => true
  | (key, x) :: xs, ys =>
    (match ys.find? (·.1 = key) with
      | some (_, y) => Json.same boolsAreNumbers x y
      | none => false) && Json.sameFields boolsAreNumbers xs ys

end

/-- `==` on two Python dictionaries. -/
def JsonObject.eqPython (a b : JsonObject) : Bool := Json.same true (.obj a) (.obj b)

/-- `=` on two `jsonb` objects. -/
def JsonObject.eqJsonb (a b : JsonObject) : Bool := Json.same false (.obj a) (.obj b)

example :
    JsonObject.eqPython [("a", .num 1), ("b", .null)] [("b", .null), ("a", .bool true)] = true := by
  decide

/-- What `str.strip` removes. -/
def isSpace (c : Char) : Bool :=
  let n := c.toNat
  (9 ≤ n && n ≤ 13) || (28 ≤ n && n ≤ 32) || n = 0x85 || n = 0xa0 || n = 0x1680 ||
    (0x2000 ≤ n && n ≤ 0x200a) || n = 0x2028 || n = 0x2029 || n = 0x202f || n = 0x205f || n = 0x3000

def stripList (l : List Char) : List Char :=
  ((l.dropWhile isSpace).reverse.dropWhile isSpace).reverse

def strip (s : String) : String := String.ofList (stripList s.toList)

def Trimmed (text : List Char) : Prop :=
  (∀ c, text.head? = some c → isSpace c = false) ∧ ∀ c, text.getLast? = some c → isSpace c = false

theorem dropWhile_isSpace {text : List Char} (h : ∀ c, text.head? = some c → isSpace c = false) :
    text.dropWhile isSpace = text := by
  cases text with
  | nil => rfl
  | cons c rest => rw [List.dropWhile_cons_of_neg (by simp [h c rfl])]

theorem stripList_of_trimmed {text : List Char} (h : Trimmed text) : stripList text = text := by
  unfold stripList
  rw [dropWhile_isSpace h.1, dropWhile_isSpace, List.reverse_reverse]
  intro c hc
  exact h.2 c (by rwa [List.getLast?_eq_head?_reverse])

theorem head?_dropWhile_isSpace {text : List Char} {c : Char}
    (h : (text.dropWhile isSpace).head? = some c) : isSpace c = false := by
  have hnot := List.head?_dropWhile_not isSpace text
  rw [h] at hnot
  simpa using hnot

theorem trimmed_stripList (text : List Char) : Trimmed (stripList text) := by
  constructor
  · intro c hc
    have hstarts : stripList text <+: text.dropWhile isSpace := by
      unfold stripList
      rw [← List.reverse_suffix, List.reverse_reverse]
      exact List.dropWhile_suffix _
    obtain ⟨back, hback⟩ := hstarts
    refine @head?_dropWhile_isSpace text c ?_
    rw [← hback]
    cases hstrip : stripList text with
    | nil => simp [hstrip] at hc
    | cons d rest =>
      rw [hstrip] at hc
      exact hc
  · intro c hc
    unfold stripList at hc
    rw [List.getLast?_reverse] at hc
    exact head?_dropWhile_isSpace hc

theorem strip_strip (s : String) : strip (strip s) = strip s := by
  unfold strip
  rw [String.toList_ofList, stripList_of_trimmed (trimmed_stripList _)]

/-- Line boundaries of `str.splitlines`. -/
def isLineBreak (c : Char) : Bool :=
  let n := c.toNat
  (10 ≤ n && n ≤ 13) || (28 ≤ n && n ≤ 30) || n = 0x85 || n = 0x2028 || n = 0x2029

/-- `text[:n]`. -/
def takeText (n : ℕ) (s : String) : String := String.ofList (s.toList.take n)

theorem UUID.length_str (u : UUID) : u.str.toList.length = 36 := by
  simp [UUID.str]

theorem UUID.str_injective : Function.Injective UUID.str := by
  intro u v h
  have h := congrArg String.toList h
  simp only [UUID.str, String.toList_ofList] at h
  set a := IsoFormat.numeral 16 32 u.toNat with ha
  set b := IsoFormat.numeral 16 32 v.toNat with hb
  have hla : a.length = 32 := by simp [ha]
  have hlb : b.length = 32 := by simp [hb]
  obtain ⟨h, h5⟩ := List.append_inj h (by simp [hla, hlb])
  obtain ⟨h, h4⟩ := List.append_inj h (by simp [hla, hlb])
  obtain ⟨h, h3⟩ := List.append_inj h (by simp [hla, hlb])
  obtain ⟨h1, h2⟩ := List.append_inj h (by simp [hla, hlb])
  have split (l : List Char) : l = l.take 8 ++ ((l.drop 8).take 4 ++ ((l.drop 12).take 4 ++
      ((l.drop 16).take 4 ++ l.drop 20))) := by
    conv_lhs => rw [← List.take_append_drop 8 l, ← List.take_append_drop 4 (l.drop 8),
      List.drop_drop, ← List.take_append_drop 4 (l.drop (8 + 4)), List.drop_drop,
      ← List.take_append_drop 4 (l.drop (8 + 4 + 4)), List.drop_drop]
  have hab : a = b := by
    rw [split a, split b, h1, (List.cons.inj h2).2, (List.cons.inj h3).2, (List.cons.inj h4).2,
      (List.cons.inj h5).2]
  refine BitVec.eq_of_toNat_eq (IsoFormat.numeral_inj (by omega) (by omega) ?_ ?_ hab)
  · simpa using u.isLt
  · simpa using v.isLt

end AgentDemo
