import AgentDemo.Library.Dictionary
import Mathlib.Data.List.Chain
import Mathlib.Data.List.TakeWhile
import Mathlib.Data.Rat.Defs

/-! JSON texts as `json.dumps` writes them without spaces and as `json.loads` reads them. A string
is a sequence of code points, in which a surrogate may stand alone. -/
namespace JsonText

/-! ### Code points -/

inductive Rune where
  | char (c : Char)
  | surrogate (place : Fin 2048)
  deriving DecidableEq

abbrev Text := List Rune

def runes (text : List Char) : Text := text.map .char

def lit (s : String) : Text := runes s.toList

def Rune.code : Rune → ℕ
  | .char c => c.toNat
  | .surrogate place => 0xd800 + place

def Rune.ofCode (n : ℕ) : Rune :=
  if h : 0xd800 ≤ n ∧ n ≤ 0xdfff then .surrogate ⟨n - 0xd800, by omega⟩ else .char (Char.ofNat n)

def isHigh (n : ℕ) : Bool := 0xd800 ≤ n && n ≤ 0xdbff

def isLow (n : ℕ) : Bool := 0xdc00 ≤ n && n ≤ 0xdfff

/-- No two surrogates stand together as a pair, which an escaped text cannot tell from the character
that they encode. -/
def Unpaired (s : Text) : Prop :=
  s.IsChain fun a b => ¬ (isHigh a.code = true ∧ isLow b.code = true)

def plain : Text → List Char
  | .char c :: rest => c :: plain rest
  | _ => []

/-! ### Numbers -/

def sign : List Char → List Char
  | '-' :: _ => ['-']
  | _ => []

/-- No digit follows a leading zero. -/
def whole : List Char → List Char
  | '0' :: _ => ['0']
  | text => text.takeWhile Char.isDigit

def fraction : List Char → List Char
  | '.' :: text =>
    if text.takeWhile Char.isDigit = [] then [] else '.' :: text.takeWhile Char.isDigit
  | _ => []

def exponentSign : List Char → List Char
  | '+' :: _ => ['+']
  | '-' :: _ => ['-']
  | _ => []

def exponent : List Char → List Char
  | [] => []
  | c :: text =>
    if (c = 'e' ∨ c = 'E') ∧
        (text.drop (exponentSign text).length).takeWhile Char.isDigit ≠ [] then
      c :: exponentSign text ++ (text.drop (exponentSign text).length).takeWhile Char.isDigit
    else []

/-- The groups of a number. -/
structure Number where
  sign : List Char
  whole : List Char
  fraction : List Char
  exponent : List Char

def Number.text (n : Number) : List Char := n.sign ++ n.whole ++ n.fraction ++ n.exponent

def Number.isFloat (n : Number) : Bool := n.fraction ≠ [] ∨ n.exponent ≠ []

/-- `int(integer)`. -/
def Number.toInt (n : Number) : ℤ :=
  if n.sign = [] then Nat.ofDigitChars 10 n.whole 0 else -(Nat.ofDigitChars 10 n.whole 0 : ℤ)

def scanNumber (text : List Char) : Option (Number × List Char) :=
  let afterSign := text.drop (sign text).length
  let afterWhole := afterSign.drop (whole afterSign).length
  let afterFraction := afterWhole.drop (fraction afterWhole).length
  if whole afterSign = [] then none
  else
    some (⟨sign text, whole afterSign, fraction afterWhole, exponent afterFraction⟩,
      afterFraction.drop (exponent afterFraction).length)

def intText (z : ℤ) : List Char :=
  if z < 0 then '-' :: Nat.toDigits 10 z.natAbs else Nat.toDigits 10 z.natAbs

def digitCount (z : ℤ) : ℕ := (Nat.toDigits 10 z.natAbs).length

def NumberEnd (text : List Char) : Prop :=
  ∀ c, text.head? = some c →
    c.isDigit = false ∧ c ≠ '-' ∧ c ≠ '+' ∧ c ≠ '.' ∧ c ≠ 'e' ∧ c ≠ 'E'

/-! ### The interpreter -/

/-- A floating-point type with its texts: every value is read back from its own text, the three
values without digits by their names. `value` is the number of a finite one. -/
structure FloatFormat (F : Type) where
  text : F → List Char
  ofText : List Char → F
  nan : F
  infinity : F
  negInfinity : F
  value : F → Option ℚ
  read_text : ∀ x,
    (∃ n, scanNumber (text x) = some (n, []) ∧ n.isFloat = true ∧ ofText (text x) = x) ∨
      (text x = ['N', 'a', 'N'] ∧ x = nan) ∨
      (text x = ['I', 'n', 'f', 'i', 'n', 'i', 't', 'y'] ∧ x = infinity) ∨
      (text x = ['-', 'I', 'n', 'f', 'i', 'n', 'i', 't', 'y'] ∧ x = negInfinity)

/-- The limits of the interpreter: the digits of an integer as a text, of which no setting allows
fewer than 640, and the containers that the scanner and the encoder can stand in at once. -/
structure Interpreter (F : Type) extends FloatFormat F where
  maxDigits : ℕ
  scanRoom : ℕ
  encodeRoom : ℕ
  maxDigits_ge : 640 ≤ maxDigits
  encodeRoom_ge : 3 ≤ encodeRoom

/-- The exceptions of `json`. Those of a text that is not JSON are `ValueError`s too. -/
inductive Failure where
  | valueError
  | recursionError

def orInvalid {α : Type} : Option α → Except Failure α
  | some a => .ok a
  | none => .error .valueError

/-! ### Strings -/

def shortEscapes : List (Char × Char) :=
  [('"', '"'), ('\\', '\\'), ('\n', 'n'), ('\r', 'r'), ('\t', 't'), ('\x0c', 'f'), ('\x08', 'b')]

/-- `\u` with four digits. -/
def unitText (n : ℕ) : List Char :=
  ['\\', 'u', Nat.digitChar (n / 4096), Nat.digitChar (n / 256 % 16), Nat.digitChar (n / 16 % 16),
    Nat.digitChar (n % 16)]

/-- `ESCAPE_ASCII`: characters beyond the sixteen-bit range are written as a surrogate pair. -/
def escape : Rune → List Char
  | .surrogate place => unitText (0xd800 + place)
  | .char c =>
    match shortEscapes.lookup c with
    | some e => ['\\', e]
    | none =>
      if 32 ≤ c.toNat ∧ c.toNat ≤ 126 then [c]
      else if c.toNat < 65536 then unitText c.toNat
      else
        unitText (0xd800 + (c.toNat - 65536) / 1024) ++ unitText (0xdc00 + (c.toNat - 65536) % 1024)

def quoted (s : Text) : List Char := '"' :: s.flatMap escape ++ ['"']

def hexValue : Rune → Option ℕ
  | .surrogate _ => none
  | .char c =>
    if c.isDigit then some (c.toNat - 48)
    else if 'a' ≤ c ∧ c ≤ 'f' then some (c.toNat - 87)
    else if 'A' ≤ c ∧ c ≤ 'F' then some (c.toNat - 55)
    else none

def hexUnit (a b c d : Rune) : Option ℕ := do
  let a ← hexValue a
  let b ← hexValue b
  let c ← hexValue c
  let d ← hexValue d
  pure (a * 4096 + b * 256 + c * 16 + d)

def unescape (e : Rune) : Option Char :=
  ((('/', '/') :: shortEscapes).find? (.char ·.2 = e)).map Prod.fst

/-- A code point of the text, or a sixteen-bit unit that it gives by its digits. -/
inductive Piece where
  | rune (r : Rune)
  | unit (n : ℕ)

/-- The pieces of a string up to its closing quote, and what follows it. -/
def scanPieces : Text → Option (List Piece × Text)
  | [] => none
  | .char '"' :: rest => some ([], rest)
  | .char '\\' :: .char 'u' :: a :: b :: c :: d :: rest =>
    (hexUnit a b c d).bind fun n => (scanPieces rest).map fun p => (.unit n :: p.1, p.2)
  | .char '\\' :: e :: rest =>
    (unescape e).bind fun c => (scanPieces rest).map fun p => (.rune (.char c) :: p.1, p.2)
  | r :: rest =>
    if r.code < 32 then none else (scanPieces rest).map fun p => (.rune r :: p.1, p.2)

/-- A high surrogate and the low one after it are one character. -/
def joinPieces : List Piece → Text
  | [] => []
  | .rune r :: rest => r :: joinPieces rest
  | .unit n :: .unit m :: rest =>
    if isHigh n && isLow m then
      Rune.ofCode (65536 + (n - 0xd800) * 1024 + (m - 0xdc00)) :: joinPieces rest
    else Rune.ofCode n :: joinPieces (.unit m :: rest)
  | .unit n :: rest => Rune.ofCode n :: joinPieces rest

def scanString (text : Text) : Option (Text × Text) :=
  (scanPieces text).map fun p => (joinPieces p.1, p.2)

/-! ### Values -/

inductive Value (F : Type) where
  | null
  | bool (b : Bool)
  | int (z : ℤ)
  | float (x : F)
  | str (s : Text)
  | arr (items : List (Value F))
  | obj (fields : List (Text × Value F))

section Limits

variable {F : Type} (digits : ℕ)

mutual

/-- The integers have no more digits than given, and the containers stand in one another no deeper
than the room. -/
def Within (room : ℕ) : Value F → Prop
  | .int z => digitCount z ≤ digits
  | .arr items => 0 < room ∧ ItemsWithin (room - 1) items
  | .obj fields => 0 < room ∧ FieldsWithin (room - 1) fields
  | _ => True

def ItemsWithin (room : ℕ) : List (Value F) → Prop
  | [] => True
  | value :: rest => Within room value ∧ ItemsWithin room rest

def FieldsWithin (room : ℕ) : List (Text × Value F) → Prop
  | [] => True
  | (_, value) :: rest => Within room value ∧ FieldsWithin room rest

end

mutual

/-- What stops `json` on its way through a value, from the left. -/
def inspect (room : ℕ) : Value F → Except Failure Unit
  | .int z => if digitCount z ≤ digits then .ok () else .error .valueError
  | .arr items => if room = 0 then .error .recursionError else inspectItems (room - 1) items
  | .obj fields => if room = 0 then .error .recursionError else inspectFields (room - 1) fields
  | _ => .ok ()

def inspectItems (room : ℕ) : List (Value F) → Except Failure Unit
  | [] => .ok ()
  | value :: rest => (inspect room value).bind fun _ => inspectItems room rest

def inspectFields (room : ℕ) : List (Text × Value F) → Except Failure Unit
  | [] => .ok ()
  | (_, value) :: rest => (inspect room value).bind fun _ => inspectFields room rest

end

end Limits

variable {F : Type} (py : Interpreter F)

mutual

/-- The text of a value, with the separators `,` and `:`. -/
def render : Value F → List Char
  | .null => ['n', 'u', 'l', 'l']
  | .bool true => ['t', 'r', 'u', 'e']
  | .bool false => ['f', 'a', 'l', 's', 'e']
  | .int z => intText z
  | .float x => py.text x
  | .str s => quoted s
  | .arr items => '[' :: renderItems [] items
  | .obj fields => '{' :: renderFields [] fields

def renderItems (separator : List Char) : List (Value F) → List Char
  | [] => [']']
  | value :: rest => separator ++ render value ++ renderItems [','] rest

def renderFields (separator : List Char) : List (Text × Value F) → List Char
  | [] => ['}']
  | (key, value) :: rest =>
    separator ++ quoted key ++ ':' :: render value ++ renderFields [','] rest

end

/-- `json.dumps`. -/
def dumps (value : Value F) : Except Failure (List Char) :=
  (inspect py.maxDigits py.encodeRoom value).map fun _ => render py value

def isBlank (r : Rune) : Bool :=
  r = .char ' ' || r = .char '\t' || r = .char '\n' || r = .char '\r'

def skip (text : Text) : Text := text.dropWhile isBlank

def constants : List (List Char × Value F) :=
  [(['n', 'u', 'l', 'l'], .null), (['t', 'r', 'u', 'e'], .bool true),
    (['f', 'a', 'l', 's', 'e'], .bool false), (['N', 'a', 'N'], .float py.nan),
    (['I', 'n', 'f', 'i', 'n', 'i', 't', 'y'], .float py.infinity),
    (['-', 'I', 'n', 'f', 'i', 'n', 'i', 't', 'y'], .float py.negInfinity)]

/-- `float` or `int` of a number. -/
def Number.value (n : Number) : Except Failure (Value F) :=
  if n.isFloat then .ok (.float (py.ofText n.text))
  else if n.whole.length ≤ py.maxDigits then .ok (.int n.toInt)
  else .error .valueError

def scanAtom (text : Text) : Except Failure (Value F × Text) :=
  match scanNumber (plain text) with
  | some (n, _) => (n.value py).map fun value => (value, text.drop n.text.length)
  | none =>
    (orInvalid ((constants py).find? fun named => named.1.isPrefixOf (plain text))).map fun named =>
      (named.2, text.drop named.1.length)

/-- `dict(pairs)`. -/
def dictOf (pairs : List (Text × Value F)) : List (Text × Value F) :=
  pairs.foldl (fun d pair => Dictionary.put d pair.1 pair.2) []

mutual

/-- `scan_once`: a value at the front of a text, and what follows it. -/
def scanOnce : ℕ → ℕ → Text → Except Failure (Value F × Text)
  | 0, _, _ => .error .valueError
  | n + 1, room, text =>
    match text with
    | .char '"' :: rest => (orInvalid (scanString rest)).map fun p => (.str p.1, p.2)
    | .char '[' :: rest =>
      if room = 0 then .error .recursionError
      else if (skip rest).head? = some (.char ']') then .ok (.arr [], (skip rest).tail)
      else (scanItems n (room - 1) (skip rest)).map fun p => (.arr p.1, p.2)
    | .char '{' :: rest =>
      if room = 0 then .error .recursionError
      else if (skip rest).head? = some (.char '}') then .ok (.obj [], (skip rest).tail)
      else (scanFields n (room - 1) (skip rest)).map fun p => (.obj (dictOf p.1), p.2)
    | text => scanAtom py text

def scanItems : ℕ → ℕ → Text → Except Failure (List (Value F) × Text)
  | 0, _, _ => .error .valueError
  | n + 1, room, text =>
    (scanOnce n room text).bind fun p =>
      match skip p.2 with
      | .char ']' :: rest => .ok ([p.1], rest)
      | .char ',' :: rest => (scanItems n room (skip rest)).map fun q => (p.1 :: q.1, q.2)
      | _ => .error .valueError

def scanFields : ℕ → ℕ → Text → Except Failure (List (Text × Value F) × Text)
  | 0, _, _ => .error .valueError
  | n + 1, room, text =>
    match text with
    | .char '"' :: text =>
      (orInvalid (scanString text)).bind fun key =>
        match skip key.2 with
        | .char ':' :: text =>
          (scanOnce n room (skip text)).bind fun p =>
            match skip p.2 with
            | .char '}' :: rest => .ok ([(key.1, p.1)], rest)
            | .char ',' :: rest =>
              (scanFields n room (skip rest)).map fun q => ((key.1, p.1) :: q.1, q.2)
            | _ => .error .valueError
        | _ => .error .valueError
    | _ => .error .valueError

end

/-- `json.loads` of a `str`. Of two calls, one in the other, at least one reads a code point, so the
depth is enough. -/
def loadsText (text : Text) : Except Failure (Value F) :=
  (scanOnce py (2 * text.length + 2) py.scanRoom (skip text)).bind fun p =>
    if skip p.2 = [] then .ok p.1 else .error .valueError

def encode (text : List Char) : List UInt8 := text.flatMap String.utf8EncodeChar

/-- `bytes.decode`. -/
def decode (bytes : List UInt8) : Option (List Char) :=
  bytes.toByteArray.utf8Decode?.map Array.toList

end JsonText
