import AgentDemo.Library.JsonBytes

/-! `LegacyStdioConnection`: JSON-RPC messages in `Content-Length` frames on the pipes of a
subprocess. -/
namespace AgentDemo

open JsonText (Value Interpreter Text lit)

/-- `max_response_bytes` of a server. -/
structure ResponseLimit where
  bytes : ℕ
  lower : 1024 ≤ bytes
  upper : bytes ≤ 16777216

/-- The pipes of the subprocess: the bytes written so far and those not read yet. -/
structure LegacyStdioConnection where
  counter : ℕ
  stdin : List UInt8
  stdout : List UInt8

/-- The exceptions of a request. Those of `int` and `json.loads` and of a line beyond the limit are
one kind, `ValueError`. -/
inductive LegacyError (F : Type) where
  | runtimeError (message : String)
  | valueError
  | recursionError
  | incompleteRead
  | mcpError (code message : Value F)
  | keyError
  | typeError

def LegacyError.ofFailure {F : Type} : JsonText.Failure → LegacyError F
  | .valueError => .valueError
  | .recursionError => .recursionError

/-! ### Bytes -/

def newline : UInt8 := 10

def colon : UInt8 := 58

/-- What `bytes.strip` removes. -/
def isByteSpace (b : UInt8) : Bool := b = 32 || (9 ≤ b && b ≤ 13)

/-- `bytes.lower`. -/
def lowerByte (b : UInt8) : UInt8 := if 65 ≤ b && b ≤ 90 then b + 32 else b

/-- `content-length:`. -/
def headerName : List UInt8 := JsonText.encode
  ['c', 'o', 'n', 't', 'e', 'n', 't', '-', 'l', 'e', 'n', 'g', 't', 'h', ':']

def groupedDigits : List Char → Option (List Char)
  | [] => none
  | [c] => if c.isDigit then some [c] else none
  | c :: '_' :: rest => if c.isDigit then (groupedDigits rest).map (c :: ·) else none
  | c :: d :: rest => if c.isDigit then (groupedDigits (d :: rest)).map (c :: ·) else none

/-- The digits of an integer, no more than `int` takes. -/
def digitsOf (maxDigits : ℕ) (text : List Char) : Option (List Char) :=
  (groupedDigits text).filter fun digits => digits.length ≤ maxDigits

/-- `int` of a text without blanks at its ends. -/
def intOfText (maxDigits : ℕ) : List Char → Option ℤ
  | '+' :: text => (digitsOf maxDigits text).map fun digits => Nat.ofDigitChars 10 digits 0
  | '-' :: text => (digitsOf maxDigits text).map fun digits => -(Nat.ofDigitChars 10 digits 0 : ℤ)
  | text => (digitsOf maxDigits text).map fun digits => Nat.ofDigitChars 10 digits 0

def stripBytes (bytes : List UInt8) : List UInt8 :=
  ((bytes.dropWhile isByteSpace).reverse.dropWhile isByteSpace).reverse

/-- `int` of bytes. -/
def intOfBytes (maxDigits : ℕ) (bytes : List UInt8) : Option ℤ :=
  intOfText maxDigits ((stripBytes bytes).map fun b => Char.ofNat b.toNat)

/-! ### Frames -/

variable {F : Type} (py : Interpreter F)

def framed (text : List Char) : List UInt8 :=
  let body := JsonText.encode text
  JsonText.encode
    (['C', 'o', 'n', 't', 'e', 'n', 't', '-', 'L', 'e', 'n', 'g', 't', 'h', ':', ' '] ++
    Nat.toDigits 10 body.length ++ ['\r', '\n', '\r', '\n']) ++ body

/-- What `_write` puts on the pipe, or what it raises before. -/
def write (message : Value F) : Except (LegacyError F) (List UInt8) :=
  ((JsonText.dumps py message).mapError .ofFailure).map framed

/-- The frame of a message. -/
def frame (message : Value F) : List UInt8 := framed (JsonText.render py message)

/-- `StreamReader.readline`: a line beyond the limit is dropped with an error. -/
def readline (limit : ResponseLimit) (stream : List UInt8) :
    Except (LegacyError F) (List UInt8) × List UInt8 :=
  match stream.findIdx? (· = newline) with
  | some i =>
    if i > limit.bytes then (.error .valueError, stream.drop (i + 1))
    else (.ok (stream.take (i + 1)), stream.drop (i + 1))
  | none => if stream.length > limit.bytes then (.error .valueError, []) else (.ok stream, [])

def readexactly (n : ℕ) (stream : List UInt8) :
    Except (LegacyError F) (List UInt8) × List UInt8 :=
  if stream.length < n then (.error .incompleteRead, []) else (.ok (stream.take n), stream.drop n)

/-- The header lines of a frame, at most as many as given, up to the blank line. -/
def readHeaders (limit : ResponseLimit) :
    ℕ → Option ℤ → List UInt8 → Except (LegacyError F) (Option ℤ) × List UInt8
  | 0, _, stream => (.error (.runtimeError "Invalid MCP frame: too many headers"), stream)
  | lines + 1, length, stream =>
    match readline limit stream with
    | (.error e, rest) => (.error e, rest)
    | (.ok line, rest) =>
      if line = [] then
        (.error (.runtimeError "MCP subprocess ended before returning a response"), rest)
      else if line.all isByteSpace then (.ok length, rest)
      else if headerName.isPrefixOf (line.map lowerByte) then
        match intOfBytes py.maxDigits (line.dropWhile (· ≠ colon)).tail with
        | some n => readHeaders limit lines (some n) rest
        | none => (.error .valueError, rest)
      else readHeaders limit lines length rest

def readMessage (limit : ResponseLimit) (stream : List UInt8) :
    Except (LegacyError F) (Value F) × List UInt8 :=
  match readHeaders py limit 16 none stream with
  | (.error e, rest) => (.error e, rest)
  | (.ok length, rest) =>
    match length.filter fun n : ℤ => 0 < n ∧ n ≤ (limit.bytes : ℤ) with
    | none => (.error (.runtimeError "Invalid or oversized MCP Content-Length frame"), rest)
    | some n =>
      match readexactly n.toNat rest with
      | (.error e, rest) => (.error e, rest)
      | (.ok body, rest) =>
        match JsonText.loads py body with
        | .ok message => (.ok message, rest)
        | .error e => (.error (.ofFailure e), rest)

/-! ### Messages -/

abbrev Fields (F : Type) := List (Text × Value F)

def isJsonRpc (fields : Fields F) : Bool :=
  match fields.lookup (lit "jsonrpc") with
  | some (.str version) => version = lit "2.0"
  | _ => false

/-- `value == n`: booleans count as numbers. -/
def equalsInt (n : ℤ) : Value F → Bool
  | .int z => z = n
  | .bool b => (if b then 1 else 0) = n
  | .float x => py.value x = some (n : ℚ)
  | _ => false

def requestMessage (requestId : ℕ) (method : Text) (params : Value F) : Value F :=
  .obj [(lit "jsonrpc", .str (lit "2.0")), (lit "id", .int requestId), (lit "method", .str method),
    (lit "params", params)]

/-- The reply to a request of the server. -/
def methodNotFound (id : Value F) : Value F :=
  .obj [(lit "jsonrpc", .str (lit "2.0")), (lit "id", id),
    (lit "error", .obj [(lit "code", .int (-32601)),
      (lit "message", .str (lit "Client capability not supported"))])]

/-- `MCPError(error["code"], error.get("message", "MCP error"))`, or what its arguments raise. -/
def raisedError : Value F → LegacyError F
  | .obj error =>
    match error.lookup (lit "code") with
    | some code => .mcpError code ((error.lookup (lit "message")).getD (.str (lit "MCP error")))
    | none => .keyError
  | _ => .typeError

inductive Handled (F : Type) where
  | answered (reply : Value F)
  | ignored
  | failed (error : LegacyError F)
  | returned (result : Fields F)

def handleFields (requestId : ℕ) (fields : Fields F) : Handled F :=
  if isJsonRpc fields = false then .failed (.runtimeError "Invalid MCP JSON-RPC response")
  else if (fields.lookup (lit "method")).isSome then
    match fields.lookup (lit "id") with
    | some id => .answered (methodNotFound id)
    | none => .ignored
  else if (fields.lookup (lit "id")).any (equalsInt py requestId) = false then
    .failed (.runtimeError "MCP response does not match its request")
  else
    match fields.lookup (lit "error") with
    | some error => .failed (raisedError error)
    | none =>
      match fields.lookup (lit "result") with
      | some (.obj result) => .returned result
      | _ => .failed (.runtimeError "MCP returned a non-object result")

def handle (requestId : ℕ) : Value F → Handled F
  | .obj fields => handleFields py requestId fields
  | _ => .failed (.runtimeError "Invalid MCP JSON-RPC response")

/-! ### Every frame that is read shortens the stream. -/

theorem length_readline {limit : ResponseLimit} {stream line rest : List UInt8}
    (h : readline (F := F) limit stream = (.ok line, rest)) :
    line.length + rest.length = stream.length := by
  unfold readline at h
  split at h
  next i hi =>
    have hlt := (List.findIdx?_eq_some_iff_findIdx_eq.mp hi).1
    split_ifs at h
    · simp at h
    · obtain ⟨hline, rfl⟩ := Prod.mk.inj h
      obtain rfl := Except.ok.inj hline
      simp only [List.length_take, List.length_drop]
      omega
  next =>
    split_ifs at h
    · simp at h
    · obtain ⟨hline, rfl⟩ := Prod.mk.inj h
      obtain rfl := Except.ok.inj hline
      simp

theorem length_readHeaders {limit : ResponseLimit} {lines : ℕ} {length result : Option ℤ}
    {stream rest : List UInt8}
    (h : readHeaders py limit lines length stream = (.ok result, rest)) :
    rest.length < stream.length := by
  induction lines generalizing length stream with
  | zero => simp [readHeaders] at h
  | succ lines ih =>
    rw [readHeaders] at h
    split at h
    · simp at h
    next line after hline =>
    have hlen := length_readline hline
    split_ifs at h with hempty hblank hname
    · simp at h
    · obtain ⟨-, rfl⟩ := Prod.mk.inj h
      have := List.length_pos_iff.mpr hempty
      omega
    · split at h
      · have := ih h
        omega
      · simp at h
    · have := ih h
      omega

theorem length_readMessage {limit : ResponseLimit} {stream rest : List UInt8} {message : Value F}
    (h : readMessage py limit stream = (.ok message, rest)) : rest.length < stream.length := by
  unfold readMessage at h
  split at h
  · simp at h
  next length after hheaders =>
  have hlen := length_readHeaders py hheaders
  split at h
  · simp at h
  next n hn =>
  split at h
  · simp at h
  next body left hbody =>
  have hle : left.length ≤ after.length := by
    unfold readexactly at hbody
    split_ifs at hbody
    · simp at hbody
    · obtain ⟨-, rfl⟩ := Prod.mk.inj hbody
      simp
  split at h
  · obtain ⟨-, rfl⟩ := Prod.mk.inj h
    omega
  · simp at h

/-! ### Requests -/

/-- The loop of `request`. -/
def receive (limit : ResponseLimit) (requestId : ℕ) (connection : LegacyStdioConnection) :
    Except (LegacyError F) (Fields F) × LegacyStdioConnection :=
  match _h : readMessage py limit connection.stdout with
  | (.error e, rest) => (.error e, { connection with stdout := rest })
  | (.ok message, rest) =>
    match handle py requestId message with
    | .answered reply =>
      match write py reply with
      | .error e => (.error e, { connection with stdout := rest })
      | .ok bytes =>
        receive limit requestId
          { connection with stdin := connection.stdin ++ bytes, stdout := rest }
    | .ignored => receive limit requestId { connection with stdout := rest }
    | .failed e => (.error e, { connection with stdout := rest })
    | .returned result => (.ok result, { connection with stdout := rest })
termination_by connection.stdout.length
decreasing_by all_goals exact length_readMessage py ‹_›

def request (limit : ResponseLimit) (connection : LegacyStdioConnection) (method : Text)
    (params : Value F) : Except (LegacyError F) (Fields F) × LegacyStdioConnection :=
  let requestId := connection.counter + 1
  match write py (requestMessage requestId method params) with
  | .error e => (.error e, { connection with counter := requestId })
  | .ok bytes =>
    receive py limit requestId
      { connection with counter := requestId, stdin := connection.stdin ++ bytes }

end AgentDemo
