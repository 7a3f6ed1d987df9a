import AgentDemo.Mcp.LegacyStdio
import Mathlib.Algebra.Group.Int.Defs
import Mathlib.Algebra.Group.Nat.Defs

/-! The frames of a legacy server: a request reads each message as it was written, and pairs the
response with its identifier. -/
namespace AgentDemo

open JsonText (Value Interpreter Text lit)

variable {F : Type}

/-! ### The header of a frame -/

theorem readline_line (limit : ResponseLimit) {line : List UInt8} (hline : newline ∉ line)
    (hlen : line.length ≤ limit.bytes) (rest : List UInt8) :
    readline (F := F) limit (line ++ newline :: rest) = (.ok (line ++ [newline]), rest) := by
  have hnone : line.findIdx? (· = newline) = none := by
    rw [List.findIdx?_eq_none_iff]
    intro b hb
    exact decide_eq_false fun heq => hline (heq ▸ hb)
  have hfind : (line ++ newline :: rest).findIdx? (· = newline) = some line.length := by
    rw [List.findIdx?_append, hnone, List.findIdx?_cons]
    simp
  unfold readline
  rw [hfind]
  have hle : ¬ line.length > limit.bytes := by omega
  have hsplit : line ++ newline :: rest = (line ++ [newline]) ++ rest := by simp
  have hone : line.length + 1 = (line ++ [newline]).length := by simp
  simp only [hle, if_false]
  rw [hsplit, hone, List.take_left, List.drop_left]

/-- `Content-Length: `. -/
def headerTitle : List UInt8 := JsonText.encode
  ['C', 'o', 'n', 't', 'e', 'n', 't', '-', 'L', 'e', 'n', 'g', 't', 'h', ':', ' ']

theorem headerTitle_eq : headerTitle =
    [67, 111, 110, 116, 101, 110, 116, 45, 76, 101, 110, 103, 116, 104, 58, 32] := by
  decide

theorem headerName_eq : headerName =
    [99, 111, 110, 116, 101, 110, 116, 45, 108, 101, 110, 103, 116, 104, 58] := by
  decide

def lengthBytes (n : ℕ) : List UInt8 := JsonText.encode (Nat.toDigits 10 n)

theorem toDigits_ascii {n : ℕ} {c : Char} (hc : c ∈ Nat.toDigits 10 n) :
    48 ≤ c.toNat ∧ c.toNat ≤ 57 := by
  have hdigit := JsonText.isDigit_toDigits hc
  unfold Char.isDigit at hdigit
  simp only [Bool.and_eq_true, decide_eq_true_eq] at hdigit
  exact ⟨UInt32.le_iff_toNat_le.mp hdigit.1, UInt32.le_iff_toNat_le.mp hdigit.2⟩

theorem toDigits_lt (n : ℕ) : ∀ c ∈ Nat.toDigits 10 n, c.toNat < 128 := by
  intro c hc
  have := toDigits_ascii hc
  omega

theorem mem_lengthBytes {n : ℕ} {b : UInt8} (hb : b ∈ lengthBytes n) :
    48 ≤ b.toNat ∧ b.toNat ≤ 57 := by
  unfold lengthBytes at hb
  rw [JsonText.encode_ascii (toDigits_lt n)] at hb
  obtain ⟨c, hc, rfl⟩ := List.mem_map.mp hb
  have hrange := toDigits_ascii hc
  have hval : c.val.toNat = c.toNat := rfl
  simp only [UInt32.toNat_toUInt8, hval, Nat.reducePow]
  omega

theorem length_lengthBytes (n : ℕ) : (lengthBytes n).length = (Nat.toDigits 10 n).length := by
  unfold lengthBytes
  rw [JsonText.encode_ascii (toDigits_lt n), List.length_map]

/-- Only the blanks around the digits are stripped. -/
theorem stripBytes_lengthBytes (n : ℕ) :
    stripBytes (32 :: (lengthBytes n ++ [13, 10])) = lengthBytes n := by
  have hdigits : ∀ b ∈ lengthBytes n, isByteSpace b = false := by
    intro b hb
    have hrange := mem_lengthBytes hb
    have h32 : b ≠ 32 := by
      rintro rfl
      simp at hrange
    have h13 : ¬ b ≤ 13 := by
      rw [UInt8.le_iff_toNat_le]
      simp
      omega
    simp [isByteSpace, h32, h13]
  have hne : lengthBytes n ≠ [] := by
    intro heq
    have := length_lengthBytes n
    rw [heq] at this
    exact Nat.toDigits_ne_nil (List.length_eq_zero_iff.mp this.symm)
  have hhead : ∀ (l tail : List UInt8), l ≠ [] → (∀ b ∈ l, isByteSpace b = false) →
      (l ++ tail).dropWhile isByteSpace = l ++ tail := by
    intro l tail hl hall
    cases l with
    | nil => exact absurd rfl hl
    | cons b l =>
      rw [List.cons_append, List.dropWhile_cons_of_neg (by simp [hall b List.mem_cons_self])]
  unfold stripBytes
  rw [List.dropWhile_cons_of_pos (by decide), hhead _ _ hne hdigits, List.reverse_append]
  have hback := hhead (lengthBytes n).reverse [] (by simpa using hne)
    (fun b hb => hdigits b (List.mem_reverse.mp hb))
  rw [List.append_nil] at hback
  have hends : ([13, 10] : List UInt8).reverse = [10, 13] := rfl
  rw [hends, List.cons_append, List.dropWhile_cons_of_pos (by decide), List.cons_append,
    List.dropWhile_cons_of_pos (by decide), List.nil_append, hback, List.reverse_reverse]

theorem groupedDigits_of_digits {digits : List Char} (hne : digits ≠ [])
    (h : ∀ c ∈ digits, c.isDigit = true) : groupedDigits digits = some digits := by
  induction digits with
  | nil => exact absurd rfl hne
  | cons c digits ih =>
    have hc := h c List.mem_cons_self
    cases digits with
    | nil => simp [groupedDigits, hc]
    | cons d digits =>
      have hd := h d (List.mem_cons_of_mem c List.mem_cons_self)
      have hplain : d ≠ '_' := by
        rintro rfl
        simp at hd
      have hrest := ih (by simp) fun e he => h e (List.mem_cons_of_mem c he)
      simp [groupedDigits, hc, hrest]

theorem intOfText_toDigits {maxDigits n : ℕ} (hn : (Nat.toDigits 10 n).length ≤ maxDigits) :
    intOfText maxDigits (Nat.toDigits 10 n) = some (n : ℤ) := by
  have hgroups := groupedDigits_of_digits Nat.toDigits_ne_nil
    fun c (hc : c ∈ Nat.toDigits 10 n) => JsonText.isDigit_toDigits hc
  cases hdigits : Nat.toDigits 10 n with
  | nil => exact absurd hdigits Nat.toDigits_ne_nil
  | cons c digits =>
    have hc : c.isDigit = true := JsonText.isDigit_toDigits (hdigits ▸ List.mem_cons_self)
    have hplus : c ≠ '+' := by
      rintro rfl
      simp at hc
    have hminus : c ≠ '-' := by
      rintro rfl
      simp at hc
    rw [hdigits] at hgroups hn
    have hback : Nat.ofDigitChars 10 (c :: digits) 0 = n := by
      rw [← hdigits, Nat.ofDigitChars_ten_toDigits]
    have hkept : digitsOf maxDigits (c :: digits) = some (c :: digits) := by
      rw [digitsOf, hgroups, Option.filter_some, if_pos (by simpa using hn)]
    simp [intOfText, hplus, hminus, hkept, hback]

/-- The length that a header gives is read back. -/
theorem intOfBytes_lengthBytes {maxDigits n : ℕ} (hn : (Nat.toDigits 10 n).length ≤ maxDigits) :
    intOfBytes maxDigits (32 :: (lengthBytes n ++ [13, 10])) = some (n : ℤ) := by
  unfold intOfBytes
  rw [stripBytes_lengthBytes]
  unfold lengthBytes
  rw [JsonText.ofNat_encode_ascii (toDigits_lt n), intOfText_toDigits hn]

/-- A frame: two lines and the body. -/
theorem frame_eq (py : Interpreter F) (message : Value F) (body : List UInt8)
    (hbody : JsonText.encode (JsonText.render py message) = body) :
    frame py message =
      (headerTitle ++ lengthBytes body.length ++ [13]) ++ newline :: ([13] ++ newline :: body) := by
  have hends : JsonText.encode ['\r', '\n', '\r', '\n'] = [13, 10, 13, 10] := by decide
  unfold frame framed
  simp only [hbody, JsonText.encode_append, hends, headerTitle, lengthBytes, newline]
  simp

/-- The headers of a frame give the length of its body. -/
theorem readHeaders_frame (py : Interpreter F) (limit : ResponseLimit) {n : ℕ}
    (hn : n ≤ limit.bytes) (rest : List UInt8) :
    readHeaders py limit 16 none
      ((headerTitle ++ lengthBytes n ++ [13]) ++ newline :: ([13] ++ newline :: rest)) =
        (.ok (some (n : ℤ)), rest) := by
  have hlow := limit.lower
  have hup := limit.upper
  have htitle : headerTitle.length = 16 := by rw [headerTitle_eq]; rfl
  have hcount : (Nat.toDigits 10 n).length ≤ 8 := by
    rw [Nat.length_toDigits_le_iff (by decide) (by decide)]
    omega
  have hdigits : (lengthBytes n).length ≤ 8 := by
    rw [length_lengthBytes]
    exact hcount
  have hmax : (Nat.toDigits 10 n).length ≤ py.maxDigits := by
    have := py.maxDigits_ge
    omega
  have hline : newline ∉ headerTitle ++ lengthBytes n ++ [13] := by
    simp only [List.mem_append, headerTitle_eq, not_or]
    refine ⟨⟨by decide, fun hmem => ?_⟩, by decide⟩
    have := mem_lengthBytes hmem
    simp [newline] at this
  have hread := readline_line (F := F) limit hline
    (by simp only [List.length_append, List.length_singleton]; omega) ([13] ++ newline :: rest)
  have hblank := readline_line (F := F) limit (show newline ∉ [13] by decide)
    (by simp only [List.length_singleton]; omega) rest
  have hname : headerName.isPrefixOf
      ((headerTitle ++ lengthBytes n ++ [13] ++ [newline]).map lowerByte) = true := by
    rw [headerTitle_eq, headerName_eq]
    simp [lowerByte]
  have hvalue : ((headerTitle ++ lengthBytes n ++ [13] ++ [newline]).dropWhile (· ≠ colon)).tail =
      32 :: (lengthBytes n ++ [13, 10]) := by
    rw [headerTitle_eq]
    simp [colon, newline]
  rw [readHeaders, hread]
  simp only
  rw [if_neg (by simp), if_neg (by simp [headerTitle_eq, isByteSpace]), if_pos hname, hvalue,
    intOfBytes_lengthBytes hmax]
  simp only
  rw [readHeaders, hblank]
  simp only
  rw [if_neg (by simp), if_pos (by decide)]

/-- A frame is read as the message, or refused where its text cannot be gone through, and the stream
stands at what follows it. -/
theorem readMessage_frame (py : Interpreter F) (limit : ResponseLimit) {message : Value F}
    (hvalid : JsonText.Valid message)
    (hfits : (JsonText.encode (JsonText.render py message)).length ≤ limit.bytes)
    (tail : List UInt8) : readMessage py limit (frame py message ++ tail) =
      (((JsonText.inspect py.maxDigits py.scanRoom message).mapError .ofFailure).map
        fun _ => message, tail) := by
  have hne : JsonText.render py message ≠ [] :=
    List.ne_nil_of_length_pos (JsonText.length_render_pos py message)
  have hpos := JsonText.length_encode_pos hne
  have hloads := JsonText.loads_render py hvalid
  generalize hbody : JsonText.encode (JsonText.render py message) = body at *
  have hheaders := readHeaders_frame py limit hfits (body ++ tail)
  have hwithin : (some (body.length : ℤ)).filter
      (fun n : ℤ => 0 < n ∧ n ≤ (limit.bytes : ℤ)) = some (body.length : ℤ) := by
    rw [Option.filter_some, if_pos]
    simp only [decide_eq_true_eq]
    omega
  have hexact : readexactly (F := F) body.length (body ++ tail) = (.ok body, tail) := by
    unfold readexactly
    rw [if_neg (by simp), List.take_left, List.drop_left]
  rw [frame_eq py message body hbody]
  simp only [List.append_assoc, List.cons_append] at hheaders ⊢
  unfold readMessage
  rw [hheaders]
  simp only
  rw [hwithin]
  simp only [Int.toNat_natCast]
  rw [hexact]
  simp only
  rw [hloads]
  cases JsonText.inspect py.maxDigits py.scanRoom message <;> rfl

/-! ### The limits of the interpreter -/

/-- `json.loads` gets through the text of a value. -/
def Readable (py : Interpreter F) (message : Value F) : Prop :=
  JsonText.Within py.maxDigits py.scanRoom message

/-- `json.dumps` gets through a value. -/
def Writable (py : Interpreter F) (message : Value F) : Prop :=
  JsonText.Within py.maxDigits py.encodeRoom message

theorem write_of_writable {py : Interpreter F} {message : Value F} (h : Writable py message) :
    write py message = .ok (frame py message) := by
  unfold write JsonText.dumps
  rw [JsonText.inspect_eq_ok.mpr h]
  rfl

theorem write_of_not_writable {py : Interpreter F} {message : Value F}
    (h : ¬ Writable py message) : ∃ e, write py message = .error e := by
  unfold write JsonText.dumps
  cases hinspect : JsonText.inspect py.maxDigits py.encodeRoom message with
  | error e => exact ⟨.ofFailure e, rfl⟩
  | ok _ => exact absurd (JsonText.inspect_eq_ok.mp hinspect) h

theorem length_frame_pos (py : Interpreter F) (message : Value F) :
    0 < (frame py message).length := by
  rw [frame_eq py message _ rfl]
  simp only [List.length_append, List.length_cons]
  omega

/-! ### The loop -/

section Loop

variable {py : Interpreter F} {limit : ResponseLimit} {requestId : ℕ}
  {connection : LegacyStdioConnection} {message : Value F} {rest : List UInt8}

theorem receive_answered {reply : Value F}
    (h : readMessage py limit connection.stdout = (.ok message, rest))
    (hreply : handle py requestId message = .answered reply) (hwritable : Writable py reply) :
    receive py limit requestId connection = receive py limit requestId
      { connection with stdin := connection.stdin ++ frame py reply, stdout := rest } := by
  rw [receive]
  split
  next e left heq => simp [h] at heq
  next read left heq =>
    obtain ⟨hread, rfl⟩ := Prod.mk.inj (h.symm.trans heq)
    obtain rfl := Except.ok.inj hread
    simp only [hreply, write_of_writable hwritable]

theorem receive_unanswered {reply : Value F} {e : LegacyError F}
    (h : readMessage py limit connection.stdout = (.ok message, rest))
    (hreply : handle py requestId message = .answered reply) (hwrite : write py reply = .error e) :
    receive py limit requestId connection = (.error e, { connection with stdout := rest }) := by
  rw [receive]
  split
  next e left heq => simp [h] at heq
  next read left heq =>
    obtain ⟨hread, rfl⟩ := Prod.mk.inj (h.symm.trans heq)
    obtain rfl := Except.ok.inj hread
    simp only [hreply, hwrite]

theorem receive_ignored (h : readMessage py limit connection.stdout = (.ok message, rest))
    (hignored : handle py requestId message = .ignored) :
    receive py limit requestId connection =
      receive py limit requestId { connection with stdout := rest } := by
  rw [receive]
  split
  next e left heq => simp [h] at heq
  next read left heq =>
    obtain ⟨hread, rfl⟩ := Prod.mk.inj (h.symm.trans heq)
    obtain rfl := Except.ok.inj hread
    simp only [hignored]

/-- The end of a request: an error or the result, with the stream after the message. -/
def Handled.outcome : Handled F → Option (Except (LegacyError F) (Fields F))
  | .answered _ | .ignored => none
  | .failed e => some (.error e)
  | .returned result => some (.ok result)

theorem receive_outcome {outcome : Except (LegacyError F) (Fields F)}
    (h : readMessage py limit connection.stdout = (.ok message, rest))
    (hends : (handle py requestId message).outcome = some outcome) :
    receive py limit requestId connection = (outcome, { connection with stdout := rest }) := by
  rw [receive]
  split
  next e left heq => simp [h] at heq
  next read left heq =>
    obtain ⟨hread, rfl⟩ := Prod.mk.inj (h.symm.trans heq)
    obtain rfl := Except.ok.inj hread
    cases hhandle : handle py requestId message with
    | answered reply => simp [hhandle, Handled.outcome] at hends
    | ignored => simp [hhandle, Handled.outcome] at hends
    | failed e =>
      rw [hhandle] at hends
      obtain rfl := Option.some.inj hends
      rfl
    | returned result =>
      rw [hhandle] at hends
      obtain rfl := Option.some.inj hends
      rfl

end Loop

/-! ### What the peer writes -/

/-- A JSON-RPC message of the peer that fits into a frame. -/
structure PeerMessage (py : Interpreter F) (limit : ResponseLimit) where
  fields : Fields F
  valid : JsonText.Valid (.obj fields)
  version : isJsonRpc fields = true
  fits : (JsonText.encode (JsonText.render py (.obj fields))).length ≤ limit.bytes

namespace PeerMessage

variable {py : Interpreter F} {limit : ResponseLimit}

/-- A request of the server or a notification. -/
def isCall (m : PeerMessage py limit) : Bool := (m.fields.lookup (lit "method")).isSome

/-- The answer to a message: a request carries an identifier, a notification does not. -/
def answer (m : PeerMessage py limit) : Option (Value F) :=
  (m.fields.lookup (lit "id")).map methodNotFound

def bytes (m : PeerMessage py limit) : List UInt8 := frame py (.obj m.fields)

theorem read (m : PeerMessage py limit) (h : Readable py (.obj m.fields)) (tail : List UInt8) :
    readMessage py limit (m.bytes ++ tail) = (.ok (.obj m.fields), tail) := by
  unfold bytes
  rw [readMessage_frame py limit m.valid m.fits tail, JsonText.inspect_eq_ok.mpr h]
  rfl

theorem readable_of_read {m : PeerMessage py limit} {tail : List UInt8}
    (h : readMessage py limit (m.bytes ++ tail) = (.ok (.obj m.fields), tail)) :
    Readable py (.obj m.fields) := by
  unfold bytes at h
  rw [readMessage_frame py limit m.valid m.fits tail] at h
  cases hinspect : JsonText.inspect py.maxDigits py.scanRoom (.obj m.fields) with
  | error e =>
    rw [hinspect] at h
    cases (Prod.mk.inj h).1
  | ok _ => exact JsonText.inspect_eq_ok.mp hinspect

theorem handle_call (m : PeerMessage py limit) (h : m.isCall = true) (requestId : ℕ) :
    handle py requestId (.obj m.fields) =
      match m.answer with
      | some reply => .answered reply
      | none => .ignored := by
  have hversion : ¬ isJsonRpc m.fields = false := by simp [m.version]
  have hmethod : (m.fields.lookup (lit "method")).isSome = true := h
  rw [handle, handleFields, if_neg hversion, if_pos hmethod, answer]
  cases m.fields.lookup (lit "id") <;> rfl

end PeerMessage

section Calls

variable {py : Interpreter F} {limit : ResponseLimit} {requestId : ℕ}
  {calls : List (PeerMessage py limit)}

/-- The loop answers the requests among the calls in their order and goes on after them. -/
theorem receive_calls (hcalls : ∀ m ∈ calls, m.isCall = true)
    (hreadable : ∀ m ∈ calls, Readable py (.obj m.fields))
    (hwritable : ∀ reply ∈ calls.filterMap PeerMessage.answer, Writable py reply)
    (connection : LegacyStdioConnection) (rest : List UInt8)
    (hstdout : connection.stdout = calls.flatMap PeerMessage.bytes ++ rest) :
    receive py limit requestId connection = receive py limit requestId
      { connection with
        stdin := connection.stdin ++ (calls.filterMap PeerMessage.answer).flatMap (frame py)
        stdout := rest } := by
  induction calls generalizing connection with
  | nil =>
    rw [List.flatMap_nil, List.nil_append] at hstdout
    rw [← hstdout]
    simp
  | cons m calls ih =>
    obtain ⟨hcall, hcalls⟩ := List.forall_mem_cons.mp hcalls
    obtain ⟨hfirst, hreadable⟩ := List.forall_mem_cons.mp hreadable
    have hread : readMessage py limit connection.stdout =
        (.ok (.obj m.fields), calls.flatMap PeerMessage.bytes ++ rest) := by
      rw [hstdout, List.flatMap_cons, List.append_assoc, m.read hfirst]
    have hhandle := m.handle_call hcall requestId
    cases hanswer : m.answer with
    | some reply =>
      rw [List.filterMap_cons_some hanswer] at hwritable
      obtain ⟨hreply, hwritable⟩ := List.forall_mem_cons.mp hwritable
      rw [hanswer] at hhandle
      rw [receive_answered hread hhandle hreply, ih hcalls hreadable hwritable _ rfl]
      simp [List.filterMap_cons_some hanswer]
    | none =>
      rw [List.filterMap_cons_none hanswer] at hwritable
      rw [hanswer] at hhandle
      rw [receive_ignored hread hhandle, ih hcalls hreadable hwritable _ rfl]
      simp [List.filterMap_cons_none hanswer]

/-- The loop ends before a reply that cannot be written. -/
theorem receive_calls_unanswered (hcalls : ∀ m ∈ calls, m.isCall = true)
    (hreadable : ∀ m ∈ calls, Readable py (.obj m.fields))
    (hnot : ¬ ∀ reply ∈ calls.filterMap PeerMessage.answer, Writable py reply)
    (connection : LegacyStdioConnection) (rest : List UInt8)
    (hstdout : connection.stdout = calls.flatMap PeerMessage.bytes ++ rest) :
    (receive py limit requestId connection).2.stdin.length < connection.stdin.length +
      ((calls.filterMap PeerMessage.answer).flatMap (frame py)).length := by
  induction calls generalizing connection with
  | nil => simp at hnot
  | cons m calls ih =>
    obtain ⟨hcall, hcalls⟩ := List.forall_mem_cons.mp hcalls
    obtain ⟨hfirst, hreadable⟩ := List.forall_mem_cons.mp hreadable
    have hread : readMessage py limit connection.stdout =
        (.ok (.obj m.fields), calls.flatMap PeerMessage.bytes ++ rest) := by
      rw [hstdout, List.flatMap_cons, List.append_assoc, m.read hfirst]
    have hhandle := m.handle_call hcall requestId
    cases hanswer : m.answer with
    | some reply =>
      rw [hanswer] at hhandle
      rw [List.filterMap_cons_some hanswer] at hnot ⊢
      rw [List.flatMap_cons, List.length_append]
      by_cases hreply : Writable py reply
      · have hrest : ¬ ∀ reply ∈ calls.filterMap PeerMessage.answer, Writable py reply :=
          fun hall => hnot (List.forall_mem_cons.mpr ⟨hreply, hall⟩)
        have hlt := ih hcalls hreadable hrest
          { connection with
            stdin := connection.stdin ++ frame py reply
            stdout := calls.flatMap PeerMessage.bytes ++ rest } rfl
        rw [receive_answered hread hhandle hreply]
        simp only [List.length_append] at hlt
        omega
      · obtain ⟨e, hwrite⟩ := write_of_not_writable hreply
        have hpos := length_frame_pos py reply
        rw [receive_unanswered hread hhandle hwrite]
        dsimp only
        omega
    | none =>
      rw [hanswer] at hhandle
      rw [List.filterMap_cons_none hanswer] at hnot ⊢
      rw [receive_ignored hread hhandle]
      exact ih hcalls hreadable hnot _ rfl

end Calls

/-! ### The contract of a request -/

def SameId (py : Interpreter F) (requestId : ℕ) : Option (Value F) → Prop
  | some (.int z) => z = requestId
  | some (.float x) => py.value x = some ((requestId : ℤ) : ℚ)
  | _ => False

/-- What a request promises about a stream of calls with a response at their end. -/
structure FramingContract {py : Interpreter F} {limit : ResponseLimit}
    (connection : LegacyStdioConnection) (method : Text) (params : Value F)
    (calls : List (PeerMessage py limit)) (response : PeerMessage py limit)
    (rest : List UInt8) : Prop where
  decoded : ∀ m ∈ calls ++ [response], ∀ tail,
    readMessage py limit (m.bytes ++ tail) = (.ok (.obj m.fields), tail)
  written : (request py limit connection method params).2.stdin =
    connection.stdin ++ frame py (requestMessage (connection.counter + 1) method params) ++
      (calls.filterMap PeerMessage.answer).flatMap (frame py)
  positioned : (request py limit connection method params).2.stdout = rest
  returned : ∀ result, SameId py (connection.counter + 1) (response.fields.lookup (lit "id")) →
    response.fields.lookup (lit "error") = none →
      response.fields.lookup (lit "result") = some (.obj result) →
      (request py limit connection method params).1 = .ok result
  never : ∀ result, (request py limit connection method params).1 = .ok result →
    SameId py (connection.counter + 1) (response.fields.lookup (lit "id")) ∧
      response.fields.lookup (lit "result") = some (.obj result)

/-- The identifiers that the code takes for its own. -/
theorem any_equalsInt {py : Interpreter F} {requestId : ℕ} (hpos : 0 < requestId)
    (id : Option (Value F)) : id.any (equalsInt py requestId) = true ↔
      SameId py requestId id ∨ (requestId = 1 ∧ id = some (.bool true)) := by
  cases id with
  | none => simp [SameId]
  | some value =>
    cases value with
    | bool b =>
      cases b with
      | true =>
        simp only [Option.any_some, equalsInt, if_true, decide_eq_true_eq, SameId,
          false_or, and_true]
        omega
      | false =>
        have hzero : ¬ (0 : ℤ) = requestId := by omega
        simp [equalsInt, SameId, hzero]
    | _ => simp [equalsInt, SameId]

/-- How a request ends that has read a response. -/
theorem handle_response {py : Interpreter F} {limit : ResponseLimit} {requestId : ℕ}
    {response : PeerMessage py limit} (hresponse : response.isCall = false) :
    ∃ outcome, (handle py requestId (.obj response.fields)).outcome = some outcome ∧
      ∀ result, outcome = .ok result ↔
        (response.fields.lookup (lit "id")).any (equalsInt py requestId) = true ∧
          response.fields.lookup (lit "error") = none ∧
          response.fields.lookup (lit "result") = some (.obj result) := by
  have hversion : ¬ isJsonRpc response.fields = false := by simp [response.version]
  have hmethod : ¬ (response.fields.lookup (lit "method")).isSome = true := by
    unfold PeerMessage.isCall at hresponse
    simp [hresponse]
  rw [handle, handleFields, if_neg hversion, if_neg hmethod]
  by_cases hid : (response.fields.lookup (lit "id")).any (equalsInt py requestId) = true
  · rw [if_neg (by simp [hid])]
    cases herror : response.fields.lookup (lit "error") with
    | some error => exact ⟨_, rfl, fun result => by simp⟩
    | none =>
      cases hresult : response.fields.lookup (lit "result") with
      | none => exact ⟨_, rfl, fun result => by simp⟩
      | some value =>
        cases value with
        | obj fields => exact ⟨_, rfl, fun result => by simp [hid]⟩
        | _ => exact ⟨_, rfl, fun result => by simp⟩
  · have hid : (response.fields.lookup (lit "id")).any (equalsInt py requestId) = false := by
      simpa using hid
    rw [if_pos hid]
    exact ⟨_, rfl, fun result => by simp [hid]⟩

section Contract

variable {py : Interpreter F} {limit : ResponseLimit} {connection : LegacyStdioConnection}
  {method : Text} {params : Value F} {calls : List (PeerMessage py limit)}
  {response : PeerMessage py limit} {rest : List UInt8}

theorem request_of_writable
    (h : Writable py (requestMessage (connection.counter + 1) method params)) :
    request py limit connection method params = receive py limit (connection.counter + 1)
      { connection with
        counter := connection.counter + 1
        stdin := connection.stdin ++
          frame py (requestMessage (connection.counter + 1) method params) } := by
  unfold request
  simp only [write_of_writable h]

theorem request_of_refused {e : LegacyError F}
    (h : write py (requestMessage (connection.counter + 1) method params) = .error e) :
    request py limit connection method params =
      (.error e, { connection with counter := connection.counter + 1 }) := by
  unfold request
  simp only [h]

/-- How a request ends on a stream of calls with a response at their end. -/
theorem request_eq (hcalls : ∀ m ∈ calls, m.isCall = true) (hresponse : response.isCall = false)
    (hstdout : connection.stdout = (calls ++ [response]).flatMap PeerMessage.bytes ++ rest)
    (hrequest : Writable py (requestMessage (connection.counter + 1) method params))
    (hreadable : ∀ m ∈ calls ++ [response], Readable py (.obj m.fields))
    (hreplies : ∀ reply ∈ calls.filterMap PeerMessage.answer, Writable py reply) :
    ∃ outcome, request py limit connection method params = (outcome,
      { connection with
        counter := connection.counter + 1
        stdin := connection.stdin ++
          frame py (requestMessage (connection.counter + 1) method params) ++
          (calls.filterMap PeerMessage.answer).flatMap (frame py)
        stdout := rest }) ∧
      ∀ result, outcome = .ok result ↔
        (response.fields.lookup (lit "id")).any (equalsInt py (connection.counter + 1 : ℕ)) = true ∧
          response.fields.lookup (lit "error") = none ∧
          response.fields.lookup (lit "result") = some (.obj result) := by
  obtain ⟨outcome, houtcome, hok⟩ :=
    @handle_response _ py limit (connection.counter + 1) response hresponse
  have hlast : Readable py (.obj response.fields) := hreadable response (by simp)
  refine ⟨outcome, ?_, hok⟩
  rw [request_of_writable hrequest, receive_calls hcalls
    (fun m hm => hreadable m (List.mem_append_left _ hm)) hreplies _ (response.bytes ++ rest)
    (by simpa using hstdout)]
  exact receive_outcome (response.read hlast rest) houtcome

/-- A request keeps its contract on messages that the interpreter can read and answer, unless it is
the first one of its connection and takes a response for its own that has the identifier `true`. -/
theorem framing_contract_iff {py : Interpreter F} {limit : ResponseLimit}
    (connection : LegacyStdioConnection) (method : Text) (params : Value F)
    (calls : List (PeerMessage py limit)) (response : PeerMessage py limit)
    (rest : List UInt8) (hcalls : ∀ m ∈ calls, m.isCall = true)
    (hresponse : response.isCall = false)
    (hstdout : connection.stdout = (calls ++ [response]).flatMap PeerMessage.bytes ++ rest) :
    FramingContract connection method params calls response rest ↔
      Writable py (requestMessage (connection.counter + 1) method params) ∧
      (∀ m ∈ calls ++ [response], Readable py (.obj m.fields)) ∧
      (∀ reply ∈ calls.filterMap PeerMessage.answer, Writable py reply) ∧
      ¬ (connection.counter = 0 ∧ response.fields.lookup (lit "id") = some (.bool true) ∧
        response.fields.lookup (lit "error") = none ∧
        ∃ result, response.fields.lookup (lit "result") = some (.obj result)) := by
  have hids := @any_equalsInt _ py (connection.counter + 1) (by omega)
    (response.fields.lookup (lit "id"))
  constructor
  · intro hcontract
    have hreadable : ∀ m ∈ calls ++ [response], Readable py (.obj m.fields) :=
      fun m hm => PeerMessage.readable_of_read (hcontract.decoded m hm [])
    have hwritten := congrArg List.length hcontract.written
    have hrequest : Writable py (requestMessage (connection.counter + 1) method params) := by
      by_contra hnot
      obtain ⟨e, hwrite⟩ := write_of_not_writable hnot
      have hpos := length_frame_pos py (requestMessage (connection.counter + 1) method params)
      rw [request_of_refused hwrite] at hwritten
      simp only [List.length_append] at hwritten
      omega
    have hreplies : ∀ reply ∈ calls.filterMap PeerMessage.answer, Writable py reply := by
      by_contra hnot
      have hlt := @receive_calls_unanswered _ _ _ (connection.counter + 1) _ hcalls
        (fun m hm => hreadable m (List.mem_append_left _ hm)) hnot
        { connection with
          counter := connection.counter + 1
          stdin := connection.stdin ++
            frame py (requestMessage (connection.counter + 1) method params) }
        (response.bytes ++ rest) (by simpa using hstdout)
      rw [request_of_writable hrequest] at hwritten
      simp only [List.length_append] at hwritten hlt
      omega
    refine ⟨hrequest, hreadable, hreplies, ?_⟩
    rintro ⟨hfirst, hid, herror, result, hresult⟩
    obtain ⟨outcome, hrun, hok⟩ := request_eq hcalls hresponse hstdout hrequest hreadable hreplies
    have hreturned : outcome = .ok result :=
      (hok result).mpr ⟨hids.mpr (Or.inr ⟨by omega, hid⟩), herror, hresult⟩
    have hsame := (hcontract.never result (by rw [hrun]; exact hreturned)).1
    rw [hid] at hsame
    exact hsame
  · rintro ⟨hrequest, hreadable, hreplies, hnot⟩
    obtain ⟨outcome, hrun, hok⟩ := request_eq hcalls hresponse hstdout hrequest hreadable hreplies
    constructor
    case decoded => exact fun m hm tail => m.read (hreadable m hm) tail
    case written => rw [hrun]
    case positioned => rw [hrun]
    case returned =>
      intro result hid herror hresult
      rw [hrun]
      exact (hok result).mpr ⟨hids.mpr (Or.inl hid), herror, hresult⟩
    case never =>
      intro result hreturned
      rw [hrun] at hreturned
      obtain ⟨hid, herror, hresult⟩ := (hok result).mp hreturned
      rcases hids.mp hid with hsame | ⟨hone, htrue⟩
      · exact ⟨hsame, hresult⟩
      · exact absurd ⟨by omega, htrue, herror, result, hresult⟩ hnot

end Contract

/-! Floats as the texts that they are written with. -/

def isFloatText (text : List Char) : Bool :=
  match JsonText.scanNumber text with
  | some (n, []) => n.isFloat
  | _ => false

inductive LiteralFloat where
  | literal (text : List Char) (isText : isFloatText text = true)
  | nan
  | infinity (negative : Bool)

def LiteralFloat.text : LiteralFloat → List Char
  | .literal text _ => text
  | .nan => ['N', 'a', 'N']
  | .infinity false => ['I', 'n', 'f', 'i', 'n', 'i', 't', 'y']
  | .infinity true => ['-', 'I', 'n', 'f', 'i', 'n', 'i', 't', 'y']

def LiteralFloat.ofText (text : List Char) : LiteralFloat :=
  if h : isFloatText text = true then .literal text h else .nan

/-- The limits are those that Python sets. -/
def literalFloats : Interpreter LiteralFloat where
  text := LiteralFloat.text
  ofText := LiteralFloat.ofText
  nan := .nan
  infinity := .infinity false
  negInfinity := .infinity true
  value _ := none
  maxDigits := 4300
  scanRoom := 990
  encodeRoom := 990
  maxDigits_ge := by decide
  encodeRoom_ge := by decide
  read_text x := by
    cases x with
    | nan => exact Or.inr (Or.inl ⟨rfl, rfl⟩)
    | infinity negative =>
      cases negative with
      | false => exact Or.inr (Or.inr (Or.inl ⟨rfl, rfl⟩))
      | true => exact Or.inr (Or.inr (Or.inr ⟨rfl, rfl⟩))
    | literal text isText =>
      left
      have hback : LiteralFloat.ofText text = .literal text isText := dif_pos isText
      unfold isFloatText at isText
      split at isText
      next n hscan => exact ⟨n, hscan, isText, hback⟩
      next => cases isText

/-! The first request of a connection: a notification and a request of the server come before the
response. -/

def sampleLimit : ResponseLimit := ⟨8192, by decide, by decide⟩

def sampleConnection (stdout : List UInt8) : LegacyStdioConnection := ⟨0, [], stdout⟩

def progressMessage : PeerMessage literalFloats sampleLimit where
  fields := [(lit "jsonrpc", .str (lit "2.0")), (lit "method", .str (lit "notifications/progress"))]
  valid := by simp [JsonText.Valid, JsonText.FieldsValid]
  version := rfl
  fits := by decide +kernel

def rootsMessage : PeerMessage literalFloats sampleLimit where
  fields := [(lit "jsonrpc", .str (lit "2.0")), (lit "id", .int 7),
    (lit "method", .str (lit "roots/list"))]
  valid := by simp [JsonText.Valid, JsonText.FieldsValid]
  version := rfl
  fits := by decide +kernel

/-- A response with an empty object as its result. -/
def responseMessage (id : Bool) : PeerMessage literalFloats sampleLimit where
  fields := [(lit "jsonrpc", .str (lit "2.0")), (lit "id", if id then .bool true else .int 1),
    (lit "result", .obj [])]
  valid := by cases id <;> simp [JsonText.Valid, JsonText.FieldsValid]
  version := rfl
  fits := by cases id <;> decide +kernel

/-- The frames of a response after a notification and a request. -/
def sampleStream (response : PeerMessage literalFloats sampleLimit) : List UInt8 :=
  ([progressMessage, rootsMessage] ++ [response]).flatMap PeerMessage.bytes

theorem readable_sampleStream {response : PeerMessage literalFloats sampleLimit}
    (h : Readable literalFloats (.obj response.fields)) :
    ∀ m ∈ [progressMessage, rootsMessage] ++ [response],
      Readable literalFloats (.obj m.fields) := by
  simp only [List.cons_append, List.nil_append, List.forall_mem_cons, List.not_mem_nil,
    false_imp_iff, implies_true, and_true]
  exact ⟨JsonText.inspect_eq_ok.mp rfl, JsonText.inspect_eq_ok.mp rfl, h⟩

theorem writable_sampleReplies : ∀ reply ∈ [progressMessage, rootsMessage].filterMap
    PeerMessage.answer, Writable literalFloats reply := by
  intro reply hreply
  obtain rfl : reply = methodNotFound (.int 7) := List.mem_singleton.mp hreply
  exact JsonText.inspect_eq_ok.mp rfl

theorem framing_contract_iff_sample :
    FramingContract (sampleConnection (sampleStream (responseMessage false))) (lit "initialize")
      (.obj []) [progressMessage, rootsMessage] (responseMessage false) [] := by
  refine (framing_contract_iff (sampleConnection (sampleStream (responseMessage false)))
    (lit "initialize") (.obj []) [progressMessage, rootsMessage] (responseMessage false) []
    (by decide) rfl (by simp [sampleConnection, sampleStream])).mpr
      ⟨JsonText.inspect_eq_ok.mp rfl, readable_sampleStream (JsonText.inspect_eq_ok.mp rfl),
        writable_sampleReplies, ?_⟩
  rintro ⟨-, hid, -⟩
  have hid : some (.int 1) = some (Value.bool (F := LiteralFloat) true) := hid
  simp at hid

/-! A response whose result has an integer of 4301 digits. -/

theorem digitCount_pow (n : ℕ) : JsonText.digitCount (10 ^ n : ℕ) = n + 1 := by
  unfold JsonText.digitCount
  rw [Int.natAbs_natCast]
  have hle : (Nat.toDigits 10 (10 ^ n)).length ≤ n + 1 :=
    (Nat.length_toDigits_le_iff (by decide) (by omega)).mpr (Nat.pow_lt_pow_succ (by decide))
  have hpos := @Nat.length_toDigits_pos 10 (10 ^ n)
  have hlt : ¬ (Nat.toDigits 10 (10 ^ n)).length ≤ n := by
    intro hle
    exact absurd ((Nat.length_toDigits_le_iff (by decide) (by omega)).mp hle) (lt_irrefl _)
  omega

def sizeFields (size : ℕ) : Fields LiteralFloat :=
  [(lit "jsonrpc", .str (lit "2.0")), (lit "id", .int 1),
    (lit "result", .obj [(lit "size", .int size)])]

theorem length_sizeFields (size : ℕ) :
    (JsonText.render literalFloats (.obj (sizeFields size))).length =
      43 + JsonText.digitCount size := by
  have hsize : JsonText.intText size = Nat.toDigits 10 size := by simp [JsonText.intText]
  have hone : (JsonText.intText 1).length = 1 := by decide
  have hkeys : (JsonText.quoted (lit "jsonrpc")).length = 9 ∧
      (JsonText.quoted (lit "2.0")).length = 5 ∧ (JsonText.quoted (lit "id")).length = 4 ∧
      (JsonText.quoted (lit "result")).length = 8 ∧ (JsonText.quoted (lit "size")).length = 6 := by
    decide
  simp only [sizeFields, JsonText.render, JsonText.renderFields, List.nil_append,
    List.length_append, List.length_cons, List.length_nil, hkeys, hone, hsize,
    JsonText.digitCount, Int.natAbs_natCast]
  omega

theorem not_readable_sizeFields {size : ℕ} (h : 4300 < JsonText.digitCount size) :
    ¬ Readable literalFloats (.obj (sizeFields size)) := by
  simp only [Readable, sizeFields, JsonText.Within, JsonText.FieldsWithin]
  rintro ⟨-, -, -, ⟨-, hsize, -⟩, -⟩
  exact absurd hsize (by simpa [literalFloats] using h)

def sizeMessage : PeerMessage literalFloats sampleLimit where
  fields := sizeFields (10 ^ 4300)
  valid := by
    generalize 10 ^ 4300 = size
    simp [sizeFields, JsonText.Valid, JsonText.FieldsValid]
  version := rfl
  fits := by
    rw [JsonText.length_encode_render, length_sizeFields, digitCount_pow]
    decide

/-- `true` is taken for the identifier 1, and a long integer is refused. -/
theorem framing_contract_fails :
    ¬ FramingContract (sampleConnection (sampleStream (responseMessage true))) (lit "initialize")
      (.obj []) [progressMessage, rootsMessage] (responseMessage true) [] ∧
    ¬ FramingContract (sampleConnection (sampleStream sizeMessage)) (lit "initialize")
      (.obj []) [progressMessage, rootsMessage] sizeMessage [] := by
  constructor
  · intro hcontract
    obtain ⟨outcome, hrun, hok⟩ := @request_eq _ literalFloats sampleLimit
      (sampleConnection (sampleStream (responseMessage true))) (lit "initialize") (.obj [])
      [progressMessage, rootsMessage] (responseMessage true) [] (by decide) rfl
      (by simp [sampleConnection, sampleStream]) (JsonText.inspect_eq_ok.mp rfl)
      (readable_sampleStream (JsonText.inspect_eq_ok.mp rfl)) writable_sampleReplies
    have hreturned : outcome = .ok [] := (hok []).mpr ⟨rfl, rfl, rfl⟩
    exact (hcontract.never [] (by rw [hrun]; exact hreturned)).1
  · intro hcontract
    refine @not_readable_sizeFields (10 ^ 4300) ?_
      (PeerMessage.readable_of_read (hcontract.decoded sizeMessage (by simp) []))
    rw [digitCount_pow]
    decide

end AgentDemo
