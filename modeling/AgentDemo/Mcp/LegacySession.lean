import AgentDemo.Library.Program
import AgentDemo.Mcp.LegacyFraming

/-! A session on a legacy connection: the handshake and the requests of a client, over the bytes of
two pipes and over whole messages. -/
namespace AgentDemo

open JsonText (Value Interpreter Text lit)

variable {F α : Type}

/-- What a client does with its connection. -/
inductive LegacyCall (F : Type) where
  | request (method : Text) (params : Value F)
  | write (message : Value F)

abbrev LegacyCall.Answer : LegacyCall F → Type
  | .request _ _ => Except (LegacyError F) (Fields F)
  | .write _ => Except (LegacyError F) Unit

abbrev LegacyClient (F α : Type) := Program (LegacyCall F) LegacyCall.Answer α

/-- `protocol_version` and `capabilities`. -/
structure LegacySession (F : Type) where
  protocolVersion : Text
  capabilities : Value F

def legacyProtocolVersions : List Text :=
  [lit "2024-11-05", lit "2025-03-26", lit "2025-06-18", lit "2025-11-25"]

def initializeParams : Value F :=
  .obj [(lit "protocolVersion", .str (lit "2025-11-25")), (lit "capabilities", .obj []),
    (lit "clientInfo", .obj [(lit "name", .str (lit "AgentDemo")),
      (lit "version", .str (lit "0.1.0"))])]

def initializedMessage : Value F :=
  .obj [(lit "jsonrpc", .str (lit "2.0")),
    (lit "method", .str (lit "notifications/initialized")), (lit "params", .obj [])]

/-- The check of the protocol version: a list or an object cannot be looked up in a set. -/
def checkProtocolVersion (version : Option (Value F)) : Except (LegacyError F) Text :=
  match version with
  | some (.str text) =>
    if text ∈ legacyProtocolVersions then .ok text
    else .error (.runtimeError "Unsupported legacy MCP protocol version")
  | some (.arr _) | some (.obj _) => .error .typeError
  | _ => .error (.runtimeError "Unsupported legacy MCP protocol version")

/-- The session that a response to `initialize` opens. -/
def openedBy (initialized : Fields F) : Except (LegacyError F) (LegacySession F) :=
  (checkProtocolVersion (initialized.lookup (lit "protocolVersion"))).map fun version =>
    ⟨version, (initialized.lookup (lit "capabilities")).getD (.obj [])⟩

/-- The rest of `__aenter__`, and the body of the `async with` block if it succeeds. -/
def afterInitialize (use : LegacySession F → LegacyClient F (Except (LegacyError F) α)) :
    Except (LegacyError F) (Fields F) → LegacyClient F (Except (LegacyError F) α)
  | .error e => .done (.error e)
  | .ok initialized =>
    match openedBy initialized with
    | .error e => .done (.error e)
    | .ok session => .ask (.write initializedMessage) fun
      | .error e => .done (.error e)
      | .ok _ => use session

/-- `async with LegacyStdioConnection(…) as client`. -/
def withSession (use : LegacySession F → LegacyClient F (Except (LegacyError F) α)) :
    LegacyClient F (Except (LegacyError F) α) :=
  .ask (.request (lit "initialize") initializeParams) (afterInitialize use)

/-- A client on the pipes of the subprocess. -/
def perform (py : Interpreter F) (limit : ResponseLimit) :
    LegacyClient F α → LegacyStdioConnection → α × LegacyStdioConnection
  | .done a, connection => (a, connection)
  | .ask (.request method params) k, connection =>
    let reply := request py limit connection method params
    perform py limit (k reply.1) reply.2
  | .ask (.write message) k, connection =>
    match write py message with
    | .error e => perform py limit (k (.error e)) connection
    | .ok bytes =>
      perform py limit (k (.ok ())) { connection with stdin := connection.stdin ++ bytes }

/-! ### Sessions as exchanges of whole messages -/

/-- What a peer writes until it has answered a request, as far as the interpreter can read it and
write the replies. -/
structure Exchange (py : Interpreter F) (limit : ResponseLimit) where
  calls : List (PeerMessage py limit)
  response : PeerMessage py limit
  calls_isCall : ∀ m ∈ calls, m.isCall = true
  response_isCall : response.isCall = false
  readable : ∀ m ∈ calls ++ [response], Readable py (.obj m.fields)
  answerable : ∀ reply ∈ calls.filterMap PeerMessage.answer, Writable py reply

namespace Exchange

variable {py : Interpreter F} {limit : ResponseLimit}

def bytes (e : Exchange py limit) : List UInt8 :=
  (e.calls ++ [e.response]).flatMap PeerMessage.bytes

/-- The replies to the requests of the peer. -/
def answers (e : Exchange py limit) : List (Value F) := e.calls.filterMap PeerMessage.answer

/-- What the request with this identifier gets. -/
def reply (e : Exchange py limit) (requestId : ℕ) : Except (LegacyError F) (Fields F) :=
  ((handle py requestId (.obj e.response.fields)).outcome).getD (.error .typeError)

theorem outcome_response (e : Exchange py limit) (requestId : ℕ) :
    (handle py requestId (.obj e.response.fields)).outcome = some (e.reply requestId) := by
  obtain ⟨outcome, houtcome, -⟩ :=
    @handle_response _ py limit requestId e.response e.response_isCall
  simp only [reply, houtcome, Option.getD_some]

theorem response_bytes (e : Exchange py limit) (requestId : ℕ)
    {connection : LegacyStdioConnection} {rest : List UInt8}
    (hstdout : connection.stdout = e.response.bytes ++ rest) :
    receive py limit requestId connection =
      (e.reply requestId, { connection with stdout := rest }) := by
  have hread : readMessage py limit connection.stdout =
      (.ok (.obj e.response.fields), rest) := by
    rw [hstdout]
    exact e.response.read (e.readable e.response (by simp)) rest
  exact receive_outcome hread (e.outcome_response requestId)

/-- One request on the pipes. -/
theorem request_bytes (e : Exchange py limit) (connection : LegacyStdioConnection)
    (method : Text) (params : Value F)
    (hwritable : Writable py (requestMessage (connection.counter + 1) method params))
    {rest : List UInt8} (hstdout : connection.stdout = e.bytes ++ rest) :
    request py limit connection method params = (e.reply (connection.counter + 1),
      { connection with
        counter := connection.counter + 1
        stdin := connection.stdin ++
          (requestMessage (connection.counter + 1) method params :: e.answers).flatMap (frame py)
        stdout := rest }) := by
  rw [request_of_writable hwritable, receive_calls e.calls_isCall
    (fun m hm => e.readable m (List.mem_append_left _ hm)) e.answerable _
    (e.response.bytes ++ rest) (by simpa [bytes] using hstdout)]
  rw [e.response_bytes (connection.counter + 1) rfl]
  simp [answers, List.append_assoc]

end Exchange

/-- A run of a client whose last request has the number `n`: what its peer exchanges with it, the
messages that it writes, the number of its last request then, and its result. A message that
`json.dumps` refuses is not written, and no exchange follows. -/
inductive Runs {py : Interpreter F} {limit : ResponseLimit} :
    ℕ → LegacyClient F α → List (Exchange py limit) → List (Value F) → ℕ → α → Prop
  | done (n : ℕ) (a : α) : Runs n (.done a) [] [] n a
  | request {n last : ℕ} {method : Text} {params : Value F}
      {k : Except (LegacyError F) (Fields F) → LegacyClient F α} {e : Exchange py limit}
      {es : List (Exchange py limit)} {sent : List (Value F)} {a : α}
      (hwritable : Writable py (requestMessage (n + 1) method params))
      (h : Runs (n + 1) (k (e.reply (n + 1))) es sent last a) :
      Runs n (.ask (.request method params) k) (e :: es)
        (requestMessage (n + 1) method params :: (e.answers ++ sent)) last a
  | requestRefused {n last : ℕ} {method : Text} {params : Value F}
      {k : Except (LegacyError F) (Fields F) → LegacyClient F α} {error : LegacyError F}
      {es : List (Exchange py limit)} {sent : List (Value F)} {a : α}
      (hwrite : write py (requestMessage (n + 1) method params) = .error error)
      (h : Runs (n + 1) (k (.error error)) es sent last a) :
      Runs n (.ask (.request method params) k) es sent last a
  | write {n last : ℕ} {message : Value F} {k : Except (LegacyError F) Unit → LegacyClient F α}
      {es : List (Exchange py limit)} {sent : List (Value F)} {a : α}
      (hwritable : Writable py message) (h : Runs n (k (.ok ())) es sent last a) :
      Runs n (.ask (.write message) k) es (message :: sent) last a
  | writeRefused {n last : ℕ} {message : Value F}
      {k : Except (LegacyError F) Unit → LegacyClient F α} {error : LegacyError F}
      {es : List (Exchange py limit)} {sent : List (Value F)} {a : α}
      (hwrite : write py message = .error error) (h : Runs n (k (.error error)) es sent last a) :
      Runs n (.ask (.write message) k) es sent last a

namespace Runs

variable {py : Interpreter F} {limit : ResponseLimit}

/-- Every client runs against every peer that answers. -/
theorem exists_run (peer : ℕ → Exchange py limit) (p : LegacyClient F α) (n i : ℕ) :
    ∃ j sent last a, Runs n p ((List.range j).map fun l => peer (i + l)) sent last a := by
  induction p generalizing n i with
  | done a => exact ⟨0, [], n, a, .done n a⟩
  | ask q k ih =>
    cases q with
    | write message =>
      by_cases hwritable : Writable py message
      · obtain ⟨j, sent, last, a, h⟩ := ih (.ok ()) n i
        exact ⟨j, message :: sent, last, a, .write hwritable h⟩
      · obtain ⟨error, hwrite⟩ := write_of_not_writable hwritable
        obtain ⟨j, sent, last, a, h⟩ := ih (.error error) n i
        exact ⟨j, sent, last, a, .writeRefused hwrite h⟩
    | request method params =>
      by_cases hwritable : Writable py (requestMessage (n + 1) method params)
      · obtain ⟨j, sent, last, a, h⟩ := ih ((peer i).reply (n + 1)) (n + 1) (i + 1)
        refine ⟨j + 1, requestMessage (n + 1) method params :: ((peer i).answers ++ sent), last, a,
          ?_⟩
        rw [List.range_succ_eq_map, List.map_cons, List.map_map]
        have hrest : ((fun l => peer (i + l)) ∘ Nat.succ) = fun l => peer (i + 1 + l) := by
          funext l
          exact congrArg peer (by omega)
        rw [hrest]
        exact .request hwritable h
      · obtain ⟨error, hwrite⟩ := write_of_not_writable hwritable
        obtain ⟨j, sent, last, a, h⟩ := ih (.error error) (n + 1) i
        exact ⟨j, sent, last, a, .requestRefused hwrite h⟩

/-- On the pipes a client does what it does over whole messages. -/
theorem perform_eq {p : LegacyClient F α} {n last : ℕ} {es : List (Exchange py limit)}
    {sent : List (Value F)} {a : α} (h : Runs n p es sent last a)
    (connection : LegacyStdioConnection) (hcounter : connection.counter = n) {rest : List UInt8}
    (hstdout : connection.stdout = es.flatMap Exchange.bytes ++ rest) :
    perform py limit p connection =
      (a, ⟨last, connection.stdin ++ sent.flatMap (frame py), rest⟩) := by
  induction h generalizing connection with
  | done n a =>
    obtain ⟨counter, stdin, stdout⟩ := connection
    obtain rfl : counter = n := hcounter
    obtain rfl : stdout = rest := by simpa using hstdout
    simp [perform]
  | @request n last method params k e es sent a hwritable h ih =>
    subst hcounter
    have hfirst : connection.stdout = e.bytes ++ (es.flatMap Exchange.bytes ++ rest) := by
      simpa [List.append_assoc] using hstdout
    have hrequest := e.request_bytes connection method params hwritable hfirst
    rw [perform]
    simp only [hrequest]
    rw [ih _ rfl rfl]
    simp [List.append_assoc]
  | @requestRefused n last method params k error es sent a hwrite h ih =>
    subst hcounter
    rw [perform]
    simp only [request_of_refused hwrite]
    exact ih { connection with counter := connection.counter + 1 } rfl hstdout
  | @write n last message k es sent a hwritable h ih =>
    rw [perform]
    simp only [write_of_writable hwritable]
    rw [ih { connection with stdin := connection.stdin ++ frame py message } hcounter hstdout]
    simp [List.append_assoc]
  | @writeRefused n last message k error es sent a hwrite h ih =>
    rw [perform]
    simp only [hwrite]
    rw [ih connection hcounter hstdout]

end Runs

/-! The messages of the handshake can be written. -/

theorem one_le_maxDigits (py : Interpreter F) :
    JsonText.digitCount (1 : ℕ) ≤ py.maxDigits := by
  have hone : JsonText.digitCount (1 : ℕ) = 1 := by decide
  have := py.maxDigits_ge
  omega

theorem writable_handshakeRequest (py : Interpreter F) :
    Writable py (requestMessage 1 (lit "initialize") initializeParams) := by
  have hroom := py.encodeRoom_ge
  have hone := one_le_maxDigits py
  simp only [Writable, requestMessage, initializeParams, JsonText.Within, JsonText.FieldsWithin,
    hone, true_and, and_true]
  omega

theorem writable_initialized (py : Interpreter F) :
    Writable py (initializedMessage (F := F)) := by
  have hroom := py.encodeRoom_ge
  simp only [Writable, initializedMessage, JsonText.Within, JsonText.FieldsWithin, true_and,
    and_true]
  omega

/-- What `__aenter__` makes of the first exchange. -/
def Exchange.opened {py : Interpreter F} {limit : ResponseLimit} (e : Exchange py limit) :
    Except (LegacyError F) (LegacySession F) :=
  (e.reply 1).bind openedBy

section Session

variable {py : Interpreter F} {limit : ResponseLimit}
  {use : LegacySession F → LegacyClient F (Except (LegacyError F) α)}
  {first : Exchange py limit} {es : List (Exchange py limit)} {sent : List (Value F)} {last : ℕ}
  {a : Except (LegacyError F) α}

theorem Runs.opened {session : LegacySession F} (hopened : first.opened = .ok session)
    (h : Runs 1 (use session) es sent last a) :
    Runs 0 (withSession use) (first :: es)
      (requestMessage 1 (lit "initialize") initializeParams ::
        (first.answers ++ initializedMessage :: sent)) last a := by
  refine .request (writable_handshakeRequest py) ?_
  unfold Exchange.opened at hopened
  cases hreply : first.reply 1 with
  | error e => simp [hreply, Except.bind] at hopened
  | ok initialized =>
    have hopened : openedBy initialized = .ok session := by
      simpa [hreply, Except.bind] using hopened
    simp only [afterInitialize, hopened]
    exact .write (writable_initialized py) h

theorem Runs.refused {e : LegacyError F} (hrefused : first.opened = .error e) :
    Runs 0 (withSession use) [first]
      (requestMessage 1 (lit "initialize") initializeParams :: (first.answers ++ [])) 1
        (.error e) := by
  refine .request (writable_handshakeRequest py) ?_
  unfold Exchange.opened at hrefused
  cases hreply : first.reply 1 with
  | error e' =>
    have hsame : e' = e := by simpa [hreply, Except.bind] using hrefused
    subst hsame
    exact .done _ _
  | ok initialized =>
    have hrefused : openedBy initialized = .error e := by
      simpa [hreply, Except.bind] using hrefused
    simp only [afterInitialize, hrefused]
    exact .done _ _

/-- A session that its peer opens is the run of the client over whole messages, after the handshake:
the bytes in both directions are those of the messages, and nothing of the stream is lost. A session
that is refused ends after the handshake. -/
theorem legacy_session {connection : LegacyStdioConnection} (hfresh : connection.counter = 0)
    {rest : List UInt8}
    (hstdout : connection.stdout = (first :: es).flatMap Exchange.bytes ++ rest) :
    (∀ session, first.opened = .ok session → Runs 1 (use session) es sent last a →
      perform py limit (withSession use) connection =
        (a, ⟨last, connection.stdin ++
          (requestMessage 1 (lit "initialize") initializeParams ::
            (first.answers ++ initializedMessage :: sent)).flatMap (frame py), rest⟩)) ∧
    ∀ e, first.opened = .error e → perform py limit (withSession use) connection =
      (.error e, ⟨1, connection.stdin ++
        (requestMessage 1 (lit "initialize") initializeParams :: first.answers).flatMap (frame py),
        es.flatMap Exchange.bytes ++ rest⟩) := by
  constructor
  · intro session hopened h
    exact (Runs.opened hopened h).perform_eq connection hfresh hstdout
  · intro e hrefused
    have hrun : Runs 0 (withSession use) [first] _ 1 (.error e) := Runs.refused hrefused
    have hfirst : connection.stdout =
        [first].flatMap Exchange.bytes ++ (es.flatMap Exchange.bytes ++ rest) := by
      simpa [List.append_assoc] using hstdout
    rw [hrun.perform_eq connection hfresh hfirst, List.append_nil]

end Session

/-! ### Whatever the peer writes -/

def LegacyCall.IsRequest : LegacyCall F → Prop
  | .request _ _ => True
  | .write _ => False

/-- Messages that answer requests of the peer. -/
def Replies (replies : List (Value F)) : Prop := ∀ reply ∈ replies, ∃ id, reply = methodNotFound id

/-- Requests with the identifiers from `n + 1` on, each followed by replies to requests of the peer.
Only the identifier of a request that `json.dumps` refuses is left out. -/
inductive Dialogue (py : Interpreter F) : ℕ → List (Value F) → Prop where
  | nil (n : ℕ) : Dialogue py n []
  | request {n : ℕ} (method : Text) (params : Value F) {replies sent : List (Value F)}
      (hreplies : Replies replies) (h : Dialogue py (n + 1) sent) :
      Dialogue py n (requestMessage (n + 1) method params :: (replies ++ sent))
  | refused {n : ℕ} (method : Text) (params : Value F) {sent : List (Value F)}
      (hrefused : ¬ Writable py (requestMessage (n + 1) method params))
      (h : Dialogue py (n + 1) sent) : Dialogue py n sent

theorem eq_of_answered {py : Interpreter F} {requestId : ℕ} {message reply : Value F}
    (h : handle py requestId message = .answered reply) : ∃ id, reply = methodNotFound id := by
  cases message with
  | obj fields =>
    rw [handle] at h
    unfold handleFields at h
    split_ifs at h
    · split at h
      next id _ =>
        cases h
        exact ⟨id, rfl⟩
      next => cases h
    · split at h
      next => cases h
      next =>
        split at h <;> cases h
  | _ => cases h

theorem write_eq_ok {py : Interpreter F} {message : Value F} {bytes : List UInt8}
    (h : write py message = .ok bytes) : Writable py message ∧ bytes = frame py message := by
  by_cases hwritable : Writable py message
  · rw [write_of_writable hwritable] at h
    exact ⟨hwritable, (Except.ok.inj h).symm⟩
  · obtain ⟨e, hwrite⟩ := write_of_not_writable hwritable
    rw [hwrite] at h
    cases h

theorem written_receive (py : Interpreter F) (limit : ResponseLimit) (requestId : ℕ)
    (connection : LegacyStdioConnection) :
    (receive py limit requestId connection).2.counter = connection.counter ∧
    ∃ replies : List (Value F), Replies replies ∧
      (receive py limit requestId connection).2.stdin =
        connection.stdin ++ replies.flatMap (frame py) := by
  have nothing (stdin : List UInt8) : ∃ replies : List (Value F), Replies replies ∧
      stdin = stdin ++ replies.flatMap (frame py) :=
    ⟨[], fun reply hmem => (by cases hmem), by simp⟩
  fun_induction receive py limit requestId connection with
  | case1 connection e rest h => exact ⟨rfl, nothing _⟩
  | case2 connection message rest h reply hanswered e hwrite => exact ⟨rfl, nothing _⟩
  | case3 connection message rest h reply hanswered bytes hwrite ih =>
    obtain ⟨hcounter, replies, hreplies, hstdin⟩ := ih
    obtain ⟨-, rfl⟩ := write_eq_ok hwrite
    refine ⟨hcounter, reply :: replies, ?_, ?_⟩
    · have hreply : ∃ id, reply = methodNotFound id := eq_of_answered hanswered
      exact List.forall_mem_cons.mpr ⟨hreply, hreplies⟩
    · rw [hstdin]
      simp [List.append_assoc]
  | case4 connection message rest h hignored ih => exact ih
  | case5 connection message rest h e hfailed => exact ⟨rfl, nothing _⟩
  | case6 connection message rest h result hreturned => exact ⟨rfl, nothing _⟩

theorem written_request {py : Interpreter F} {limit : ResponseLimit}
    {connection : LegacyStdioConnection} {method : Text} {params : Value F}
    (hwritable : Writable py (requestMessage (connection.counter + 1) method params)) :
    (request py limit connection method params).2.counter = connection.counter + 1 ∧
    ∃ replies : List (Value F), Replies replies ∧
      (request py limit connection method params).2.stdin = connection.stdin ++
        (requestMessage (connection.counter + 1) method params :: replies).flatMap (frame py) := by
  obtain ⟨hcounter, replies, hreplies, hstdin⟩ := written_receive py limit
    (connection.counter + 1)
    { connection with
      counter := connection.counter + 1
      stdin := connection.stdin ++
        frame py (requestMessage (connection.counter + 1) method params) }
  rw [request_of_writable hwritable]
  refine ⟨hcounter, replies, hreplies, ?_⟩
  rw [hstdin]
  simp [List.append_assoc]

theorem written_perform (py : Interpreter F) (limit : ResponseLimit) {p : LegacyClient F α}
    (hp : p.Asks LegacyCall.IsRequest fun _ => True) (connection : LegacyStdioConnection) :
    ∃ sent : List (Value F), Dialogue py connection.counter sent ∧
      (perform py limit p connection).2.stdin =
        connection.stdin ++ sent.flatMap (frame py) := by
  induction p generalizing connection with
  | done a => exact ⟨[], .nil _, by simp [perform]⟩
  | ask q k ih =>
    cases q with
    | write message => exact hp.1.elim
    | request method params =>
      obtain ⟨sent, hsent, hrest⟩ := ih _ (hp.2 _)
        (request py limit connection method params).2
      by_cases hwritable : Writable py (requestMessage (connection.counter + 1) method params)
      · obtain ⟨hcounter, replies, hreplies, hstdin⟩ := @written_request _ _ limit _ _ _ hwritable
        rw [hcounter] at hsent
        refine ⟨_, .request method params hreplies hsent, ?_⟩
        rw [perform, hrest, hstdin]
        simp [List.append_assoc]
      · obtain ⟨e, hwrite⟩ := write_of_not_writable hwritable
        rw [request_of_refused hwrite] at hsent
        refine ⟨sent, .refused method params hwritable hsent, ?_⟩
        rw [perform, hrest, request_of_refused hwrite]

/-- Whatever bytes the subprocess writes, what it reads is a sequence of whole frames: the request
`initialize`, replies to its own requests, and only after a response that opens the session the
notification and then the numbered requests of the client, as far as they can be written. -/
theorem legacy_session_written (py : Interpreter F) (limit : ResponseLimit)
    {use : LegacySession F → LegacyClient F (Except (LegacyError F) α)}
    (huse : ∀ session, (use session).Asks LegacyCall.IsRequest fun _ => True)
    {connection : LegacyStdioConnection} (hfresh : connection.counter = 0) :
    ∃ replies tail : List (Value F), Replies replies ∧
      (tail = [] ∨ ∃ sent, tail = initializedMessage :: sent ∧ Dialogue py 1 sent) ∧
      (perform py limit (withSession use) connection).2.stdin = connection.stdin ++
        (requestMessage 1 (lit "initialize") initializeParams :: (replies ++ tail)).flatMap
          (frame py) := by
  have hwritable : Writable py (requestMessage (connection.counter + 1) (lit "initialize")
      initializeParams) := by
    rw [hfresh]
    exact writable_handshakeRequest py
  obtain ⟨hcounter, replies, hreplies, hstdin⟩ := @written_request _ _ limit _ _ _ hwritable
  rw [hfresh] at hcounter hstdin
  unfold withSession
  rw [perform]
  cases hreply : (request py limit connection (lit "initialize") initializeParams).1 with
  | error e =>
    refine ⟨replies, [], hreplies, Or.inl rfl, ?_⟩
    simp only [afterInitialize, perform, hstdin]
    simp
  | ok initialized =>
    cases hopened : openedBy initialized with
    | error e =>
      refine ⟨replies, [], hreplies, Or.inl rfl, ?_⟩
      simp only [afterInitialize, hopened, perform, hstdin]
      simp
    | ok session =>
      simp only [afterInitialize, hopened, perform,
        write_of_writable (writable_initialized py)]
      obtain ⟨sent, hsent, hrest⟩ := written_perform py limit (huse session)
        { (request py limit connection (lit "initialize") initializeParams).2 with
          stdin := (request py limit connection (lit "initialize") initializeParams).2.stdin ++
            frame py initializedMessage }
      simp only [hcounter, Nat.zero_add] at hsent
      refine ⟨replies, initializedMessage :: sent, hreplies, Or.inr ⟨sent, rfl, hsent⟩, ?_⟩
      rw [hrest, hstdin]
      simp [List.append_assoc]

/-! A client that lists the tools of the sample peer, after a request that cannot be written. -/

def listToolsOf (_ : LegacySession LiteralFloat) :
    LegacyClient LiteralFloat (Except (LegacyError LiteralFloat) (Fields LiteralFloat)) :=
  .ask (.request (lit "tools/call") (.obj (sizeFields (10 ^ 4300)))) fun _ =>
    .ask (.request (lit "tools/list") (.obj [])) .done

theorem not_writable_call : ¬ Writable literalFloats
    (requestMessage 2 (lit "tools/call") (.obj (sizeFields (10 ^ 4300)))) := by
  have hlong : ¬ JsonText.digitCount (10 ^ 4300 : ℕ) ≤ literalFloats.maxDigits := by
    rw [digitCount_pow]
    decide
  generalize 10 ^ 4300 = size at hlong ⊢
  simp [Writable, requestMessage, sizeFields, JsonText.Within, JsonText.FieldsWithin, hlong]

def openingMessage : PeerMessage literalFloats sampleLimit where
  fields := [(lit "jsonrpc", .str (lit "2.0")), (lit "id", .int 1),
    (lit "result", .obj [(lit "protocolVersion", .str (lit "2025-06-18"))])]
  valid := by simp [JsonText.Valid, JsonText.FieldsValid]
  version := rfl
  fits := by decide +kernel

def toolsMessage : PeerMessage literalFloats sampleLimit where
  fields := [(lit "jsonrpc", .str (lit "2.0")), (lit "id", .int 3),
    (lit "result", .obj [(lit "tools", .arr [])])]
  valid := by simp [JsonText.Valid, JsonText.FieldsValid, JsonText.ItemsValid]
  version := rfl
  fits := by decide +kernel

def openingExchange : Exchange literalFloats sampleLimit :=
  ⟨[progressMessage, rootsMessage], openingMessage, by decide, rfl,
    readable_sampleStream (JsonText.inspect_eq_ok.mp rfl), writable_sampleReplies⟩

def toolsExchange : Exchange literalFloats sampleLimit :=
  ⟨[progressMessage, rootsMessage], toolsMessage, by decide, rfl,
    readable_sampleStream (JsonText.inspect_eq_ok.mp rfl), writable_sampleReplies⟩

def sampleSession : LegacyStdioConnection :=
  sampleConnection ([openingExchange, toolsExchange].flatMap Exchange.bytes ++ [])

theorem legacy_session_sample :
    perform literalFloats sampleLimit (withSession listToolsOf) sampleSession =
      (.ok [(lit "tools", .arr [])], ⟨3, [] ++
        (requestMessage 1 (lit "initialize") initializeParams :: ([methodNotFound (.int 7)] ++
          initializedMessage :: [requestMessage 3 (lit "tools/list") (.obj []),
            methodNotFound (.int 7)])).flatMap (frame literalFloats), []⟩) := by
  obtain ⟨error, hwrite⟩ := write_of_not_writable not_writable_call
  exact (@legacy_session _ _ literalFloats sampleLimit listToolsOf openingExchange [toolsExchange]
    _ _ _ sampleSession rfl [] rfl).1 ⟨lit "2025-06-18", .obj []⟩ rfl
    (.requestRefused hwrite (.request (JsonText.inspect_eq_ok.mp rfl) (.done 3 _)))

/-- The subprocess writes no frame at all. -/
theorem legacy_session_written_sample : ∃ replies tail : List (Value LiteralFloat),
    Replies replies ∧
      (tail = [] ∨ ∃ sent, tail = initializedMessage :: sent ∧ Dialogue literalFloats 1 sent) ∧
      (perform literalFloats sampleLimit (withSession listToolsOf)
          (sampleConnection [71, 72, 10])).2.stdin =
        [] ++ (requestMessage 1 (lit "initialize") initializeParams ::
          (replies ++ tail)).flatMap (frame literalFloats) :=
  @legacy_session_written _ _ literalFloats sampleLimit listToolsOf
    (fun _ => ⟨trivial, fun _ => ⟨trivial, fun _ => trivial⟩⟩) (sampleConnection [71, 72, 10]) rfl

end AgentDemo
