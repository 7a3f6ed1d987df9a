import AgentDemo.System.World
import Mathlib.Data.List.Find

/-! Requests of one user with one idempotency key, each with a look-up, an insert and, after a
lost race, a second look-up, in any order. -/
namespace AgentDemo

inductive RequestPhase where
  | arrived
  | missed
  | rolledBack
  | replied (reply : Except HttpException Task)

structure CreateRequest where
  payload : AgentTaskCreate
  phase : RequestPhase

/-- `created` is the history of the inserts that have succeeded. -/
structure CreationWorld where
  tasks : Table Task
  conversations : Table Conversation
  requests : List CreateRequest
  created : List (AgentTaskCreate × Task)

/-- The transactions of the requests, and any other write to a row that leaves its key and its
fingerprint alone. -/
inductive CreationEvent where
  | arrive (payload : AgentTaskCreate)
  | lookUp (i : ℕ)
  | insert (i : ℕ) (id : UUID) (now now' : Instant)
  | lookAgain (i : ℕ)
  | write (task : Task)

/-- A later version of a row, as far as a repeated request can tell. -/
def SameRequest (row row' : Task) : Prop :=
  row'.userId = row.userId ∧ row'.idempotencyKey = row.idempotencyKey ∧
    row'.metadata.other = row.metadata.other

namespace CreationWorld

def move (w : CreationWorld) (i : ℕ) (payload : AgentTaskCreate) (phase : RequestPhase) :
    CreationWorld :=
  { w with requests := w.requests.set i ⟨payload, phase⟩ }

/-- What one event can do; `uuid4` gives an insert an id that no row has. -/
inductive Step (env : Environment) (userId : UUID) (key : String) (w : CreationWorld) :
    CreationEvent → CreationWorld → Prop where
  | arrive {payload : AgentTaskCreate} (hkey : payload.idempotencyKey = some key) :
      Step env userId key w (.arrive payload)
        { w with requests := w.requests ++ [⟨payload, .arrived⟩] }
  | lookUp {i : ℕ} {payload : AgentTaskCreate} (hi : w.requests[i]? = some ⟨payload, .arrived⟩) :
      Step env userId key w (.lookUp i) (w.move i payload
        (match firstLookUp env w.tasks w.conversations payload userId with
          | some reply => .replied reply
          | none => .missed))
  | insert {i : ℕ} {payload : AgentTaskCreate} {id : UUID} {now now' : Instant} {tasks : Table Task}
      (hi : w.requests[i]? = some ⟨payload, .missed⟩)
      (h : insertTask w.tasks (agentTask env payload userId id now now') = some tasks) :
      Step env userId key w (.insert i id now now')
        { w.move i payload (.replied (.ok (agentTask env payload userId id now now'))) with
          tasks, created := w.created ++ [(payload, agentTask env payload userId id now now')] }
  | conflict {i : ℕ} {payload : AgentTaskCreate} {id : UUID} {now now' : Instant}
      (hi : w.requests[i]? = some ⟨payload, .missed⟩) (hfresh : w.tasks.get? id = none)
      (h : insertTask w.tasks (agentTask env payload userId id now now') = none) :
      Step env userId key w (.insert i id now now') (w.move i payload .rolledBack)
  | lookAgain {i : ℕ} {payload : AgentTaskCreate}
      (hi : w.requests[i]? = some ⟨payload, .rolledBack⟩) :
      Step env userId key w (.lookAgain i) (w.move i payload
        (.replied (secondLookUp env w.tasks payload (CurrentUser.mk userId false).rollback)))
  | write {row task : Task} (hrow : w.tasks.get? task.id = some row)
      (hsame : SameRequest row task) :
      Step env userId key w (.write task) { w with tasks := w.tasks.write task }

/-- No row has the key yet. -/
structure Initial (userId : UUID) (key : String) (w : CreationWorld) : Prop where
  tasks : getTaskByIdempotencyKey w.tasks userId key = none
  requests : w.requests = []
  created : w.created = []

/-- A request names a conversation of its user, and nobody else has committed a row with the key
since it has looked for one. -/
def Unraced (userId : UUID) (key : String) (w : CreationWorld) : CreationEvent → Prop
  | .lookUp i => ∀ r, w.requests[i]? = some r → r.payload.conversationId.all fun c =>
      (getOwnedConversation w.conversations c userId).isSome
  | .insert _ _ _ _ => getTaskByIdempotencyKey w.tasks userId key = none
  | _ => True

/-- What the reply to a request must be once the request `first` has created `task`. -/
def Fits (env : Environment) (first : AgentTaskCreate) (task : Task) (payload : AgentTaskCreate)
    (reply : Except HttpException Task) : Prop :=
  (requestFingerprint env payload = requestFingerprint env first →
    ∃ t, reply = .ok t ∧ t.id = task.id) ∧
  (requestFingerprint env payload ≠ requestFingerprint env first → reply =
    .error ⟨409, "Idempotency key was already used for a different task request"⟩)

/-- The row of `task` as it is now, which carries the fingerprint of the request `first`. -/
structure Stored (env : Environment) (userId : UUID) (key : String) (first : AgentTaskCreate)
    (task : Task) (tasks : Table Task) : Prop where
  row : ∃ row, getTaskByIdempotencyKey tasks userId key = some row ∧ row.id = task.id ∧
    row.metadata.other.getStr? "request_fingerprint" = some (requestFingerprint env first)

/-- Before the first insert nothing has been answered; after it every answer fits. -/
structure Inv (env : Environment) (userId : UUID) (key : String) (w : CreationWorld) : Prop where
  keys : ∀ r ∈ w.requests, r.payload.idempotencyKey = some key
  phases : (w.created = [] ∧ getTaskByIdempotencyKey w.tasks userId key = none ∧
      ∀ r ∈ w.requests, r.phase = .arrived ∨ r.phase = .missed) ∨
    ∃ first task, w.created = [(first, task)] ∧ first ∈ w.requests.map CreateRequest.payload ∧
      Stored env userId key first task w.tasks ∧ ∀ r ∈ w.requests, r.phase = .arrived ∨
        r.phase = .missed ∨ ∃ reply, r.phase = .replied reply ∧ Fits env first task r.payload reply

section

variable {env : Environment} {userId : UUID} {key : String} {w w' : CreationWorld}
variable {first payload : AgentTaskCreate} {task row : Task} {tasks tasks' : Table Task}

theorem getTaskByIdempotencyKey_eq_none :
    getTaskByIdempotencyKey tasks userId key = none ↔
      ∀ t ∈ tasks.rows, ¬ (t.userId = some userId ∧ t.idempotencyKey = some key) := by
  simp [getTaskByIdempotencyKey]

/-- A repeated request is told the stored task, or that its key is taken. -/
theorem fits_repeated (hdigest : ∀ o, env.digest o ≠ "") (hid : row.id = task.id)
    (hprint : row.metadata.other.getStr? "request_fingerprint" =
      some (requestFingerprint env first)) :
    Fits env first task payload (repeated env payload row) := by
  have hne : requestFingerprint env first ≠ "" := hdigest _
  have hsaved : orText (row.metadata.other.getStr? "request_fingerprint") "" =
      requestFingerprint env first := by
    rw [hprint]
    exact if_neg hne
  constructor
  · intro heq
    refine ⟨row, ?_, hid⟩
    simp [repeated, validateRepeatedRequest, hsaved, hne, heq]
  · intro hdiff
    simp [repeated, validateRepeatedRequest, hsaved, hne, Ne.symm hdiff]

theorem firstLookUp_eq {conversations : Table Conversation}
    (hkey : payload.idempotencyKey = some key)
    (hconversation : payload.conversationId.all fun c =>
      (getOwnedConversation conversations c userId).isSome) :
    firstLookUp env tasks conversations payload userId =
      (getTaskByIdempotencyKey tasks userId key).map (repeated env payload) := by
  rw [firstLookUp, if_pos hconversation, hkey]
  rfl

theorem stored_of_insertTask {id : UUID} {now now' : Instant}
    (hkey : payload.idempotencyKey = some key)
    (h : insertTask tasks (agentTask env payload userId id now now') = some tasks') :
    Stored env userId key payload (agentTask env payload userId id now now') tasks' := by
  obtain ⟨hfree, hinsert⟩ := insertTask_eq_some h
  refine ⟨agentTask env payload userId id now now', ?_, rfl, rfl⟩
  have hnone : tasks.rows.find? (fun t => t.userId = some userId ∧ t.idempotencyKey = some key) =
      none := by
    refine List.find?_eq_none.mpr fun t ht hmatch => ?_
    obtain ⟨hu, hk⟩ := of_decide_eq_true hmatch
    exact hfree t ht ⟨by simp [hu], hu, by simp [hk], hk.trans hkey.symm⟩
  rw [getTaskByIdempotencyKey, Table.rows_insert? hinsert, List.find?_append, hnone]
  simp [agentTask, hkey]

/-- Writing a later version of a row finds the same rows under a key. -/
theorem getTaskByIdempotencyKey_write (hrow : tasks.get? task.id = some row)
    (hsame : SameRequest row task) :
    getTaskByIdempotencyKey (tasks.write task) userId key =
      (getTaskByIdempotencyKey tasks userId key).map fun t =>
        if t.id = task.id then task else t := by
  show (tasks.rows.map _).find? _ = _
  rw [List.find?_map]
  congr 1
  refine List.find?_congr fun t ht => ?_
  simp only [Function.comp, key_task]
  by_cases hid : t.id = task.id
  · have hmem := Table.get?_eq_some.mp hrow
    obtain rfl : t = row := Table.eq_of_key ht hmem.1 (hid.trans hmem.2.symm)
    simp [hid, hsame.1, hsame.2.1]
  · simp [hid]

theorem Stored.write (h : Stored env userId key first task tasks) {later : Task}
    (hrow : tasks.get? later.id = some row) (hsame : SameRequest row later) :
    Stored env userId key first task (tasks.write later) := by
  obtain ⟨found, hfound, hid, hprint⟩ := h.row
  refine ⟨_, (getTaskByIdempotencyKey_write hrow hsame).trans (congrArg _ hfound), ?_, ?_⟩
  · show (if found.id = later.id then later else found).id = task.id
    split_ifs with heq
    · exact heq.symm.trans hid
    · exact hid
  · show (if found.id = later.id then later else found).metadata.other.getStr? _ = _
    split_ifs with heq
    · have hmem := Table.get?_eq_some.mp hrow
      have hfoundMem : found ∈ tasks.rows := List.mem_of_find?_eq_some hfound
      obtain rfl : found = row := Table.eq_of_key hfoundMem hmem.1 (heq.trans hmem.2.symm)
      rw [hsame.2.2, hprint]
    · exact hprint

/-- A free key and a fresh identifier let the insert succeed. -/
theorem insertTask_of_free {id : UUID} {now now' : Instant}
    (hkey : payload.idempotencyKey = some key)
    (hfree : getTaskByIdempotencyKey tasks userId key = none) (hfresh : tasks.get? id = none) :
    ∃ tasks', insertTask tasks (agentTask env payload userId id now now') = some tasks' := by
  refine (insertTask_isSome_iff hfresh).mpr fun t ht hsame => ?_
  refine getTaskByIdempotencyKey_eq_none.mp hfree t ht ⟨hsame.2.1, ?_⟩
  exact hsame.2.2.2.trans hkey

theorem Inv.of_initial (h : Initial userId key w) : Inv env userId key w where
  keys r hr := by
    rw [h.requests] at hr
    cases hr
  phases := Or.inl ⟨h.created, h.tasks, fun r hr => by
    rw [h.requests] at hr
    cases hr⟩

/-- A request that moves on, with what the invariant asks of its new phase. -/
theorem Inv.move (h : Inv env userId key w) {i : ℕ} {phase phase' : RequestPhase}
    (hi : w.requests[i]? = some ⟨payload, phase⟩)
    (hphase : phase' = .arrived ∨ phase' = .missed ∨ ∃ reply, phase' = .replied reply ∧
      ∀ first task, Stored env userId key first task w.tasks → Fits env first task payload reply)
    (hquiet : w.created = [] → phase' = .arrived ∨ phase' = .missed) :
    Inv env userId key (w.move i payload phase') := by
  have hkey := h.keys _ (List.mem_of_getElem? hi)
  refine ⟨fun r hr => ?_, ?_⟩
  · rcases List.mem_or_eq_of_mem_set hr with hr | rfl
    · exact h.keys r hr
    · exact hkey
  · rcases h.phases with ⟨hnone, hfree, hall⟩ | ⟨first, task, hcreated, hfirst, hstored, hall⟩
    · refine Or.inl ⟨hnone, hfree, fun r hr => ?_⟩
      rcases List.mem_or_eq_of_mem_set hr with hr | rfl
      · exact hall r hr
      · exact hquiet hnone
    · refine Or.inr ⟨first, task, hcreated, ?_, hstored, fun r hr => ?_⟩
      · have hmap : (w.requests.set i ⟨payload, phase'⟩).map CreateRequest.payload =
            w.requests.map CreateRequest.payload := map_set_of_getElem? hi rfl
        exact hmap ▸ hfirst
      · rcases List.mem_or_eq_of_mem_set hr with hr | rfl
        · exact hall r hr
        · rcases hphase with harrived | hmissed | ⟨reply, hreply, hfits⟩
          · exact Or.inl harrived
          · exact Or.inr (Or.inl hmissed)
          · exact Or.inr (Or.inr ⟨reply, hreply, hfits first task hstored⟩)

theorem Inv.step (hdigest : ∀ o, env.digest o ≠ "") (h : Inv env userId key w)
    {event : CreationEvent} (hs : Step env userId key w event w')
    (hok : Unraced userId key w event) : Inv env userId key w' := by
  cases hs with
  | @arrive payload hkey =>
    have hmem {r : CreateRequest} (hr : r ∈ w.requests ++ [⟨payload, .arrived⟩]) :
        r ∈ w.requests ∨ r = ⟨payload, .arrived⟩ := by simpa using hr
    refine ⟨fun r hr => ?_, ?_⟩
    · rcases hmem hr with hr | rfl
      · exact h.keys r hr
      · exact hkey
    · rcases h.phases with ⟨hnone, hfree, hall⟩ | ⟨first, task, hcreated, hfirst, hstored, hall⟩
      · refine Or.inl ⟨hnone, hfree, fun r hr => ?_⟩
        rcases hmem hr with hr | rfl
        · exact hall r hr
        · exact Or.inl rfl
      · refine Or.inr ⟨first, task, hcreated, ?_, hstored, fun r hr => ?_⟩
        · rw [List.map_append]
          exact List.mem_append_left _ hfirst
        · rcases hmem hr with hr | rfl
          · exact hall r hr
          · exact Or.inl rfl
  | @lookUp i payload hi =>
    have hkey : payload.idempotencyKey = some key := h.keys _ (List.mem_of_getElem? hi)
    refine h.move hi ?_ fun hnone => Or.inr ?_
    · rw [firstLookUp_eq hkey (hok _ hi)]
      cases hfound : getTaskByIdempotencyKey w.tasks userId key with
      | none => exact Or.inr (Or.inl rfl)
      | some row =>
        refine Or.inr (Or.inr ⟨_, rfl, fun first task hstored => ?_⟩)
        obtain ⟨row', hrow', hid, hprint⟩ := hstored.row
        obtain rfl := Option.some.inj (hfound.symm.trans hrow')
        exact fits_repeated hdigest hid hprint
    · rcases h.phases with ⟨-, hfree, -⟩ | ⟨first, task, hcreated, -⟩
      · rw [firstLookUp_eq hkey (hok _ hi), hfree]
        rfl
      · rw [hnone] at hcreated
        cases hcreated
  | @insert i payload id now now' tasks hi hinsert =>
    have hkey : payload.idempotencyKey = some key := h.keys _ (List.mem_of_getElem? hi)
    have hfree : getTaskByIdempotencyKey w.tasks userId key = none := hok
    rcases h.phases with ⟨hnone, -, hall⟩ | ⟨first, task, -, -, hstored, -⟩
    · refine ⟨fun r hr => ?_, Or.inr ⟨payload, agentTask env payload userId id now now', ?_, ?_,
        stored_of_insertTask hkey hinsert, fun r hr => ?_⟩⟩
      · rcases List.mem_or_eq_of_mem_set hr with hr | rfl
        · exact h.keys r hr
        · exact hkey
      · show w.created ++ _ = _
        rw [hnone]
        rfl
      · exact List.mem_map.mpr ⟨_, List.mem_set (List.getElem?_eq_some_iff.mp hi).1 _, rfl⟩
      · rcases List.mem_or_eq_of_mem_set hr with hr | rfl
        · exact (hall r hr).imp_right Or.inl
        · exact Or.inr (Or.inr ⟨_, rfl, fun _ => ⟨_, rfl, rfl⟩, fun hne => absurd rfl hne⟩)
    · obtain ⟨row, hrow, -⟩ := hstored.row
      rw [hfree] at hrow
      cases hrow
  | @conflict i payload id now now' hi hfresh hnone =>
    have hkey : payload.idempotencyKey = some key := h.keys _ (List.mem_of_getElem? hi)
    obtain ⟨tasks', htasks'⟩ : ∃ tasks', insertTask _ (agentTask env payload _ id now now') =
        some tasks' := insertTask_of_free hkey hok hfresh
    rw [hnone] at htasks'
    cases htasks'
  | lookAgain hi =>
    rcases h.phases with ⟨-, -, hall⟩ | ⟨first, task, -, -, -, hall⟩
    · rcases hall _ (List.mem_of_getElem? hi) with h | h <;> cases h
    · rcases hall _ (List.mem_of_getElem? hi) with h | h | ⟨reply, h, -⟩ <;> cases h
  | @write row task hrow hsame =>
    refine ⟨h.keys, ?_⟩
    rcases h.phases with ⟨hnone, hfree, hall⟩ | ⟨first, created, hcreated, hfirst, hstored, hall⟩
    · refine Or.inl ⟨hnone, ?_, hall⟩
      rw [getTaskByIdempotencyKey_write hrow hsame, hfree]
      rfl
    · exact Or.inr ⟨first, created, hcreated, hfirst, hstored.write hrow hsame, hall⟩

/-- Two requests with one fingerprint have one normalised input. -/
def CollisionFree (env : Environment) (w : CreationWorld) : Prop :=
  ∀ r ∈ w.requests, ∀ r' ∈ w.requests,
    requestFingerprint env r.payload = requestFingerprint env r'.payload →
      normalisedInput env r.payload = normalisedInput env r'.payload

/-- In every run in which no request loses the race for its key, at most one row is created, and
the replies say whether the normalised input was that of the request that created it. -/
theorem idempotent_of_unraced {w₀ : CreationWorld} (hdigest : ∀ o, env.digest o ≠ "")
    (h₀ : Initial userId key w₀)
    (h : Transition.Reaches (Transition.Restrict (Step env userId key) (Unraced userId key)) w₀ w)
    (hfree : CollisionFree env w) :
    w.created.length ≤ 1 ∧ ∀ r ∈ w.requests, ∀ reply, r.phase = .replied reply →
      ∃ first task, w.created = [(first, task)] ∧
        (normalisedInput env r.payload = normalisedInput env first →
          ∃ t, reply = .ok t ∧ t.id = task.id) ∧
        (normalisedInput env r.payload ≠ normalisedInput env first → reply =
          .error ⟨409, "Idempotency key was already used for a different task request"⟩) := by
  have hinv : Inv env userId key w :=
    h.invariant (.of_initial h₀) fun u a v hu hv => hu.step hdigest hv.1 hv.2
  rcases hinv.phases with ⟨hnone, -, hall⟩ | ⟨first, task, hcreated, hfirst, -, hall⟩
  · refine ⟨by rw [hnone]; exact Nat.zero_le 1, fun r hr reply hreply => ?_⟩
    have hphase := hall r hr
    rw [hreply] at hphase
    rcases hphase with hphase | hphase <;> cases hphase
  · refine ⟨by rw [hcreated]; exact le_rfl, fun r hr reply hreply => ⟨first, task, hcreated, ?_⟩⟩
    obtain ⟨r₀, hr₀, rfl⟩ := List.mem_map.mp hfirst
    have hphase := hall r hr
    rw [hreply] at hphase
    rcases hphase with hphase | hphase | ⟨reply', hphase, hsame, hdiff⟩
    · cases hphase
    · cases hphase
    · obtain rfl := RequestPhase.replied.inj hphase
      refine ⟨fun heq => hsame (congrArg env.digest heq), fun hne => hdiff fun hprint => ?_⟩
      exact hne (hfree r hr r₀ hr₀ hprint)

end

def emptyCreation : CreationWorld := ⟨.empty, .empty, [], []⟩

theorem initial_emptyCreation : Initial 1 "report-2024" emptyCreation := ⟨rfl, rfl, rfl⟩

end CreationWorld

/-- A digest that tells prompts apart. -/
def promptEnvironment : Environment := { sampleEnvironment with
  digest := fun o => "prompt:" ++ (o.getStr? "prompt").getD "" }

theorem digest_promptEnvironment (o : JsonObject) : promptEnvironment.digest o ≠ "" := by
  intro h
  have hlist := congrArg String.toList h
  rw [promptEnvironment, String.toList_append] at hlist
  exact absurd hlist (by simp)

def reportRequest : AgentTaskCreate := sampleRequest "report-2024" sampleKey_length

def otherRequest : AgentTaskCreate := { reportRequest with
  prompt := "Translate the report", prompt_ne := by decide }

namespace CreationWorld

/-- One request creates the task, the second one differs, the third one repeats it. -/
theorem idempotent_of_unraced_sample :
    ∃ w : CreationWorld, w.created.length ≤ 1 ∧ w.requests.length = 3 ∧
      ∀ r ∈ w.requests, ∀ reply, r.phase = .replied reply →
        ∃ first task, w.created = [(first, task)] ∧
        (normalisedInput promptEnvironment r.payload = normalisedInput promptEnvironment first →
          ∃ t, reply = .ok t ∧ t.id = task.id) ∧
        (normalisedInput promptEnvironment r.payload ≠ normalisedInput promptEnvironment first →
          reply = .error
            ⟨409, "Idempotency key was already used for a different task request"⟩) := by
  obtain ⟨w, hrun, hpayloads⟩ : ∃ w, Transition.Reaches (Transition.Restrict
      (Step promptEnvironment 1 "report-2024") (Unraced 1 "report-2024")) emptyCreation w ∧
      w.requests.map CreateRequest.payload = [reportRequest, otherRequest, reportRequest] := by
    have howned {w : CreationWorld} {i : ℕ} {payload : AgentTaskCreate} {phase : RequestPhase}
        (hi : w.requests[i]? = some ⟨payload, phase⟩) (hnone : payload.conversationId = none) :
        Unraced 1 "report-2024" w (.lookUp i) := by
      intro r hr
      obtain rfl := Option.some.inj (hi.symm.trans hr)
      rw [hnone]
      rfl
    refine ⟨_, (((((((Transition.Reaches.refl emptyCreation).tail
      ⟨@Step.arrive _ _ _ _ reportRequest rfl, trivial⟩).tail
      ⟨@Step.arrive _ _ _ _ otherRequest rfl, trivial⟩).tail
      ⟨@Step.arrive _ _ _ _ reportRequest rfl, trivial⟩).tail
      ⟨@Step.lookUp _ _ _ _ 0 _ rfl, howned rfl rfl⟩).tail
      ⟨@Step.insert _ _ _ _ 0 _ 20 0 0 _ rfl rfl, rfl⟩).tail
      ⟨@Step.lookUp _ _ _ _ 1 _ rfl, howned rfl rfl⟩).tail
      ⟨@Step.lookUp _ _ _ _ 2 _ rfl, howned rfl rfl⟩, rfl⟩
  have hpayload {r : CreateRequest} (hr : r ∈ w.requests) :
      r.payload = reportRequest ∨ r.payload = otherRequest := by
    have hmem := List.mem_map_of_mem (f := CreateRequest.payload) hr
    rw [hpayloads] at hmem
    simp only [List.mem_cons, List.not_mem_nil, or_false] at hmem
    rcases hmem with h | h | h
    · exact Or.inl h
    · exact Or.inr h
    · exact Or.inl h
  have hfree : CollisionFree promptEnvironment w := by
    intro r hr r' hr' heq
    rcases hpayload hr with h | h <;> rcases hpayload hr' with h' | h' <;> rw [h, h'] at heq ⊢
    · exact absurd heq (by decide)
    · exact absurd heq (by decide)
  obtain ⟨hone, hall⟩ :=
    idempotent_of_unraced digest_promptEnvironment initial_emptyCreation hrun hfree
  refine ⟨w, hone, ?_, hall⟩
  rw [← List.length_map CreateRequest.payload, hpayloads]
  rfl

/-- Both requests look before either of them inserts: the second one is told that the database is
unavailable. -/
theorem lost_race : ∃ w : CreationWorld, Transition.Reaches
    (Step promptEnvironment 1 "report-2024") emptyCreation w ∧
    ∃ task, w.created = [(reportRequest, task)] ∧
      w.requests[1]? = some ⟨reportRequest, .replied (.error databaseUnavailable)⟩ :=
  ⟨_, (((((((Transition.Reaches.refl emptyCreation).tail
    (@Step.arrive _ _ _ _ reportRequest rfl)).tail (@Step.arrive _ _ _ _ reportRequest rfl)).tail
    (@Step.lookUp _ _ _ _ 0 _ rfl)).tail (@Step.lookUp _ _ _ _ 1 _ rfl)).tail
    (@Step.insert _ _ _ _ 0 _ 20 0 0 _ rfl rfl)).tail
    (@Step.conflict _ _ _ _ 1 _ 21 0 0 rfl rfl rfl)).tail (@Step.lookAgain _ _ _ _ 1 _ rfl),
    _, rfl, rfl⟩

end CreationWorld

end AgentDemo
