import AgentDemo.Api.Login
import AgentDemo.Library.Transition

/-! Overlapping logins: the guard against a changed password also rejects a correct password whose
hash another login has upgraded in between. -/
namespace AgentDemo

structure LoginWorld where
  users : Table User
  requests : List LoginRequest

inductive LoginEvent where
  | arrive (usernameNormalized : String) (password : Password)
  | read (i : ℕ)
  | verify (i salt : ℕ)
  | finish (i : ℕ)

namespace LoginWorld

def move (w : LoginWorld) (i : ℕ) (request : LoginRequest) (phase : LoginPhase) : LoginWorld :=
  { w with requests := w.requests.set i { request with phase } }

/-- The next statement of a request; `none` when it is not there yet or has ended. -/
def step (h : PasswordHashing) (w : LoginWorld) : LoginEvent → Option LoginWorld
  | .arrive usernameNormalized password =>
    some { w with requests := w.requests ++ [⟨usernameNormalized, password, .admitted⟩] }
  | .read i =>
    match w.requests[i]? with
    | some request =>
      match request.phase with
      | .admitted =>
        some (w.move i request (.read (selectUser w.users request.usernameNormalized)))
      | _ => none
    | none => none
  | .verify i salt =>
    match w.requests[i]? with
    | some request =>
      match request.phase with
      | .read user => some (w.move i request (verifiedPhase h salt request.password user))
      | _ => none
    | none => none
  | .finish i =>
    match w.requests[i]? with
    | some request =>
      match request.phase with
      | .verified user replacement =>
        let (users, phase) := finishLogin w.users user replacement
        some { (w.move i request phase) with users }
      | _ => none
    | none => none

end LoginWorld

/-- The row of an account: it alone has the name, and its hash is one of the password. -/
structure Account (h : PasswordHashing) (users : Table User) (id : UUID) (name : String)
    (password : Password) (row : User) : Prop where
  found : users.get? id = some row
  only : ∀ user ∈ users.rows, user.usernameNormalized = name ↔ user.id = id
  verifies : ∀ p : Password, h.verifyPassword p row.passwordHash = true ↔ p = password

/-- A row that was read before: its hash is the stored one, or an upgrade has replaced it. -/
structure ReadBefore (h : PasswordHashing) (password : Password) (row user : User) : Prop where
  hash : user.passwordHash = row.passwordHash ∨
    h.needsRehash user.passwordHash = true ∧ h.needsRehash row.passwordHash = false
  verifies : ∀ p : Password, h.verifyPassword p user.passwordHash = true ↔ p = password

/-- The replacement that the verification has made. -/
def ReplacementOf (h : PasswordHashing) (password : Password) (user : User) :
    Option String → Prop
  | none => h.needsRehash user.passwordHash = false
  | some passwordHash => h.needsRehash user.passwordHash = true ∧
      ∃ salt, passwordHash = h.hashPassword password salt

def RequestOk (h : PasswordHashing) (id : UUID) (name : String) (password : Password)
    (row : User) (request : LoginRequest) : Prop :=
  match request.phase with
  | .admitted => True
  | .read none => request.usernameNormalized ≠ name
  | .read (some user) => (request.usernameNormalized = name ↔ user.id = id) ∧
      (user.id = id → ReadBefore h password row user)
  | .verified user replacement => (request.usernameNormalized = name ↔ user.id = id) ∧
      (user.id = id → ReadBefore h password row user ∧ request.password = password ∧
        ReplacementOf h password user replacement)
  | .accepted => request.usernameNormalized = name → request.password = password
  | .rejected _ => True

/-- The account has its row, and the requests are where they can be. -/
def LoginInv (h : PasswordHashing) (id : UUID) (name : String) (password : Password)
    (w : LoginWorld) : Prop :=
  ∃ row, Account h w.users id name password row ∧
    ∀ request ∈ w.requests, RequestOk h id name password row request

/-- The request has the name and the password of the account and is rejected. -/
def TurnedAway (name : String) (password : Password) (request : LoginRequest) : Prop :=
  request.usernameNormalized = name ∧ request.password = password ∧
    ∃ detail, request.phase = .rejected detail

/-- No correct login has been rejected. -/
def AllWelcome (name : String) (password : Password) (w : LoginWorld) : Prop :=
  ∀ request ∈ w.requests, ¬ TurnedAway name password request

/-- A login of the account that goes into its last transaction finds its hash not upgraded since it
has read it. -/
def InTime (h : PasswordHashing) (id : UUID) (w : LoginWorld) : LoginEvent → Prop
  | .finish i => ∀ request, w.requests[i]? = some request →
      ∀ user replacement, request.phase = .verified user replacement → user.id = id →
        ∀ row, w.users.get? id = some row →
          h.needsRehash user.passwordHash = h.needsRehash row.passwordHash
  | _ => True

theorem forall_mem_set_iff {α : Type*} {P : α → Prop} {l : List α} {i : ℕ} {x : α} (y : α)
    (hi : l[i]? = some x) (hx : P x) : (∀ z ∈ l.set i y, P z) ↔ (∀ z ∈ l, P z) ∧ P y := by
  obtain ⟨hlt, -⟩ := List.getElem?_eq_some_iff.mp hi
  constructor
  · intro h
    refine ⟨fun z hz => ?_, h y (List.mem_set hlt y)⟩
    obtain ⟨j, hj⟩ := List.mem_iff_getElem?.mp hz
    by_cases hij : i = j
    · subst hij
      obtain rfl : x = z := Option.some.inj (hi.symm.trans hj)
      exact hx
    · exact h z (List.mem_iff_getElem?.mpr ⟨j, by rw [List.getElem?_set_ne hij, hj]⟩)
  · rintro ⟨h, hy⟩ z hz
    rcases List.mem_or_eq_of_mem_set hz with hz | rfl
    · exact h z hz
    · exact hy

section Step

variable {h : PasswordHashing} {id : UUID} {name : String} {password : Password}
  {w w' : LoginWorld} {i : ℕ} {row : User} {request : LoginRequest}

/-- A request moves on, and maybe the rows with it. -/
theorem move_iff (phase : LoginPhase) {users : Table User}
    (hrow : Account h users id name password row)
    (hall : ∀ request ∈ w.requests, RequestOk h id name password row request)
    (hi : w.requests[i]? = some request) (hnot : ∀ detail, request.phase ≠ .rejected detail)
    (hphase : RequestOk h id name password row { request with phase }) :
    LoginInv h id name password { (w.move i request phase) with users } ∧
      (AllWelcome name password { (w.move i request phase) with users } ↔
        AllWelcome name password w ∧ ¬ TurnedAway name password { request with phase }) := by
  refine ⟨⟨row, hrow, ?_⟩, ?_⟩
  · exact (forall_mem_set_iff _ hi (hall request (List.mem_of_getElem? hi))).mpr ⟨hall, hphase⟩
  · refine forall_mem_set_iff _ hi ?_
    rintro ⟨-, -, detail, hdetail⟩
    exact hnot detail hdetail

theorem requestOk_select (hrow : Account h w.users id name password row)
    (request : LoginRequest) :
    RequestOk h id name password row
      { request with phase := .read (selectUser w.users request.usernameNormalized) } := by
  obtain ⟨hmem, hid⟩ := Table.get?_eq_some.mp hrow.found
  unfold selectUser RequestOk
  cases hfind : w.users.rows.find? fun user =>
      user.usernameNormalized = request.usernameNormalized with
  | none =>
    intro hname
    have hnot := List.find?_eq_none.mp hfind row hmem
    have hsame : row.usernameNormalized = request.usernameNormalized :=
      ((hrow.only row hmem).mpr hid).trans hname.symm
    exact hnot (by simpa using hsame)
  | some user =>
    have huser := List.mem_of_find?_eq_some hfind
    have hsame : user.usernameNormalized = request.usernameNormalized := by
      simpa using List.find?_some hfind
    refine ⟨by rw [← hsame]; exact hrow.only user huser, fun heq => ?_⟩
    obtain rfl : user = row := Table.eq_of_key huser hmem (heq.trans hid.symm)
    exact ⟨Or.inl rfl, hrow.verifies⟩

/-- The verification finds the right password right, and it alone. -/
theorem requestOk_verified (salt : ℕ) {user : Option User}
    (hok : RequestOk h id name password row request) (hread : request.phase = .read user) :
    RequestOk h id name password row
        { request with phase := verifiedPhase h salt request.password user } ∧
      ¬ TurnedAway name password
        { request with phase := verifiedPhase h salt request.password user } := by
  unfold RequestOk at hok
  rw [hread] at hok
  cases user with
  | none =>
    refine ⟨trivial, ?_⟩
    rintro ⟨hname, -⟩
    exact hok hname
  | some user =>
    obtain ⟨hname, hbefore⟩ := hok
    cases hvalid : h.verifyPassword request.password user.passwordHash with
    | false =>
      have hphase : verifiedPhase h salt request.password (some user) =
          .rejected "Invalid username or password" := by
        simp [verifiedPhase, PasswordHashing.verifyAndRehash, hvalid]
      rw [hphase]
      refine ⟨trivial, ?_⟩
      rintro ⟨heq, hpassword, -⟩
      have htrue := ((hbefore (hname.mp heq)).verifies request.password).mpr hpassword
      rw [htrue] at hvalid
      cases hvalid
    | true =>
      obtain ⟨replacement, hphase, hreplacement⟩ : ∃ replacement,
          verifiedPhase h salt request.password (some user) = .verified user replacement ∧
            ReplacementOf h request.password user replacement := by
        unfold verifiedPhase PasswordHashing.verifyAndRehash
        simp only [Option.map_some, hvalid, Bool.not_true, Bool.false_eq_true, if_false]
        cases hneeds : h.needsRehash user.passwordHash with
        | false => exact ⟨none, rfl, hneeds⟩
        | true => exact ⟨_, rfl, hneeds, salt, rfl⟩
      rw [hphase]
      constructor
      · refine ⟨hname, fun heq => ?_⟩
        have hpassword := ((hbefore heq).verifies request.password).mp hvalid
        exact ⟨hbefore heq, hpassword, hpassword ▸ hreplacement⟩
      · rintro ⟨-, -, detail, hdetail⟩
        cases hdetail

/-- The row of another account is written. -/
theorem Account.write_other {current : User} (hrow : Account h w.users id name password row)
    (hcurrent : current ∈ w.users.rows) (hne : current.id ≠ id) (passwordHash : String) :
    Account h (w.users.write { current with passwordHash }) id name password row where
  found := by
    rw [Table.get?_write]
    exact (if_neg hne).trans hrow.found
  only user huser := by
    rcases Table.mem_write huser with rfl | huser
    · exact hrow.only current hcurrent
    · exact hrow.only user huser
  verifies := hrow.verifies

/-- The account's hash is upgraded. -/
theorem Account.write_self (hrow : Account h w.users id name password row) (salt : ℕ) :
    Account h (w.users.write { row with passwordHash := h.hashPassword password salt }) id name
      password { row with passwordHash := h.hashPassword password salt } where
  found := by
    have hid : row.id = id := (Table.get?_eq_some.mp hrow.found).2
    rw [Table.get?_write, hrow.found]
    exact if_pos hid
  only user huser := by
    rcases Table.mem_write huser with rfl | huser
    · exact hrow.only row (Table.get?_eq_some.mp hrow.found).1
    · exact hrow.only user huser
  verifies p := h.verifyPassword_hashPassword password p salt

theorem RequestOk.upgraded {passwordHash : String} (hneeds : h.needsRehash row.passwordHash = true)
    (hdone : h.needsRehash passwordHash = false)
    (hok : RequestOk h id name password row request) :
    RequestOk h id name password { row with passwordHash } request := by
  have hbefore : ∀ user, ReadBefore h password row user →
      ReadBefore h password { row with passwordHash } user := by
    rintro user ⟨heq | ⟨hold, hnew⟩, hverifies⟩
    · exact ⟨Or.inr ⟨heq ▸ hneeds, hdone⟩, hverifies⟩
    · exact ⟨Or.inr ⟨hold, hdone⟩, hverifies⟩
  unfold RequestOk at hok ⊢
  split at hok
  · trivial
  · exact hok
  · exact ⟨hok.1, fun heq => hbefore _ (hok.2 heq)⟩
  · exact ⟨hok.1, fun heq => ⟨hbefore _ (hok.2 heq).1, (hok.2 heq).2⟩⟩
  · exact hok
  · trivial

/-- How the last transaction ends. -/
theorem finishLogin_cases {users users' : Table User} {user : User} {replacement : Option String}
    {phase : LoginPhase} (hfinish : finishLogin users user replacement = (users', phase)) :
    (∃ current, users.get? user.id = some current ∧ current.passwordHash = user.passwordHash ∧
      phase = .accepted ∧ (replacement = none ∧ users' = users ∨
        ∃ passwordHash, replacement = some passwordHash ∧
          users' = users.write { current with passwordHash })) ∨
    users' = users ∧ (∃ detail, phase = .rejected detail) ∧
      ∀ current, users.get? user.id = some current → current.passwordHash ≠ user.passwordHash := by
  unfold finishLogin at hfinish
  split at hfinish
  · rename_i hnone
    obtain ⟨rfl, rfl⟩ := Prod.mk.inj hfinish
    refine Or.inr ⟨rfl, ⟨_, rfl⟩, fun current hcurrent => ?_⟩
    rw [hnone] at hcurrent
    cases hcurrent
  · rename_i current hcurrent
    split at hfinish
    · rename_i hne
      obtain ⟨rfl, rfl⟩ := Prod.mk.inj hfinish
      refine Or.inr ⟨rfl, ⟨_, rfl⟩, fun current' hcurrent' => ?_⟩
      obtain rfl : current = current' := Option.some.inj (hcurrent.symm.trans hcurrent')
      exact hne
    · rename_i hsame
      have hhash : current.passwordHash = user.passwordHash := by simpa using hsame
      cases replacement with
      | none =>
        obtain ⟨rfl, rfl⟩ := Prod.mk.inj hfinish
        exact Or.inl ⟨current, hcurrent, hhash, rfl, Or.inl ⟨rfl, rfl⟩⟩
      | some passwordHash =>
        obtain ⟨rfl, rfl⟩ := Prod.mk.inj hfinish
        exact Or.inl ⟨current, hcurrent, hhash, rfl, Or.inr ⟨_, rfl, rfl⟩⟩

/-- The last transaction of a login of the account. -/
theorem finish_own {user : User} {replacement : Option String} {users : Table User}
    {phase : LoginPhase} (hrow : Account h w.users id name password row)
    (hall : ∀ request ∈ w.requests, RequestOk h id name password row request)
    (hi : w.requests[i]? = some request) (hverified : request.phase = .verified user replacement)
    (hid : user.id = id) (hfinish : finishLogin w.users user replacement = (users, phase)) :
    LoginInv h id name password { (w.move i request phase) with users } ∧
      (AllWelcome name password { (w.move i request phase) with users } ↔
        AllWelcome name password w ∧ InTime h id w (.finish i)) := by
  have hok := hall request (List.mem_of_getElem? hi)
  unfold RequestOk at hok
  rw [hverified] at hok
  obtain ⟨hname, hown⟩ := hok
  obtain ⟨hbefore, hpassword, hreplacement⟩ := hown hid
  have hnot : ∀ detail, request.phase ≠ .rejected detail := by simp [hverified]
  -- the guard asks for the row that the step finds
  have htime : InTime h id w (.finish i) ↔
      h.needsRehash user.passwordHash = h.needsRehash row.passwordHash := by
    constructor
    · exact fun htime => htime request hi user replacement hverified hid row hrow.found
    · intro heq request' hi' user' replacement' hverified' _ row' hrow'
      obtain rfl : request = request' := Option.some.inj (hi.symm.trans hi')
      obtain ⟨rfl, rfl⟩ := LoginPhase.verified.inj (hverified.symm.trans hverified')
      obtain rfl : row = row' := Option.some.inj (hrow.found.symm.trans hrow')
      exact heq
  rcases finishLogin_cases hfinish with ⟨current, hcurrent, hhash, rfl, hwrite⟩ |
    ⟨rfl, ⟨detail, rfl⟩, hchanged⟩
  · obtain rfl : row = current := by
      rw [hid, hrow.found] at hcurrent
      exact Option.some.inj hcurrent
    have haccepted : ¬ TurnedAway name password { request with phase := .accepted } := by
      rintro ⟨-, -, detail, hdetail⟩
      cases hdetail
    have htrue : InTime h id w (.finish i) := htime.mpr (by rw [hhash])
    rcases hwrite with ⟨-, rfl⟩ | ⟨passwordHash, rfl, rfl⟩
    · obtain ⟨hinv, hiff⟩ := move_iff .accepted hrow hall hi hnot fun _ => hpassword
      exact ⟨hinv, hiff.trans (and_congr_right fun _ => by simp [haccepted, htrue])⟩
    · obtain ⟨hneeds, salt, rfl⟩ := hreplacement
      rw [← hhash] at hneeds
      obtain ⟨hinv, hiff⟩ := move_iff .accepted (hrow.write_self salt)
        (fun request hmem => (hall request hmem).upgraded hneeds (h.needsRehash_hash _ _)) hi hnot
        fun _ => hpassword
      exact ⟨hinv, hiff.trans (and_congr_right fun _ => by simp [haccepted, htrue])⟩
  · have hturned : TurnedAway name password { request with phase := .rejected detail } :=
      ⟨hname.mpr hid, hpassword, detail, rfl⟩
    have hlate : ¬ InTime h id w (.finish i) := by
      rw [htime]
      rcases hbefore.hash with heq | ⟨hold, hnew⟩
      · exact absurd heq.symm (hchanged row (hid ▸ hrow.found))
      · simp [hold, hnew]
    obtain ⟨hinv, hiff⟩ := move_iff (.rejected detail) hrow hall hi hnot trivial
    exact ⟨hinv, hiff.trans (and_congr_right fun _ => by simp [hturned, hlate])⟩

/-- The last transaction of a login of another account. -/
theorem finish_other {user : User} {replacement : Option String} {users : Table User}
    {phase : LoginPhase} (hrow : Account h w.users id name password row)
    (hall : ∀ request ∈ w.requests, RequestOk h id name password row request)
    (hi : w.requests[i]? = some request) (hverified : request.phase = .verified user replacement)
    (hid : user.id ≠ id) (hfinish : finishLogin w.users user replacement = (users, phase)) :
    LoginInv h id name password { (w.move i request phase) with users } ∧
      (AllWelcome name password { (w.move i request phase) with users } ↔
        AllWelcome name password w ∧ InTime h id w (.finish i)) := by
  have hok := hall request (List.mem_of_getElem? hi)
  unfold RequestOk at hok
  rw [hverified] at hok
  have hname : request.usernameNormalized ≠ name := fun heq => hid (hok.1.mp heq)
  have htime : InTime h id w (.finish i) := by
    intro request' hi' user' replacement' hverified' hid'
    obtain rfl : request = request' := Option.some.inj (hi.symm.trans hi')
    obtain ⟨rfl, rfl⟩ := LoginPhase.verified.inj (hverified.symm.trans hverified')
    exact absurd hid' hid
  have hwelcome : ¬ TurnedAway name password { request with phase } :=
    fun hturned => hname hturned.1
  have hnot : ∀ detail, request.phase ≠ .rejected detail := by simp [hverified]
  have hrow' : Account h users id name password row ∧
      RequestOk h id name password row { request with phase } := by
    rcases finishLogin_cases hfinish with ⟨current, hcurrent, -, rfl, hwrite⟩ |
      ⟨rfl, ⟨detail, rfl⟩, -⟩
    · obtain ⟨hmem, hkey⟩ := Table.get?_eq_some.mp hcurrent
      refine ⟨?_, fun heq => absurd heq hname⟩
      rcases hwrite with ⟨-, rfl⟩ | ⟨passwordHash, -, rfl⟩
      · exact hrow
      · exact hrow.write_other hmem (fun heq => hid (hkey.symm.trans heq)) passwordHash
    · exact ⟨hrow, trivial⟩
  obtain ⟨hinv, hiff⟩ := move_iff phase hrow'.1 hall hi hnot hrow'.2
  exact ⟨hinv, hiff.trans (and_congr_right fun _ => by simp [hwelcome, htime])⟩

end Step

theorem step_loginInv {h : PasswordHashing} {id : UUID} {name : String} {password : Password}
    (w : LoginWorld) (e : LoginEvent) (w' : LoginWorld) (hinv : LoginInv h id name password w)
    (hstep : w.step h e = some w') :
    LoginInv h id name password w' ∧
      (AllWelcome name password w' ↔ AllWelcome name password w ∧ InTime h id w e) := by
  obtain ⟨row, hrow, hall⟩ := hinv
  cases e with
  | arrive usernameNormalized password' =>
    obtain rfl := Option.some.inj hstep
    constructor
    · refine ⟨row, hrow, fun request hmem => ?_⟩
      rcases List.mem_append.mp hmem with hmem | hmem
      · exact hall request hmem
      · obtain rfl := List.mem_singleton.mp hmem
        trivial
    · refine (List.forall_mem_append).trans (and_congr_right fun _ => ?_)
      simp [TurnedAway, InTime]
  | read i =>
    rw [LoginWorld.step] at hstep
    split at hstep
    · rename_i request hi
      split at hstep
      · rename_i hphase
        obtain rfl := Option.some.inj hstep
        obtain ⟨hinv, hiff⟩ := move_iff _ hrow hall hi (by simp [hphase])
          (requestOk_select hrow request)
        exact ⟨hinv, hiff.trans (and_congr_right fun _ => by simp [TurnedAway, InTime])⟩
      · cases hstep
    · cases hstep
  | verify i salt =>
    rw [LoginWorld.step] at hstep
    split at hstep
    · rename_i request hi
      split at hstep
      · rename_i user hphase
        obtain rfl := Option.some.inj hstep
        obtain ⟨hok, hnot⟩ := requestOk_verified salt
          (hall request (List.mem_of_getElem? hi)) hphase
        obtain ⟨hinv, hiff⟩ := move_iff _ hrow hall hi (by simp [hphase]) hok
        exact ⟨hinv, hiff.trans (and_congr_right fun _ => by simp [hnot, InTime])⟩
      · cases hstep
    · cases hstep
  | finish i =>
    rw [LoginWorld.step] at hstep
    split at hstep
    · rename_i request hi
      split at hstep
      · rename_i user replacement hphase
        obtain rfl := Option.some.inj hstep
        by_cases hid : user.id = id
        · exact finish_own hrow hall hi hphase hid rfl
        · exact finish_other hrow hall hi hphase hid rfl
      · cases hstep
    · cases hstep

def argonText (password : String) : String := "$argon2" ++ password

theorem argonText_inj {password password' : String} :
    argonText password = argonText password' ↔ password' = password := by
  constructor
  · intro h
    have htext := congrArg String.toList h
    simp only [argonText, String.toList_append] at htext
    exact (String.toList_inj.mp (List.append_cancel_left htext)).symm
  · rintro rfl
    rfl

def secretPassword : Password := ⟨"secret", by decide⟩

/-- The old hash is one of the password alone. -/
def sampleHashing : PasswordHashing where
  extractParameters _ := some ⟨true, 19, 3, 65536, 4, 16, 32⟩
  verifyArgon2 passwordHash password := passwordHash = argonText password
  int _ := some 260000
  b64decode text := some (List.replicate (if text = "salt" then 16 else 32) 0)
  pbkdf2Hmac password _ _ := List.replicate 32 (if password = "secret" then 0 else 1)
  checkNeedsRehash _ := false
  hashPassword password _ := argonText password
  verify_hash password password' salt := by
    rw [decide_eq_true_eq, argonText_inj, Subtype.ext_iff]
  hash_length password salt := by
    have hlength := password.property.2
    have hargon : "$argon2".length = 7 := by decide
    rw [argonText, String.length_append, hargon]
    omega
  hash_argon2 password salt := by
    rw [argonText, String.toList_append]
    exact List.prefix_append _ password.val.toList
  hash_parameters password salt := ⟨_, rfl, by decide⟩
  hash_current _ _ := rfl

def sampleUser : User := ⟨1#128, "ann", "pbkdf2_sha256$260000$salt$digest"⟩

def sampleUsers : Table User := ⟨[sampleUser], by simp⟩

theorem verifyPassword_sampleUser (password : String) :
    sampleHashing.verifyPassword password sampleUser.passwordHash =
      decide (password = "secret") := by
  have hsplit : splitMax '$' 3 sampleUser.passwordHash.toList =
      ["pbkdf2_sha256", "260000", "salt", "digest"] := by decide
  have hlength : ¬ 512 < sampleUser.passwordHash.length := by decide
  have hlegacy : ¬ "$argon2".toList.isPrefixOf sampleUser.passwordHash.toList = true := by decide
  unfold PasswordHashing.verifyPassword PasswordHashing.verifyLegacy
  rw [if_neg hlength, if_neg hlegacy]
  by_cases hp : password = "secret" <;> simp [hsplit, sampleHashing, hp]

theorem account_sample :
    Account sampleHashing sampleUsers 1#128 "ann" secretPassword sampleUser where
  found := rfl
  only user huser := by
    obtain rfl := List.mem_singleton.mp huser
    simp [sampleUser]
  verifies p := by
    rw [verifyPassword_sampleUser, decide_eq_true_eq, Subtype.ext_iff]
    rfl

/-- One after the other. -/
def loginsInTurn : List LoginEvent :=
  [.arrive "ann" secretPassword, .read 0, .verify 0 7, .finish 0,
    .arrive "ann" secretPassword, .read 1, .verify 1 8, .finish 1]

def overlappingLogins : List LoginEvent :=
  [.arrive "ann" secretPassword, .arrive "ann" secretPassword, .read 0, .read 1, .verify 0 7,
    .verify 1 8, .finish 0, .finish 1]

end AgentDemo
