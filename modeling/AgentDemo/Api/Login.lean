import AgentDemo.Library.Table
import AgentDemo.Values

/-! `login`: the hash is read, verified off-lock, read again under the lock of the user's row and
maybe replaced. -/
namespace AgentDemo

/-- A password that `AuthCredentials` lets pass. -/
abbrev Password := { text : String // 4 ≤ text.length ∧ text.length ≤ 128 }

/-- What `extract_parameters` reads from an Argon2 hash. -/
structure ArgonParameters where
  isArgon2id : Bool
  version : ℤ
  timeCost : ℤ
  memoryCost : ℤ
  parallelism : ℤ
  saltLen : ℤ
  hashLen : ℤ

/-- The bounds of `verify_password`. -/
def ArgonParameters.accepted (p : ArgonParameters) : Bool :=
  p.isArgon2id && p.version = 19 && 1 ≤ p.timeCost && p.timeCost ≤ 10 &&
    8 ≤ p.memoryCost && p.memoryCost ≤ 262144 && 1 ≤ p.parallelism && p.parallelism ≤ 16 &&
    8 ≤ p.saltLen && p.saltLen ≤ 64 && 16 ≤ p.hashLen && p.hashLen ≤ 64

/-- The libraries behind passwords; where one of them raises there is no value, or no match. A new
hash takes a random salt, is one of Argon2 within the bounds, verifies its own password only and has
the current parameters. -/
structure PasswordHashing where
  extractParameters : String → Option ArgonParameters
  verifyArgon2 : String → String → Bool
  int : String → Option ℤ
  b64decode : String → Option (List UInt8)
  pbkdf2Hmac : String → List UInt8 → ℕ → List UInt8
  checkNeedsRehash : String → Bool
  hashPassword : String → ℕ → String
  verify_hash : ∀ (password password' : Password) salt,
    verifyArgon2 (hashPassword password salt) password' = true ↔ password' = password
  hash_length : ∀ (password : Password) salt, (hashPassword password salt).length ≤ 512
  hash_argon2 : ∀ (password : Password) salt,
    "$argon2".toList <+: (hashPassword password salt).toList
  hash_parameters : ∀ (password : Password) salt, ∃ p,
    extractParameters (hashPassword password salt) = some p ∧ p.accepted = true
  hash_current : ∀ (password : Password) salt,
    checkNeedsRehash (hashPassword password salt) = false

/-- `text.split(c, n)`. -/
def splitMax (c : Char) : ℕ → List Char → List String
  | 0, text => [String.ofList text]
  | n + 1, text =>
    if c ∈ text then
      String.ofList (text.takeWhile (· ≠ c)) :: splitMax c n (text.dropWhile (· ≠ c)).tail
    else [String.ofList text]

namespace PasswordHashing

/-- `startswith("pbkdf2_sha256$")`, or older Argon2 parameters. -/
def needsRehash (h : PasswordHashing) (passwordHash : String) : Bool :=
  "pbkdf2_sha256$".toList.isPrefixOf passwordHash.toList || h.checkNeedsRehash passwordHash

/-- `verify_password` of a hash in the old format. -/
def verifyLegacy (h : PasswordHashing) (password passwordHash : String) : Bool :=
  match splitMax '$' 3 passwordHash.toList with
  | [algorithm, iterationsText, saltText, digestText] =>
    if algorithm ≠ "pbkdf2_sha256" then false
    else
      match h.int iterationsText, h.b64decode saltText, h.b64decode digestText with
      | some iterations, some salt, some expected =>
        if 1 ≤ iterations ∧ iterations ≤ 2000000 ∧ 8 ≤ salt.length ∧ salt.length ≤ 64 ∧
            expected.length = 32 then
          h.pbkdf2Hmac password salt iterations.toNat = expected
        else false
      | _, _, _ => false
  | _ => false

def verifyPassword (h : PasswordHashing) (password passwordHash : String) : Bool :=
  if 512 < passwordHash.length then false
  else if "$argon2".toList.isPrefixOf passwordHash.toList then
    (h.extractParameters passwordHash).any ArgonParameters.accepted &&
      h.verifyArgon2 passwordHash password
  else h.verifyLegacy password passwordHash

theorem verifyPassword_hashPassword (h : PasswordHashing) (password password' : Password)
    (salt : ℕ) :
    h.verifyPassword password' (h.hashPassword password salt) = true ↔ password' = password := by
  obtain ⟨p, hp, haccepted⟩ := h.hash_parameters password salt
  have hargon := List.isPrefixOf_iff_prefix.mpr (h.hash_argon2 password salt)
  unfold verifyPassword
  rw [if_neg (not_lt.mpr (h.hash_length password salt)), if_pos hargon, hp, Option.any_some,
    haccepted, Bool.true_and]
  exact h.verify_hash password password' salt

/-- `verify_and_rehash`; without a stored hash it verifies a dummy one and fails. -/
def verifyAndRehash (h : PasswordHashing) (salt : ℕ) (password : Password) :
    Option String → Bool × Option String
  | none => (false, none)
  | some passwordHash =>
    if !h.verifyPassword password passwordHash then (false, none)
    else if h.needsRehash passwordHash then (true, some (h.hashPassword password salt))
    else (true, none)

/-- One upgrade is enough. -/
theorem needsRehash_hash (h : PasswordHashing) (password : Password) (salt : ℕ) :
    h.needsRehash (h.hashPassword password salt) = false := by
  have hlegacy :
    "pbkdf2_sha256$".toList.isPrefixOf (h.hashPassword password salt).toList = false := by
    obtain ⟨rest, hrest⟩ := h.hash_argon2 password salt
    rw [← hrest]
    rfl
  rw [needsRehash, hlegacy, h.hash_current, Bool.or_false]

end PasswordHashing

/-- The columns of `users` that `login` reads and writes. -/
structure User where
  id : UUID
  usernameNormalized : String
  passwordHash : String
  deriving DecidableEq

instance : Keyed User UUID := ⟨User.id⟩

inductive LoginPhase where
  | admitted
  | read (user : Option User)
  | verified (user : User) (replacement : Option String)
  | accepted
  | rejected (detail : String)
  deriving DecidableEq

/-- A request that the limits have admitted, with `payload.username.strip().casefold()`. -/
structure LoginRequest where
  usernameNormalized : String
  password : Password
  phase : LoginPhase

def selectUser (users : Table User) (usernameNormalized : String) : Option User :=
  users.rows.find? fun user => user.usernameNormalized = usernameNormalized

/-- What follows `password_work(verify_and_rehash, …)`. -/
def verifiedPhase (h : PasswordHashing) (salt : ℕ) (password : Password)
    (user : Option User) : LoginPhase :=
  let (valid, replacement) := h.verifyAndRehash salt password (user.map User.passwordHash)
  match user with
  | none => .rejected "Invalid username or password"
  | some user =>
    if valid then .verified user replacement else .rejected "Invalid username or password"

def finishLogin (users : Table User) (user : User) (replacement : Option String) :
    Table User × LoginPhase :=
  match users.get? user.id with
  | none => (users, .rejected "Credentials changed; please sign in again")
  | some current =>
    if current.passwordHash ≠ user.passwordHash then
      (users, .rejected "Credentials changed; please sign in again")
    else
      match replacement with
      | none => (users, .accepted)
      | some passwordHash => (users.write { current with passwordHash }, .accepted)

end AgentDemo
