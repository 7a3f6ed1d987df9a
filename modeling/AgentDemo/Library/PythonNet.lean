import AgentDemo.Library.Ipv6Text

/-! `urllib.parse.urlsplit` and the `ipaddress` module of the Python standard library. -/
namespace PythonNet
open IpText

/-- What Python takes from the Unicode tables: `str.lower`, which acts letter by letter on ASCII
texts, and the normal form NFKC. -/
structure UnicodeTables where
  lower : List Char → List Char
  nfkc : List Char → List Char
  lower_ascii : ∀ s, (∀ c ∈ s, c.toNat < 128) → lower s = s.map Char.toLower

/-- `s.partition(c)[0]`. -/
def before (c : Char) (s : List Char) : List Char := s.takeWhile (· ≠ c)

/-- `s.partition(c)[2]`. -/
def after (c : Char) (s : List Char) : List Char := (s.dropWhile (· ≠ c)).drop 1

theorem before_append {c : Char} {s : List Char} (h : c ∉ s) (t : List Char) :
    before c (s ++ c :: t) = s := by
  unfold before
  rw [List.takeWhile_append_of_pos, List.takeWhile_cons_of_neg (by simp), List.append_nil]
  intro x hx
  simp only [ne_eq, decide_not, Bool.not_eq_true', decide_eq_false_iff_not]
  rintro rfl
  exact h hx

theorem after_append {c : Char} {s : List Char} (h : c ∉ s) (t : List Char) :
    after c (s ++ c :: t) = t := by
  unfold after
  rw [List.dropWhile_append_of_pos, List.dropWhile_cons_of_neg (by simp)]
  · rfl
  · intro x hx
    simp only [ne_eq, decide_not, Bool.not_eq_true', decide_eq_false_iff_not]
    rintro rfl
    exact h hx

/-- `s.rpartition(c)[2]`. -/
def afterLast (c : Char) (s : List Char) : List Char := (s.reverse.takeWhile (· ≠ c)).reverse

/-- `s.rstrip(".")`. -/
def rstripDots (s : List Char) : List Char := (s.reverse.dropWhile (· = '.')).reverse

inductive Address where
  | v4 (a : ℕ)
  | v6 (a : ℕ)
  deriving DecidableEq, Repr

/-- `IPv4Address(s)`. -/
def ipv4Address (s : List Char) : Option ℕ := if '/' ∈ s then none else quad? s

/-- `_split_scope_id`, without the scope. -/
def splitScopeId (s : List Char) : Option (List Char) :=
  if '%' ∉ s then some s
  else if after '%' s = [] ∨ '%' ∈ after '%' s then none
  else some (before '%' s)

/-- `IPv6Address(s)`. -/
def ipv6Address (s : List Char) : Option ℕ := if '/' ∈ s then none else (splitScopeId s).bind ipv6?

/-- `ip_address(s)`; `none` is a `ValueError`. -/
def ipAddress (s : List Char) : Option Address :=
  match ipv4Address s with
  | some a => some (.v4 a)
  | none => (ipv6Address s).map .v6

/-- A network: its first address and the number of its free bits. -/
structure Network where
  base : ℕ
  hostBits : ℕ

def Network.has (n : Network) (a : ℕ) : Bool := a / 2 ^ n.hostBits = n.base / 2 ^ n.hostBits

def quadNetwork (a b c d len : ℕ) : Network := ⟨a * 2 ^ 24 + b * 2 ^ 16 + c * 2 ^ 8 + d, 32 - len⟩

def groupNetwork (groups : List ℕ) (len : ℕ) : Network :=
  ⟨ofGroups (groups ++ List.replicate (8 - groups.length) 0), 128 - len⟩

def privateNetworks4 : List Network :=
  [quadNetwork 0 0 0 0 8, quadNetwork 10 0 0 0 8, quadNetwork 127 0 0 0 8,
   quadNetwork 169 254 0 0 16, quadNetwork 172 16 0 0 12, quadNetwork 192 0 0 0 24,
   quadNetwork 192 0 0 170 31, quadNetwork 192 0 2 0 24, quadNetwork 192 168 0 0 16,
   quadNetwork 198 18 0 0 15, quadNetwork 198 51 100 0 24, quadNetwork 203 0 113 0 24,
   quadNetwork 240 0 0 0 4, quadNetwork 255 255 255 255 32]

def privateExceptions4 : List Network := [quadNetwork 192 0 0 9 32, quadNetwork 192 0 0 10 32]

def privateNetworks6 : List Network :=
  [groupNetwork [0, 0, 0, 0, 0, 0, 0, 1] 128, groupNetwork [] 128,
   groupNetwork [0, 0, 0, 0, 0, 0xffff] 96, groupNetwork [0x64, 0xff9b, 1] 48,
   groupNetwork [0x100] 64, groupNetwork [0x2001] 23, groupNetwork [0x2001, 0xdb8] 32,
   groupNetwork [0x2002] 16, groupNetwork [0xfc00] 7, groupNetwork [0xfe80] 10]

def privateExceptions6 : List Network :=
  [groupNetwork [0x2001, 1, 0, 0, 0, 0, 0, 1] 128, groupNetwork [0x2001, 1, 0, 0, 0, 0, 0, 2] 128,
   groupNetwork [0x2001, 3] 32, groupNetwork [0x2001, 4, 0x112] 48, groupNetwork [0x2001, 0x20] 28,
   groupNetwork [0x2001, 0x30] 28]

def reservedNetworks6 : List Network :=
  [groupNetwork [] 8, groupNetwork [0x100] 8, groupNetwork [0x200] 7, groupNetwork [0x400] 6,
   groupNetwork [0x800] 5, groupNetwork [0x1000] 4, groupNetwork [0x4000] 3,
   groupNetwork [0x6000] 3, groupNetwork [0x8000] 3, groupNetwork [0xa000] 3,
   groupNetwork [0xc000] 3, groupNetwork [0xe000] 4, groupNetwork [0xf000] 5,
   groupNetwork [0xf800] 6, groupNetwork [0xfe00] 9]

def ipv4Mapped (a : ℕ) : Option ℕ := if a / 2 ^ 32 = 0xffff then some (a % 2 ^ 32) else none

def isPrivate4 (a : ℕ) : Bool :=
  privateNetworks4.any (·.has a) && privateExceptions4.all (fun n => !n.has a)

def Address.isPrivate : Address → Bool
  | .v4 a => isPrivate4 a
  | .v6 a =>
    match ipv4Mapped a with
    | some m => isPrivate4 m
    | none => privateNetworks6.any (·.has a) && privateExceptions6.all (fun n => !n.has a)

def Address.isLoopback : Address → Bool
  | .v4 a => (quadNetwork 127 0 0 0 8).has a
  | .v6 a => a = 1

def Address.isLinkLocal : Address → Bool
  | .v4 a => (quadNetwork 169 254 0 0 16).has a
  | .v6 a => (groupNetwork [0xfe80] 10).has a

def Address.isUnspecified : Address → Bool
  | .v4 a => a = 0
  | .v6 a => a = 0

def Address.isMulticast : Address → Bool
  | .v4 a => (quadNetwork 224 0 0 0 4).has a
  | .v6 a => (groupNetwork [0xff00] 8).has a

def Address.isReserved : Address → Bool
  | .v4 a => (quadNetwork 240 0 0 0 4).has a
  | .v6 a => reservedNetworks6.any (·.has a)

def isAsciiAlpha (c : Char) : Bool := c.toNat < 128 && c.isAlpha

def splitScheme (url : List Char) : List Char × List Char :=
  let scheme := before ':' url
  if ':' ∈ url ∧ scheme.head?.any isAsciiAlpha ∧
      scheme.all (fun c => isAsciiAlpha c || c.isDigit || c = '+' || c = '-' || c = '.') then
    (scheme.map Char.toLower, after ':' url)
  else ([], url)

/-- `_check_bracketed_host`: an `IPvFuture` text or an IPv6 literal. -/
def checkBracketedHost (host : List Char) : Bool :=
  match host with
  | 'v' :: rest =>
    let version := rest.takeWhile fun c => (digitValue c).isSome
    match rest.drop version.length with
    | '.' :: _ :: _ => !version.isEmpty
    | _ => false
  | _ =>
    match ipAddress host with
    | some (.v6 _) => true
    | _ => false

/-- `_checknetloc`. -/
def checkNetloc (u : UnicodeTables) (netloc : List Char) : Bool :=
  let n := netloc.filter fun c => !"@:#?".toList.contains c
  netloc.all (·.toNat < 128) || u.nfkc n = n || !(u.nfkc n).any "/?#@:".toList.contains

structure SplitResult where
  scheme : List Char
  netloc : List Char
  deriving DecidableEq, Repr

/-- `urlsplit`, as far as scheme and network location; `none` is a `ValueError`. -/
def urlsplit (u : UnicodeTables) (url : List Char) : Option SplitResult :=
  let url := (url.dropWhile fun c => c.toNat ≤ 32).filter fun c => !(['\t', '\r', '\n'].contains c)
  let (scheme, rest) := splitScheme url
  let netloc := if rest.take 2 = ['/', '/'] then
      (rest.drop 2).takeWhile fun c => !(['/', '?', '#'].contains c)
    else []
  if ('[' ∈ netloc ∧ ']' ∉ netloc) ∨ (']' ∈ netloc ∧ '[' ∉ netloc) then none
  else if '[' ∈ netloc ∧ ']' ∈ netloc ∧
      !checkBracketedHost (before ']' (after '[' netloc)) then none
  else if !checkNetloc u netloc then none
  else some ⟨scheme, netloc⟩

/-- The property `hostname`. -/
def SplitResult.hostname (u : UnicodeTables) (r : SplitResult) : Option (List Char) :=
  let hostinfo := afterLast '@' r.netloc
  let host := if '[' ∈ hostinfo then before ']' (after '[' hostinfo) else before ':' hostinfo
  if host = [] then none
  else some (u.lower (before '%' host) ++ host.dropWhile (· ≠ '%'))

end PythonNet
