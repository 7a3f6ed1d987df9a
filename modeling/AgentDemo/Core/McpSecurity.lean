import AgentDemo.Library.PythonNet
import AgentDemo.Environment
import Mathlib

/-! `validate_mcp_fetch_url`: the guard of the URLs that are handed to the fetch server. -/
namespace AgentDemo
open PythonNet

def blockedFetchHosts : List (List Char) :=
  ["localhost".toList, "metadata.google.internal".toList]

inductive FetchUrlError where
  | http (e : HttpException)
  | valueError
  deriving DecidableEq, Repr

/-- The condition of the last `if` of the guard. -/
def isBlockedAddress (address : Address) : Bool :=
  address.isLoopback || address.isPrivate || address.isLinkLocal || address.isUnspecified ||
    address.isMulticast || address.isReserved

def isFetchScheme (u : UnicodeTables) (scheme : List Char) : Bool :=
  u.lower scheme = "http".toList || u.lower scheme = "https".toList

def validateFetchHost (u : UnicodeTables) (host : List Char) : Except FetchUrlError Unit :=
  let hostname := u.lower (rstripDots host)
  if hostname ∈ blockedFetchHosts ∨ ".localhost".toList <:+ hostname then
    .error (.http ⟨403, "Fetch URL targets a blocked local host"⟩)
  else
    match ipAddress hostname with
    | none => .ok ()
    | some address =>
      if isBlockedAddress address then
        .error (.http ⟨403, "Fetch URL targets a blocked local or private address"⟩)
      else .ok ()

def validateMcpFetchUrl (u : UnicodeTables) (url : String) : Except FetchUrlError Unit :=
  match urlsplit u url.toList with
  | none => .error .valueError
  | some parsed =>
    if !isFetchScheme u parsed.scheme then
      .error (.http ⟨422, "Fetch URL must use http or https"⟩)
    else
      match parsed.hostname u with
      | none => .error (.http ⟨422, "Fetch URL must include a host"⟩)
      | some host => validateFetchHost u host

/-- The guard passes a URL exactly when its host passes. -/
theorem validateMcpFetchUrl_ok_iff (u : UnicodeTables) (url : String) :
    validateMcpFetchUrl u url = .ok () ↔
      ∃ parsed host, urlsplit u url.toList = some parsed ∧ isFetchScheme u parsed.scheme = true ∧
        parsed.hostname u = some host ∧ validateFetchHost u host = .ok () := by
  unfold validateMcpFetchUrl
  cases hp : urlsplit u url.toList with
  | none => simp
  | some parsed =>
    cases hs : isFetchScheme u parsed.scheme with
    | false => simp [hs]
    | true => cases hh : parsed.hostname u <;> simp [hs, hh]

/-- The guard passes a host exactly when it names no blocked host and reads as no blocked
address. -/
theorem validateFetchHost_ok_iff (u : UnicodeTables) (host : List Char) :
    validateFetchHost u host = .ok () ↔
      u.lower (rstripDots host) ∉ blockedFetchHosts ∧
        ¬ ".localhost".toList <:+ u.lower (rstripDots host) ∧
        ∀ address, ipAddress (u.lower (rstripDots host)) = some address →
          isBlockedAddress address = false := by
  unfold validateFetchHost
  simp only
  split_ifs with hn
  · constructor
    · intro h
      cases h
    · rintro ⟨h1, h2, -⟩
      exact (hn.elim h1 h2).elim
  · rw [not_or] at hn
    cases ipAddress (u.lower (rstripDots host)) with
    | none => exact ⟨fun _ => ⟨hn.1, hn.2, by simp⟩, fun _ => rfl⟩
    | some address =>
      cases hb : isBlockedAddress address with
      | false => exact ⟨fun _ => ⟨hn.1, hn.2, by simpa using hb⟩, fun _ => by simp [hb]⟩
      | true =>
        constructor
        · intro h
          simp [hb] at h
        · rintro ⟨-, -, h⟩
          have := h address rfl
          rw [hb] at this
          cases this

end AgentDemo
