import AgentDemo.Core.McpSecurity

/-! The guard of fetch URLs against a resolver that reads numeric hosts in every usual notation. -/
namespace AgentDemo
open PythonNet IpText

def IsZone (z : List Char) : Prop :=
  z ≠ [] ∧ ∀ c ∈ z, c.toNat < 128 ∧ c ≠ '%' ∧ c ≠ '/'

/-- The numeric notations of address resolvers, apart from trailing dots. -/
inductive Denotes : List Char → Address → Prop
  | numbersAndDots {s a} (h : aton? s = some a) : Denotes s (.v4 a)
  | literal {s ns} (h : Ipv6Text s ns) : Denotes s (.v6 (ofGroups ns))
  | withZone {s ns z} (h : Ipv6Text s ns) (hz : IsZone z) :
      Denotes (s ++ '%' :: z) (.v6 (ofGroups ns))

/-- If the guard accepts the URL, its host is no numeric literal of a blocked address. -/
def NoBlockedLiteral (u : UnicodeTables) (url : String) : Prop :=
  validateMcpFetchUrl u url = .ok () →
    ∀ parsed host address, urlsplit u url.toList = some parsed → parsed.hostname u = some host →
      Denotes (rstripDots host) address → isBlockedAddress address = false

/-- Wherever the host of an HTTP URL is an IPv4 literal of a blocked address, it is the plain
dotted quad: four decimal numbers without leading zeros. -/
def PlainQuad (u : UnicodeTables) (url : String) : Prop :=
  ∀ parsed host a, urlsplit u url.toList = some parsed → isFetchScheme u parsed.scheme = true →
    parsed.hostname u = some host → aton? (rstripDots host) = some a →
    isBlockedAddress (.v4 a) = true → rstripDots host = quadText a

theorem digitValue_ascii {c : Char} (h : (IpText.digitValue c).isSome) : c.toNat < 128 := by
  unfold IpText.digitValue at h
  split_ifs at h with h1 h2 h3
  · exact (show c.toNat ≤ 57 from h1.2).trans_lt (by decide)
  · exact (show c.toNat ≤ 102 from h2.2).trans_lt (by decide)
  · exact (show c.toNat ≤ 70 from h3.2).trans_lt (by decide)
  · simp at h

theorem atonChar_ascii {c : Char} (h : IsAtonChar c) : c.toNat < 128 := by
  rcases h with rfl | rfl | rfl | h
  · decide
  · decide
  · decide
  · exact digitValue_ascii h

theorem ipv6Char_ascii {c : Char} (h : IsIpv6Char c) : c.toNat < 128 := by
  rcases h with rfl | rfl | h
  · decide
  · decide
  · exact digitValue_ascii h

theorem lower_quadText (u : UnicodeTables) (a : ℕ) : u.lower (quadText a) = quadText a := by
  rw [u.lower_ascii, quadText_toLower]
  intro c hc
  rcases quadText_chars c hc with rfl | hd
  · decide
  · exact (Char.isDigit_iff_toNat.mp hd).2.trans_lt (by decide)

theorem ipAddress_quadText {a : ℕ} (h : a < 2 ^ 32) : ipAddress (quadText a) = some (.v4 a) := by
  have hslash : '/' ∉ quadText a := by
    intro hc
    rcases quadText_chars _ hc with h | h
    · cases h
    · simp at h
  simp [ipAddress, ipv4Address, hslash, quad?_quadText h]

/-- A literal with a colon is no dotted quad. -/
theorem quad?_of_colon {s : List Char} (h : ':' ∈ s) : quad? s = none := by
  by_contra hq
  obtain ⟨a, ha⟩ := Option.ne_none_iff_exists'.mp hq
  exact not_mem_of_quad? ha (by decide) (by decide) h

theorem colon_mem_of_ipv6Text {s : List Char} {ns : List ℕ} (h : Ipv6Text s ns) : ':' ∈ s := by
  by_contra hc
  have hs := ipv6?_of_ipv6Text h
  simp [ipv6?, List.splitOn_eq_singleton hc] at hs

theorem percent_not_mem {s : List Char} {ns : List ℕ} (h : Ipv6Text s ns) : '%' ∉ s := by
  intro hc
  have := h.chars _ hc
  revert this
  unfold IsIpv6Char
  decide

theorem slash_not_mem {s : List Char} {ns : List ℕ} (h : Ipv6Text s ns) : '/' ∉ s := by
  intro hc
  have := h.chars _ hc
  revert this
  unfold IsIpv6Char
  decide

theorem splitScopeId_scoped {s z : List Char} (hs : '%' ∉ s) (hz : z ≠ []) (hp : '%' ∉ z) :
    splitScopeId (s ++ '%' :: z) = some s := by
  simp [splitScopeId, before_append hs, after_append hs, hz, hp]

/-- The guard reads every IPv6 literal as the address it denotes. -/
theorem ipAddress_literal (u : UnicodeTables) {s : List Char} {ns : List ℕ} (h : Ipv6Text s ns) :
    ipAddress (u.lower s) = some (.v6 (ofGroups ns)) := by
  rw [u.lower_ascii s fun c hc => ipv6Char_ascii (h.chars c hc)]
  have hl := h.toLower
  simp [ipAddress, ipv4Address, ipv6Address, splitScopeId,
    quad?_of_colon (colon_mem_of_ipv6Text hl),
    percent_not_mem hl, slash_not_mem hl, ipv6?_of_ipv6Text hl]

theorem ipAddress_scoped (u : UnicodeTables) {s z : List Char} {ns : List ℕ} (h : Ipv6Text s ns)
    (hz : IsZone z) : ipAddress (u.lower (s ++ '%' :: z)) = some (.v6 (ofGroups ns)) := by
  obtain ⟨hne, hchars⟩ := hz
  have hascii : ∀ c ∈ s ++ '%' :: z, c.toNat < 128 := by
    intro c hc
    rcases List.mem_append.mp hc with hc | hc
    · exact ipv6Char_ascii (h.chars c hc)
    · rcases List.mem_cons.mp hc with rfl | hc
      · decide
      · exact (hchars c hc).1
  have hzone (d : Char) (hd : d = '%' ∨ d = '/') : d ∉ z.map Char.toLower := by
    intro hmem
    obtain ⟨c, hc, hcd⟩ := List.mem_map.mp hmem
    obtain ⟨hlt, hpct, hslash⟩ := hchars c hc
    have hkey := char_of_ascii (P := fun c => c ≠ '%' → c ≠ '/' → c.toLower ≠ '%' ∧ c.toLower ≠ '/')
      (b := 128) (by decide) c hlt hpct hslash
    rcases hd with rfl | rfl
    · exact hkey.1 hcd
    · exact hkey.2 hcd
  rw [u.lower_ascii _ hascii, List.map_append, List.map_cons]
  have hl := h.toLower
  have hpct : Char.toLower '%' = '%' := rfl
  have hcolon : ':' ∈ s.map Char.toLower ++ '%' :: z.map Char.toLower :=
    List.mem_append_left _ (colon_mem_of_ipv6Text hl)
  have hslash : '/' ∉ s.map Char.toLower ++ '%' :: z.map Char.toLower := by
    simp only [List.mem_append, List.mem_cons, not_or]
    exact ⟨slash_not_mem hl, by decide, hzone _ (.inr rfl)⟩
  have hscope := splitScopeId_scoped (percent_not_mem hl)
    (by simpa using hne : z.map Char.toLower ≠ []) (hzone _ (.inl rfl))
  rw [hpct]
  simp [ipAddress, ipv4Address, ipv6Address, quad?_of_colon hcolon, hslash, hscope,
    ipv6?_of_ipv6Text hl]

/-- A resolver's number contains no letter of a blocked host name. -/
theorem not_blockedHost_of_aton? (u : UnicodeTables) {s : List Char} {a : ℕ}
    (h : aton? s = some a) :
    u.lower s ∉ blockedFetchHosts ∧ ¬ ".localhost".toList <:+ u.lower s := by
  have hl : 'l' ∉ u.lower s := by
    rw [u.lower_ascii s fun c hc => atonChar_ascii (atonChar_of_aton? h c hc)]
    intro hmem
    obtain ⟨c, hc, hcl⟩ := List.mem_map.mp hmem
    have hchar := atonChar_of_aton? h c hc
    exact char_of_ascii (P := fun c => IsAtonChar c → c.toLower ≠ 'l') (b := 128) (by decide) c
      (atonChar_ascii hchar) hchar hcl
  constructor
  · intro hmem
    have hall : ∀ host ∈ blockedFetchHosts, 'l' ∈ host := by decide
    exact hl (hall _ hmem)
  · intro hsuffix
    exact hl (hsuffix.subset (by decide))

theorem eq_quadText_of_toLower {s : List Char} {b : ℕ} (h : s.map Char.toLower = quadText b) :
    s = quadText b := by
  have hfix : ∀ c ∈ s, c.toLower = id c := by
    intro c hc
    by_cases hu : 65 ≤ c.toNat ∧ c.toNat ≤ 90
    · have hmem : c.toLower ∈ quadText b := h ▸ List.mem_map_of_mem hc
      exact char_of_ascii (P := fun c => (c.toLower = '.' ∨ c.toLower.isDigit = true) →
        c.toLower = id c) (b := 128) (by decide) c (by omega) (quadText_chars _ hmem)
    · exact toLower_of_not_upper hu
  rw [← h, List.map_congr_left hfix, List.map_id]

/-- The guard does not read an IPv4 literal in another spelling than the plain quad. -/
theorem ipAddress_of_not_plain (u : UnicodeTables) {s : List Char} {a : ℕ} (h : aton? s = some a)
    (hs : s ≠ quadText a) : ipAddress (u.lower s) = none := by
  have hchars := atonChar_of_aton? h
  have hlower : u.lower s = s.map Char.toLower :=
    u.lower_ascii s fun c hc => atonChar_ascii (hchars c hc)
  have hnot (d : Char) (hd : d = ':' ∨ d = '%') : d ∉ s.map Char.toLower := by
    intro hmem
    obtain ⟨c, hc, hcd⟩ := List.mem_map.mp hmem
    have hkey := char_of_ascii (P := fun c => IsAtonChar c → c.toLower ≠ ':' ∧ c.toLower ≠ '%')
      (b := 128) (by decide) c (atonChar_ascii (hchars c hc)) (hchars c hc)
    rcases hd with rfl | rfl
    · exact hkey.1 hcd
    · exact hkey.2 hcd
  have hv4 : ipv4Address (s.map Char.toLower) = none := by
    unfold ipv4Address
    split_ifs
    · rfl
    · by_contra hq
      obtain ⟨b, hb⟩ := Option.ne_none_iff_exists'.mp hq
      obtain ⟨htext, hlt⟩ := eq_quadText_of_quad? hb
      have hsb := eq_quadText_of_toLower htext
      have hab : some a = some b := by rw [← h, hsb, aton?_quadText hlt]
      exact hs (by rw [Option.some.inj hab]; exact hsb)
  have hv6 : ipv6Address (s.map Char.toLower) = none := by
    unfold ipv6Address
    split_ifs
    · rfl
    · have hscope : splitScopeId (s.map Char.toLower) = some (s.map Char.toLower) := by
        simp only [splitScopeId, hnot _ (.inr rfl), not_false_eq_true, if_true]
      simp [hscope, ipv6?, List.splitOn_eq_singleton (hnot _ (.inl rfl))]
  rw [hlower, ipAddress, hv4, hv6]
  rfl

/-- The guard keeps numeric literals of blocked addresses out exactly where they are plain. -/
theorem noBlockedLiteral_iff (u : UnicodeTables) (url : String) :
    NoBlockedLiteral u url ↔ PlainQuad u url := by
  constructor
  · intro h parsed host a hp hs hh ha hb
    by_contra hplain
    have hok : validateMcpFetchUrl u url = .ok () := by
      refine (validateMcpFetchUrl_ok_iff u url).mpr ⟨parsed, host, hp, hs, hh, ?_⟩
      obtain ⟨hname, hsuffix⟩ := not_blockedHost_of_aton? u ha
      refine (validateFetchHost_ok_iff u host).mpr ⟨hname, hsuffix, ?_⟩
      simp [ipAddress_of_not_plain u ha hplain]
    have hfree := h hok parsed host _ hp hh (.numbersAndDots ha)
    rw [hb] at hfree
    cases hfree
  · intro h hok parsed host address hp hh hd
    obtain ⟨parsed', host', hp', hs, hh', hok'⟩ := (validateMcpFetchUrl_ok_iff u url).mp hok
    obtain rfl : parsed' = parsed := Option.some.inj (hp'.symm.trans hp)
    obtain rfl : host' = host := Option.some.inj (hh'.symm.trans hh)
    obtain ⟨-, -, hfree⟩ := (validateFetchHost_ok_iff u host').mp hok'
    generalize hr : rstripDots host' = s at hd hfree
    cases hd with
    | @numbersAndDots _ a ha =>
      by_contra hb
      have hb : isBlockedAddress (.v4 a) = true := by simpa using hb
      have hplain : s = quadText a := by
        have := h parsed' host' a hp hs hh (hr ▸ ha) hb
        rwa [hr] at this
      have hlt : a < 2 ^ 32 := aton?_lt ha
      have := hfree (.v4 a) (by rw [hplain, lower_quadText, ipAddress_quadText hlt])
      rw [hb] at this
      cases this
    | literal ht => exact hfree _ (ipAddress_literal u ht)
    | withZone ht hz => exact hfree _ (ipAddress_scoped u ht hz)

/-- Tables for ASCII texts. -/
def asciiTables : UnicodeTables := ⟨List.map Char.toLower, id, fun _ _ => rfl⟩

/-- The decimal spelling of 127.0.0.1 passes the guard. -/
theorem not_noBlockedLiteral_decimal :
    ¬ NoBlockedLiteral asciiTables "http://2130706433/" := by
  intro h
  have hok : validateMcpFetchUrl asciiTables "http://2130706433/" = .ok () := by decide +kernel
  have hfree := h hok ⟨"http".toList, "2130706433".toList⟩ "2130706433".toList (.v4 2130706433)
    (by decide +kernel) (by decide +kernel) (.numbersAndDots (by decide +kernel))
  have hblocked : isBlockedAddress (.v4 2130706433) = true := by decide +kernel
  rw [hblocked] at hfree
  cases hfree

end AgentDemo
