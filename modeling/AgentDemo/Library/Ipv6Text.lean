import AgentDemo.Library.IpText
import Mathlib.Data.List.Forall2

/-! IPv6 literals: the notation, the strict reading of it that splits at the colons, and that the
reading covers the notation. -/
namespace IpText

def hextet? (s : List Char) : Option ℕ := if s.length ≤ 4 then numeral? 16 s else none

/-- Texts of 16-bit groups with their values. The last text may be a dotted quad, which makes up
two groups. -/
inductive Groups : List (List Char) → List ℕ → Prop
  | nil : Groups [] []
  | hextet {t ts n ns} (ht : hextet? t = some n) (hts : Groups ts ns) : Groups (t :: ts) (n :: ns)
  | quad {t a} (ht : quad? t = some a) : Groups [t] [a / 65536, a % 65536]

/-- Texts of hexadecimal groups only. -/
abbrev Hextets (ts : List (List Char)) (ns : List ℕ) : Prop :=
  List.Forall₂ (fun t n => hextet? t = some n) ts ns

/-- The text of an address of eight groups: in full, or with `::` for a run of zeros. -/
inductive Ipv6Text : List Char → List ℕ → Prop
  | full {ts ns} (h : Groups ts ns) (hlen : ns.length = 8) : Ipv6Text ([':'].intercalate ts) ns
  | compressed {hi lo hs ls} (hhi : Hextets hi hs) (hlo : Groups lo ls)
      (hlen : hs.length + ls.length ≤ 7) :
      Ipv6Text ([':'].intercalate hi ++ ':' :: ':' :: [':'].intercalate lo)
        (hs ++ List.replicate (8 - (hs.length + ls.length)) 0 ++ ls)

def ofGroups (ns : List ℕ) : ℕ := ns.foldl (fun acc n => acc * 65536 + n) 0

/-- Replaces a dotted quad in the last part by two hexadecimal groups. -/
def expandQuad (parts : List (List Char)) : Option (List (List Char)) :=
  match parts.getLast? with
  | some last =>
    if '.' ∈ last then
      (quad? last).map fun a =>
        parts.dropLast ++ [Nat.toDigits 16 (a / 65536), Nat.toDigits 16 (a % 65536)]
    else some parts
  | none => some parts

/-- The indices of empty parts, apart from the first and the last part. -/
def skips (parts : List (List Char)) : List ℕ :=
  ((parts.zipIdx.drop 1).dropLast.filter fun p => p.1.isEmpty).map (·.2)

/-- The parts above a `::`; an empty first part stands for nothing and must be alone. -/
def above (parts : List (List Char)) (skip : ℕ) : Option (List (List Char)) :=
  if parts.head? = some [] then (if skip - 1 = 0 then some [] else none)
  else some (parts.take skip)

/-- The parts below a `::`. -/
def below (parts : List (List Char)) (skip : ℕ) : Option (List (List Char)) :=
  if parts.getLast? = some [] then (if parts.length - skip - 1 - 1 = 0 then some [] else none)
  else some (parts.drop (skip + 1))

def ipv6? (s : List Char) : Option ℕ := do
  let parts := s.splitOn ':'
  if parts.length < 3 then none
  else
    let parts ← expandQuad parts
    if parts.length > 9 then none
    else
      match skips parts with
      | [] =>
        if parts.length ≠ 8 then none
        else (parts.mapM hextet?).map ofGroups
      | [skip] => do
        let hi ← above parts skip
        let lo ← below parts skip
        if 8 - (hi.length + lo.length) < 1 then none
        else
          let hs ← hi.mapM hextet?
          let ls ← lo.mapM hextet?
          some (ofGroups (hs ++ List.replicate (8 - (hi.length + lo.length)) 0 ++ ls))
      | _ => none

example : ipv6? "::ffff:127.0.0.1".toList = some 0xffff7f000001 := by decide +kernel

theorem toLower_of_not_upper {c : Char} (h : ¬ (65 ≤ c.toNat ∧ c.toNat ≤ 90)) : c.toLower = c := by
  unfold Char.toLower
  rw [dif_neg]
  exact fun hc => h ⟨hc.1, hc.2⟩

theorem digitValue_toLower (c : Char) : digitValue c.toLower = digitValue c := by
  by_cases hc : c.toNat < 128
  · exact char_of_ascii (P := fun c => digitValue c.toLower = digitValue c) (b := 128)
      (by decide) c hc
  · rw [toLower_of_not_upper (by omega)]

theorem numeralFrom_toLower (b acc : ℕ) (s : List Char) :
    numeralFrom b acc (s.map Char.toLower) = numeralFrom b acc s := by
  induction s generalizing acc with
  | nil => rfl
  | cons c s ih => simp only [List.map_cons, numeralFrom, digitValue_toLower, ih]

theorem hextet?_toLower (s : List Char) : hextet? (s.map Char.toLower) = hextet? s := by
  simp [hextet?, numeral?, numeralFrom_toLower]

theorem quadText_toLower (a : ℕ) : (quadText a).map Char.toLower = quadText a := by
  have h : ∀ c ∈ quadText a, c.toLower = id c := by
    intro c hc
    rcases quadText_chars c hc with rfl | hd
    · rfl
    · refine toLower_of_not_upper ?_
      have hle : c.toNat ≤ 57 := (Char.isDigit_iff_toNat.mp hd).2
      omega
  rw [List.map_congr_left h, List.map_id]

theorem hextet?_toDigits {n : ℕ} (h : n < 65536) : hextet? (Nat.toDigits 16 n) = some n := by
  have hlen : (Nat.toDigits 16 n).length ≤ 4 :=
    (Nat.length_toDigits_le_iff (by decide) (by decide)).mpr (by simpa using h)
  simp [hextet?, hlen, numeral?_toDigits]

theorem hextet?_eq_some {t : List Char} {n : ℕ} (h : hextet? t = some n) :
    t ≠ [] ∧ ∀ c ∈ t, (digitValue c).isSome := by
  unfold hextet? at h
  split_ifs at h
  exact digit_of_numeral? h

theorem not_mem_of_hextet? {t : List Char} {n : ℕ} (h : hextet? t = some n) {c : Char}
    (hc : digitValue c = none) : c ∉ t := by
  intro hmem
  have := (hextet?_eq_some h).2 c hmem
  simp [hc] at this

theorem not_mem_of_quad? {t : List Char} {a : ℕ} (h : quad? t = some a) {c : Char}
    (hdot : c ≠ '.') (hc : c.isDigit = false) : c ∉ t := by
  intro hmem
  rw [(eq_quadText_of_quad? h).1] at hmem
  rcases quadText_chars c hmem with h | h
  · exact hdot h
  · simp [hc] at h

theorem Groups.text_ne_nil {ts ns} (h : Groups ts ns) : ∀ t ∈ ts, t ≠ [] := by
  induction h with
  | nil => simp
  | hextet ht _ ih =>
    rw [List.forall_mem_cons]
    exact ⟨(hextet?_eq_some ht).1, ih⟩
  | quad ht =>
    rw [List.forall_mem_singleton]
    rintro rfl
    have hq : quad? [] = none := by decide
    rw [hq] at ht
    cases ht

theorem Groups.colon_not_mem {ts ns} (h : Groups ts ns) : ∀ t ∈ ts, ':' ∉ t := by
  induction h with
  | nil => simp
  | hextet ht _ ih =>
    rw [List.forall_mem_cons]
    exact ⟨not_mem_of_hextet? ht (by decide), ih⟩
  | quad ht =>
    rw [List.forall_mem_singleton]
    exact not_mem_of_quad? ht (by decide) (by decide)

theorem Groups.of_hextets {ts ns} (h : Hextets ts ns) : Groups ts ns := by
  induction h with
  | nil => exact .nil
  | cons ht _ ih => exact .hextet ht ih

theorem Groups.length_le {ts ns} (h : Groups ts ns) : ns.length ≤ ts.length + 1 := by
  induction h with
  | nil => simp
  | hextet _ _ ih => simpa using ih
  | quad _ => simp

theorem expandQuad_append (before parts : List (List Char)) (h : parts ≠ []) :
    expandQuad (before ++ parts) = (expandQuad parts).map (before ++ ·) := by
  obtain ⟨init, last, rfl⟩ := List.eq_nil_or_concat parts |>.resolve_left h
  have hassoc : before ++ (init ++ [last]) = (before ++ init) ++ [last] := by simp
  simp only [expandQuad, List.concat_eq_append, hassoc, List.getLast?_concat, List.dropLast_concat]
  split_ifs
  · cases quad? last <;> simp
  · simp

/-- Once the quad is replaced, only hexadecimal groups are left. -/
theorem Groups.expandQuad_eq {ts ns} (h : Groups ts ns) :
    ∃ ts', expandQuad ts = some ts' ∧ Hextets ts' ns := by
  induction h with
  | nil => exact ⟨[], rfl, .nil⟩
  | @hextet t ts n ns ht hts ih =>
    obtain ⟨ts', he, hh⟩ := ih
    refine ⟨t :: ts', ?_, .cons ht hh⟩
    cases ts with
    | nil =>
      cases he
      have hdot := not_mem_of_hextet? ht (by decide : digitValue '.' = none)
      simp [expandQuad, hdot]
    | cons u ts =>
      have := expandQuad_append [t] (u :: ts) (by simp)
      simpa [he] using this
  | @quad t a ht =>
    obtain ⟨htext, ha⟩ := eq_quadText_of_quad? ht
    have hdot : '.' ∈ t := by
      rw [htext]
      simp [quadText, quadParts]
    refine ⟨[Nat.toDigits 16 (a / 65536), Nat.toDigits 16 (a % 65536)], ?_, ?_⟩
    · simp [expandQuad, hdot, ht]
    · exact .cons (hextet?_toDigits (by omega)) (.cons (hextet?_toDigits (by omega)) .nil)

theorem mapM_of_hextets {ts ns} (h : Hextets ts ns) : ts.mapM hextet? = some ns := by
  induction h with
  | nil => rfl
  | cons ht _ ih => simp [List.mapM_cons, ht, ih]

/-- The parts on one side of a `::`, where an empty text splits into one empty part. -/
def side (ts : List (List Char)) : List (List Char) := if ts = [] then [[]] else ts

theorem side_ne_nil (ts : List (List Char)) : side ts ≠ [] := by
  unfold side
  split_ifs with h
  · simp
  · exact h

theorem length_side (ts : List (List Char)) : (side ts).length = max ts.length 1 := by
  unfold side
  split_ifs with h
  · simp [h]
  · have := List.length_pos_iff.mpr h
    omega

theorem splitOn_side {ts : List (List Char)} (h : ∀ t ∈ ts, ':' ∉ t) :
    ([':'].intercalate ts).splitOn ':' = side ts := by
  unfold side
  split_ifs with hts
  · simp [hts]
  · exact List.splitOn_intercalate ':' h hts

theorem skips_of_ne_nil {ts : List (List Char)} (h : ∀ t ∈ ts, t ≠ []) : skips ts = [] := by
  simp only [skips, List.map_eq_nil_iff, List.filter_eq_nil_iff]
  intro p hp
  have hmem := List.mem_of_mem_drop (List.dropLast_subset _ hp)
  simpa using h _ (List.fst_mem_of_mem_zipIdx hmem)

theorem skips_side {hi lo : List (List Char)} (hhi : ∀ t ∈ hi, t ≠ []) (hlo : ∀ t ∈ lo, t ≠ []) :
    skips (side hi ++ [] :: side lo) = [(side hi).length] := by
  have hleft : ((side hi).zipIdx.drop 1).filter (fun p => p.1.isEmpty) = [] := by
    rw [List.filter_eq_nil_iff]
    intro p hp
    unfold side at hp
    split_ifs at hp
    · simp at hp
    · simpa using hhi _ (List.fst_mem_of_mem_zipIdx (List.mem_of_mem_drop hp))
  have hright (k : ℕ) : ((side lo).zipIdx k).dropLast.filter (fun p => p.1.isEmpty) = [] := by
    rw [List.filter_eq_nil_iff]
    intro p hp
    unfold side at hp
    split_ifs at hp
    · simp at hp
    · simpa using hlo _ (List.fst_mem_of_mem_zipIdx (List.dropLast_subset _ hp))
  have hne : (side lo).zipIdx (0 + (side hi).length + 1) ≠ [] := by
    simpa using side_ne_nil lo
  unfold skips
  rw [List.zipIdx_append, List.zipIdx_cons,
    List.drop_append_of_le_length (by simp [length_side]),
    List.dropLast_append_of_ne_nil (by simp), List.dropLast_cons_of_ne_nil hne,
    List.filter_append, hleft, List.filter_cons, hright]
  simp

theorem above_side {hi lo : List (List Char)} (hhi : ∀ t ∈ hi, t ≠ []) :
    above (side hi ++ [] :: side lo) (side hi).length = some hi := by
  cases hi with
  | nil => rfl
  | cons t hi =>
    have ht : t ≠ [] := hhi t List.mem_cons_self
    simp [above, side, ht]

theorem below_side {hi lo : List (List Char)} (hlo : ∀ t ∈ lo, t ≠ []) :
    below (side hi ++ [] :: side lo) (side hi).length = some lo := by
  rcases List.eq_nil_or_concat lo with rfl | ⟨init, last, rfl⟩
  · simp [below, side]
  · have hlast : last ≠ [] := hlo last (by simp)
    have hget : ([] :: (init ++ [last])).getLast? = some last := by
      rw [← List.cons_append, List.getLast?_concat]
    simp [below, side, hget, hlast]

/-- The strict reading covers every literal. -/
theorem ipv6?_of_ipv6Text {s : List Char} {ns : List ℕ} (h : Ipv6Text s ns) :
    ipv6? s = some (ofGroups ns) := by
  cases h with
  | @full ts _ h hlen =>
    have hts : ts ≠ [] := by
      rintro rfl
      cases h
      simp at hlen
    have hcount := h.length_le
    obtain ⟨ts', he, hh⟩ := h.expandQuad_eq
    have hlen' : ts'.length = 8 := by rw [hh.length_eq, hlen]
    have hskip := skips_of_ne_nil (Groups.of_hextets hh).text_ne_nil
    have hlt : ¬ ts.length < 3 := by omega
    simp only [ipv6?, List.splitOn_intercalate ':' h.colon_not_mem hts, hlt, if_false, he]
    simp [hlen', hskip, mapM_of_hextets hh]
  | @compressed hi lo hs ls hhi hlo hlen =>
    have hgi := Groups.of_hextets hhi
    obtain ⟨lo', he, hh⟩ := hlo.expandQuad_eq
    have hgl := Groups.of_hextets hh
    have hsplit : ([':'].intercalate hi ++ ':' :: ':' :: [':'].intercalate lo).splitOn ':' =
        side hi ++ [] :: side lo := by
      rw [List.splitOn_append_cons_self, splitOn_side hgi.colon_not_mem]
      congr 1
      have := List.splitOn_append_cons_self (a := ':') [] ([':'].intercalate lo)
      simpa [splitOn_side hlo.colon_not_mem] using this
    have hexp : expandQuad (side hi ++ [] :: side lo) = some (side hi ++ [] :: side lo') := by
      have hside : expandQuad (side lo) = some (side lo') := by
        unfold side
        by_cases hlo0 : lo = []
        · subst hlo0
          cases he
          rfl
        · have hlo0' : lo' ≠ [] := by
            rintro rfl
            cases hh
            cases hlo
            exact hlo0 rfl
          rw [if_neg hlo0, if_neg hlo0', he]
      have := expandQuad_append (side hi ++ [[]]) (side lo) (side_ne_nil lo)
      simpa [hside] using this
    have hlhi : hi.length = hs.length := hhi.length_eq
    have hllo : lo'.length = ls.length := hh.length_eq
    have hthree : ¬ (side hi ++ [] :: side lo).length < 3 := by
      simp only [List.length_append, List.length_cons, length_side]
      omega
    have hnine : ¬ (side hi ++ [] :: side lo').length > 9 := by
      simp only [List.length_append, List.length_cons, length_side]
      omega
    have hroom : ¬ 8 - (hi.length + lo'.length) < 1 := by omega
    simp only [ipv6?, hsplit, hthree, if_false, hexp, Option.bind_eq_bind, Option.bind_some, hnine,
      skips_side hgi.text_ne_nil hgl.text_ne_nil, above_side hgi.text_ne_nil,
      below_side hgl.text_ne_nil, hroom, mapM_of_hextets hhi, mapM_of_hextets hh]
    rw [hlhi, hllo]

theorem Groups.toLower {ts ns} (h : Groups ts ns) : Groups (ts.map (·.map Char.toLower)) ns := by
  induction h with
  | nil => exact .nil
  | hextet ht _ ih => exact .hextet (by rwa [hextet?_toLower]) ih
  | @quad t a ht =>
    have hq : t.map Char.toLower = t := by
      rw [(eq_quadText_of_quad? ht).1, quadText_toLower]
    refine .quad (?_ : quad? (t.map Char.toLower) = some a)
    rw [hq]
    exact ht

theorem Hextets.toLower {ts ns} (h : Hextets ts ns) : Hextets (ts.map (·.map Char.toLower)) ns := by
  induction h with
  | nil => exact .nil
  | cons ht _ ih => exact .cons (by rwa [hextet?_toLower]) ih

theorem map_intercalate (f : Char → Char) (x : Char) (ls : List (List Char)) :
    ([x].intercalate ls).map f = [f x].intercalate (ls.map (·.map f)) := by
  induction ls with
  | nil => rfl
  | cons l ls ih =>
    cases ls with
    | nil => simp
    | cons m ls => simp_all [List.intercalate_cons_cons]

/-- The case of the digits of a literal does not matter. -/
theorem Ipv6Text.toLower {s ns} (h : Ipv6Text s ns) : Ipv6Text (s.map Char.toLower) ns := by
  have hcolon : Char.toLower ':' = ':' := rfl
  cases h with
  | full h hlen =>
    rw [map_intercalate, hcolon]
    exact .full h.toLower hlen
  | compressed hhi hlo hlen =>
    rw [List.map_append, List.map_cons, List.map_cons, map_intercalate, map_intercalate, hcolon]
    exact .compressed hhi.toLower hlo.toLower hlen

def IsIpv6Char (c : Char) : Prop := c = ':' ∨ c = '.' ∨ (digitValue c).isSome

theorem Groups.chars {ts ns} (h : Groups ts ns) : ∀ t ∈ ts, ∀ c ∈ t, IsIpv6Char c := by
  induction h with
  | nil => simp
  | hextet ht _ ih =>
    rw [List.forall_mem_cons]
    exact ⟨fun c hc => .inr (.inr ((hextet?_eq_some ht).2 c hc)), ih⟩
  | quad ht =>
    rw [List.forall_mem_singleton, (eq_quadText_of_quad? ht).1]
    intro c hc
    rcases quadText_chars c hc with h | h
    · exact .inr (.inl h)
    · refine .inr (.inr ?_)
      obtain ⟨hlo, hhi⟩ := Char.isDigit_iff_toNat.mp h
      have h1 : '0' ≤ c := hlo
      have h2 : c ≤ '9' := hhi
      simp [digitValue, h1, h2]

theorem Ipv6Text.chars {s ns} (h : Ipv6Text s ns) : ∀ c ∈ s, IsIpv6Char c := by
  have join {ts ns} (hg : Groups ts ns) : ∀ c ∈ [':'].intercalate ts, IsIpv6Char c := by
    intro c hc
    rcases mem_of_mem_intercalate hc with h | ⟨t, ht, hct⟩
    · exact .inl h
    · exact hg.chars t ht c hct
  cases h with
  | full h _ => exact join h
  | compressed hhi hlo _ =>
    intro c hc
    rcases List.mem_append.mp hc with hc | hc
    · exact join (Groups.of_hextets hhi) c hc
    · rcases List.mem_cons.mp hc with rfl | hc
      · exact .inl rfl
      · rcases List.mem_cons.mp hc with rfl | hc
        · exact .inl rfl
        · exact join hlo c hc

end IpText
