import Mathlib.Data.Nat.Digits.Defs
import Mathlib.Tactic.Linarith

/-! Texts of internet addresses: the numbers-and-dots notations of `inet_aton`, the strict dotted
quad, and IPv6 literals with the strict reading of them. -/
namespace IpText

def digitValue (c : Char) : Option ℕ :=
  if '0' ≤ c ∧ c ≤ '9' then some (c.toNat - 48)
  else if 'a' ≤ c ∧ c ≤ 'f' then some (c.toNat - 87)
  else if 'A' ≤ c ∧ c ≤ 'F' then some (c.toNat - 55)
  else none

/-- The value of digits to the base `b`, after digits of value `acc`. -/
def numeralFrom (b : ℕ) : ℕ → List Char → Option ℕ
  | acc, [] => some acc
  | acc, c :: cs =>
    match digitValue c with
    | some d => if d < b then numeralFrom b (b * acc + d) cs else none
    | none => none

def numeral? (b : ℕ) (s : List Char) : Option ℕ := if s = [] then none else numeralFrom b 0 s

/-- A part of an `inet_aton` address: hexadecimal, octal or decimal as in C. -/
def cNumber? : List Char → Option ℕ
  | '0' :: 'x' :: s => numeral? 16 s
  | '0' :: 'X' :: s => numeral? 16 s
  | '0' :: s => numeralFrom 8 0 s
  | s => numeral? 10 s

/-- `inet_aton`: one to four parts, of which the last one fills the remaining bytes. -/
def aton? (s : List Char) : Option ℕ :=
  match (s.splitOn '.').map cNumber? with
  | [some a] => if a < 2 ^ 32 then some a else none
  | [some a, some b] => if a < 256 ∧ b < 2 ^ 24 then some (a * 2 ^ 24 + b) else none
  | [some a, some b, some c] =>
    if a < 256 ∧ b < 256 ∧ c < 2 ^ 16 then some (a * 2 ^ 24 + b * 2 ^ 16 + c) else none
  | [some a, some b, some c, some d] =>
    if a < 256 ∧ b < 256 ∧ c < 256 ∧ d < 256 then
      some (a * 2 ^ 24 + b * 2 ^ 16 + c * 2 ^ 8 + d)
    else none
  | _ => none

/-- One byte in decimal, without a leading zero. -/
def octet? (s : List Char) : Option ℕ :=
  if s.length ≤ 3 ∧ (s = ['0'] ∨ s.head? ≠ some '0') then
    (numeral? 10 s).filter (· ≤ 255)
  else none

def quad? (s : List Char) : Option ℕ :=
  match (s.splitOn '.').map octet? with
  | [some a, some b, some c, some d] => some (a * 2 ^ 24 + b * 2 ^ 16 + c * 2 ^ 8 + d)
  | _ => none

def quadParts (a : ℕ) : List (List Char) :=
  [a / 2 ^ 24, a / 2 ^ 16 % 256, a / 2 ^ 8 % 256, a % 256].map (Nat.toDigits 10)

def quadText (a : ℕ) : List Char := ['.'].intercalate (quadParts a)

theorem char_of_ascii {P : Char → Prop} {b : ℕ} (h : ∀ k < b, P (Char.ofNat k)) (c : Char)
    (hc : c.toNat < b) : P c := by
  have hp := h c.toNat hc
  rwa [Char.ofNat_toNat] at hp

theorem digitValue_digitChar {d : ℕ} (h : d < 16) : digitValue (Nat.digitChar d) = some d := by
  have key : ∀ d < 16, digitValue (Nat.digitChar d) = some d := by decide
  exact key d h

theorem digitChar_of_digitValue {c : Char} {d : ℕ} (h : digitValue c = some d) (hd : d < 10) :
    c = Nat.digitChar d := by
  have key : ∀ d < 10, Nat.digitChar d = Char.ofNat (d + 48) := by decide
  unfold digitValue at h
  split_ifs at h with h1 h2 h3
  · have hd' : d = c.toNat - 48 := (Option.some.inj h).symm
    have hlo : 48 ≤ c.toNat := h1.1
    rw [key d hd, hd', Nat.sub_add_cancel hlo, Char.ofNat_toNat]
  · have hlo : 97 ≤ c.toNat := h2.1
    have hd' : d = c.toNat - 87 := (Option.some.inj h).symm
    omega
  · have hlo : 65 ≤ c.toNat := h3.1
    have hd' : d = c.toNat - 55 := (Option.some.inj h).symm
    omega

theorem digit_of_numeralFrom {b acc n : ℕ} {s : List Char} (h : numeralFrom b acc s = some n) :
    ∀ c ∈ s, (digitValue c).isSome := by
  induction s generalizing acc with
  | nil => simp
  | cons c s ih =>
    simp only [numeralFrom] at h
    split at h
    · rename_i d hd
      split_ifs at h
      intro x hx
      rcases List.mem_cons.mp hx with rfl | hx
      · simp [hd]
      · exact ih h x hx
    · cases h

theorem digit_of_numeral? {b n : ℕ} {s : List Char} (h : numeral? b s = some n) :
    s ≠ [] ∧ ∀ c ∈ s, (digitValue c).isSome := by
  unfold numeral? at h
  split_ifs at h with hs
  exact ⟨hs, digit_of_numeralFrom h⟩

theorem numeralFrom_append {b acc : ℕ} (s t : List Char) :
    numeralFrom b acc (s ++ t) = (numeralFrom b acc s).bind fun n => numeralFrom b n t := by
  induction s generalizing acc with
  | nil => rfl
  | cons c s ih =>
    simp only [List.cons_append, numeralFrom]
    cases digitValue c with
    | none => rfl
    | some d =>
      simp only
      split_ifs
      · exact ih
      · rfl

theorem numeralFrom_toDigits {b : ℕ} (hb : 1 < b) (hb' : b ≤ 16) (n : ℕ) :
    numeralFrom b 0 (Nat.toDigits b n) = some n := by
  induction n using Nat.strong_induction_on with
  | _ n ih =>
    rw [Nat.toDigits_eq_if hb]
    split_ifs with hn
    · simp [numeralFrom, digitValue_digitChar (hn.trans_le hb'), hn]
    · have hmod : n % b < b := Nat.mod_lt n (by omega)
      have hdiv : n / b < n := Nat.div_lt_self (by omega) hb
      rw [numeralFrom_append, ih _ hdiv]
      simp [numeralFrom, digitValue_digitChar (hmod.trans_le hb'), hmod, Nat.div_add_mod]

theorem numeral?_toDigits {b : ℕ} (hb : 1 < b) (hb' : b ≤ 16) (n : ℕ) :
    numeral? b (Nat.toDigits b n) = some n := by
  simp [numeral?, numeralFrom_toDigits hb hb']

/-- Decimal digits after a positive number spell the number they are read to. -/
theorem toDigits_append_of_numeralFrom {acc n : ℕ} (s : List Char) (hacc : 0 < acc)
    (h : numeralFrom 10 acc s = some n) : Nat.toDigits 10 acc ++ s = Nat.toDigits 10 n := by
  induction s generalizing acc with
  | nil => simp only [numeralFrom, Option.some.injEq] at h; simp [h]
  | cons c s ih =>
    simp only [numeralFrom] at h
    split at h
    · rename_i d hd
      split_ifs at h with hlt
      have hs := ih (by omega) h
      have hc := Nat.toDigits_append_toDigits (by decide : 1 < 10) hacc hlt
      rw [Nat.toDigits_of_lt_base hlt, ← digitChar_of_digitValue hd hlt] at hc
      calc Nat.toDigits 10 acc ++ c :: s = (Nat.toDigits 10 acc ++ [c]) ++ s := by simp
        _ = Nat.toDigits 10 n := by rw [hc, hs]
    · cases h

theorem octet?_eq_some {s : List Char} {n : ℕ} (h : octet? s = some n) :
    s = Nat.toDigits 10 n ∧ n < 256 := by
  unfold octet? at h
  split_ifs at h with hz
  obtain ⟨hn, hle⟩ := Option.filter_eq_some_iff.mp h
  have hlt : n < 256 := by
    have : n ≤ 255 := by simpa using hle
    omega
  refine ⟨?_, hlt⟩
  cases s with
  | nil => simp [numeral?] at hn
  | cons c s =>
    simp only [numeral?, reduceCtorEq, if_false, numeralFrom] at hn
    split at hn
    · rename_i d hd
      split_ifs at hn with hd10
      have hc : c = Nat.digitChar d := digitChar_of_digitValue hd hd10
      by_cases hd0 : d = 0
      · have hs : s = [] := by
          subst hd0
          have hc0 : c = '0' := hc
          subst hc0
          simpa using hz.2
        subst hs hd0
        simp only [numeralFrom, Option.some.injEq] at hn
        subst hn
        rw [hc]
        rfl
      · have hs := toDigits_append_of_numeralFrom s (by omega) hn
        simp only [Nat.mul_zero, Nat.zero_add] at hs
        rw [Nat.toDigits_of_lt_base hd10, ← hc] at hs
        exact hs
    · cases hn

theorem octet?_toDigits {n : ℕ} (h : n < 256) : octet? (Nat.toDigits 10 n) = some n := by
  have key : ∀ n < 256, octet? (Nat.toDigits 10 n) = some n := by decide +kernel
  exact key n h

theorem cNumber?_toDigits {n : ℕ} (h : n < 256) : cNumber? (Nat.toDigits 10 n) = some n := by
  have key : ∀ n < 256, cNumber? (Nat.toDigits 10 n) = some n := by decide +kernel
  exact key n h

theorem dot_not_mem_toDigits (n : ℕ) : '.' ∉ Nat.toDigits 10 n := by
  intro h
  have := Nat.isDigit_of_mem_toDigits (by decide) (by decide) h
  simp at this

theorem splitOn_quadText (a : ℕ) : (quadText a).splitOn '.' = quadParts a := by
  refine List.splitOn_intercalate '.' ?_ (by simp [quadParts])
  intro s hs
  obtain ⟨n, -, rfl⟩ := List.mem_map.mp hs
  exact dot_not_mem_toDigits n

theorem quad_value {a : ℕ} (h : a < 2 ^ 32) :
    a / 2 ^ 24 * 2 ^ 24 + a / 2 ^ 16 % 256 * 2 ^ 16 + a / 2 ^ 8 % 256 * 2 ^ 8 + a % 256 = a ∧
      a / 2 ^ 24 < 256 ∧ a / 2 ^ 16 % 256 < 256 ∧ a / 2 ^ 8 % 256 < 256 ∧ a % 256 < 256 := by
  omega

theorem quad?_quadText {a : ℕ} (h : a < 2 ^ 32) : quad? (quadText a) = some a := by
  obtain ⟨hv, h1, h2, h3, h4⟩ := quad_value h
  rw [quad?, splitOn_quadText]
  simp only [quadParts, List.map_cons, List.map_nil, octet?_toDigits h1, octet?_toDigits h2,
    octet?_toDigits h3, octet?_toDigits h4, hv]

theorem aton?_quadText {a : ℕ} (h : a < 2 ^ 32) : aton? (quadText a) = some a := by
  obtain ⟨hv, h1, h2, h3, h4⟩ := quad_value h
  rw [aton?, splitOn_quadText]
  simp only [quadParts, List.map_cons, List.map_nil, cNumber?_toDigits h1, cNumber?_toDigits h2,
    cNumber?_toDigits h3, cNumber?_toDigits h4, h1, h2, h3, h4, and_self, if_true, hv]

/-- The strict dotted quad has one spelling for each address. -/
theorem eq_quadText_of_quad? {s : List Char} {a : ℕ} (h : quad? s = some a) :
    s = quadText a ∧ a < 2 ^ 32 := by
  unfold quad? at h
  split at h
  · rename_i w x y z hs
    obtain ⟨p, ps, hp, hw, hs⟩ := List.map_eq_cons_iff.mp hs
    obtain ⟨q, qs, rfl, hx, hs⟩ := List.map_eq_cons_iff.mp hs
    obtain ⟨r, rs, rfl, hy, hs⟩ := List.map_eq_cons_iff.mp hs
    obtain ⟨t, ts, rfl, hz, hs⟩ := List.map_eq_cons_iff.mp hs
    obtain rfl := List.map_eq_nil_iff.mp hs
    obtain ⟨hp', hw⟩ := octet?_eq_some hw
    obtain ⟨rfl, hx⟩ := octet?_eq_some hx
    obtain ⟨rfl, hy⟩ := octet?_eq_some hy
    obtain ⟨rfl, hz⟩ := octet?_eq_some hz
    obtain rfl := Option.some.inj h
    have hparts : quadParts (w * 2 ^ 24 + x * 2 ^ 16 + y * 2 ^ 8 + z) = s.splitOn '.' := by
      rw [hp, hp']
      simp only [quadParts, List.map_cons, List.map_nil]
      congr 2
      · omega
      congr 2
      · omega
      congr 2
      · omega
      congr 2
      omega
    refine ⟨?_, by omega⟩
    rw [quadText, hparts, List.intercalate_splitOn]
  · cases h

theorem mem_of_mem_intercalate {x c : Char} {ls : List (List Char)}
    (h : c ∈ [x].intercalate ls) : c = x ∨ ∃ l ∈ ls, c ∈ l := by
  induction ls with
  | nil => simp at h
  | cons l ls ih =>
    cases ls with
    | nil => exact .inr ⟨l, List.mem_singleton_self l, by simpa using h⟩
    | cons l' ls =>
      rw [List.intercalate_cons_cons, List.mem_append, List.mem_append] at h
      rcases h with (h | h) | h
      · exact .inr ⟨l, List.mem_cons_self, h⟩
      · exact .inl (List.mem_singleton.mp h)
      · rcases ih h with h | ⟨m, hm, hc⟩
        · exact .inl h
        · exact .inr ⟨m, List.mem_cons_of_mem _ hm, hc⟩

/-- A character that `inet_aton` reads. -/
def IsAtonChar (c : Char) : Prop := c = '.' ∨ c = 'x' ∨ c = 'X' ∨ (digitValue c).isSome

instance : DecidablePred IsAtonChar := fun _ => inferInstanceAs (Decidable (_ ∨ _))

theorem atonChar_of_cNumber? {s : List Char} {n : ℕ} (h : cNumber? s = some n) :
    ∀ c ∈ s, IsAtonChar c := by
  have hzero : (digitValue '0').isSome := by decide
  unfold cNumber? at h
  split at h
  · have hd := (digit_of_numeral? h).2
    simp only [List.forall_mem_cons, IsAtonChar]
    exact ⟨by simp [hzero], by simp, fun c hc => by simp [hd c hc]⟩
  · have hd := (digit_of_numeral? h).2
    simp only [List.forall_mem_cons, IsAtonChar]
    exact ⟨by simp [hzero], by simp, fun c hc => by simp [hd c hc]⟩
  · have hd := digit_of_numeralFrom h
    simp only [List.forall_mem_cons, IsAtonChar]
    exact ⟨by simp [hzero], fun c hc => by simp [hd c hc]⟩
  · have hd := (digit_of_numeral? h).2
    exact fun c hc => by simp [IsAtonChar, hd c hc]

theorem atonChar_of_aton? {s : List Char} {a : ℕ} (h : aton? s = some a) :
    ∀ c ∈ s, IsAtonChar c := by
  have hparts : ∀ n ∈ (s.splitOn '.').map cNumber?, n.isSome := by
    unfold aton? at h
    split at h
    all_goals first | cases h | (rename_i hs; rw [hs]; simp)
  intro c hc
  have hjoin : ['.'].intercalate (s.splitOn '.') = s := List.intercalate_splitOn '.'
  rw [← hjoin] at hc
  rcases mem_of_mem_intercalate hc with rfl | ⟨part, hpart, hcp⟩
  · exact .inl rfl
  · obtain ⟨n, hn⟩ := Option.isSome_iff_exists.mp (hparts _ (List.mem_map_of_mem hpart))
    exact atonChar_of_cNumber? hn c hcp

theorem aton?_lt {s : List Char} {a : ℕ} (h : aton? s = some a) : a < 2 ^ 32 := by
  unfold aton? at h
  split at h
  all_goals first | cases h | (split_ifs at h; cases h; omega)

theorem quadText_chars {a : ℕ} : ∀ c ∈ quadText a, c = '.' ∨ c.isDigit = true := by
  intro c hc
  rcases mem_of_mem_intercalate hc with rfl | ⟨part, hpart, hcp⟩
  · exact .inl rfl
  · obtain ⟨n, -, rfl⟩ := List.mem_map.mp hpart
    exact .inr (Nat.isDigit_of_mem_toDigits (by decide) (by decide) hcp)

end IpText
