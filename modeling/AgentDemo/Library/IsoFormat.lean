import Mathlib.Data.Nat.Log
import Mathlib.Data.String.Basic
import Mathlib.Tactic.Linarith

/-! Fixed-width numerals, the proleptic Gregorian calendar and the ISO 8601 text of a UTC
instant. Different numbers, days and instants have different texts. -/
namespace IsoFormat

/-- The last `k` digits of `n` to the base `b`. -/
def numeral (b : ℕ) : ℕ → ℕ → List Char
  | 0, _ => []
  | k + 1, n => numeral b k (n / b) ++ [Nat.digitChar (n % b)]

@[simp] theorem length_numeral (b k n : ℕ) : (numeral b k n).length = k := by
  induction k generalizing n with
  | zero => rfl
  | succ k ih => simp [numeral, ih]

theorem digitChar_inj {d e : ℕ} (hd : d < 16) (he : e < 16)
    (h : Nat.digitChar d = Nat.digitChar e) : d = e := by
  have key : ∀ d < 16, ∀ e < 16, Nat.digitChar d = Nat.digitChar e → d = e := by decide
  exact key d hd e he h

theorem numeral_inj {b k n m : ℕ} (hb : 0 < b) (hb' : b ≤ 16) (hn : n < b ^ k) (hm : m < b ^ k)
    (h : numeral b k n = numeral b k m) : n = m := by
  induction k generalizing n m with
  | zero => simp only [pow_zero] at hn hm; omega
  | succ k ih =>
    obtain ⟨hq, hr⟩ := List.append_inj' h rfl
    rw [pow_succ'] at hn hm
    have hq : n / b = m / b :=
      ih (Nat.div_lt_of_lt_mul hn) (Nat.div_lt_of_lt_mul hm) hq
    have hr : n % b = m % b :=
      digitChar_inj ((Nat.mod_lt _ hb).trans_le hb') ((Nat.mod_lt _ hb).trans_le hb')
        (by simpa using hr)
    calc n = b * (n / b) + n % b := (Nat.div_add_mod n b).symm
      _ = b * (m / b) + m % b := by rw [hq, hr]
      _ = m := Nat.div_add_mod m b

theorem isDigit_of_mem_numeral {k n : ℕ} {c : Char} (h : c ∈ numeral 10 k n) :
    c.isDigit = true := by
  induction k generalizing n with
  | zero => simp [numeral] at h
  | succ k ih =>
    rcases List.mem_append.mp h with h | h
    · exact ih h
    · rw [List.mem_singleton.mp h, Nat.isDigit_digitChar]
      simpa using Nat.mod_lt n (by omega : 0 < 10)

/-- A decimal numeral of at least `w` characters. -/
def decimal (w n : ℕ) : List Char := numeral 10 (max w (Nat.log 10 n + 1)) n

theorem decimal_inj {w n m : ℕ} (h : decimal w n = decimal w m) : n = m := by
  have bound (n : ℕ) : n < 10 ^ max w (Nat.log 10 n + 1) :=
    (Nat.lt_pow_succ_log_self (by omega) n).trans_le
      (Nat.pow_le_pow_right (by omega) (le_max_right _ _))
  have hw : max w (Nat.log 10 n + 1) = max w (Nat.log 10 m + 1) := by
    simpa [decimal] using congrArg List.length h
  refine numeral_inj (by omega) (by omega) (bound n) (hw ▸ bound m) ?_
  simpa only [decimal, hw] using h

/-- Year and day of the year of a day, both counted from 0000-03-01, so that a leap day
ends its year. -/
def marchYear (z : ℤ) : ℤ × ℤ :=
  let era := z / 146097
  let century := min (z % 146097 / 36524) 3
  let dayOfCentury := z % 146097 - 36524 * century
  let olympiad := dayOfCentury / 1461
  let year := min (dayOfCentury % 1461 / 365) 3
  (400 * era + 100 * century + 4 * olympiad + year, dayOfCentury % 1461 - 365 * year)

theorem marchYear_spec (z : ℤ) :
    z = 365 * (marchYear z).1 + (marchYear z).1 / 4 - (marchYear z).1 / 100 +
        (marchYear z).1 / 400 + (marchYear z).2 ∧
      0 ≤ (marchYear z).2 ∧ (marchYear z).2 ≤ 365 := by
  simp only [marchYear]
  generalize hc : min (z % 146097 / 36524) 3 = c
  generalize hd : z % 146097 - 36524 * c = d
  generalize hq : min (d % 1461 / 365) 3 = q
  generalize ho : d / 1461 = o
  generalize he : z / 146097 = e
  have hquad : (400 * e + 100 * c + 4 * o + q) / 4 = 100 * e + 25 * c + o := by omega
  have hcent : (400 * e + 100 * c + 4 * o + q) / 100 = 4 * e + c := by omega
  have hera : (400 * e + 100 * c + 4 * o + q) / 400 = e := by omega
  rw [hquad, hcent, hera]
  omega

/-- Year, month and day of a day counted from 1970-01-01. -/
def civilFromDays (z : ℤ) : ℤ × ℤ × ℤ :=
  let (y, doy) := marchYear (z + 719468)
  let mp := (5 * doy + 2) / 153
  let d := doy - (153 * mp + 2) / 5 + 1
  let m := if mp < 10 then mp + 3 else mp - 9
  (if m ≤ 2 then y + 1 else y, m, d)

def daysFromCivil : ℤ × ℤ × ℤ → ℤ
  | (y, m, d) =>
    let y := if m ≤ 2 then y - 1 else y
    let mp := if m ≤ 2 then m + 9 else m - 3
    365 * y + y / 4 - y / 100 + y / 400 + (153 * mp + 2) / 5 + d - 1 - 719468

theorem civilFromDays_bounds (z : ℤ) :
    1 ≤ (civilFromDays z).2.1 ∧ (civilFromDays z).2.1 ≤ 12 ∧
      1 ≤ (civilFromDays z).2.2 ∧ (civilFromDays z).2.2 ≤ 31 := by
  obtain ⟨-, hlo, hhi⟩ := marchYear_spec (z + 719468)
  simp only [civilFromDays]
  split_ifs <;> omega

theorem daysFromCivil_civilFromDays : Function.LeftInverse daysFromCivil civilFromDays := by
  intro z
  obtain ⟨hz, hlo, hhi⟩ := marchYear_spec (z + 719468)
  simp only [civilFromDays, daysFromCivil]
  split_ifs <;> omega

def day (t : ℤ) : ℤ := t / 86400000000
def timeOfDay (t : ℤ) : ℕ := (t % 86400000000).toNat

def isoDate (z : ℤ) : List Char :=
  let (y, m, d) := civilFromDays z
  (if y < 0 then ['-'] else []) ++ decimal 4 y.natAbs ++
    ('-' :: numeral 10 2 m.toNat ++ '-' :: numeral 10 2 d.toNat)

/-- The fraction is left out when it is zero. -/
def isoTime (u : ℕ) : List Char :=
  numeral 10 2 (u / 3600000000) ++ ':' :: numeral 10 2 (u / 60000000 % 60) ++
    ':' :: numeral 10 2 (u / 1000000 % 60) ++
    if u % 1000000 = 0 then [] else '.' :: numeral 10 6 (u % 1000000)

/-- `datetime.isoformat` of a UTC instant in microseconds since the epoch. -/
def isoformat (t : ℤ) : String :=
  String.ofList (isoDate (day t) ++ 'T' :: isoTime (timeOfDay t)) ++ "+00:00"

theorem isoTime_inj {u v : ℕ} (hu : u < 86400000000) (hv : v < 86400000000)
    (h : isoTime u = isoTime v) : u = v := by
  unfold isoTime at h
  obtain ⟨hfront, hfrac⟩ := List.append_inj h (by simp)
  obtain ⟨hfront, hsec⟩ := List.append_inj hfront (by simp)
  obtain ⟨hhour, hmin⟩ := List.append_inj hfront (by simp)
  have hhour := numeral_inj (by omega) (by omega) (by omega) (by omega) hhour
  have hmin := numeral_inj (by omega) (by omega) (by omega) (by omega) (List.cons.inj hmin).2
  have hsec := numeral_inj (by omega) (by omega) (by omega) (by omega) (List.cons.inj hsec).2
  have hmicro : u % 1000000 = v % 1000000 := by
    split_ifs at hfrac with h0 h1 h1
    · rw [h0, h1]
    · exact numeral_inj (by omega) (by omega) (by omega) (by omega) (List.cons.inj hfrac).2
  omega

theorem not_T_mem_isoTime (u : ℕ) : 'T' ∉ isoTime u := by
  have digit (k n : ℕ) : 'T' ∉ numeral 10 k n := fun h => by simpa using isDigit_of_mem_numeral h
  unfold isoTime
  split_ifs <;> simp [digit]

theorem isoDate_inj {z w : ℤ} (h : isoDate z = isoDate w) : z = w := by
  refine daysFromCivil_civilFromDays.injective ?_
  have hz := civilFromDays_bounds z
  have hw := civilFromDays_bounds w
  unfold isoDate at h
  generalize civilFromDays z = p at *
  generalize civilFromDays w = q at *
  obtain ⟨y, m, d⟩ := p
  obtain ⟨y', m', d'⟩ := q
  dsimp only at h hz hw
  obtain ⟨hyear, hrest⟩ := List.append_inj' h (by simp)
  obtain ⟨hm, hd⟩ := List.append_inj (List.cons.inj hrest).2 (by simp)
  have hm := numeral_inj (by omega) (by omega) (by omega) (by omega) hm
  have hd := numeral_inj (by omega) (by omega) (by omega) (by omega) (List.cons.inj hd).2
  have digit (w n : ℕ) (l : List Char) (hl : decimal w n = '-' :: l) : False := by
    have : '-' ∈ decimal w n := by simp [hl]
    simpa using isDigit_of_mem_numeral this
  have hy : y = y' := by
    split_ifs at hyear with hneg hneg' hneg'
    · have := decimal_inj (List.cons.inj hyear).2
      omega
    · exact (digit _ _ _ hyear.symm).elim
    · exact (digit _ _ _ hyear).elim
    · have := decimal_inj hyear
      omega
  have hm : m = m' := by omega
  have hd : d = d' := by omega
  rw [hy, hm, hd]

/-- The text before the last occurrence of a character is determined by the whole text. -/
theorem append_cons_inj {α : Type*} {x : α} {a b c d : List α} (hb : x ∉ b) (hd : x ∉ d)
    (h : a ++ x :: b = c ++ x :: d) : a = c ∧ b = d := by
  rcases List.append_eq_append_iff.mp h with ⟨e, he, hx⟩ | ⟨e, he, hx⟩
  · cases e with
    | nil => simpa [he] using hx
    | cons y e =>
      obtain ⟨-, rfl⟩ := List.cons.inj hx
      simp at hb
  · cases e with
    | nil => simpa [he, eq_comm] using hx
    | cons y e =>
      obtain ⟨-, rfl⟩ := List.cons.inj hx
      simp at hd

theorem isoformat_injective : Function.Injective isoformat := by
  intro s t h
  have h : isoDate (day s) ++ 'T' :: isoTime (timeOfDay s) =
      isoDate (day t) ++ 'T' :: isoTime (timeOfDay t) := by
    have := congrArg String.toList h
    simp only [isoformat, String.toList_append, String.toList_ofList] at this
    exact (List.append_inj' this rfl).1
  obtain ⟨hdate, htime⟩ := append_cons_inj (not_T_mem_isoTime _) (not_T_mem_isoTime _) h
  have hday := isoDate_inj hdate
  have htime : timeOfDay s = timeOfDay t :=
    isoTime_inj (by unfold timeOfDay; omega) (by unfold timeOfDay; omega) htime
  unfold day at hday
  unfold timeOfDay at htime
  omega

example : isoformat 1788492600000000 = "2026-09-04T03:30:00+00:00" := by decide

end IsoFormat
