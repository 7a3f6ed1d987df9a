import AgentDemo.Agent.ResponsePolicy

/-! Texts without raw tool protocol: what a match of the pattern and a marker depend on. -/
namespace AgentDemo
open Scanning

/-- Neither a marker, whatever the letter case, nor a match of the pattern. -/
def ProtocolFree (reader : PolicyReader) (text : String) : Prop :=
  containsRawToolProtocol reader text.toList = false ∧ searchRawToolProtocol reader text = false

section scanners

open ProtocolTag Scanner

theorem not_space_letter {c : Char} (h : isSpace c = false) (a : Char) (ha : isSpace a = true) :
    decide (a = c) = false := by
  apply decide_eq_false
  rintro rfl
  rw [h] at ha
  cases ha

theorem robust_letter {c : Char} (h : isSpace c = false) : Robust isSpace (letter c) :=
  .one (not_space_letter h)

theorem robust_spaces : Robust isSpace (many isSpace) :=
  .many fun a b ha hb => by rw [ha, hb]

theorem toNat_of_isSpace {c : Char} (h : isSpace c = true) : c.toNat ≤ 32 ∨ 133 ≤ c.toNat ∧
    c.toNat ≠ 0x130 ∧ c.toNat ≠ 0x131 ∧ c.toNat ≠ 0x17f ∧ c.toNat ≠ 0x212a := by
  simp only [isSpace, Bool.or_eq_true, Bool.and_eq_true, decide_eq_true_eq] at h
  omega

theorem toLower_eq_self {c : Char} (h : c.toNat < 65 ∨ 90 < c.toNat) : c.toLower = c := by
  unfold Char.toLower
  split_ifs with hupper
  · have h₁ : 65 ≤ c.toNat := UInt32.le_iff_toNat_le.mp hupper.1
    have h₂ : c.toNat ≤ 90 := UInt32.le_iff_toNat_le.mp hupper.2
    omega
  · rfl

/-- White space is no letter of the pattern. -/
theorem foldCase_space {c : Char} (h : isSpace c = true) : foldCase c = c := by
  have hrange := toNat_of_isSpace h
  unfold foldCase
  rw [if_neg (by omega), if_neg (by omega), if_neg (by omega)]
  exact toLower_eq_self (by omega)

theorem robust_letters {s : String} (h : (s.toList.any isSpace) = false) :
    Robust isSpace (letters s) := by
  apply Robust.word
  intro c hc a ha
  apply decide_eq_false
  rw [foldCase_space ha]
  rintro rfl
  have hany : s.toList.any isSpace = true := List.any_eq_true.mpr ⟨a, hc, ha⟩
  rw [h] at hany
  cases hany

theorem isBar_space {c : Char} (h : isSpace c = true) : isBar c = false := by
  have hrange := toNat_of_isSpace h
  have hbar : c ≠ '|' ∧ c ≠ '｜' := by
    constructor
    · rintro rfl
      cases h
    · rintro rfl
      cases h
  simp [isBar, hbar]

theorem robust_bars : Robust isSpace (many isBar) :=
  .many fun a b ha hb => by rw [isBar_space ha, isBar_space hb]

theorem robust_name (tag : ProtocolTag) : Robust isSpace tag.name := by
  cases tag with
  | dsml =>
    exact robust_bars.next ((robust_letters (by decide +kernel)).next
      (robust_bars.next (robust_letters (by decide +kernel))))
  | toolCalls =>
    refine (robust_letters (by decide +kernel)).next (.optional fun a ha => ?_)
    apply decide_eq_false
    rw [foldCase_space ha]
    rintro rfl
    cases ha
  | invoke => exact robust_letters (by decide +kernel)

theorem robust_opening (cases : CaseTables) (tag : ProtocolTag) :
    Robust isSpace (tag.opening cases.isWord) := by
  refine (robust_letter (by decide)).next (robust_spaces.next ((robust_name tag).next ?_))
  have hbracket : Robust isSpace (letter '>') := robust_letter (by decide)
  cases tag with
  | invoke =>
    refine .before cases.isWord_space (Robust.next (.many fun a b ha hb => ?_) hbracket) rfl
    have hbracket : isSpace '>' = false := by decide
    rw [decide_not, decide_not, not_space_letter hbracket a ha, not_space_letter hbracket b hb]
  | dsml => exact robust_spaces.next hbracket
  | toolCalls => exact robust_spaces.next hbracket

theorem isSome_rawToolProtocol {isWord : Char → Bool} {text : List Char} :
    (rawToolProtocol isWord text).isSome = true ↔
      ∃ tag : ProtocolTag, (tag.opening isWord text).isSome = true := by
  constructor
  · intro h
    obtain ⟨rest, hrest⟩ := Option.isSome_iff_exists.mp h
    obtain ⟨tag, -, htag⟩ := List.exists_of_findSome?_eq_some hrest
    obtain ⟨after, hafter, -⟩ := Option.map_eq_some_iff.mp htag
    exact ⟨tag, by rw [hafter]; rfl⟩
  · rintro ⟨tag, htag⟩
    unfold rawToolProtocol
    rw [List.isSome_findSome?]
    refine List.any_eq_true.mpr ⟨tag, ?_, by simpa using htag⟩
    cases tag <;> simp

/-- A match of the pattern does not depend on the white space. -/
theorem isSome_of_reflow (cases : CaseTables) {text other : List Char}
    (h : Reflow isSpace text other)
    (hother : (rawToolProtocol cases.isWord other).isSome = true) :
    (rawToolProtocol cases.isWord text).isSome = true := by
  obtain ⟨tag, htag⟩ := isSome_rawToolProtocol.mp hother
  obtain ⟨after, hafter⟩ := Option.isSome_iff_exists.mp htag
  obtain ⟨rest, hrest, -⟩ := robust_opening cases tag text other after h hafter
  exact isSome_rawToolProtocol.mpr ⟨tag, by rw [hrest]; rfl⟩

/-- A match of the pattern begins with its bracket. -/
theorem eq_lt_of_isSome {isWord : Char → Bool} {c : Char} {text : List Char}
    (h : (rawToolProtocol isWord (c :: text)).isSome = true) : c = '<' := by
  obtain ⟨tag, htag⟩ := isSome_rawToolProtocol.mp h
  by_contra hne
  simp [ProtocolTag.opening, Scanner.next, ProtocolTag.letter, Scanner.one, hne] at htag

end scanners

section markers

variable (reader : PolicyReader)

/-! Markers. -/

theorem not_containsRawToolProtocol_iff {text : List Char} :
    containsRawToolProtocol reader text = false ↔
      ∀ marker ∈ rawToolProtocolMarkers, ¬ marker.toList <:+: text.flatMap reader.cases.lower := by
  simp [containsRawToolProtocol]

/-- Characters that stand in no marker and have one letter case. -/
def markerSeparators : List Char := ['\n', '`', ':', '：']

theorem marker_toList {marker : String} (h : marker ∈ rawToolProtocolMarkers) :
    marker.toList ≠ [] ∧ marker.toList.head? ≠ some ' ' ∧
      ∀ separator ∈ markerSeparators, separator ∉ marker.toList := by
  simp only [rawToolProtocolMarkers, List.mem_cons, List.not_mem_nil, or_false] at h
  rcases h with rfl | rfl | rfl | rfl | rfl | rfl <;> simp [markerSeparators]

theorem lower_separator {separator : Char} (h : separator ∈ markerSeparators) :
    reader.cases.lower separator = [separator] := by
  rcases List.mem_cons.mp h with rfl | h
  · exact reader.cases.lower_ascii _ (by decide)
  rcases List.mem_cons.mp h with rfl | h
  · exact reader.cases.lower_ascii _ (by decide)
  rcases List.mem_cons.mp h with rfl | h
  · exact reader.cases.lower_ascii _ (by decide)
  · rw [List.mem_singleton.mp h]
    exact reader.cases.lower_fullwidth _ (by decide) (by decide)

theorem not_containsRawToolProtocol_part {text part : List Char} (hpart : part <:+: text)
    (h : containsRawToolProtocol reader text = false) :
    containsRawToolProtocol reader part = false := by
  rw [not_containsRawToolProtocol_iff] at h ⊢
  intro marker hmarker hstands
  obtain ⟨front, back, rfl⟩ := hpart
  refine h marker hmarker (hstands.trans ?_)
  exact ⟨front.flatMap reader.cases.lower, back.flatMap reader.cases.lower, by simp⟩

@[simp] theorem not_containsRawToolProtocol_nil : containsRawToolProtocol reader [] = false := by
  rw [not_containsRawToolProtocol_iff]
  intro marker hmarker hstands
  exact (marker_toList hmarker).1 (List.infix_nil.mp hstands)

/-- No marker goes across a separator. -/
theorem not_containsRawToolProtocol_separator {separator : Char} (h : separator ∈ markerSeparators)
    (first second : List Char) :
    containsRawToolProtocol reader (first ++ separator :: second) = false ↔
      containsRawToolProtocol reader first = false ∧
        containsRawToolProtocol reader second = false := by
  constructor
  · intro hnone
    refine ⟨not_containsRawToolProtocol_part reader (List.prefix_append first _).isInfix hnone,
      not_containsRawToolProtocol_part reader (List.IsSuffix.isInfix ?_) hnone⟩
    exact ⟨first ++ [separator], by simp⟩
  · rintro ⟨hfirst, hsecond⟩
    rw [not_containsRawToolProtocol_iff] at hfirst hsecond ⊢
    intro marker hmarker hstands
    rw [List.flatMap_append, List.flatMap_cons, lower_separator reader h] at hstands
    rcases infix_of_infix_separator ((marker_toList hmarker).2.2 separator h) hstands with hin | hin
    · exact hfirst marker hmarker hin
    · exact hsecond marker hmarker hin

/-- No marker begins with a blank. -/
theorem not_containsRawToolProtocol_blank {text : List Char}
    (h : containsRawToolProtocol reader text = false) :
    containsRawToolProtocol reader (' ' :: text) = false := by
  have hlower : reader.cases.lower ' ' = [' '] := reader.cases.lower_ascii ' ' (by decide)
  rw [not_containsRawToolProtocol_iff] at h ⊢
  intro marker hmarker hstands
  rw [List.flatMap_cons, hlower] at hstands
  rcases List.infix_cons_iff.mp hstands with hprefix | hin
  · obtain ⟨hnonempty, hhead, -⟩ := marker_toList hmarker
    obtain ⟨c, rest, hmarker'⟩ := List.exists_cons_of_ne_nil hnonempty
    rw [hmarker'] at hprefix hhead
    obtain ⟨rfl, -⟩ := List.cons_prefix_cons.mp hprefix
    exact hhead rfl
  · exact h marker hmarker hin

theorem marker_symbol {marker : String} (h : marker ∈ rawToolProtocolMarkers) :
    ∃ c ∈ marker.toList, c = '<' ∨ c = '=' := by
  have hsymbol : ∀ m ∈ rawToolProtocolMarkers,
      (m.toList.any fun c => c = '<' || c = '=') = true := by decide +kernel
  obtain ⟨c, hc, h⟩ := List.any_eq_true.mp (hsymbol marker h)
  exact ⟨c, hc, by simpa using h⟩

theorem not_containsRawToolProtocol_of_plain {text : List Char} (hbracket : '<' ∉ text)
    (hequals : '=' ∉ text) : containsRawToolProtocol reader text = false := by
  rw [not_containsRawToolProtocol_iff]
  intro marker hmarker hstands
  obtain ⟨c, hc, hcase⟩ := marker_symbol hmarker
  obtain ⟨d, hd, hlower⟩ := List.mem_flatMap.mp (hstands.subset hc)
  rcases hcase with rfl | rfl
  · rw [reader.cases.lower_symbol d '<' hlower (by decide) (by decide)] at hd
    exact hbracket hd
  · rw [reader.cases.lower_symbol d '=' hlower (by decide) (by decide)] at hd
    exact hequals hd

/-- A match begins in a text with a bracket. -/
theorem finds_append_plain (isWord : Char → Bool) {plain : List Char} (h : '<' ∉ plain)
    (text : List Char) : (rawToolProtocol isWord).finds (plain ++ text) =
      (rawToolProtocol isWord).finds text := by
  induction plain with
  | nil => rfl
  | cons c plain ih =>
    obtain ⟨hc, hplain⟩ : '<' ≠ c ∧ '<' ∉ plain := by simpa using h
    have hhead : (rawToolProtocol isWord (c :: (plain ++ text))).isSome = false := by
      by_contra hsome
      exact hc (eq_lt_of_isSome (Bool.eq_true_of_not_eq_false hsome)).symm
    rw [List.cons_append, Scanner.finds_cons, hhead, Bool.false_or, ih hplain]

theorem finds_plain (isWord : Char → Bool) {plain : List Char} (h : '<' ∉ plain) :
    (rawToolProtocol isWord).finds plain = false := by
  have hplain := finds_append_plain isWord h []
  rw [List.append_nil] at hplain
  rw [hplain]
  rfl

theorem protocolFree_of_plain {text : String} (hbracket : '<' ∉ text.toList)
    (hequals : '=' ∉ text.toList) : ProtocolFree reader text :=
  ⟨not_containsRawToolProtocol_of_plain reader hbracket hequals, finds_plain _ hbracket⟩

end markers

theorem isAlpha_of_toLower_ne {c : Char} (h : c.toLower ≠ c) : c.toLower.isAlpha = true := by
  have hupper : 65 ≤ c.toNat ∧ c.toNat ≤ 90 := by
    by_contra hrange
    exact h (toLower_eq_self (by omega))
  have hall : ∀ n < 91, 65 ≤ n → (Char.ofNat n).toLower.isAlpha = true := by decide
  have hc := hall c.toNat (by omega) hupper.1
  rwa [Char.ofNat_toNat] at hc

theorem isAlphanum_range {c : Char} (h : c.isAlphanum = true) : 48 ≤ c.toNat ∧ c.toNat ≤ 122 := by
  rcases (Bool.or_eq_true c.isAlpha c.isDigit).mp h with halpha | hdigit
  · rcases (Bool.or_eq_true c.isUpper c.isLower).mp halpha with hupper | hlower
    · have hrange : 65 ≤ c.toNat ∧ c.toNat ≤ 90 := of_decide_eq_true hupper
      omega
    · obtain ⟨hge, hle⟩ := (Bool.and_eq_true (decide (97 ≤ c.toNat)) (decide (c.toNat ≤ 122))).mp
        hlower
      exact ⟨Nat.le_trans (by decide) (of_decide_eq_true hge), of_decide_eq_true hle⟩
  · obtain ⟨hge, hle⟩ := (Bool.and_eq_true (decide (48 ≤ c.toNat)) (decide (c.toNat ≤ 57))).mp
      hdigit
    exact ⟨of_decide_eq_true hge, Nat.le_trans (of_decide_eq_true hle) (by decide)⟩

def asciiCases : CaseTables where
  lower c := [c.toLower]
  isWord c := c.isAlphanum || c = '_'
  lower_ascii := fun _ _ => rfl
  lower_symbol := by
    intro c x hx _ halpha
    rw [List.mem_singleton.mp hx] at halpha ⊢
    by_contra hne
    rw [isAlpha_of_toLower_ne fun h => hne h.symm] at halpha
    cases halpha
  lower_fullwidth := by
    intro c hfirst _
    rw [toLower_eq_self (by omega)]
  isWord_space := by
    intro c hc
    have hrange := toNat_of_isSpace hc
    have hunderscore : c ≠ '_' := by
      rintro rfl
      cases hc
    by_contra hword
    have hword : c.isAlphanum = true := by simpa [hunderscore] using hword
    have halphanum := isAlphanum_range hword
    omega

def asciiReader : PolicyReader := ⟨.agentRuntime, asciiCases, fun _ => "{}", fun _ => ""⟩

end AgentDemo
