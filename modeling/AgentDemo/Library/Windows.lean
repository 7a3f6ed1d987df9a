import Mathlib.Data.List.Basic
import Mathlib.Data.List.Chain
import Mathlib.Data.Nat.Notation

/-! Overlapping windows of a list. -/
namespace Windows

variable {α : Type*}

/-- `text[start:stop]`. -/
def slice (text : List α) (start stop : ℕ) : List α := (text.drop start).take (stop - start)

theorem length_slice {text : List α} {start stop : ℕ} (h : stop ≤ text.length) :
    (slice text start stop).length = stop - start := by
  unfold slice
  rw [List.length_take, List.length_drop]
  omega

theorem slice_length (text : List α) (start : ℕ) :
    slice text start text.length = text.drop start := by
  unfold slice
  apply List.take_of_length_le
  rw [List.length_drop]

/-- What follows a slice. -/
theorem slice_append_drop (text : List α) {start stop : ℕ} (h : start ≤ stop) :
    slice text start stop ++ text.drop stop = text.drop start := by
  have hdrop : text.drop stop = (text.drop start).drop (stop - start) := by
    rw [List.drop_drop]
    congr 1
    omega
  rw [hdrop]
  exact List.take_append_drop _ _

structure Window (α : Type*) where
  content : List α
  start : ℕ
  stop : ℕ
  deriving DecidableEq

/-- The slice of a text as a window. -/
def Window.of (text : List α) (start stop : ℕ) : Window α := ⟨slice text start stop, start, stop⟩

@[simp] theorem Window.of_content (text : List α) (start stop : ℕ) :
    (Window.of text start stop).content = slice text start stop := rfl

@[simp] theorem Window.of_start (text : List α) (start stop : ℕ) :
    (Window.of text start stop).start = start := rfl

@[simp] theorem Window.of_stop (text : List α) (start stop : ℕ) :
    (Window.of text start stop).stop = stop := rfl

/-- Windows of at most `size` items from `start` to the end of the text; each one begins `overlap`
items in front of the end of the one before it, and reaches further. -/
inductive Cover (text : List α) (size overlap : ℕ) : ℕ → List (Window α) → Prop where
  | last {start : ℕ} (hstart : start < text.length) (hsize : text.length ≤ start + size) :
      Cover text size overlap start [Window.of text start text.length]
  | next {start stop : ℕ} {windows : List (Window α)} (hoverlap : start + overlap < stop)
      (hsize : stop ≤ start + size) (hstop : stop < text.length)
      (rest : Cover text size overlap (stop - overlap) windows) :
      Cover text size overlap start (Window.of text start stop :: windows)

namespace Cover

variable {text : List α} {size overlap start : ℕ} {windows : List (Window α)}

/-- The first window begins at the start. It ends behind its overlap, or with the text. -/
theorem head?_eq (h : Cover text size overlap start windows) : ∃ stop,
    windows.head? = some (Window.of text start stop) ∧ stop ≤ text.length ∧
      (start + overlap < stop ∨ stop = text.length) := by
  cases h with
  | last hstart hsize => exact ⟨text.length, rfl, le_rfl, Or.inr rfl⟩
  | next hoverlap hsize hstop rest => exact ⟨_, rfl, hstop.le, Or.inl hoverlap⟩

theorem ne_nil (h : Cover text size overlap start windows) : windows ≠ [] := by
  cases h <;> simp

/-- Every window is a slice of the text, not empty and not too long. -/
theorem of_mem (h : Cover text size overlap start windows) {w : Window α} (hw : w ∈ windows) :
    w.content = slice text w.start w.stop ∧ start ≤ w.start ∧ w.start < w.stop ∧
      w.stop ≤ text.length ∧ w.stop ≤ w.start + size := by
  induction h with
  | last hstart hsize =>
    rw [List.mem_singleton] at hw
    subst hw
    exact ⟨rfl, le_rfl, hstart, le_rfl, hsize⟩
  | next hoverlap hsize hstop rest ih =>
    rcases List.mem_cons.mp hw with rfl | hw
    · refine ⟨rfl, le_rfl, ?_, hstop.le, hsize⟩
      rw [Window.of_start, Window.of_stop]
      omega
    · obtain ⟨hcontent, hstart, hrest⟩ := ih hw
      exact ⟨hcontent, by omega, hrest⟩

theorem length_content (h : Cover text size overlap start windows) {w : Window α}
    (hw : w ∈ windows) : 1 ≤ w.content.length ∧ w.content.length ≤ size := by
  obtain ⟨hcontent, -, hlt, hstop, hsize⟩ := h.of_mem hw
  rw [hcontent, length_slice hstop]
  omega

theorem getLast?_stop (h : Cover text size overlap start windows) {w : Window α}
    (hw : windows.getLast? = some w) : w.stop = text.length := by
  induction h with
  | last hstart hsize =>
    rw [List.getLast?_singleton, Option.some.injEq] at hw
    subst hw
    rfl
  | next hoverlap hsize hstop rest ih =>
    apply ih
    rwa [List.getLast?_cons, List.getLast?_eq_some_getLast rest.ne_nil, Option.getD_some,
      ← List.getLast?_eq_some_getLast rest.ne_nil] at hw

/-- Starts and ends increase, and neighbours share exactly the overlap. -/
theorem isChain (h : Cover text size overlap start windows) : windows.IsChain fun w w' =>
    w.start < w'.start ∧ w.stop < w'.stop ∧ w'.start + overlap = w.stop := by
  induction h with
  | last hstart hsize => exact List.isChain_singleton _
  | @next start stop windows hoverlap hsize hstop rest ih =>
    refine List.isChain_cons.mpr ⟨fun w hw => ?_, ih⟩
    obtain ⟨stop', hhead, -, hstop'⟩ := rest.head?_eq
    rw [hhead] at hw
    cases hw
    simp only [Window.of_start, Window.of_stop]
    omega

theorem pairwise_start (h : Cover text size overlap start windows) :
    windows.Pairwise fun w w' => w.start < w'.start := by
  induction h with
  | last hstart hsize => exact List.pairwise_singleton _ _
  | next hoverlap hsize hstop rest ih =>
    refine List.pairwise_cons.mpr ⟨fun w hw => ?_, ih⟩
    have := (rest.of_mem hw).2.1
    rw [Window.of_start]
    omega

/-- The first window and the later ones without their overlaps are the text. -/
theorem reassemble (h : Cover text size overlap start windows) :
    ∃ first rest, windows = first :: rest ∧
      text.drop start = first.content ++ rest.flatMap fun w => w.content.drop overlap := by
  induction h with
  | @last start hstart hsize =>
    refine ⟨_, [], rfl, ?_⟩
    rw [List.flatMap_nil, List.append_nil]
    exact (slice_length text start).symm
  | @next start stop windows hoverlap hsize hstop rest ih =>
    obtain ⟨first, others, rfl, hdrop⟩ := ih
    refine ⟨_, first :: others, rfl, ?_⟩
    have hshort : text.drop stop = first.content.drop overlap ++
        others.flatMap fun w => w.content.drop overlap := by
      obtain ⟨stop', hhead, hle, hstop'⟩ := rest.head?_eq
      cases hhead
      have hlength : overlap ≤ (Window.of text (stop - overlap) stop').content.length := by
        rw [Window.of_content, length_slice hle]
        omega
      have hdrop' := congrArg (List.drop overlap) hdrop
      rwa [List.drop_drop, List.drop_append_of_le_length hlength,
        Nat.sub_add_cancel (by omega)] at hdrop'
    rw [List.flatMap_cons, ← hshort]
    exact (slice_append_drop text (by omega)).symm

end Cover

end Windows
