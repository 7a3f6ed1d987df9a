import AgentDemo.Library.Scanning
import Mathlib.Data.List.Infix
import Mathlib.Data.List.TakeDrop
import Mathlib.Data.Nat.Find
import Mathlib.Tactic.Common

/-! Words replaced one after another in a text that shows a secret: while no word touches the
secret, replacing in the text is replacing in its parts, so that the result shows nothing of the
secret. -/
namespace Redaction

open Scanning

/-- The first match. -/
theorem exists_first {α : Type*} {old text : List α} (h : old <:+: text) :
    ∃ before after, text = before ++ old ++ after ∧ ∀ before' after',
      text = before' ++ old ++ after' → before.length ≤ before'.length := by
  classical
  have hexists : ∃ n before after, text = before ++ old ++ after ∧ before.length = n := by
    obtain ⟨before, after, heq⟩ := h
    exact ⟨_, before, after, heq.symm, rfl⟩
  obtain ⟨before, after, heq, hlength⟩ := Nat.find_spec hexists
  refine ⟨before, after, heq, fun before' after' heq' => ?_⟩
  rw [hlength]
  exact Nat.find_min' hexists ⟨before', after', heq', rfl⟩

section Replace

variable {α : Type*} [DecidableEq α]

/-- The text with every match of `old`, from the left, replaced; `skip` items belong to the last
match. -/
def replaceFrom (old new : List α) : ℕ → List α → List α
  | _, [] => []
  | skip + 1, _ :: rest => replaceFrom old new skip rest
  | 0, a :: rest =>
    if old.isPrefixOf (a :: rest) then new ++ replaceFrom old new (old.length - 1) rest
    else a :: replaceFrom old new 0 rest

/-- `text.replace(old, new)` for a word that is not empty. -/
def replace (old new text : List α) : List α := replaceFrom old new 0 text

variable {old new text : List α}

theorem replaceFrom_eq (old new : List α) (skip : ℕ) (text : List α) :
    replaceFrom old new skip text = replace old new (text.drop skip) := by
  induction text generalizing skip with
  | nil => cases skip <;> rfl
  | cons a rest ih =>
    cases skip with
    | zero => rfl
    | succ skip => exact ih skip

theorem replace_cons_of_ne {a : α} {rest : List α} (h : ¬ old <+: a :: rest) :
    replace old new (a :: rest) = a :: replace old new rest := by
  unfold replace
  rw [replaceFrom, if_neg (by rwa [List.isPrefixOf_iff_prefix])]

theorem replace_of_isPrefix (hold : old ≠ []) (rest : List α) :
    replace old new (old ++ rest) = new ++ replace old new rest := by
  obtain ⟨a, tail, rfl⟩ := List.exists_cons_of_ne_nil hold
  rw [List.cons_append]
  have hstarts : (a :: tail).isPrefixOf (a :: (tail ++ rest)) = true :=
    List.isPrefixOf_iff_prefix.mpr (List.prefix_append (a :: tail) rest)
  conv_lhs => unfold replace
  rw [replaceFrom, if_pos hstarts, replaceFrom_eq]
  simp

theorem replace_of_absent (h : ¬ old <:+: text) : replace old new text = text := by
  induction text with
  | nil => rfl
  | cons a rest ih =>
    rw [List.infix_cons_iff, not_or] at h
    rw [replace_cons_of_ne h.1, ih h.2]

theorem replace_first (hold : old ≠ []) {before after : List α}
    (hfirst : ∀ before' after', before ++ old ++ after = before' ++ old ++ after' →
      before.length ≤ before'.length) :
    replace old new (before ++ old ++ after) = before ++ new ++ replace old new after := by
  induction before with
  | nil => exact replace_of_isPrefix hold after
  | cons a before ih =>
    have hnot : ¬ old <+: a :: (before ++ old ++ after) := by
      rintro ⟨after', heq⟩
      have hle := hfirst [] after' heq.symm
      simp at hle
    rw [List.cons_append, List.cons_append, replace_cons_of_ne hnot, ih]
    · rfl
    · intro before' after' heq
      have hle := hfirst (a :: before') after' (congrArg (a :: ·) heq)
      simpa using hle

/-- Either nothing matches, or the text splits at its first match. -/
theorem replace_cases (hold : old ≠ []) (new text : List α) :
    (¬ old <:+: text ∧ replace old new text = text) ∨
    ∃ before after, text = before ++ old ++ after ∧
      (∀ before' after', text = before' ++ old ++ after' → before.length ≤ before'.length) ∧
      replace old new text = before ++ new ++ replace old new after := by
  by_cases h : old <:+: text
  · obtain ⟨before, after, rfl, hfirst⟩ := exists_first h
    exact Or.inr ⟨before, after, rfl, hfirst, replace_first hold hfirst⟩
  · exact Or.inl ⟨h, replace_of_absent h⟩

/-- An item that is in no match stays at the end. -/
theorem replaceFrom_concat {a : α} (hold : old ≠ []) (ha : a ∉ old) {skip : ℕ}
    (hskip : skip ≤ text.length) :
    replaceFrom old new skip (text ++ [a]) = replaceFrom old new skip text ++ [a] := by
  induction text generalizing skip with
  | nil =>
    obtain rfl : skip = 0 := by simpa using hskip
    have hnot : old.isPrefixOf [a] = false := by
      rw [← Bool.not_eq_true, List.isPrefixOf_iff_prefix]
      intro hstarts
      obtain ⟨b, tail, rfl⟩ := List.exists_cons_of_ne_nil hold
      obtain ⟨rfl, -⟩ := List.cons_prefix_cons.mp hstarts
      exact ha List.mem_cons_self
    simp [replaceFrom, hnot]
  | cons b rest ih =>
    cases skip with
    | succ skip =>
      rw [List.length_cons] at hskip
      exact ih (by omega)
    | zero =>
      have hsame : old.isPrefixOf (b :: (rest ++ [a])) = old.isPrefixOf (b :: rest) := by
        rw [Bool.eq_iff_iff, List.isPrefixOf_iff_prefix, List.isPrefixOf_iff_prefix,
          ← List.cons_append, List.prefix_concat_iff]
        constructor
        · rintro (rfl | h)
          · exact absurd (by simp) ha
          · exact h
        · exact Or.inr
      rw [List.cons_append, replaceFrom, replaceFrom, hsame]
      split_ifs with hmatch
      · have hle := (List.isPrefixOf_iff_prefix.mp hmatch).length_le
        rw [List.length_cons] at hle
        rw [ih (by omega), List.append_assoc]
      · rw [ih (Nat.zero_le _), List.cons_append]

theorem replace_concat {a : α} (hold : old ≠ []) (ha : a ∉ old) (new text : List α) :
    replace old new (text ++ [a]) = replace old new text ++ [a] :=
  replaceFrom_concat hold ha (Nat.zero_le _)

end Replace

/-- A part of a text: an item, the secret, or what a cut has kept of it. -/
inductive Fragment (α : Type*) where
  | item (a : α)
  | secret
  | kept
  deriving DecidableEq

/-- The texts that stand for the opaque parts. -/
structure Filling (α : Type*) where
  secret : List α
  kept : List α

variable {α : Type*}

def Fragment.text (f : Filling α) : Fragment α → List α
  | .item a => [a]
  | .secret => f.secret
  | .kept => f.kept

def render (f : Filling α) (parts : List (Fragment α)) : List α := parts.flatMap (Fragment.text f)

def plain (text : List α) : List (Fragment α) := text.map .item

@[simp] theorem render_nil (f : Filling α) : render f [] = [] := rfl

@[simp] theorem render_append (f : Filling α) (parts parts' : List (Fragment α)) :
    render f (parts ++ parts') = render f parts ++ render f parts' := List.flatMap_append

@[simp] theorem render_cons (f : Filling α) (part : Fragment α) (parts : List (Fragment α)) :
    render f (part :: parts) = part.text f ++ render f parts := rfl

@[simp] theorem render_plain (f : Filling α) (text : List α) : render f (plain text) = text := by
  induction text with
  | nil => rfl
  | cons a text ih => exact congrArg (a :: ·) ih

theorem render_congr {f f' : Filling α} {parts : List (Fragment α)}
    (h : ∀ part ∈ parts, part.text f = part.text f') : render f parts = render f' parts := by
  induction parts with
  | nil => rfl
  | cons part rest ih =>
    rw [render_cons, render_cons, h part List.mem_cons_self,
      ih fun part' hpart => h part' (List.mem_cons_of_mem _ hpart)]

theorem not_mem_plain {part : Fragment α} (hpart : ∀ a, part ≠ .item a) (text : List α) :
    part ∉ plain text := by
  intro hmem
  obtain ⟨a, -, rfl⟩ := List.mem_map.mp hmem
  exact hpart a rfl

/-! Where a word is found. -/

section Marks

variable [DecidableEq α]

/-- A text with its matches of the secret, from the left; `skip` items belong to the last one. -/
def markFrom (secret : List α) : ℕ → List α → List (Fragment α)
  | _, [] => []
  | skip + 1, _ :: rest => markFrom secret skip rest
  | 0, a :: rest =>
    if secret.isPrefixOf (a :: rest) then .secret :: markFrom secret (secret.length - 1) rest
    else .item a :: markFrom secret 0 rest

/-- The parts of a text that shows the secret. -/
def mark (secret text : List α) : List (Fragment α) := markFrom secret 0 text

theorem render_markFrom {f : Filling α} (hsecret : f.secret ≠ []) (skip : ℕ) (text : List α) :
    render f (markFrom f.secret skip text) = text.drop skip := by
  induction text generalizing skip with
  | nil => cases skip <;> rfl
  | cons a rest ih =>
    cases skip with
    | succ skip => exact ih skip
    | zero =>
      unfold markFrom
      split_ifs with hmatch
      · obtain ⟨behind, hbehind⟩ := List.isPrefixOf_iff_prefix.mp hmatch
        obtain ⟨b, tail, htail⟩ := List.exists_cons_of_ne_nil hsecret
        rw [htail] at hbehind
        obtain ⟨rfl, rfl⟩ := List.cons.inj hbehind
        rw [render_cons, ih, htail]
        simp [Fragment.text, htail]
      · rw [render_cons, ih]
        rfl

theorem render_mark {f : Filling α} (hsecret : f.secret ≠ []) (text : List α) :
    render f (mark f.secret text) = text := render_markFrom hsecret 0 text

def startsIn (word : List α) : List α → List α → Bool
  | [], _ => false
  | a :: front, back => word.isPrefixOf (a :: (front ++ back)) || startsIn word front back

/-- From the left, the word matches in the text where its pattern matches in the parts; `skip` parts
belong to the last match. -/
def apartFrom (f : Filling α) (word : List α) (pattern : List (Fragment α)) :
    ℕ → List (Fragment α) → Bool
  | _, [] => true
  | skip + 1, _ :: rest => apartFrom f word pattern skip rest
  | 0, part :: rest =>
    if pattern.isPrefixOf (part :: rest) then apartFrom f word pattern (pattern.length - 1) rest
    else !startsIn word (part.text f) (render f rest) && apartFrom f word pattern 0 rest

theorem replace_append {word new front back : List α} (h : startsIn word front back = false) :
    replace word new (front ++ back) = front ++ replace word new back := by
  induction front with
  | nil => rfl
  | cons a front ih =>
    obtain ⟨hstart, hrest⟩ := Bool.or_eq_false_iff.mp h
    rw [List.cons_append, replace_cons_of_ne, ih hrest]
    · rfl
    · rw [← List.isPrefixOf_iff_prefix, hstart]
      exact Bool.false_ne_true

/-- Replacing in the text is replacing in its parts. -/
theorem replaceFrom_render {f : Filling α} {word : List α} {pattern : List (Fragment α)}
    (hword : word ≠ []) (hpattern : render f pattern = word) (new : List α) (skip : ℕ)
    {parts : List (Fragment α)} (h : apartFrom f word pattern skip parts = true) :
    replace word new (render f (parts.drop skip)) =
      render f (replaceFrom pattern (plain new) skip parts) := by
  induction parts generalizing skip with
  | nil => cases skip <;> rfl
  | cons part rest ih =>
    cases skip with
    | succ skip => exact ih skip h
    | zero =>
      unfold apartFrom at h
      unfold replaceFrom
      rw [List.drop_zero]
      split_ifs at h ⊢ with hmatch
      · obtain ⟨behind, hbehind⟩ := List.isPrefixOf_iff_prefix.mp hmatch
        have hrest : rest.drop (pattern.length - 1) = behind := by
          cases pattern with
          | nil => exact absurd hpattern.symm hword
          | cons first tail =>
            obtain ⟨rfl, rfl⟩ := List.cons.inj hbehind
            simp
        rw [← hbehind, render_append, hpattern, replace_of_isPrefix hword, render_append,
          render_plain, ← ih _ h, hrest]
      · obtain ⟨hnone, happart⟩ := (Bool.and_eq_true _ _).mp h
        rw [render_cons, replace_append (by simpa using hnone), render_cons, ← ih 0 happart]
        rfl

theorem mem_replaceFrom {pattern new parts : List (Fragment α)} {part : Fragment α} {skip : ℕ}
    (h : part ∈ replaceFrom pattern new skip parts) : part ∈ parts ∨ part ∈ new := by
  induction parts generalizing skip with
  | nil => cases skip <;> simp [replaceFrom] at h
  | cons head rest ih =>
    cases skip with
    | succ skip => exact (ih h).imp_left (List.mem_cons_of_mem _)
    | zero =>
      unfold replaceFrom at h
      split_ifs at h
      · rcases List.mem_append.mp h with hnew | hrest
        · exact Or.inr hnew
        · exact (ih hrest).imp_left (List.mem_cons_of_mem _)
      · rcases List.mem_cons.mp h with rfl | hrest
        · exact Or.inl List.mem_cons_self
        · exact (ih hrest).imp_left (List.mem_cons_of_mem _)

/-- A part that is replaced everywhere is gone. -/
theorem not_mem_replace {part : Fragment α} {new : List (Fragment α)} (hpart : part ∉ new)
    (parts : List (Fragment α)) : part ∉ replace [part] new parts := by
  induction parts with
  | nil => simp [replace, replaceFrom]
  | cons head rest ih =>
    by_cases hhead : head = part
    · subst hhead
      have hsplit := @replace_of_isPrefix _ _ [head] new (List.cons_ne_nil head []) rest
      rw [List.singleton_append] at hsplit
      rw [hsplit, List.mem_append, not_or]
      exact ⟨hpart, ih⟩
    · have hnot : ¬ [part] <+: head :: rest := by
        rintro ⟨tail, htail⟩
        exact hhead (List.cons.inj htail).1.symm
      rw [replace_cons_of_ne hnot, List.mem_cons, not_or]
      exact ⟨fun heq => hhead heq.symm, ih⟩

/-- A word that the inserted text does not touch does not come up. -/
theorem not_infix_replace {old word middle text : List α} {first last : α} (hold : old ≠ [])
    (hfirst : first ∉ word) (hlast : last ∉ word) (hmiddle : ¬ word <:+: middle)
    (h : ¬ word <:+: text) :
    ¬ word <:+: replace old (first :: (middle ++ [last])) text := by
  induction hn : text.length using Nat.strong_induction_on generalizing text with
  | _ n ih =>
    rcases replace_cases hold (first :: (middle ++ [last])) text with ⟨-, hsame⟩ |
      ⟨before, after, rfl, -, hsplit⟩
    · rwa [hsame]
    · rw [hsplit]
      intro hinside
      have hinside : word <:+: before ++ first :: (middle ++ last ::
          replace old (first :: (middle ++ [last])) after) := by simpa using hinside
      rcases infix_of_infix_separator hfirst hinside with hbefore | hbehind
      · exact h (hbefore.trans ⟨[], old ++ after, by simp⟩)
      · rcases infix_of_infix_separator hlast hbehind with hmiddle' | hafter
        · exact hmiddle hmiddle'
        · have hpos := List.length_pos_iff.mpr hold
          simp only [List.length_append] at hn
          refine ih after.length (by omega) ?_ rfl hafter
          exact fun hafter => h (hafter.trans ⟨before ++ old, [], by simp⟩)

end Marks

/-! One replacement after another. -/

/-- What is replaced: the secret, a text without it, or a text that holds it and is gone with it. -/
inductive Step (α : Type*) where
  | secret
  | other (text : List α)
  | holding (text : List α)

namespace Step

variable [DecidableEq α] (new : List α)

def onText (secret detail : List α) : Step α → List α
  | .secret => replace secret new detail
  | .other text | .holding text => replace text new detail

def onParts (parts : List (Fragment α)) : Step α → List (Fragment α)
  | .secret => replace [.secret] (plain new) parts
  | .other text => replace (plain text) (plain new) parts
  | .holding _ => parts

/-- The step does not touch the secret, or replaces it as a whole. -/
def apart (f : Filling α) (parts : List (Fragment α)) : Step α → Bool
  | .secret => apartFrom f f.secret [.secret] 0 parts
  | .other text => apartFrom f text (plain text) 0 parts
  | .holding text => !decide (text <:+: render f parts)

def nonempty (secret : List α) : Step α → Prop
  | .secret => secret ≠ []
  | .other text | .holding text => text ≠ []

/-- No step touches the secret when its turn comes. -/
def allApart (f : Filling α) : List (Step α) → List (Fragment α) → Bool
  | [], _ => true
  | step :: steps, parts => step.apart f parts && allApart f steps (onParts new parts step)

variable {new}

theorem onText_render {f : Filling α} {step : Step α} (hstep : step.nonempty f.secret)
    {parts : List (Fragment α)} (h : step.apart f parts = true) :
    onText new f.secret (render f parts) step = render f (onParts new parts step) := by
  cases step with
  | secret => exact replaceFrom_render hstep (by simp [Fragment.text]) new 0 h
  | other text => exact replaceFrom_render hstep (render_plain f text) new 0 h
  | holding text =>
    refine replace_of_absent ?_
    simpa [apart] using h

/-- A whole run of steps on the text is the run on its parts. -/
theorem foldl_render {f : Filling α} {steps : List (Step α)}
    (hsteps : ∀ step ∈ steps, step.nonempty f.secret) {parts : List (Fragment α)}
    (h : allApart new f steps parts = true) :
    steps.foldl (onText new f.secret) (render f parts) =
      render f (steps.foldl (onParts new) parts) := by
  induction steps generalizing parts with
  | nil => rfl
  | cons step steps ih =>
    obtain ⟨hfirst, hrest⟩ := (Bool.and_eq_true _ _).mp h
    rw [List.foldl_cons, List.foldl_cons, onText_render (hsteps step List.mem_cons_self) hfirst]
    exact ih (fun step' hstep => hsteps step' (List.mem_cons_of_mem _ hstep)) hrest

theorem mem_onParts {step : Step α} {parts : List (Fragment α)} {part : Fragment α}
    (hpart : ∀ a, part ≠ .item a) (h : part ∈ onParts new parts step) : part ∈ parts := by
  cases step with
  | secret => exact (mem_replaceFrom h).resolve_right (not_mem_plain hpart new)
  | other text => exact (mem_replaceFrom h).resolve_right (not_mem_plain hpart new)
  | holding text => exact h

theorem mem_foldl_onParts {steps : List (Step α)} {parts : List (Fragment α)} {part : Fragment α}
    (hpart : ∀ a, part ≠ .item a) (h : part ∈ steps.foldl (onParts new) parts) : part ∈ parts := by
  induction steps generalizing parts with
  | nil => exact h
  | cons step steps ih => exact mem_onParts hpart (ih h)

/-- A secret that has its turn is gone. -/
theorem secret_not_mem {steps : List (Step α)} (hsecret : Step.secret ∈ steps)
    (parts : List (Fragment α)) : Fragment.secret ∉ steps.foldl (onParts new) parts := by
  induction steps generalizing parts with
  | nil => simp at hsecret
  | cons step steps ih =>
    rcases List.mem_cons.mp hsecret with rfl | hrest
    · intro hmem
      have hgone : Fragment.secret ∈ onParts new parts .secret := mem_foldl_onParts (by simp) hmem
      exact not_mem_replace (not_mem_plain (by simp) new) parts hgone
    · exact ih hrest _

/-- What the cut has left of the secret stays at the end. -/
theorem kept_last {secret : List α} {steps : List (Step α)}
    (hsteps : ∀ step ∈ steps, step.nonempty secret) {front : List (Fragment α)}
    (hfront : Fragment.kept ∉ front) :
    ∃ front', steps.foldl (onParts new) (front ++ [.kept]) = front' ++ [.kept] ∧
      Fragment.kept ∉ front' := by
  induction steps generalizing front with
  | nil => exact ⟨front, rfl, hfront⟩
  | cons step steps ih =>
    have hstep : onParts new (front ++ [.kept]) step = onParts new front step ++ [.kept] := by
      cases step with
      | secret => exact replace_concat (List.cons_ne_nil _ _) (by simp) _ _
      | other text =>
        have htext : text ≠ [] := hsteps _ List.mem_cons_self
        exact replace_concat (by simpa [plain] using htext) (not_mem_plain (by simp) text) _ _
      | holding text => rfl
    rw [List.foldl_cons, hstep]
    exact ih (fun step' hstep => hsteps step' (List.mem_cons_of_mem _ hstep))
      fun hmem => hfront (mem_onParts (by simp) hmem)

end Step

/-! The text up to a cut, of items and secrets alone. -/

def Fragment.isOriginal : Fragment α → Bool
  | .item _ | .secret => true
  | .kept => false

/-- The length of a part when the secret has the given size. -/
def Fragment.size (size : ℕ) : Fragment α → ℕ
  | .item _ => 1
  | _ => size

def cut (size : ℕ) : ℕ → List (Fragment α) → List (Fragment α)
  | _, [] => []
  | n, part :: rest =>
    if part.size size ≤ n then part :: cut size (n - part.size size) rest else []

/-- How many items the cut leaves of the part that it goes through. -/
def cutLength (size : ℕ) : ℕ → List (Fragment α) → ℕ
  | _, [] => 0
  | n, part :: rest => if part.size size ≤ n then cutLength size (n - part.size size) rest else n

def cutParts (size n : ℕ) (parts : List (Fragment α)) : List (Fragment α) :=
  cut size n parts ++ if cutLength size n parts = 0 then [] else [.kept]

section Cut

variable {f : Filling α} {n : ℕ} {parts : List (Fragment α)}

theorem length_text {part : Fragment α} (h : part.isOriginal = true) :
    (part.text f).length = part.size f.secret.length := by
  cases part with
  | item a => rfl
  | secret => rfl
  | kept => simp [Fragment.isOriginal] at h

theorem isOriginal_of_mem_mark [DecidableEq α] {secret text : List α} {part : Fragment α}
    (h : part ∈ mark secret text) : part.isOriginal = true := by
  unfold mark at h
  generalize 0 = skip at h
  induction text generalizing skip with
  | nil => cases skip <;> simp [markFrom] at h
  | cons a rest ih =>
    cases skip with
    | succ skip => exact ih skip h
    | zero =>
      unfold markFrom at h
      split_ifs at h
      · rcases List.mem_cons.mp h with rfl | hrest
        · rfl
        · exact ih _ hrest
      · rcases List.mem_cons.mp h with rfl | hrest
        · rfl
        · exact ih _ hrest

/-- The part that the cut goes through, if there is one. -/
theorem cut_split (horiginal : ∀ part ∈ parts, part.isOriginal = true) :
    ∃ back, parts = cut f.secret.length n parts ++ back ∧
      (back = [] ∧ (render f parts).length ≤ n ∧ cutLength f.secret.length n parts = 0 ∨
      ∃ part rest, back = part :: rest ∧
        cutLength f.secret.length n parts < (part.text f).length ∧
        (render f (cut f.secret.length n parts)).length +
          cutLength f.secret.length n parts = n) := by
  induction parts generalizing n with
  | nil => exact ⟨[], rfl, Or.inl ⟨rfl, by simp, rfl⟩⟩
  | cons part rest ih =>
    have hlength := @length_text _ f part (horiginal part List.mem_cons_self)
    rw [cut, cutLength, ← hlength]
    split_ifs with hfits
    · obtain ⟨back, heq, hback⟩ := ih (n := n - (part.text f).length)
        fun part' hpart => horiginal part' (List.mem_cons_of_mem _ hpart)
      refine ⟨back, by rw [List.cons_append, ← heq], ?_⟩
      rcases hback with ⟨hnone, hle, hzero⟩ | ⟨next, rest', hcons, hlt, hsum⟩
      · refine Or.inl ⟨hnone, ?_, hzero⟩
        rw [render_cons, List.length_append]
        omega
      · refine Or.inr ⟨next, rest', hcons, hlt, ?_⟩
        rw [render_cons, List.length_append]
        omega
    · exact ⟨part :: rest, rfl, Or.inr ⟨part, rest, rfl, by omega, by simp⟩⟩

theorem kept_not_mem_cut (horiginal : ∀ part ∈ parts, part.isOriginal = true) (size : ℕ) :
    Fragment.kept ∉ cut size n parts := by
  induction parts generalizing n with
  | nil => simp [cut]
  | cons part rest ih =>
    have hpart := horiginal part List.mem_cons_self
    unfold cut
    split_ifs
    · rw [List.mem_cons, not_or]
      refine ⟨?_, ih fun part' hmem => horiginal part' (List.mem_cons_of_mem _ hmem)⟩
      rintro rfl
      simp [Fragment.isOriginal] at hpart
    · exact List.not_mem_nil

/-- What stands behind the parts in front of the cut. -/
theorem render_cutParts (hkept : f.kept = f.secret.take (cutLength f.secret.length n parts)) :
    render f (cutParts f.secret.length n parts) =
      render f (cut f.secret.length n parts) ++ f.kept := by
  unfold cutParts
  split_ifs with hzero
  · rw [hkept, hzero]
    simp
  · simp [Fragment.text]

theorem take_render (horiginal : ∀ part ∈ parts, part.isOriginal = true)
    (hkept : f.kept = f.secret.take (cutLength f.secret.length n parts)) :
    (render f parts).take n = render f (cutParts f.secret.length n parts) := by
  obtain ⟨back, heq, hback⟩ := @cut_split _ f n parts horiginal
  rw [render_cutParts hkept]
  rcases hback with ⟨rfl, hle, hzero⟩ | ⟨part, rest, rfl, hlt, hsum⟩
  · rw [List.append_nil] at heq
    rw [← heq, List.take_of_length_le hle, hkept, hzero, List.take_zero, List.append_nil]
  · have htake : (part.text f).take (cutLength f.secret.length n parts) = f.kept := by
      rw [hkept]
      cases part with
      | item a =>
        have hzero : cutLength f.secret.length n parts = 0 := by simpa [Fragment.text] using hlt
        simp [hzero]
      | secret => rfl
      | kept => simpa [Fragment.isOriginal] using horiginal .kept (by rw [heq]; simp)
    have hlast : cutLength f.secret.length n parts =
        n - (render f (cut f.secret.length n parts)).length := by omega
    calc (render f parts).take n
        = (render f (cut f.secret.length n parts) ++ (part.text f ++ render f rest)).take n := by
          conv_lhs => rw [heq]
          rw [render_append, render_cons]
      _ = render f (cut f.secret.length n parts) ++
            (part.text f).take (cutLength f.secret.length n parts) := by
          rw [List.take_append, List.take_of_length_le (by omega), ← hlast,
            List.take_append_of_le_length hlt.le]
      _ = _ := by rw [htake]

end Cut

end Redaction
