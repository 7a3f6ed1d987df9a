import AgentDemo.Mcp.ErrorRecords
import Mathlib

/-! Two runs of `_record_error` that differ in one secret: where each occurrence of it is replaced
as a whole, what the cut of the message at 240 characters has left of it is all that their records
can differ in. -/
namespace AgentDemo

open Redaction Scanning

def placesOf (word text : List Char) : List ℕ :=
  (List.range (text.length + 1)).filter fun place => word.isPrefixOf (text.drop place)

/-- The configured texts that do not refer to the variable `x`: the values of other variables, and
the expansions of other values. -/
def otherTexts (environ : Environ) (x : List Char) (server : McpServerConfig) :
    List (List Char) :=
  server.values.flatMap fun value =>
    ((variableNames value).filter (· ≠ x)).filterMap environ ++
      if x ∈ variableNames value then [] else (expand environ value).toList

/-- Two runs that differ in the value of one variable of the configuration, which stands in the
messages at the same places and in no other configured text. -/
structure DifferInSecret (server : McpServerConfig) (x : List Char) (environ₁ environ₂ : Environ)
    (error₁ error₂ : LeafError) (secret₁ secret₂ : List Char) : Prop where
  referenced : ∃ value ∈ server.values, x ∈ variableNames value
  value₁ : environ₁ x = some secret₁
  value₂ : environ₂ x = some secret₂
  nonempty : secret₁ ≠ []
  length : secret₁.length = secret₂.length
  others : ∀ name ≠ x, environ₁ name = environ₂ name
  elsewhere : ∀ text ∈ otherTexts environ₁ x server, ¬ secret₁ <:+: text ∧ ¬ secret₂ <:+: text
  kind : error₁.kind = error₂.kind
  typeName : error₁.typeName = error₂.typeName
  inMessage : secret₁ <:+: error₁.message
  places : placesOf secret₁ error₁.message = placesOf secret₂ error₂.message
  outside : ∀ n, (∀ place ∈ placesOf secret₁ error₁.message, n < place ∨
    place + secret₁.length ≤ n) → error₁.message[n]? = error₂.message[n]?

/-! The redactions of a configuration. -/

/-- A replacement of a text, if there is one. -/
def textSteps (step : List Char → Step Char) : Option (List Char) → List (Step Char)
  | none | some [] => []
  | some text => [step text]

def variableSteps (environ : Environ) (x name : List Char) : List (Step Char) :=
  if name = x then [.secret] else textSteps .other (environ name)

/-- The replacements for one configured value. -/
def valueSteps (environ : Environ) (x value : List Char) : List (Step Char) :=
  (variableNames value).flatMap (variableSteps environ x) ++
    textSteps (if x ∈ variableNames value then .holding else .other) (expand environ value)

def redactions (environ : Environ) (x : List Char) (server : McpServerConfig) :
    List (Step Char) :=
  server.values.flatMap (valueSteps environ x)

def keptLength (error : LeafError) (secret : List Char) : ℕ :=
  if error.shown then cutLength secret.length 240 (mark secret error.message) else 0

/-- What a run shows of the secret. -/
def revealed (error : LeafError) (secret : List Char) : List Char :=
  secret.take (keptLength error secret)

def fillingOf (error : LeafError) (secret : List Char) : Filling Char :=
  ⟨secret, revealed error secret⟩

/-- The parts of the text that is redacted. -/
def detailParts (error : LeafError) (secret : List Char) : List (Fragment Char) :=
  if error.shown then cutParts secret.length 240 (mark secret error.message)
  else plain error.fixedDetail

/-- In this run, when a configured text has its turn, it is found nowhere within or across the value
of the variable, and this value nowhere but where it stands in the message. -/
def redactsWhole (environ : Environ) (server : McpServerConfig) (x : List Char) (error : LeafError)
    (secret : List Char) : Bool :=
  Step.allApart redacted (fillingOf error secret) (redactions environ x server)
    (detailParts error secret)

/-- Both runs show their messages or both do not, which are then the same but for the value, and
both replace it as a whole. -/
structure RedactedWhole (server : McpServerConfig) (x : List Char) (environ₁ environ₂ : Environ)
    (error₁ error₂ : LeafError) (secret₁ secret₂ : List Char) : Prop where
  shown : error₁.shown = error₂.shown
  marks : error₁.shown = true → mark secret₁ error₁.message = mark secret₂ error₂.message
  whole₁ : redactsWhole environ₁ server x error₁ secret₁ = true
  whole₂ : redactsWhole environ₂ server x error₂ secret₂ = true

instance (server : McpServerConfig) (x : List Char) (environ₁ environ₂ : Environ)
    (error₁ error₂ : LeafError) (secret₁ secret₂ : List Char) :
    Decidable (RedactedWhole server x environ₁ environ₂ error₁ error₂ secret₁ secret₂) :=
  decidable_of_iff (error₁.shown = error₂.shown ∧
      (error₁.shown = true → mark secret₁ error₁.message = mark secret₂ error₂.message) ∧
      redactsWhole environ₁ server x error₁ secret₁ = true ∧
      redactsWhole environ₂ server x error₂ secret₂ = true)
    ⟨fun h => ⟨h.1, h.2.1, h.2.2.1, h.2.2.2⟩, fun h => ⟨h.shown, h.marks, h.whole₁, h.whole₂⟩⟩

section Steps

variable {environ environ' : Environ} {x secret : List Char}

theorem foldl_textSteps {step : List Char → Step Char}
    (hstep : ∀ text detail,
      Step.onText redacted secret detail (step text) = replace text redacted detail)
    (text : Option (List Char)) (detail : List Char) :
    (textSteps step text).foldl (Step.onText redacted secret) detail = redactText detail text := by
  rcases text with _ | _ | ⟨c, rest⟩
  · rfl
  · rfl
  · exact hstep _ _

theorem foldl_variableSteps (hvalue : environ x = some secret) (hsecret : secret ≠ [])
    (name detail : List Char) :
    (variableSteps environ x name).foldl (Step.onText redacted secret) detail =
      redactText detail (environ name) := by
  unfold variableSteps
  split_ifs with hname
  · obtain ⟨c, rest, rfl⟩ := List.exists_cons_of_ne_nil hsecret
    rw [hname, hvalue]
    rfl
  · exact foldl_textSteps (fun _ _ => rfl) _ _

theorem foldl_valueSteps (hvalue : environ x = some secret) (hsecret : secret ≠ [])
    (value detail : List Char) :
    (valueSteps environ x value).foldl (Step.onText redacted secret) detail =
      redactValue environ detail value := by
  unfold valueSteps redactValue
  rw [List.foldl_append, List.foldl_flatMap]
  simp only [foldl_variableSteps hvalue hsecret]
  refine foldl_textSteps (fun text detail => ?_) _ _
  split_ifs <;> rfl

/-- The loop of `_record_error` is a run of the redactions. -/
theorem foldl_redactions (hvalue : environ x = some secret) (hsecret : secret ≠ [])
    (server : McpServerConfig) (detail : List Char) :
    (redactions environ x server).foldl (Step.onText redacted secret) detail =
      server.values.foldl (redactValue environ) detail := by
  unfold redactions
  rw [List.foldl_flatMap]
  simp only [foldl_valueSteps hvalue hsecret]

theorem nonempty_textSteps (step : List Char → Step Char)
    (hstep : ∀ text, text ≠ [] → (step text).nonempty secret) {text : Option (List Char)} :
    ∀ step' ∈ textSteps step text, step'.nonempty secret := by
  rcases text with _ | _ | ⟨c, rest⟩
  · simp [textSteps]
  · simp [textSteps]
  · simpa [textSteps] using hstep (c :: rest) (List.cons_ne_nil c rest)

theorem nonempty_redactions (hsecret : secret ≠ []) (server : McpServerConfig) :
    ∀ step ∈ redactions environ x server, step.nonempty secret := by
  intro step hstep
  obtain ⟨value, -, hstep⟩ := List.mem_flatMap.mp hstep
  rcases List.mem_append.mp hstep with hvariable | htext
  · obtain ⟨name, -, hstep⟩ := List.mem_flatMap.mp hvariable
    unfold variableSteps at hstep
    split_ifs at hstep
    · rw [List.mem_singleton.mp hstep]
      exact hsecret
    · exact nonempty_textSteps .other (fun _ h => h) step hstep
  · refine nonempty_textSteps _ (fun text h => ?_) step htext
    split_ifs <;> exact h

theorem secret_mem_redactions {server : McpServerConfig}
    (h : ∃ value ∈ server.values, x ∈ variableNames value) :
    Step.secret ∈ redactions environ x server := by
  obtain ⟨value, hvalue, hname⟩ := h
  refine List.mem_flatMap.mpr ⟨value, hvalue, List.mem_append_left _ ?_⟩
  exact List.mem_flatMap.mpr ⟨x, hname, by simp [variableSteps]⟩

theorem expandPieces_congr (hagree : ∀ name ≠ x, environ name = environ' name)
    {pieces : List ValuePiece} (hx : x ∉ pieces.filterMap ValuePiece.name?) :
    expandPieces environ pieces = expandPieces environ' pieces := by
  induction pieces with
  | nil => rfl
  | cons piece rest ih =>
    cases piece with
    | char c =>
      rw [expandPieces, expandPieces, ih hx]
    | reference name =>
      have hmem : x ≠ name ∧ x ∉ rest.filterMap ValuePiece.name? := by
        simpa [ValuePiece.name?] using hx
      rw [expandPieces, expandPieces, hagree name hmem.1.symm, ih hmem.2]

/-- On the parts of the text, both runs do the same. -/
theorem foldl_redactions_congr (hagree : ∀ name ≠ x, environ name = environ' name)
    (server : McpServerConfig) (parts : List (Fragment Char)) :
    (redactions environ x server).foldl (Step.onParts redacted) parts =
      (redactions environ' x server).foldl (Step.onParts redacted) parts := by
  have hvariable : variableSteps environ x = variableSteps environ' x := by
    funext name
    unfold variableSteps
    split_ifs with hname
    · rfl
    · rw [hagree name hname]
  have hholding (text : Option (List Char)) (parts : List (Fragment Char)) :
      (textSteps .holding text).foldl (Step.onParts redacted) parts = parts := by
    rcases text with _ | _ | ⟨c, rest⟩ <;> rfl
  have hvalue (value : List Char) (parts : List (Fragment Char)) :
      (valueSteps environ x value).foldl (Step.onParts redacted) parts =
        (valueSteps environ' x value).foldl (Step.onParts redacted) parts := by
    unfold valueSteps
    rw [List.foldl_append, List.foldl_append, hvariable]
    split_ifs with hx
    · rw [hholding, hholding]
    · unfold expand
      rw [expandPieces_congr hagree hx]
  unfold redactions
  rw [List.foldl_flatMap, List.foldl_flatMap]
  simp only [hvalue]

end Steps

/-! The record of one run. -/

theorem detail_eq {error : LeafError} {secret : List Char} (hsecret : secret ≠ []) :
    error.detail = render (fillingOf error secret) (detailParts error secret) := by
  unfold LeafError.detail detailParts
  split_ifs with hshown
  · have hmark : render (fillingOf error secret) (mark secret error.message) = error.message :=
      render_mark hsecret error.message
    have hkept : (fillingOf error secret).kept =
        secret.take (cutLength secret.length 240 (mark secret error.message)) := by
      simp only [fillingOf, revealed, keptLength, if_pos hshown]
    conv_lhs => rw [← hmark]
    exact take_render (fun _ hpart => isOriginal_of_mem_mark hpart) hkept
  · exact (render_plain _ _).symm

theorem diagnostic_eq {environ : Environ} {server : McpServerConfig} {x secret : List Char}
    {raised : RaisedError} (hvalue : environ x = some secret) (hsecret : secret ≠ [])
    (hwhole : redactsWhole environ server x raised.unwrap secret = true) :
    server.values.foldl (redactValue environ) raised.unwrap.detail =
      render (fillingOf raised.unwrap secret)
        ((redactions environ x server).foldl (Step.onParts redacted)
          (detailParts raised.unwrap secret)) := by
  rw [← foldl_redactions hvalue hsecret, detail_eq hsecret]
  exact Step.foldl_render (nonempty_redactions hsecret server) hwhole

section Parts

variable {server : McpServerConfig} {x secret₁ secret₂ : List Char} {environ₁ environ₂ : Environ}
  {error₁ error₂ : LeafError}

theorem RedactedWhole.keptLength_eq
    (h : RedactedWhole server x environ₁ environ₂ error₁ error₂ secret₁ secret₂)
    (hdiffer : DifferInSecret server x environ₁ environ₂ error₁ error₂ secret₁ secret₂) :
    keptLength error₁ secret₁ = keptLength error₂ secret₂ := by
  unfold keptLength
  rw [← h.shown]
  split_ifs with hshown
  · rw [h.marks hshown, hdiffer.length]
  · rfl

theorem RedactedWhole.detailParts_eq
    (h : RedactedWhole server x environ₁ environ₂ error₁ error₂ secret₁ secret₂)
    (hdiffer : DifferInSecret server x environ₁ environ₂ error₁ error₂ secret₁ secret₂) :
    detailParts error₁ secret₁ = detailParts error₂ secret₂ := by
  unfold detailParts
  rw [← h.shown]
  split_ifs with hshown
  · rw [h.marks hshown, hdiffer.length]
  · unfold LeafError.fixedDetail
    rw [hdiffer.kind, hdiffer.typeName]

/-- What the cut keeps of the value stands at the end. -/
theorem detailParts_eq_append {error : LeafError} {secret : List Char}
    (hpos : keptLength error secret ≠ 0) :
    ∃ front, detailParts error secret = front ++ [.kept] ∧ Fragment.kept ∉ front := by
  unfold keptLength at hpos
  unfold detailParts
  split_ifs at hpos ⊢ with hshown
  · exact ⟨_, by rw [cutParts, if_neg hpos],
      kept_not_mem_cut (fun _ hpart => isOriginal_of_mem_mark hpart) _⟩
  · exact absurd rfl hpos

end Parts

/-! Endpoints. -/

theorem prefix_of_word {letters text rest : List Char}
    (h : Scanner.word (fun a b => decide (a = b)) letters text = some rest) : letters <+: text := by
  induction letters generalizing text with
  | nil => exact List.nil_prefix
  | cons letter letters ih =>
    cases text with
    | nil => simp [Scanner.word, Scanner.next, Scanner.one] at h
    | cons c text =>
      by_cases hc : letter = c
      · subst hc
        have hrest : Scanner.word (fun a b => decide (a = b)) letters text = some rest := by
          simpa [Scanner.word, Scanner.next, Scanner.one] using h
        exact List.cons_prefix_cons.mpr ⟨rfl, ih hrest⟩
      · simp [Scanner.word, Scanner.next, Scanner.one, hc] at h

theorem maskEndpoints_of_absent {text : List Char} (h : ¬ "http".toList <:+: text) :
    maskEndpoints 0 text = text := by
  induction text with
  | nil => rfl
  | cons c rest ih =>
    rw [List.infix_cons_iff, not_or] at h
    have hnone : endpoint (c :: rest) = none := by
      cases hword : Scanner.word (fun a b => decide (a = b)) "http".toList (c :: rest) with
      | none => simp only [endpoint, Scanner.next, hword, Option.bind_none]
      | some after => exact absurd (prefix_of_word hword) h.1
    rw [maskEndpoints, hnone, ih h.2]

theorem recordError_eq_iff {environ₁ environ₂ : Environ} {now : String} {server : McpServerConfig}
    {raised₁ raised₂ : RaisedError} {state : ServerState} :
    recordError environ₁ now server raised₁ state =
        recordError environ₂ now server raised₂ state ↔
      diagnostic environ₁ server raised₁ = diagnostic environ₂ server raised₂ := by
  unfold recordError
  constructor
  · intro h
    have herror := Option.some.inj (congrArg ServerState.error h)
    exact List.append_cancel_left herror
  · intro h
    rw [h]

section Reveal

variable {f₁ f₂ : Filling Char} {parts : List (Fragment Char)}

theorem render_of_kept (hsecret : Fragment.secret ∉ parts) (h : f₁.kept = f₂.kept) :
    render f₁ parts = render f₂ parts := by
  refine render_congr fun part hpart => ?_
  cases part with
  | item c => rfl
  | secret => exact absurd hpart hsecret
  | kept => exact h

/-- The same text shows that the same has been left of the secrets. -/
theorem kept_of_render {front : List (Fragment Char)} (hfront : Fragment.kept ∉ front)
    (hsecret : Fragment.secret ∉ front ++ [.kept])
    (h : render f₁ (front ++ [.kept]) = render f₂ (front ++ [.kept])) : f₁.kept = f₂.kept := by
  have hsame : render f₁ front = render f₂ front := by
    refine render_congr fun part hpart => ?_
    cases part with
    | item c => rfl
    | secret => exact absurd (List.mem_append_left _ hpart) hsecret
    | kept => exact absurd hpart hfront
  rw [render_append, render_append, hsame] at h
  simpa [Fragment.text] using List.append_cancel_left h

end Reveal

/-- No endpoint comes into a message. -/
theorem not_infix_http {environ : Environ} {server : McpServerConfig} {x secret : List Char}
    {error : LeafError} (hvalue : environ x = some secret) (hsecret : secret ≠ [])
    (hshown : error.shown = true) (hhttp : ¬ "http".toList <:+: error.message) :
    ¬ "http".toList <:+: server.values.foldl (redactValue environ) error.detail := by
  have hdetail : ¬ "http".toList <:+: error.detail := by
    unfold LeafError.detail
    rw [if_pos hshown]
    exact fun h => hhttp (h.trans (List.take_prefix 240 error.message).isInfix)
  have hnonempty := @nonempty_redactions environ x secret hsecret server
  rw [← foldl_redactions hvalue hsecret]
  revert hdetail hnonempty
  generalize error.detail = detail
  induction redactions environ x server generalizing detail with
  | nil => exact fun h _ => h
  | cons step steps ih =>
    intro hdetail hnonempty
    refine ih _ ?_ fun step' hstep => hnonempty step' (List.mem_cons_of_mem _ hstep)
    have hreplace {old : List Char} (hold : old ≠ []) :
        ¬ "http".toList <:+: replace old redacted detail :=
      @not_infix_replace Char _ old "http".toList "redacted".toList detail '[' ']' hold (by decide)
        (by decide) (by decide) hdetail
    have hstep := hnonempty step List.mem_cons_self
    cases step with
    | secret => exact hreplace hstep
    | other text => exact hreplace hstep
    | holding text => exact hreplace hstep

def sampleServer (headers : List (String × String)) : McpServerConfig where
  name := "files".toList
  headers := headers.map fun header => (header.1.toList, header.2.toList)
  env := []

def sampleHeader : String × String := ("Authorization", "Bearer $\x7bTOKEN\x7d")

def sampleEnviron (token : String) : Environ := fun name =>
  if name = "TOKEN".toList then some token.toList
  else if name = "MODE".toList then some "e".toList
  else none

def sampleRaised (front token : String) : RaisedError :=
  .group (.leaf ⟨.other, "RuntimeError".toList, front.toList ++ token.toList⟩)

def sampleState : ServerState := ⟨"configured", none, none⟩

/-- Behind the same text, two secrets of one length are all that the messages differ in. -/
theorem getElem?_outside {front secret₁ secret₂ : List Char}
    (hlength : secret₁.length = secret₂.length) (n : ℕ)
    (h : ∀ place ∈ placesOf secret₁ (front ++ secret₁), n < place ∨
      place + secret₁.length ≤ n) : (front ++ secret₁)[n]? = (front ++ secret₂)[n]? := by
  have hplace : front.length ∈ placesOf secret₁ (front ++ secret₁) := by
    unfold placesOf
    refine List.mem_filter.mpr ⟨List.mem_range.mpr ?_, by simp⟩
    rw [List.length_append]
    omega
  rcases h front.length hplace with hbefore | hbehind
  · rw [List.getElem?_append_left hbefore, List.getElem?_append_left hbefore]
  · rw [List.getElem?_eq_none, List.getElem?_eq_none]
    · rw [List.length_append]
      omega
    · rw [List.length_append]
      omega

theorem differInSecret_sample {headers : List (String × String)} {front token token' : String}
    (hreferenced : ∃ value ∈ (sampleServer headers).values, "TOKEN".toList ∈ variableNames value)
    (hnonempty : token.toList ≠ []) (hlength : token.toList.length = token'.toList.length)
    (helsewhere : ∀ text ∈ otherTexts (sampleEnviron token) "TOKEN".toList (sampleServer headers),
      ¬ token.toList <:+: text ∧ ¬ token'.toList <:+: text)
    (hplaces : placesOf token.toList (front.toList ++ token.toList) =
      placesOf token'.toList (front.toList ++ token'.toList)) :
    DifferInSecret (sampleServer headers) "TOKEN".toList (sampleEnviron token)
      (sampleEnviron token') (sampleRaised front token).unwrap (sampleRaised front token').unwrap
      token.toList token'.toList where
  referenced := hreferenced
  value₁ := if_pos rfl
  value₂ := if_pos rfl
  nonempty := hnonempty
  length := hlength
  others _ hname := (if_neg hname).trans (if_neg hname).symm
  elsewhere := helsewhere
  kind := rfl
  typeName := rfl
  inMessage := (List.suffix_append front.toList token.toList).isInfix
  places := hplaces
  outside := getElem?_outside hlength

/-- A token behind 236 characters of a message. -/
def sampleFront : String := String.ofList ("MCP ".toList ++ List.replicate 232 '.')

def sampleTokenServers : McpServerConfig × McpServerConfig :=
  (sampleServer [sampleHeader], sampleServer [("X-Version", "1"), sampleHeader])

end AgentDemo
