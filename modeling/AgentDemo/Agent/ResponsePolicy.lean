import AgentDemo.Agent.Text
import AgentDemo.Library.Scanning

/-! `AgentResponsePolicy._sanitize_model_answer`: the markers and the pattern of raw tool protocol,
the removal of both, and the answers that stand in for a text of which nothing is left. -/
namespace AgentDemo
open Scanning

/-- `str.lower` one character at a time (the final sigma aside) and `\w`, with what is known of
them. -/
structure CaseTables where
  lower : Char → List Char
  isWord : Char → Bool
  lower_ascii : ∀ c, c.toNat < 128 → lower c = [c.toLower]
  lower_symbol : ∀ c x, x ∈ lower c → x.toNat < 128 → x.isAlpha = false → c = x
  lower_fullwidth : ∀ c, 0xff01 ≤ c.toNat → c.toNat ≤ 0xff20 → lower c = [c]
  isWord_space : ∀ c, isSpace c = true → isWord c = false

/-- The class of the object that answers: `AgentRuntime` inherits from `AgentResponsePolicy` and has
a `_tool_output_text` of its own. -/
inductive PolicyClass where
  | agentResponsePolicy
  | agentRuntime
  deriving DecidableEq

structure PolicyReader where
  self : PolicyClass
  cases : CaseTables
  dumps : Json → String
  text : Json → String

/-- What a character is to a pattern that ignores case, as far as ASCII letters go. -/
def foldCase (c : Char) : Char :=
  if c.toNat = 0x130 ∨ c.toNat = 0x131 then 'i'
  else if c.toNat = 0x17f then 's'
  else if c.toNat = 0x212a then 'k'
  else c.toLower

def isBar (c : Char) : Bool := c = '|' || c = '｜'

/-! `RAW_TOOL_PROTOCOL_RE`. -/

inductive ProtocolTag where
  | dsml
  | toolCalls
  | invoke
  deriving DecidableEq

namespace ProtocolTag
open Scanner

def letter (c : Char) : Scanner Char := one (· = c)

def letters (s : String) : Scanner Char := word (fun c d => decide (foldCase d = c)) s.toList

/-- `[|｜]*DSML[|｜]*tool_calls`, `tool_calls?` or `invoke`. -/
def name : ProtocolTag → Scanner Char
  | .dsml => (many isBar).next ((letters "dsml").next ((many isBar).next (letters "tool_calls")))
  | .toolCalls => (letters "tool_call").next (optional fun c => foldCase c = 's')
  | .invoke => letters "invoke"

/-- `\s*>` or `\b[^>]*>`. -/
def openingEnd (isWord : Char → Bool) : ProtocolTag → Scanner Char
  | .invoke => ((many (· ≠ '>')).next (letter '>')).before isWord
  | _ => (many isSpace).next (letter '>')

def opening (isWord : Char → Bool) (tag : ProtocolTag) : Scanner Char :=
  (letter '<').next ((many isSpace).next (tag.name.next (tag.openingEnd isWord)))

def closing (tag : ProtocolTag) : Scanner Char :=
  (letter '<').next ((many isSpace).next ((letter '/').next ((many isSpace).next
    (tag.name.next ((many isSpace).next (letter '>'))))))

/-- `.*?(?:</tag>|$)`: what is left behind the first closing tag, or at the end of the text. -/
def skipBody (tag : ProtocolTag) : List Char → List Char
  | [] => []
  | c :: rest =>
    if c = '\n' ∧ rest = [] then [c]
    else
      match tag.closing (c :: rest) with
      | some after => after
      | none => tag.skipBody rest

end ProtocolTag

/-- A match of `RAW_TOOL_PROTOCOL_RE`. -/
def rawToolProtocol (isWord : Char → Bool) : Scanner Char := fun text =>
  [ProtocolTag.dsml, .toolCalls, .invoke].findSome? fun tag =>
    (tag.opening isWord text).map tag.skipBody

/-- `RAW_TOOL_PROTOCOL_RE.search`. -/
def searchRawToolProtocol (reader : PolicyReader) (text : String) : Bool :=
  (rawToolProtocol reader.cases.isWord).finds text.toList

def rawToolProtocolMarkers : List String :=
  ["<｜｜dsml｜｜tool_calls>", "<||dsml||tool_calls>", "<tool_calls>", "<tool_call", "<invoke",
    "invoke name="]

def containsRawToolProtocol (reader : PolicyReader) (text : List Char) : Bool :=
  rawToolProtocolMarkers.any fun marker => marker.toList <:+: text.flatMap reader.cases.lower

/-! The answers that stand in. -/

/-- `str.splitlines`. -/
def splitLines (text : List Char) : List (List Char) :=
  (splitEnds isLineBreak (fun a b => a = '\r' && b = '\n') text).map Prod.fst

def messageHasCjk (message : String) : Bool :=
  message.toList.any fun c => 0x4e00 ≤ c.toNat && c.toNat ≤ 0x9fff

/-- `\bfirst\s+line\b`, letter case ignored, behind a character that is one of a word or not. -/
def mentionsFirstLine (isWord : Char → Bool) : Bool → List Char → Bool
  | _, [] => false
  | inWord, c :: rest =>
    (!inWord && (((ProtocolTag.letters "first").next ((Scanner.one isSpace).next
      ((Scanner.many isSpace).next (ProtocolTag.letters "line")))) (c :: rest)).any
        fun after => !after.head?.any isWord) ||
    mentionsFirstLine isWord (isWord c) rest

/-- `str` of a JSON value. -/
def PolicyReader.str (reader : PolicyReader) : Json → String
  | .str s => s
  | value => reader.text value

section fallback

variable (reader : PolicyReader)

mutual

/-- `AgentResponsePolicy._tool_output_text`. -/
def policyOutputText : Json → String
  | .null => ""
  | .str s => strip s
  | .arr items => strip ("\n".intercalate (policyItemTexts items))
  | .obj fields =>
    let text := policyFieldText "text" fields
    if text ≠ "" then text
    else
      let content := policyFieldText "content" fields
      if content ≠ "" then content else reader.dumps (.obj fields)
  | .bool b => strip (reader.text (.bool b))
  | .num q => strip (reader.text (.num q))

def policyItemTexts : List Json → List String
  | [] => []
  | item :: rest =>
    if policyOutputText item = "" then policyItemTexts rest
    else policyOutputText item :: policyItemTexts rest

def policyFieldText (key : String) : List (String × Json) → String
  | [] => ""
  | (name, value) :: rest => if name = key then policyOutputText value else policyFieldText key rest

end

/-- `self._tool_output_text` of an output. The method of `AgentRuntime` takes the response of a
tool: an output has no attribute `output`, and the call raises. -/
def selfOutputText (output : Json) : Option String :=
  match reader.self with
  | .agentResponsePolicy => some (policyOutputText reader output)
  | .agentRuntime => none

def limitFallbackText (text : String) : String :=
  if text.length ≤ 4000 then text else takeText 4000 text ++ "…"

def asksFirstLine (message : String) : Bool :=
  hasText "第一行" message || mentionsFirstLine reader.cases.isWord false message.toList

/-- What the fallback says about the content of a file. -/
def readFileAnswer (message path content : String) : String :=
  if asksFirstLine reader message then
    let firstLine := (((splitLines content.toList).map stripList).find? (· ≠ [])).elim content
      String.ofList
    if messageHasCjk message then "文件 `" ++ path ++ "` 的第一行是：" ++ firstLine
    else "The first line of `" ++ path ++ "` is: " ++ firstLine
  else
    let limited := limitFallbackText content
    if messageHasCjk message then
      "已成功读取文件 `" ++ path ++ "`。可用内容如下：\n\n" ++ limited
    else "The file `" ++ path ++ "` was read successfully. Available content:\n\n" ++ limited

/-- What the fallback says about the output of a tool; the outer `none` is an exception, the inner
one lets the loop go on. -/
def outputAnswer (message toolName : String) (output : Json) : Option (Option String) :=
  (selfOutputText reader output).map fun text =>
    if text = "" then none
    else
      let limited := limitFallbackText text
      some (if messageHasCjk message then
        "工具 `" ++ toolName ++ "` 已成功执行。可用结果如下：\n\n" ++ limited
      else "Tool `" ++ toolName ++ "` completed successfully. Available result:\n\n" ++ limited)

def toolCallAnswer (message : String) (call : ToolCallRecord) : Option (Option String) :=
  let toolName := orText (some call.toolName) "tool"
  if call.result.status ≠ .success then some none
  else if toolName ≠ "read_file" then outputAnswer reader message toolName call.result.output
  else
    match call.result.output with
    | .obj fields =>
      let content := strip (reader.str (JsonObject.getOr fields "content" (.str "")))
      let path := reader.str
        (JsonObject.getOr fields "path" (call.arguments.getOr "path" (.str "file")))
      some (if content = "" then none else some (readFileAnswer reader message path content))
    | output => outputAnswer reader message toolName output

def firstAnswer {β : Type*} (answer : ToolCallRecord → Option (Option β)) :
    List ToolCallRecord → Option (Option β)
  | [] => some none
  | call :: calls =>
    match answer call with
    | none => none
    | some (some text) => some (some text)
    | some none => firstAnswer answer calls

def successfulToolFallbackAnswer (state : AgentGraphState) : Option (Option String) :=
  firstAnswer (toolCallAnswer reader state.message) state.toolCalls.reverse

/-- What the fallback says where no tool has answered. -/
def blockedAnswer (message : String) : String :=
  let lowered := message.toList.flatMap reader.cases.lower
  let asksProjectCapability := decide ("agentdemo".toList <:+: lowered) ||
    hasText "项目" message || hasText "能做什么" message
  if messageHasCjk message && asksProjectCapability then
    "AgentDemo 可以通过聊天界面完成问答、计划执行和知识库检索，并把运行状态实时流式展示出来。" ++
    "它支持通过安全的工具执行链路调用本地工具、MCP 工具、网页抓取和联网搜索。" ++
    "前端还会展示计划、工具历史和最终回答，方便用户确认系统每一步做了什么。"
  else if messageHasCjk message then
    "我拦截了模型生成的内部工具调用标记；请换一种方式重试这个请求。"
  else "I blocked internal tool-call markup from the model response. Please retry the request."

/-- `_fallback_answer_after_protocol_strip`; `none` is an exception. -/
def fallbackAnswerAfterProtocolStrip (state : AgentGraphState) : Option String :=
  (successfulToolFallbackAnswer reader state).map fun toolAnswer =>
    toolAnswer.getD (blockedAnswer reader state.message)

/-- The lines without markers that are left of an answer without the matches of the pattern. -/
def cleanedLines (answer : List Char) : List (List Char) :=
  (splitLines (removeMatches (rawToolProtocol reader.cases.isWord) 0 answer)).filter
    fun line => !containsRawToolProtocol reader line

/-- `_sanitize_model_answer`; `none` is an exception. -/
def sanitizeModelAnswer (answer : String) (state : AgentGraphState) : Option String :=
  if !containsRawToolProtocol reader answer.toList then some answer
  else
    let cleaned := stripList (['\n'].intercalate (cleanedLines reader answer.toList))
    if cleaned ≠ [] then
      some (String.ofList
        (cleaned ++ if answer.toList.getLast? = some '\n' then ['\n'] else []))
    else fallbackAnswerAfterProtocolStrip reader state

end fallback

end AgentDemo
