import SparseEngine.Lib.Py

/-! `_ResponseStreamState` turns the deltas of a model answer into the output items of a response
and the events that announce them. -/

namespace SparseEngine.Responses

open PyM

/-- The `status` of a message or function call item. -/
inductive ItemStatus
  | inProgress
  | completed
deriving DecidableEq, Repr

/-- An item of the `output` list. -/
inductive OutputItem
  | message (id : Nat) (status : ItemStatus) (content : List String)
  | reasoning (id : Nat) (text : String)
  | functionCall (id callId : Nat) (name arguments : String) (status : ItemStatus)
deriving DecidableEq, Repr

namespace OutputItem

/-- The field `id`. -/
def id : OutputItem → Nat
  | message id _ _ => id
  | reasoning id _ => id
  | functionCall id _ _ _ _ => id

def value : OutputItem → String
  | message _ _ content => content.headD ""
  | reasoning _ text => text
  | functionCall _ _ _ arguments _ => arguments

/-- `item["content"][0]["text"] = text`. -/
def setPartText (text : String) : OutputItem → OutputItem
  | message id status content => message id status (content.set 0 text)
  | item => item

/-- `item["content"].append(part)`. -/
def appendPart (part : String) : OutputItem → OutputItem
  | message id status content => message id status (content ++ [part])
  | item => item

/-- `item["text"] = text`. -/
def setText (text : String) : OutputItem → OutputItem
  | reasoning id _ => reasoning id text
  | item => item

/-- `item["arguments"] = arguments`. -/
def setArguments (arguments : String) : OutputItem → OutputItem
  | functionCall id callId name _ status => functionCall id callId name arguments status
  | item => item

/-- `item["status"] = "completed"`. -/
def complete : OutputItem → OutputItem
  | message id _ content => message id .completed content
  | functionCall id callId name arguments _ =>
    functionCall id callId name arguments .completed
  | item => item

def withoutIds : OutputItem → OutputItem
  | message _ status content => message 0 status content
  | reasoning _ text => reasoning 0 text
  | functionCall _ _ name arguments status => functionCall 0 0 name arguments status

end OutputItem

/-- The events of `responses/events.py` that concern an output item. -/
inductive StreamEvent
  | outputItemAdded (outputIndex : Nat) (item : OutputItem)
  | outputItemDone (outputIndex : Nat) (item : OutputItem)
  | contentPartAdded (itemId outputIndex contentIndex : Nat) (part : String)
  | contentPartDone (itemId outputIndex contentIndex : Nat) (part : String)
  | outputTextDelta (itemId outputIndex contentIndex : Nat) (delta : String)
  | outputTextDone (itemId outputIndex contentIndex : Nat) (text : String)
  | reasoningPartAdded (itemId outputIndex contentIndex : Nat) (part : String)
  | reasoningPartDone (itemId outputIndex contentIndex : Nat) (part : String)
  | reasoningTextDelta (itemId outputIndex contentIndex : Nat) (delta : String)
  | reasoningTextDone (itemId outputIndex contentIndex : Nat) (text : String)
  | functionCallArgumentsDelta (itemId outputIndex : Nat) (delta : String)
  | functionCallArgumentsDone (itemId outputIndex : Nat) (arguments : String)
deriving DecidableEq, Repr

/-- A tool call as `_normalize_tool_call` leaves it. -/
structure ToolCall where
  name : String
  arguments : String
  name_ne : name ≠ ""
deriving DecidableEq

structure Delta where
  reasoningContent : Option String := none
  content : Option String := none
  toolCalls : List ToolCall := []

structure ParsedModelResponse where
  reasoningContent : Option String
  content : String
  toolCalls : List ToolCall

/-- The fields of `_ResponseStreamState` that the items and their events depend on. -/
structure ResponseStreamState where
  output : List OutputItem := []
  nextUuid : Nat := 0
  messageIndex : Option Nat := none
  messageText : String := ""
  messageDone : Bool := false
  reasoningIndex : Option Nat := none
  reasoningText : String := ""
  reasoningDone : Bool := false
  functionIndex : Option Nat := none
  functionArguments : String := ""
deriving DecidableEq

def responseParseError (message : String) : PyError := .custom 1 message

/-- `uuid.uuid4()`. -/
def drawUuid : PyM Nat Nat := fun next => (.ok next, next + 1)

namespace ResponseStreamState

def onUuid {α : Type} (m : PyM Nat α) : PyM ResponseStreamState α :=
  zoom nextUuid (fun next s => { s with nextUuid := next }) m

def itemAt (s : ResponseStreamState) (index : Nat) : OutputItem :=
  s.output.getD index (.reasoning 0 "")

def updateItem (index : Nat) (f : OutputItem → OutputItem) : PyM ResponseStreamState Unit :=
  modify fun s => { s with output := s.output.modify index f }

def ensureMessage : PyM ResponseStreamState (List StreamEvent) := do
  let s ← get
  match s.messageIndex with
  | some _ => return []
  | none => do
    let id ← onUuid drawUuid
    let index := s.output.length
    let item := OutputItem.message id .inProgress []
    modify fun s => { s with
      messageIndex := some index
      output := s.output ++ [item] }
    updateItem index (OutputItem.appendPart "")
    return [.outputItemAdded index item, .contentPartAdded id index 0 ""]

def finishMessage : PyM ResponseStreamState (List StreamEvent) := do
  let s ← get
  match s.messageIndex, s.messageDone with
  | some index, false => do
    let part := (s.itemAt index).value
    updateItem index OutputItem.complete
    modify fun s => { s with messageDone := true }
    let item := (s.itemAt index).complete
    return [.outputTextDone item.id index 0 s.messageText, .contentPartDone item.id index 0 part,
      .outputItemDone index item]
  | _, _ => return []

variable (text : String)

/-- The part of `message_delta` after the item is there. -/
def extendMessage : PyM ResponseStreamState (List StreamEvent) := do
  let s ← get
  match s.messageIndex with
  | some index => do
    modify fun s => { s with messageText := s.messageText ++ text }
    updateItem index (OutputItem.setPartText (s.messageText ++ text))
    return [.outputTextDelta (s.itemAt index).id index 0 text]
  | none => raise (.runtimeError "assert self._message_item is not None")

def messageDelta : PyM ResponseStreamState (List StreamEvent) :=
  if text = "" then pure []
  else do
    let frames ← ensureMessage
    let more ← extendMessage text
    return frames ++ more

def ensureReasoning : PyM ResponseStreamState (List StreamEvent) := do
  let s ← get
  match s.reasoningIndex with
  | some _ => return []
  | none => do
    let id ← onUuid drawUuid
    let index := s.output.length
    let item := OutputItem.reasoning id ""
    modify fun s => { s with
      reasoningIndex := some index
      output := s.output ++ [item] }
    return [.outputItemAdded index item, .reasoningPartAdded id index 0 ""]

/-- The part of `reasoning_delta` after the item is there. -/
def extendReasoning : PyM ResponseStreamState (List StreamEvent) := do
  let s ← get
  match s.reasoningIndex with
  | some index => do
    modify fun s => { s with reasoningText := s.reasoningText ++ text }
    updateItem index (OutputItem.setText (s.reasoningText ++ text))
    return [.reasoningTextDelta (s.itemAt index).id index 0 text]
  | none => raise (.runtimeError "assert self._reasoning_item is not None")

/-- `reasoning_delta`. It does not look at `_reasoning_done`. -/
def reasoningDelta : PyM ResponseStreamState (List StreamEvent) :=
  if text = "" then pure []
  else do
    let frames ← ensureReasoning
    let more ← extendReasoning text
    return frames ++ more

/-- The part of `reasoning_done` after the item is there. -/
def closeReasoning : PyM ResponseStreamState (List StreamEvent) := do
  let s ← get
  match s.reasoningIndex, s.reasoningDone with
  | _, true => return []
  | none, false => raise (.runtimeError "assert self._reasoning_item is not None")
  | some index, false => do
    let item := s.itemAt index
    modify fun s => { s with reasoningDone := true }
    return [.reasoningTextDone item.id index 0 s.reasoningText,
      .reasoningPartDone item.id index 0 s.reasoningText, .outputItemDone index item]

/-- `reasoning_done`. -/
def reasoningDoneFrames : PyM ResponseStreamState (List StreamEvent) := do
  let frames ← ensureReasoning
  let more ← closeReasoning
  return frames ++ more

def finishReasoning : PyM ResponseStreamState (List StreamEvent) := do
  let s ← get
  if s.reasoningIndex = none ∨ s.reasoningDone then pure [] else reasoningDoneFrames

def functionCallStarted (name : String) : PyM ResponseStreamState (List StreamEvent) := do
  raiseIf (name = "") (responseParseError "tool call stream event missing function name.")
  let s ← get
  raiseIf (s.functionIndex ≠ none)
    (responseParseError "new tool call started before previous tool call finished.")
  let id ← onUuid drawUuid
  let callId ← onUuid drawUuid
  let index := s.output.length
  let item := OutputItem.functionCall id callId name "" .inProgress
  modify fun s => { s with
    functionIndex := some index
    functionArguments := ""
    output := s.output ++ [item] }
  return [.outputItemAdded index item]

def functionCallArgumentsDelta (argumentsDelta : String) :
    PyM ResponseStreamState (List StreamEvent) := do
  let s ← get
  match s.functionIndex with
  | none => raise (responseParseError "tool call arguments arrived before tool call item.")
  | some index =>
    if argumentsDelta = "" then pure []
    else do
      modify fun s => { s with functionArguments := s.functionArguments ++ argumentsDelta }
      updateItem index (OutputItem.setArguments (s.functionArguments ++ argumentsDelta))
      return [.functionCallArgumentsDelta (s.itemAt index).id index argumentsDelta]

def functionCallDone : PyM ResponseStreamState (List StreamEvent) := do
  let s ← get
  match s.functionIndex with
  | none => raise (responseParseError "tool call done arrived before tool call item.")
  | some index => do
    updateItem index OutputItem.complete
    let item := (s.itemAt index).complete
    modify fun s => { s with
      functionIndex := none
      functionArguments := "" }
    return [.functionCallArgumentsDone item.id index s.functionArguments,
      .outputItemDone index item]

/-- `finish_open_items`. -/
def finishFunctionCall : PyM ResponseStreamState (List StreamEvent) := do
  let s ← get
  if s.functionIndex = none then pure [] else functionCallDone

/-- `finish_open_items`. -/
def finishEmpty : PyM ResponseStreamState (List StreamEvent) := do
  let s ← get
  if s.output = [] then do
    let frames ← ensureMessage
    let more ← finishMessage
    return frames ++ more
  else pure []

def finishOpenItems : PyM ResponseStreamState (List StreamEvent) := do
  let message ← finishMessage
  let reasoning ← finishReasoning
  let function ← finishFunctionCall
  let empty ← finishEmpty
  return message ++ reasoning ++ function ++ empty

end ResponseStreamState

open ResponseStreamState

def toolCallFrames (call : ToolCall) : PyM ResponseStreamState (List StreamEvent) := do
  let reasoning ← finishReasoning
  let started ← functionCallStarted call.name
  let arguments ← functionCallArgumentsDelta call.arguments
  let done ← functionCallDone
  return reasoning ++ started ++ arguments ++ done

/-- `if reasoning := delta.get("reasoning_content")`. -/
def reasoningFrames (text : String) : PyM ResponseStreamState (List StreamEvent) :=
  if text = "" then pure [] else reasoningDelta text

/-- `if content := delta.get("content")`. -/
def contentFrames (text : String) : PyM ResponseStreamState (List StreamEvent) :=
  if text = "" then pure []
  else do
    let reasoning ← finishReasoning
    let message ← messageDelta text
    return reasoning ++ message

def collect : List (PyM ResponseStreamState (List StreamEvent)) →
    PyM ResponseStreamState (List StreamEvent)
  | [] => pure []
  | m :: ms => do
    let frames ← m
    let more ← collect ms
    return frames ++ more

/-- One delta of `_response_stream_deltas`. -/
def deltaFrames (delta : Delta) : PyM ResponseStreamState (List StreamEvent) := do
  let reasoning ← reasoningFrames (delta.reasoningContent.getD "")
  let content ← contentFrames (delta.content.getD "")
  let calls ← collect (delta.toolCalls.map toolCallFrames)
  return reasoning ++ content ++ calls

def responseStreamDeltas (deltas : List Delta) : PyM ResponseStreamState (List StreamEvent) :=
  collect (deltas.map deltaFrames)

/-- The item events of a whole stream. -/
def responseStream (deltaLists : List (List Delta)) :
    PyM ResponseStreamState (List StreamEvent) := do
  let frames ← collect (deltaLists.map responseStreamDeltas)
  let last ← finishOpenItems
  return frames ++ last

def messageOutputItem (text : String) : PyM Nat OutputItem := do
  let id ← drawUuid
  return .message id .completed [text]

/-- The item of a tool call in `_response_output_items`. -/
def functionCallOutputItem (call : ToolCall) : PyM Nat OutputItem := do
  let id ← drawUuid
  let callId ← drawUuid
  return .functionCall id callId call.name call.arguments .completed

/-- The loop over the tool calls of `_response_output_items`. -/
def functionCallOutputItems : List ToolCall → PyM Nat (List OutputItem)
  | [] => pure []
  | call :: calls => do
    let item ← functionCallOutputItem call
    let items ← functionCallOutputItems calls
    return item :: items

/-- The reasoning item of `_response_output_items`. -/
def reasoningOutputItems : Option String → PyM Nat (List OutputItem)
  | none => pure []
  | some text => do
    let id ← drawUuid
    return [.reasoning id text]

/-- The items of `_response_output_items` after the reasoning. -/
def answerOutputItems (parsed : ParsedModelResponse) : PyM Nat (List OutputItem) :=
  if parsed.toolCalls ≠ [] then functionCallOutputItems parsed.toolCalls
  else if parsed.content ≠ "" ∨ parsed.reasoningContent = none then do
    let item ← messageOutputItem parsed.content
    return [item]
  else pure []

def responseOutputItems (parsed : ParsedModelResponse) : PyM Nat (List OutputItem) := do
  let reasoning ← reasoningOutputItems parsed.reasoningContent
  let answer ← answerOutputItems parsed
  return reasoning ++ answer

end SparseEngine.Responses
