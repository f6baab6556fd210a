import SparseEngine.Responses.StreamState

/-! One equation per method and branch: the frames it returns and the state it leaves. -/

namespace SparseEngine.Responses

open PyM

namespace ResponseStreamState

variable {s : ResponseStreamState} {index : Nat} {text : String}

theorem modify_append_last (output : List OutputItem) (item : OutputItem)
    (f : OutputItem → OutputItem) :
    (output ++ [item]).modify output.length f = output ++ [f item] := by
  simp [List.modify_eq_take_cons_drop]

theorem ensureMessage_old (old : s.messageIndex = some index) : ensureMessage s = (.ok [], s) := by
  simp [ensureMessage, bind_run, old]

theorem ensureMessage_new (new : s.messageIndex = none) :
    ensureMessage s =
      (.ok [.outputItemAdded s.output.length (.message s.nextUuid .inProgress []),
          .contentPartAdded s.nextUuid s.output.length 0 ""],
        { s with
          nextUuid := s.nextUuid + 1
          messageIndex := some s.output.length
          output := s.output ++ [.message s.nextUuid .inProgress [""]] }) := by
  simp [ensureMessage, bind_run, new, onUuid, zoom, drawUuid, updateItem, modify_append_last,
    OutputItem.appendPart]

theorem extendMessage_run (old : s.messageIndex = some index) :
    extendMessage text s =
      (.ok [.outputTextDelta (s.itemAt index).id index 0 text],
        { s with
          messageText := s.messageText ++ text
          output := s.output.modify index (OutputItem.setPartText (s.messageText ++ text)) }) := by
  simp [extendMessage, bind_run, old, updateItem]

theorem finishMessage_run (old : s.messageIndex = some index) (undone : s.messageDone = false) :
    finishMessage s =
      (.ok [.outputTextDone (s.itemAt index).complete.id index 0 s.messageText,
          .contentPartDone (s.itemAt index).complete.id index 0 (s.itemAt index).value,
          .outputItemDone index (s.itemAt index).complete],
        { s with
          messageDone := true
          output := s.output.modify index OutputItem.complete }) := by
  simp [finishMessage, bind_run, old, undone, updateItem]

theorem finishMessage_idle (idle : s.messageIndex = none ∨ s.messageDone = true) :
    finishMessage s = (.ok [], s) := by
  rcases idle with none | done
  · simp [finishMessage, bind_run, none]
  · simp [finishMessage, bind_run, done]

theorem ensureReasoning_old (old : s.reasoningIndex = some index) :
    ensureReasoning s = (.ok [], s) := by
  simp [ensureReasoning, bind_run, old]

theorem ensureReasoning_new (new : s.reasoningIndex = none) :
    ensureReasoning s =
      (.ok [.outputItemAdded s.output.length (.reasoning s.nextUuid ""),
          .reasoningPartAdded s.nextUuid s.output.length 0 ""],
        { s with
          nextUuid := s.nextUuid + 1
          reasoningIndex := some s.output.length
          output := s.output ++ [.reasoning s.nextUuid ""] }) := by
  simp [ensureReasoning, bind_run, new, onUuid, zoom, drawUuid]

theorem extendReasoning_run (old : s.reasoningIndex = some index) :
    extendReasoning text s =
      (.ok [.reasoningTextDelta (s.itemAt index).id index 0 text],
        { s with
          reasoningText := s.reasoningText ++ text
          output := s.output.modify index (OutputItem.setText (s.reasoningText ++ text)) }) := by
  simp [extendReasoning, bind_run, old, updateItem]

theorem finishReasoning_run (old : s.reasoningIndex = some index)
    (undone : s.reasoningDone = false) :
    finishReasoning s =
      (.ok [.reasoningTextDone (s.itemAt index).id index 0 s.reasoningText,
          .reasoningPartDone (s.itemAt index).id index 0 s.reasoningText,
          .outputItemDone index (s.itemAt index)],
        { s with reasoningDone := true }) := by
  simp [finishReasoning, reasoningDoneFrames, closeReasoning, bind_run, old, undone,
    ensureReasoning_old old]

theorem finishReasoning_idle (idle : s.reasoningIndex = none ∨ s.reasoningDone = true) :
    finishReasoning s = (.ok [], s) := by
  simp [finishReasoning, bind_run, idle]

def started (s : ResponseStreamState) (name : String) : ResponseStreamState :=
  { s with
    nextUuid := s.nextUuid + 2
    functionIndex := some s.output.length
    functionArguments := ""
    output := s.output ++ [.functionCall s.nextUuid (s.nextUuid + 1) name "" .inProgress] }

theorem functionCallStarted_run {name : String} (named : name ≠ "")
    (idle : s.functionIndex = none) :
    functionCallStarted name s =
      (.ok [.outputItemAdded s.output.length
          (.functionCall s.nextUuid (s.nextUuid + 1) name "" .inProgress)], s.started name) := by
  simp [functionCallStarted, bind_run, raiseIf, named, idle, onUuid, zoom, drawUuid, started]

theorem functionCallArgumentsDelta_empty (old : s.functionIndex = some index) :
    functionCallArgumentsDelta "" s = (.ok [], s) := by
  simp [functionCallArgumentsDelta, bind_run, old]

theorem functionCallArgumentsDelta_run (old : s.functionIndex = some index) (some_text : text ≠ "") :
    functionCallArgumentsDelta text s =
      (.ok [.functionCallArgumentsDelta (s.itemAt index).id index text],
        { s with
          functionArguments := s.functionArguments ++ text
          output :=
            s.output.modify index (OutputItem.setArguments (s.functionArguments ++ text)) }) := by
  simp [functionCallArgumentsDelta, bind_run, old, some_text, updateItem]

theorem functionCallDone_run (old : s.functionIndex = some index) :
    functionCallDone s =
      (.ok [.functionCallArgumentsDone (s.itemAt index).complete.id index s.functionArguments,
          .outputItemDone index (s.itemAt index).complete],
        { s with
          functionIndex := none
          functionArguments := ""
          output := s.output.modify index OutputItem.complete }) := by
  simp [functionCallDone, bind_run, old, updateItem]

theorem finishFunctionCall_idle (idle : s.functionIndex = none) :
    finishFunctionCall s = (.ok [], s) := by
  simp [finishFunctionCall, bind_run, idle]

end ResponseStreamState

end SparseEngine.Responses
