import SparseEngine.Responses.EventOrder
import SparseEngine.Responses.Methods

/-! Every method keeps `Streamed`, the state's account of the events sent so far, except
`reasoning_delta` on a reasoning item already reported done. -/

namespace SparseEngine.Responses

open PyM ResponseStreamState List OutputItem

def ResponseStreamState.isOpen (s : ResponseStreamState) (index : Nat) : Prop :=
  s.messageIndex = some index ∧ s.messageDone = false ∨
    s.reasoningIndex = some index ∧ s.reasoningDone = false ∨ s.functionIndex = some index

/-- The state follows the events that were sent. -/
structure Streamed (s : ResponseStreamState) (events : List StreamEvent) : Prop where
  tracked : Tracked s.isOpen events s.output
  message : ∀ i, s.messageIndex = some i →
    ∃ id status, s.output[i]? = some (.message id status [s.messageText])
  reasoning : ∀ i, s.reasoningIndex = some i →
    ∃ id, s.output[i]? = some (.reasoning id s.reasoningText)
  function : ∀ i, s.functionIndex = some i → ∃ id callId name status,
    s.output[i]? = some (.functionCall id callId name s.functionArguments status)
  no_message : s.messageIndex = none → s.messageText = "" ∧ s.messageDone = false
  no_reasoning : s.reasoningIndex = none → s.reasoningText = "" ∧ s.reasoningDone = false

structure SameReasoning (s s' : ResponseStreamState) : Prop where
  index : s'.reasoningIndex = s.reasoningIndex
  done : s'.reasoningDone = s.reasoningDone

section

variable {output : List OutputItem} {item other new : OutputItem} {i j : Nat}
  {s : ResponseStreamState}

theorem modify_of_found (found : output[i]? = some item) (f : OutputItem → OutputItem) :
    output.modify i f = output.set i (f item) := by
  refine ext_getElem? fun k => ?_
  by_cases here : i = k
  · subst here
    rw [getElem?_set_self (Tracked.lt_of_item found)]
    simp [found]
  · rw [getElem?_set_ne here, getElem?_modify_ne _ _ here]

theorem set_of_found (found : output[i]? = some item) : output.set i item = output := by
  obtain ⟨bound, rfl⟩ := List.getElem?_eq_some_iff.mp found
  exact set_getElem_self bound

theorem itemAt_of_found (found : s.output[i]? = some item) : s.itemAt i = item := by
  simp [itemAt, getD_eq_getElem?_getD, found]

theorem getElem?_set_other (found : output[i]? = some item) (kept : output[j]? = some other)
    (differ : item ≠ other) : (output.set i new)[j]? = some other := by
  have away : i ≠ j := by
    rintro rfl
    exact differ (Option.some.inj (found.symm.trans kept))
  rwa [getElem?_set_ne away]

theorem getElem?_append_kept (kept : output[j]? = some other) :
    (output ++ [new])[j]? = some other := by
  rwa [getElem?_append_left (Tracked.lt_of_item kept)]

end

namespace Streamed

variable {s : ResponseStreamState} {events : List StreamEvent}

theorem start : Streamed {} [] where
  tracked := Tracked.empty.congr fun i => by simp [isOpen]
  message i here := nomatch here
  reasoning i here := nomatch here
  function i here := nomatch here
  no_message _ := ⟨rfl, rfl⟩
  no_reasoning _ := ⟨rfl, rfl⟩

theorem ensureMessage_spec (h : Streamed s events) :
    wp ensureMessage (fun frames s' => Streamed s' (events ++ frames) ∧ SameReasoning s s' ∧
      s'.functionIndex = s.functionIndex ∧ s'.messageDone = s.messageDone ∧
      ∃ i, s'.messageIndex = some i) (fun _ _ => False) s := by
  cases here : s.messageIndex with
  | some i =>
    rw [wp_of_ok (ensureMessage_old here)]
    rw [append_nil]
    exact ⟨h, ⟨rfl, rfl⟩, rfl, rfl, i, here⟩
  | none =>
    obtain ⟨no_text, undone⟩ := h.no_message here
    rw [wp_of_ok (ensureMessage_new here)]
    refine ⟨⟨?_, ?_, ?_, ?_, nofun, h.no_reasoning⟩, ⟨rfl, rfl⟩, rfl, rfl, _, rfl⟩
    · have opened := h.tracked.opened (.message s.nextUuid .inProgress [])
        (.message s.nextUuid .inProgress [""])
        [.contentPartAdded s.nextUuid s.output.length 0 ""] rfl rfl (by simp [Announces, StreamEvent.outputIndex, StreamEvent.itemId, StreamEvent.addedIndex,
            StreamEvent.doneValue, StreamEvent.delta, OutputItem.id, value])
      refine opened.congr fun i => ?_
      simp only [isOpen, here, undone, Option.some.injEq]
      grind
    · intro i found
      obtain rfl := Option.some.inj found
      exact ⟨s.nextUuid, .inProgress, by simp [no_text]⟩
    · intro i found
      obtain ⟨id, kept⟩ := h.reasoning i found
      exact ⟨id, getElem?_append_kept kept⟩
    · intro i found
      obtain ⟨id, callId, name, status, kept⟩ := h.function i found
      exact ⟨id, callId, name, status, getElem?_append_kept kept⟩

theorem ensureReasoning_spec (h : Streamed s events) :
    wp ensureReasoning (fun frames s' => Streamed s' (events ++ frames) ∧
      s'.reasoningDone = s.reasoningDone ∧ s'.functionIndex = s.functionIndex ∧
      s'.messageDone = s.messageDone ∧ ∃ i, s'.reasoningIndex = some i) (fun _ _ => False) s := by
  cases here : s.reasoningIndex with
  | some i =>
    rw [wp_of_ok (ensureReasoning_old here)]
    rw [append_nil]
    exact ⟨h, rfl, rfl, rfl, i, here⟩
  | none =>
    obtain ⟨no_text, undone⟩ := h.no_reasoning here
    rw [wp_of_ok (ensureReasoning_new here)]
    refine ⟨⟨?_, ?_, ?_, ?_, h.no_message, nofun⟩, rfl, rfl, rfl, _, rfl⟩
    · have opened := h.tracked.opened (.reasoning s.nextUuid "")
        (.reasoning s.nextUuid "")
        [.reasoningPartAdded s.nextUuid s.output.length 0 ""] rfl rfl (by simp [Announces, StreamEvent.outputIndex, StreamEvent.itemId, StreamEvent.addedIndex,
            StreamEvent.doneValue, StreamEvent.delta, OutputItem.id, value])
      refine opened.congr fun i => ?_
      simp only [isOpen, here, undone, Option.some.injEq]
      grind
    · intro i found
      obtain ⟨id, status, kept⟩ := h.message i found
      exact ⟨id, status, getElem?_append_kept kept⟩
    · intro i found
      obtain rfl := Option.some.inj found
      exact ⟨s.nextUuid, by simp [no_text]⟩
    · intro i found
      obtain ⟨id, callId, name, status, kept⟩ := h.function i found
      exact ⟨id, callId, name, status, getElem?_append_kept kept⟩

theorem extendMessage_spec (h : Streamed s events) (text : String) {i : Nat}
    (here : s.messageIndex = some i) (undone : s.messageDone = false) :
    wp (extendMessage text) (fun frames s' => Streamed s' (events ++ frames) ∧
      SameReasoning s s' ∧ s'.functionIndex = s.functionIndex ∧ s'.messageDone = false)
      (fun _ _ => False) s := by
  obtain ⟨id, status, found⟩ := h.message i here
  rw [wp_of_ok (extendMessage_run here), itemAt_of_found found, modify_of_found found]
  refine ⟨⟨?_, ?_, ?_, ?_, ?_, h.no_reasoning⟩, ⟨rfl, rfl⟩, rfl, undone⟩
  · exact h.tracked.extended (.message id status [s.messageText ++ text])
      (.outputTextDelta id i 0 text) (.inl ⟨here, undone⟩) found rfl rfl
      (by simp [Extends, StreamEvent.outputIndex, StreamEvent.itemId, StreamEvent.addedIndex,
        StreamEvent.doneValue, StreamEvent.delta, OutputItem.id])
  · intro j found'
    obtain rfl := Option.some.inj (here.symm.trans found')
    exact ⟨id, status, getElem?_set_self (Tracked.lt_of_item found)⟩
  · intro j found'
    obtain ⟨id, kept⟩ := h.reasoning j found'
    exact ⟨id, getElem?_set_other found kept (by simp)⟩
  · intro j found'
    obtain ⟨id, callId, name, status, kept⟩ := h.function j found'
    exact ⟨id, callId, name, status, getElem?_set_other found kept (by simp)⟩
  · intro none
    cases here.symm.trans none

theorem extendReasoning_spec (h : Streamed s events) (text : String) {i : Nat}
    (here : s.reasoningIndex = some i) (undone : s.reasoningDone = false) :
    wp (extendReasoning text) (fun frames s' => Streamed s' (events ++ frames) ∧
      SameReasoning s s' ∧ s'.functionIndex = s.functionIndex ∧ s'.messageDone = s.messageDone)
      (fun _ _ => False) s := by
  obtain ⟨id, found⟩ := h.reasoning i here
  rw [wp_of_ok (extendReasoning_run here), itemAt_of_found found, modify_of_found found]
  refine ⟨⟨?_, ?_, ?_, ?_, h.no_message, ?_⟩, ⟨rfl, rfl⟩, rfl, rfl⟩
  · exact h.tracked.extended (.reasoning id (s.reasoningText ++ text))
      (.reasoningTextDelta id i 0 text) (.inr (.inl ⟨here, undone⟩)) found rfl rfl
      (by simp [Extends, StreamEvent.outputIndex, StreamEvent.itemId, StreamEvent.addedIndex,
        StreamEvent.doneValue, StreamEvent.delta, OutputItem.id])
  · intro j found'
    obtain ⟨id, status, kept⟩ := h.message j found'
    exact ⟨id, status, getElem?_set_other found kept (by simp)⟩
  · intro j found'
    obtain rfl := Option.some.inj (here.symm.trans found')
    exact ⟨id, getElem?_set_self (Tracked.lt_of_item found)⟩
  · intro j found'
    obtain ⟨id, callId, name, status, kept⟩ := h.function j found'
    exact ⟨id, callId, name, status, getElem?_set_other found kept (by simp)⟩
  · intro none
    cases here.symm.trans none

theorem finishMessage_spec (h : Streamed s events) :
    wp finishMessage (fun frames s' => Streamed s' (events ++ frames) ∧ SameReasoning s s' ∧
      s'.functionIndex = s.functionIndex ∧
      (s'.messageIndex = none ∧ s'.output = s.output ∨ s'.messageDone = true))
      (fun _ _ => False) s := by
  cases here : s.messageIndex with
  | none =>
    rw [wp_of_ok (finishMessage_idle (.inl here)), append_nil]
    exact ⟨h, ⟨rfl, rfl⟩, rfl, .inl ⟨here, rfl⟩⟩
  | some i =>
    cases undone : s.messageDone with
    | true =>
      rw [wp_of_ok (finishMessage_idle (.inr undone)), append_nil]
      exact ⟨h, ⟨rfl, rfl⟩, rfl, .inr undone⟩
    | false =>
      obtain ⟨id, status, found⟩ := h.message i here
      rw [wp_of_ok (finishMessage_run here undone), itemAt_of_found found, modify_of_found found]
      refine ⟨⟨?_, ?_, ?_, ?_, ?_, h.no_reasoning⟩, ⟨rfl, rfl⟩, rfl, .inr rfl⟩
      · refine (h.tracked.closed (.message id .completed [s.messageText]) _
        (.inl ⟨here, undone⟩) found rfl rfl ?_ ?_).congr fun j => ?_
        · simp [Reports, StreamEvent.outputIndex, StreamEvent.itemId, StreamEvent.addedIndex,
            StreamEvent.doneValue, StreamEvent.delta, OutputItem.id, value,
            complete]
        · rfl
        · have reasoning_apart : s.reasoningIndex = some j → j ≠ i := by
            rintro at_j rfl
            obtain ⟨id, kept⟩ := h.reasoning _ at_j
            cases found.symm.trans kept
          have function_apart : s.functionIndex = some j → j ≠ i := by
            rintro at_j rfl
            obtain ⟨id, callId, name, status, kept⟩ := h.function _ at_j
            cases found.symm.trans kept
          simp only [isOpen, here, undone, Option.some.injEq]
          grind
      · intro j found'
        obtain rfl := Option.some.inj (here.symm.trans found')
        exact ⟨id, .completed, getElem?_set_self (Tracked.lt_of_item found)⟩
      · intro j found'
        obtain ⟨id, kept⟩ := h.reasoning j found'
        exact ⟨id, getElem?_set_other found kept (by simp)⟩
      · intro j found'
        obtain ⟨id, callId, name, status, kept⟩ := h.function j found'
        exact ⟨id, callId, name, status, getElem?_set_other found kept (by simp)⟩
      · intro none
        cases here.symm.trans none

theorem finishReasoning_spec (h : Streamed s events) :
    wp finishReasoning (fun frames s' => Streamed s' (events ++ frames) ∧
      s'.reasoningIndex = s.reasoningIndex ∧
      (s'.reasoningDone = true ↔ s.reasoningIndex ≠ none) ∧
      s'.functionIndex = s.functionIndex ∧ s'.messageIndex = s.messageIndex ∧
      s'.messageDone = s.messageDone ∧ s'.output = s.output) (fun _ _ => False) s := by
  cases here : s.reasoningIndex with
  | none =>
    rw [wp_of_ok (finishReasoning_idle (.inl here)), append_nil]
    exact ⟨h, here, by simp [(h.no_reasoning here).2], rfl, rfl, rfl, rfl⟩
  | some i =>
    cases undone : s.reasoningDone with
    | true =>
      rw [wp_of_ok (finishReasoning_idle (.inr undone)), append_nil]
      exact ⟨h, here, by simp [undone], rfl, rfl, rfl, rfl⟩
    | false =>
      obtain ⟨id, found⟩ := h.reasoning i here
      rw [wp_of_ok (finishReasoning_run here undone), itemAt_of_found found]
      refine ⟨⟨?_, h.message, h.reasoning, h.function, h.no_message, ?_⟩, here, by simp, rfl, rfl,
        rfl, rfl⟩
      · have closed := h.tracked.closed (.reasoning id s.reasoningText)
          [.reasoningTextDone id i 0 s.reasoningText,
            .reasoningPartDone id i 0 s.reasoningText,
            .outputItemDone i (.reasoning id s.reasoningText)]
          (.inr (.inl ⟨here, undone⟩)) found rfl rfl (by simp [Reports, StreamEvent.outputIndex, StreamEvent.itemId, StreamEvent.addedIndex,
            StreamEvent.doneValue, StreamEvent.delta, OutputItem.id, value])
          rfl
        have same : s.output.set i (.reasoning id s.reasoningText) = s.output :=
          set_of_found found
        rw [same] at closed
        refine closed.congr fun j => ?_
        have message_apart : s.messageIndex = some j → j ≠ i := by
          rintro at_j rfl
          obtain ⟨id, status, kept⟩ := h.message _ at_j
          cases found.symm.trans kept
        have function_apart : s.functionIndex = some j → j ≠ i := by
          rintro at_j rfl
          obtain ⟨id, callId, name, status, kept⟩ := h.function _ at_j
          cases found.symm.trans kept
        simp only [isOpen, here, undone, Option.some.injEq]
        grind
      · intro none
        cases here.symm.trans none

theorem functionCallStarted_spec (h : Streamed s events) {name : String} (named : name ≠ "")
    (idle : s.functionIndex = none) :
    wp (functionCallStarted name) (fun frames s' => Streamed s' (events ++ frames) ∧
      SameReasoning s s' ∧ s'.messageDone = s.messageDone ∧ ∃ i, s'.functionIndex = some i)
      (fun _ _ => False) s := by
  rw [wp_of_ok (functionCallStarted_run named idle)]
  refine ⟨⟨?_, ?_, ?_, ?_, h.no_message, h.no_reasoning⟩, ⟨rfl, rfl⟩, rfl, _, rfl⟩
  · have opened := h.tracked.opened (.functionCall s.nextUuid (s.nextUuid + 1) name "" .inProgress)
      (.functionCall s.nextUuid (s.nextUuid + 1) name "" .inProgress) [] rfl rfl (by simp)
    refine opened.congr fun i => ?_
    simp only [isOpen, started, idle, Option.some.injEq]
    grind
  · intro i found
    obtain ⟨id, status, kept⟩ := h.message i found
    exact ⟨id, status, getElem?_append_kept kept⟩
  · intro i found
    obtain ⟨id, kept⟩ := h.reasoning i found
    exact ⟨id, getElem?_append_kept kept⟩
  · intro i found
    obtain rfl := Option.some.inj found
    exact ⟨s.nextUuid, s.nextUuid + 1, name, .inProgress, by simp [started]⟩

theorem functionCallArgumentsDelta_spec (h : Streamed s events) (text : String) {i : Nat}
    (here : s.functionIndex = some i) :
    wp (functionCallArgumentsDelta text) (fun frames s' => Streamed s' (events ++ frames) ∧
      SameReasoning s s' ∧ s'.messageDone = s.messageDone ∧ s'.functionIndex = some i)
      (fun _ _ => False) s := by
  by_cases empty : text = ""
  · subst empty
    rw [wp_of_ok (functionCallArgumentsDelta_empty here), append_nil]
    exact ⟨h, ⟨rfl, rfl⟩, rfl, here⟩
  obtain ⟨id, callId, name, status, found⟩ := h.function i here
  rw [wp_of_ok (functionCallArgumentsDelta_run here empty), itemAt_of_found found,
    modify_of_found found]
  refine ⟨⟨?_, ?_, ?_, ?_, h.no_message, h.no_reasoning⟩, ⟨rfl, rfl⟩, rfl, here⟩
  · exact h.tracked.extended
      (.functionCall id callId name (s.functionArguments ++ text) status)
      (.functionCallArgumentsDelta id i text) (.inr (.inr here)) found rfl rfl
      (by simp [Extends, StreamEvent.outputIndex, StreamEvent.itemId, StreamEvent.addedIndex,
        StreamEvent.doneValue, StreamEvent.delta, OutputItem.id])
  · intro j found'
    obtain ⟨id, status, kept⟩ := h.message j found'
    exact ⟨id, status, getElem?_set_other found kept (by simp)⟩
  · intro j found'
    obtain ⟨id, kept⟩ := h.reasoning j found'
    exact ⟨id, getElem?_set_other found kept (by simp)⟩
  · intro j found'
    obtain rfl := Option.some.inj (here.symm.trans found')
    exact ⟨id, callId, name, status, getElem?_set_self (Tracked.lt_of_item found)⟩

theorem functionCallDone_spec (h : Streamed s events) {i : Nat} (here : s.functionIndex = some i) :
    wp functionCallDone (fun frames s' => Streamed s' (events ++ frames) ∧
      SameReasoning s s' ∧ s'.messageDone = s.messageDone ∧ s'.functionIndex = none)
      (fun _ _ => False) s := by
  obtain ⟨id, callId, name, status, found⟩ := h.function i here
  rw [wp_of_ok (functionCallDone_run here), itemAt_of_found found, modify_of_found found]
  refine ⟨⟨?_, ?_, ?_, (by simp), h.no_message, h.no_reasoning⟩, ⟨rfl, rfl⟩, rfl, rfl⟩
  · refine (h.tracked.closed (.functionCall id callId name s.functionArguments .completed) _
      (.inr (.inr here)) found rfl rfl ?_ ?_).congr fun j => ?_
    · simp [Reports, StreamEvent.outputIndex, StreamEvent.itemId, StreamEvent.addedIndex,
        StreamEvent.doneValue, StreamEvent.delta, OutputItem.id, value,
        complete]
    · rfl
    · have message_apart : s.messageIndex = some j → j ≠ i := by
        rintro at_j rfl
        obtain ⟨id, status, kept⟩ := h.message _ at_j
        cases found.symm.trans kept
      have reasoning_apart : s.reasoningIndex = some j → j ≠ i := by
        rintro at_j rfl
        obtain ⟨id, kept⟩ := h.reasoning _ at_j
        cases found.symm.trans kept
      simp only [isOpen, here, Option.some.injEq]
      grind
  · intro j found'
    obtain ⟨id, status, kept⟩ := h.message j found'
    exact ⟨id, status, getElem?_set_other found kept (by simp)⟩
  · intro j found'
    obtain ⟨id, kept⟩ := h.reasoning j found'
    exact ⟨id, getElem?_set_other found kept (by simp)⟩

end Streamed

/-- A non-empty text or a tool call. -/
inductive Piece
  | reasoning (text : String) (text_ne : text ≠ "")
  | content (text : String) (text_ne : text ≠ "")
  | toolCall (call : ToolCall)

def Piece.isReasoning : Piece → Bool
  | reasoning _ _ => true
  | _ => false

def pieceFrames : Piece → PyM ResponseStreamState (List StreamEvent)
  | .reasoning text _ => reasoningDelta text
  | .content text _ => contentFrames text
  | .toolCall call => toolCallFrames call

def textPieces (piece : ∀ text : String, text ≠ "" → Piece) (text : String) : List Piece :=
  if empty : text = "" then [] else [piece text empty]

def Delta.pieces (delta : Delta) : List Piece :=
  textPieces .reasoning (delta.reasoningContent.getD "") ++
    textPieces .content (delta.content.getD "") ++ delta.toolCalls.map .toolCall

def answerPieces (deltaLists : List (List Delta)) : List Piece :=
  deltaLists.flatten.flatMap Delta.pieces

theorem collect_append (ms more : List (PyM ResponseStreamState (List StreamEvent))) :
    collect (ms ++ more) = do
      let frames ← collect ms
      let rest ← collect more
      return frames ++ rest := by
  induction ms with
  | nil =>
    funext s
    simp only [nil_append, collect, bind_run, pure_run]
    rcases collect more s with ⟨_ | _, _⟩ <;> rfl
  | cons m ms ih =>
    funext s
    simp only [cons_append, collect, ih, bind_run]
    rcases m s with ⟨_ | frames, s'⟩
    · rfl
    · dsimp only
      rcases collect ms s' with ⟨_ | _, s''⟩
      · rfl
      · dsimp only [pure_run]
        rcases collect more s'' with ⟨_ | _, _⟩ <;> simp

theorem collect_singleton (m : PyM ResponseStreamState (List StreamEvent)) :
    collect [m] = m := by
  funext s
  simp only [collect, bind_run]
  rcases m s with ⟨_ | _, _⟩ <;> simp

theorem collect_flatMap {α : Type} (f : α → List (PyM ResponseStreamState (List StreamEvent)))
    (l : List α) : collect (l.map fun a => collect (f a)) = collect (l.flatMap f) := by
  induction l with
  | nil => rfl
  | cons a l ih => rw [map_cons, collect, ih, flatMap_cons, collect_append]

theorem collect_textPieces (piece : ∀ text : String, text ≠ "" → Piece)
    (frames : String → PyM ResponseStreamState (List StreamEvent))
    (run : ∀ text text_ne, pieceFrames (piece text text_ne) = frames text)
    (empty : frames "" = pure []) (text : String) :
    collect ((textPieces piece text).map pieceFrames) = frames text := by
  by_cases text_ne : text = ""
  · subst text_ne
    simp [textPieces, empty, collect]
  · simp [textPieces, text_ne, run, collect_singleton]

theorem deltaFrames_eq (delta : Delta) :
    deltaFrames delta = collect (delta.pieces.map pieceFrames) := by
  have reasoning := collect_textPieces .reasoning reasoningFrames
    (fun text text_ne => by simp [pieceFrames, reasoningFrames, text_ne]) rfl
  have content := collect_textPieces .content contentFrames (fun _ _ => rfl) rfl
  have calls : (delta.toolCalls.map Piece.toolCall).map pieceFrames =
      delta.toolCalls.map toolCallFrames := by
    simp [pieceFrames, Function.comp_def]
  funext s
  simp only [deltaFrames, Delta.pieces, map_append, collect_append, reasoning, content, calls,
    bind_run]
  rcases reasoningFrames (delta.reasoningContent.getD "") s with ⟨_ | _, s'⟩
  · rfl
  · dsimp only
    rcases contentFrames (delta.content.getD "") s' with ⟨_ | _, s''⟩ <;> rfl

theorem responseStream_eq (deltaLists : List (List Delta)) :
    responseStream deltaLists = do
      let frames ← collect ((answerPieces deltaLists).map pieceFrames)
      let last ← finishOpenItems
      return frames ++ last := by
  have lists : collect (deltaLists.map responseStreamDeltas) =
      collect ((answerPieces deltaLists).map pieceFrames) := by
    calc
      collect (deltaLists.map fun deltas => collect (deltas.map deltaFrames))
        = collect (deltaLists.flatMap fun deltas => deltas.map deltaFrames) :=
          collect_flatMap _ _
      _ = collect (deltaLists.flatten.map deltaFrames) := by
          rw [flatMap_def, ← map_flatten]
      _ = collect (deltaLists.flatten.map fun delta => collect (delta.pieces.map pieceFrames)) := by
          rw [map_congr_left fun delta _ => deltaFrames_eq delta]
      _ = collect (deltaLists.flatten.flatMap fun delta => delta.pieces.map pieceFrames) :=
          collect_flatMap _ _
      _ = collect ((answerPieces deltaLists).map pieceFrames) := by
          rw [answerPieces, map_flatMap]
  rw [responseStream, lists]

def Resumes (pieces : List Piece) : Prop :=
  [true, false, true].Sublist (pieces.map Piece.isReasoning)

instance (pieces : List Piece) : Decidable (Resumes pieces) :=
  inferInstanceAs (Decidable (Sublist _ _))

theorem sublist_snoc {α : Type} {w l : List α} {a b : α} :
    (w ++ [a]).Sublist (l ++ [b]) ↔ (w ++ [a]).Sublist l ∨ a = b ∧ w.Sublist l := by
  have flip : ∀ u v : List α, u.Sublist v ↔ u.reverse.Sublist v.reverse :=
    fun _ _ => reverse_sublist.symm
  rw [flip, flip (w ++ [a]), flip w]
  simp only [reverse_append, reverse_singleton, singleton_append]
  constructor
  · intro sub
    cases sub with
    | cons _ sub => exact .inl sub
    | cons_cons _ sub => exact .inr ⟨rfl, sub⟩
  · rintro (sub | ⟨rfl, sub⟩)
    · exact sub.cons b
    · exact sub.cons_cons a

structure Between (s : ResponseStreamState) : Prop where
  no_function : s.functionIndex = none
  undone : s.messageDone = false

structure ReasoningSeen (s : ResponseStreamState) (pieces : List Piece) : Prop where
  seen : s.reasoningIndex ≠ none ↔ [true].Sublist (pieces.map Piece.isReasoning)
  ended : s.reasoningDone = true ↔ [true, false].Sublist (pieces.map Piece.isReasoning)

section

variable {s : ResponseStreamState} {events : List StreamEvent} {pieces : List Piece}

variable {text : String}

theorem reasoningDelta_spec (h : Streamed s events) (between : Between s) (text_ne : text ≠ "")
    (undone : s.reasoningDone = false) :
    wp (reasoningDelta text) (fun frames s' => Streamed s' (events ++ frames) ∧ Between s' ∧
      s'.reasoningDone = false ∧ s'.reasoningIndex ≠ none) (fun _ _ => False) s := by
  simp only [reasoningDelta, text_ne, if_false, wp_bind, wp_pure]
  refine wp_mono h.ensureReasoning_spec ?_ (fun _ _ no => no)
  rintro frames s₁ ⟨h₁, done₁, function₁, message₁, i, here⟩
  refine wp_mono (h₁.extendReasoning_spec text here (done₁.trans undone)) ?_ (fun _ _ no => no)
  rintro more s₂ ⟨h₂, same, function₂, message₂⟩
  rw [append_assoc] at h₂
  refine ⟨h₂, ⟨?_, ?_⟩, ?_, ?_⟩
  · rw [function₂, function₁, between.no_function]
  · rw [message₂, message₁, between.undone]
  · rw [same.done, done₁, undone]
  · rw [same.index, here]
    exact Option.some_ne_none i

theorem contentFrames_spec (h : Streamed s events) (between : Between s) (text_ne : text ≠ "") :
    wp (contentFrames text) (fun frames s' => Streamed s' (events ++ frames) ∧ Between s' ∧
      s'.reasoningIndex = s.reasoningIndex ∧
      (s'.reasoningDone = true ↔ s.reasoningIndex ≠ none)) (fun _ _ => False) s := by
  simp only [contentFrames, messageDelta, text_ne, if_false, wp_bind, wp_pure]
  refine wp_mono h.finishReasoning_spec ?_ (fun _ _ no => no)
  rintro ended s₁ ⟨h₁, index₁, done₁, function₁, -, message₁, -⟩
  refine wp_mono h₁.ensureMessage_spec ?_ (fun _ _ no => no)
  rintro frames s₂ ⟨h₂, same₂, function₂, message₂, i, here⟩
  have undone : s₂.messageDone = false := by rw [message₂, message₁, between.undone]
  refine wp_mono (h₂.extendMessage_spec text here undone) ?_ (fun _ _ no => no)
  rintro more s₃ ⟨h₃, same₃, function₃, message₃⟩
  simp only [append_assoc] at h₃
  refine ⟨h₃, ⟨?_, message₃⟩, ?_, ?_⟩
  · rw [function₃, function₂, function₁, between.no_function]
  · rw [same₃.index, same₂.index, index₁]
  · rw [same₃.done, same₂.done, done₁]

theorem toolCallFrames_spec (h : Streamed s events) (between : Between s) (call : ToolCall) :
    wp (toolCallFrames call) (fun frames s' => Streamed s' (events ++ frames) ∧ Between s' ∧
      s'.reasoningIndex = s.reasoningIndex ∧
      (s'.reasoningDone = true ↔ s.reasoningIndex ≠ none)) (fun _ _ => False) s := by
  simp only [toolCallFrames, wp_bind, wp_pure]
  refine wp_mono h.finishReasoning_spec ?_ (fun _ _ no => no)
  rintro ended s₁ ⟨h₁, index₁, done₁, function₁, -, message₁, -⟩
  refine wp_mono (h₁.functionCallStarted_spec call.name_ne
    (function₁.trans between.no_function)) ?_ (fun _ _ no => no)
  rintro frames s₂ ⟨h₂, same₂, message₂, i, here⟩
  refine wp_mono (h₂.functionCallArgumentsDelta_spec call.arguments here) ?_ (fun _ _ no => no)
  rintro more s₃ ⟨h₃, same₃, message₃, still⟩
  refine wp_mono (h₃.functionCallDone_spec still) ?_ (fun _ _ no => no)
  rintro last s₄ ⟨h₄, same₄, message₄, idle⟩
  simp only [append_assoc] at h₄ ⊢
  refine ⟨h₄, ⟨idle, ?_⟩, ?_, ?_⟩
  · rw [message₄, message₃, message₂, message₁, between.undone]
  · rw [same₄.index, same₃.index, same₂.index, index₁]
  · rw [same₄.done, same₃.done, same₂.done, done₁]

theorem pieceFrames_between (between : Between s) (piece : Piece) :
    wp (pieceFrames piece) (fun _ s' => Between s') (fun _ _ => False) s := by
  have finish : ∀ {s : ResponseStreamState}, Between s →
      wp finishReasoning (fun _ s' => Between s') (fun _ _ => False) s := by
    intro s between
    cases here : s.reasoningIndex with
    | none => rwa [wp_of_ok (finishReasoning_idle (.inl here))]
    | some i =>
      cases undone : s.reasoningDone with
      | true => rwa [wp_of_ok (finishReasoning_idle (.inr undone))]
      | false =>
        rw [wp_of_ok (finishReasoning_run here undone)]
        exact ⟨between.no_function, between.undone⟩
  cases piece with
  | reasoning text text_ne =>
    simp only [pieceFrames, reasoningDelta, text_ne, if_false, wp_bind, wp_pure]
    cases here : s.reasoningIndex with
    | none =>
      rw [wp_of_ok (ensureReasoning_new here), wp_of_ok (extendReasoning_run rfl)]
      exact ⟨between.no_function, between.undone⟩
    | some i =>
      rw [wp_of_ok (ensureReasoning_old here), wp_of_ok (extendReasoning_run here)]
      exact ⟨between.no_function, between.undone⟩
  | content text text_ne =>
    simp only [pieceFrames, contentFrames, messageDelta, text_ne, if_false, wp_bind, wp_pure]
    refine wp_mono (finish between) (fun _ s₁ between₁ => ?_) (fun _ _ no => no)
    cases here : s₁.messageIndex with
    | none =>
      rw [wp_of_ok (ensureMessage_new here), wp_of_ok (extendMessage_run rfl)]
      exact ⟨between₁.no_function, between₁.undone⟩
    | some i =>
      rw [wp_of_ok (ensureMessage_old here), wp_of_ok (extendMessage_run here)]
      exact ⟨between₁.no_function, between₁.undone⟩
  | toolCall call =>
    simp only [pieceFrames, toolCallFrames, wp_bind, wp_pure]
    refine wp_mono (finish between) (fun _ s₁ between₁ => ?_) (fun _ _ no => no)
    rw [wp_of_ok (functionCallStarted_run call.name_ne between₁.no_function)]
    have here : (s₁.started call.name).functionIndex = some s₁.output.length := rfl
    by_cases empty : call.arguments = ""
    · rw [empty, wp_of_ok (functionCallArgumentsDelta_empty here),
        wp_of_ok (functionCallDone_run here)]
      exact ⟨rfl, between₁.undone⟩
    · rw [wp_of_ok (functionCallArgumentsDelta_run here empty),
        wp_of_ok (functionCallDone_run rfl)]
      exact ⟨rfl, between₁.undone⟩

theorem reasoningDelta_late (h : Streamed s events) (text_ne : text ≠ "")
    (done : s.reasoningDone = true) :
    wp (reasoningDelta text) (fun frames _ => ¬ (events ++ frames).Pairwise NoDeltaAfterDone)
      (fun _ _ => False) s := by
  cases here : s.reasoningIndex with
  | none => simp [(h.no_reasoning here).2] at done
  | some i =>
    obtain ⟨id, found⟩ := h.reasoning i here
    have closed : ¬ s.isOpen i := by
      rintro (⟨message, -⟩ | ⟨-, undone⟩ | function)
      · obtain ⟨id, status, kept⟩ := h.message i message
        cases found.symm.trans kept
      · cases done.symm.trans undone
      · obtain ⟨id, callId, name, status, kept⟩ := h.function i function
        cases found.symm.trans kept
    obtain ⟨e, sent, reported⟩ := h.tracked.done_mem (Tracked.lt_of_item found) closed
    obtain ⟨at_index, is_done⟩ := StreamEvent.outputIndex_of_done reported
    simp only [reasoningDelta, text_ne, if_false, wp_bind, wp_pure]
    rw [wp_of_ok (ensureReasoning_old here), wp_of_ok (extendReasoning_run here)]
    intro ordered
    have late := (pairwise_append.mp ordered).2.2 e sent _ (by simp; rfl)
    cases late at_index is_done

/-- The stream is in order unless the reasoning resumed. -/
structure Answered (pieces : List Piece) (events : List StreamEvent) (s : ResponseStreamState) :
    Prop where
  between : Between s
  kept : ¬ Resumes pieces → Streamed s events ∧ ReasoningSeen s pieces
  broken : Resumes pieces → ¬ events.Pairwise NoDeltaAfterDone

variable {piece : Piece}

theorem sublist_reasoning {w : List Bool} {a : Bool} :
    (w ++ [a]).Sublist ((pieces ++ [piece]).map Piece.isReasoning) ↔
      (w ++ [a]).Sublist (pieces.map Piece.isReasoning) ∨
        a = piece.isReasoning ∧ w.Sublist (pieces.map Piece.isReasoning) := by
  rw [map_append, map_singleton, sublist_snoc]

theorem resumes_snoc :
    Resumes (pieces ++ [piece]) ↔ Resumes pieces ∨
      true = piece.isReasoning ∧ [true, false].Sublist (pieces.map Piece.isReasoning) := by
  have split : [true, false, true] = [true, false] ++ [true] := rfl
  rw [Resumes, split, sublist_reasoning]
  rfl

theorem ReasoningSeen.other (seen : ReasoningSeen s pieces) {s' : ResponseStreamState}
    (other : piece.isReasoning = false) (index : s'.reasoningIndex = s.reasoningIndex)
    (done : s'.reasoningDone = true ↔ s.reasoningIndex ≠ none) :
    ReasoningSeen s' (pieces ++ [piece]) where
  seen := by
    rw [index, seen.seen, ← nil_append [true], sublist_reasoning]
    simp [other]
  ended := by
    have split : [true, false] = [true] ++ [false] := rfl
    rw [done, seen.seen, split, sublist_reasoning]
    refine ⟨fun sub => .inr ⟨other.symm, sub⟩, ?_⟩
    rintro (sub | ⟨-, sub⟩)
    · exact (sublist_append_left [true] [false]).trans sub
    · exact sub

theorem ReasoningSeen.reasoning (seen : ReasoningSeen s pieces) {s' : ResponseStreamState}
    (reasoning : piece.isReasoning = true) (index : s'.reasoningIndex ≠ none)
    (undone : s.reasoningDone = false) (undone' : s'.reasoningDone = false) :
    ReasoningSeen s' (pieces ++ [piece]) where
  seen := by
    rw [← nil_append [true], sublist_reasoning]
    simp [reasoning, index]
  ended := by
    have split : [true, false] = [true] ++ [false] := rfl
    rw [split, sublist_reasoning, ← split, ← seen.ended, undone, undone', reasoning]
    simp

theorem answered_step (h : Answered pieces events s) (piece : Piece) :
    wp (pieceFrames piece) (fun frames s' => Answered (pieces ++ [piece]) (events ++ frames) s')
      (fun _ _ => False) s := by
  have between := pieceFrames_between h.between piece
  by_cases resumed : Resumes pieces
  · refine wp_mono between (fun frames s' between' => ?_) (fun _ _ no => no)
    have again : Resumes (pieces ++ [piece]) := resumes_snoc.mpr (.inl resumed)
    refine ⟨between', fun no => absurd again no, fun _ ordered => ?_⟩
    exact h.broken resumed (pairwise_append.mp ordered).1
  obtain ⟨streamed, seen⟩ := h.kept resumed
  cases piece with
  | reasoning text text_ne =>
    cases done : s.reasoningDone with
    | true =>
      -- the item is done: the delta breaks the order, for good
      have late := reasoningDelta_late streamed text_ne done
      refine wp_mono (wp_and between late) (fun frames s' both => ?_) (fun _ _ no => no.1)
      have again : Resumes (pieces ++ [.reasoning text text_ne]) :=
        resumes_snoc.mpr (.inr ⟨rfl, seen.ended.mp done⟩)
      exact ⟨both.1, fun no => absurd again no, fun _ => both.2⟩
    | false =>
      have spec := reasoningDelta_spec streamed h.between text_ne done
      refine wp_mono spec (fun frames s' post => ?_) (fun _ _ no => no)
      obtain ⟨streamed', between', done', index⟩ := post
      refine ⟨between', fun _ => ⟨streamed', seen.reasoning rfl index done done'⟩, ?_⟩
      intro again
      rcases resumes_snoc.mp again with old | ⟨-, ended⟩
      · exact absurd old resumed
      · rw [← seen.ended, done] at ended
        cases ended
  | content text text_ne =>
    have spec := contentFrames_spec streamed h.between text_ne
    refine wp_mono spec (fun frames s' post => ?_) (fun _ _ no => no)
    obtain ⟨streamed', between', index, done⟩ := post
    refine ⟨between', fun _ => ⟨streamed', seen.other rfl index done⟩, fun again => ?_⟩
    rcases resumes_snoc.mp again with old | ⟨no, -⟩
    · exact absurd old resumed
    · cases no
  | toolCall call =>
    have spec := toolCallFrames_spec streamed h.between call
    refine wp_mono spec (fun frames s' post => ?_) (fun _ _ no => no)
    obtain ⟨streamed', between', index, done⟩ := post
    refine ⟨between', fun _ => ⟨streamed', seen.other rfl index done⟩, fun again => ?_⟩
    rcases resumes_snoc.mp again with old | ⟨no, -⟩
    · exact absurd old resumed
    · cases no

theorem answered_run (rest : List Piece) :
    ∀ {pieces : List Piece} {events : List StreamEvent} {s : ResponseStreamState},
      Answered pieces events s → wp (collect (rest.map pieceFrames))
        (fun frames s' => Answered (pieces ++ rest) (events ++ frames) s') (fun _ _ => False) s := by
  induction rest with
  | nil =>
    intro pieces events s h
    simpa [collect] using h
  | cons piece rest ih =>
    intro pieces events s h
    simp only [map_cons, collect, wp_bind, wp_pure]
    refine wp_mono (answered_step h piece) (fun frames s₁ h₁ => ?_) (fun _ _ no => no)
    refine wp_mono (ih h₁) (fun more s₂ h₂ => ?_) (fun _ _ no => no)
    simpa using h₂

theorem answered_start : Answered [] [] {} where
  between := ⟨rfl, rfl⟩
  kept _ := ⟨Streamed.start, by simp, by simp⟩
  broken resumed := by simp [Resumes] at resumed

end

section

variable {s : ResponseStreamState} {events : List StreamEvent}

theorem none_open (function : s.functionIndex = none)
    (message : s.messageIndex = none ∨ s.messageDone = true)
    (reasoning : s.reasoningIndex = none ∨ s.reasoningDone = true) (i : Nat) : ¬ s.isOpen i := by
  rintro (⟨here, undone⟩ | ⟨here, undone⟩ | here)
  · rcases message with none | done
    · cases none.symm.trans here
    · cases done.symm.trans undone
  · rcases reasoning with none | done
    · cases none.symm.trans here
    · cases done.symm.trans undone
  · cases function.symm.trans here

theorem finishEmpty_spec (h : Streamed s events) (function : s.functionIndex = none)
    (message : s.messageIndex = none ∨ s.messageDone = true)
    (reasoning : s.reasoningIndex = none ∨ s.reasoningDone = true) :
    wp finishEmpty (fun frames s' => WellFormedStream (events ++ frames) s'.output)
      (fun _ _ => False) s := by
  simp only [finishEmpty, wp_bind, wp_get, wp_ite, wp_pure]
  split
  · refine wp_mono h.ensureMessage_spec ?_ (fun _ _ no => no)
    rintro frames s₁ ⟨h₁, same₁, function₁, -, -⟩
    refine wp_mono h₁.finishMessage_spec ?_ (fun _ _ no => no)
    rintro more s₂ ⟨h₂, same₂, function₂, message₂⟩
    rw [append_assoc] at h₂
    refine h₂.tracked.wellFormed (none_open ?_ (message₂.imp_left And.left) ?_)
    · rw [function₂, function₁, function]
    · rwa [same₂.index, same₁.index, same₂.done, same₁.done]
  · rw [append_nil]
    exact h.tracked.wellFormed (none_open function message reasoning)

theorem finishOpenItems_spec (h : Streamed s events) (between : Between s) :
    wp finishOpenItems (fun frames s' => WellFormedStream (events ++ frames) s'.output)
      (fun _ _ => False) s := by
  simp only [finishOpenItems, wp_bind, wp_pure]
  refine wp_mono h.finishMessage_spec ?_ (fun _ _ no => no)
  rintro message s₁ ⟨h₁, same₁, function₁, message₁⟩
  refine wp_mono h₁.finishReasoning_spec ?_ (fun _ _ no => no)
  rintro reasoning s₂ ⟨h₂, index₂, done₂, function₂, message₂, messageDone₂, output₂⟩
  have idle : s₂.functionIndex = none := by rw [function₂, function₁, between.no_function]
  rw [wp_of_ok (finishFunctionCall_idle idle)]
  have message_closed : s₂.messageIndex = none ∨ s₂.messageDone = true := by
    rw [message₂, messageDone₂]
    exact message₁.imp_left And.left
  have reasoning_closed : s₂.reasoningIndex = none ∨ s₂.reasoningDone = true := by
    rw [index₂, done₂]
    exact em _
  refine wp_mono (finishEmpty_spec h₂ idle message_closed reasoning_closed) ?_ (fun _ _ no => no)
  intro empty s₃ formed
  simpa using formed

theorem finishMessage_returns :
    wp finishMessage (fun _ s' => s'.functionIndex = s.functionIndex) (fun _ _ => False) s := by
  cases here : s.messageIndex with
  | none => rw [wp_of_ok (finishMessage_idle (.inl here))]
  | some i =>
    cases undone : s.messageDone with
    | true => rw [wp_of_ok (finishMessage_idle (.inr undone))]
    | false => rw [wp_of_ok (finishMessage_run here undone)]

theorem finishReasoning_returns :
    wp finishReasoning (fun _ s' => s'.functionIndex = s.functionIndex) (fun _ _ => False) s := by
  cases here : s.reasoningIndex with
  | none => rw [wp_of_ok (finishReasoning_idle (.inl here))]
  | some i =>
    cases undone : s.reasoningDone with
    | true => rw [wp_of_ok (finishReasoning_idle (.inr undone))]
    | false => rw [wp_of_ok (finishReasoning_run here undone)]

theorem ensureMessage_returns : wp ensureMessage (fun _ _ => True) (fun _ _ => False) s := by
  cases here : s.messageIndex with
  | none => rw [wp_of_ok (ensureMessage_new here)]; trivial
  | some i => rw [wp_of_ok (ensureMessage_old here)]; trivial

theorem finishOpenItems_returns (between : Between s) :
    wp finishOpenItems (fun _ _ => True) (fun _ _ => False) s := by
  simp only [finishOpenItems, wp_bind, wp_pure]
  refine wp_mono finishMessage_returns (fun _ s₁ function₁ => ?_) (fun _ _ no => no)
  refine wp_mono finishReasoning_returns (fun _ s₂ function₂ => ?_) (fun _ _ no => no)
  have idle : s₂.functionIndex = none := by rw [function₂, function₁, between.no_function]
  rw [wp_of_ok (finishFunctionCall_idle idle)]
  simp only [finishEmpty, wp_bind, wp_get, wp_ite, wp_pure]
  split
  · refine wp_mono ensureMessage_returns (fun _ s₃ _ => ?_) (fun _ _ no => no)
    exact wp_mono finishMessage_returns (fun _ _ _ => trivial) (fun _ _ no => no)
  · trivial

end

/-- The whole stream returns, and its events are well formed if and only if no reasoning comes
back after a content or a tool call ended it. -/
theorem response_stream_well_formed (deltaLists : List (List Delta)) :
    ∃ events s, responseStream deltaLists {} = (.ok events, s) ∧
      (WellFormedStream events s.output ↔ ¬ Resumes (answerPieces deltaLists)) := by
  have run : wp (responseStream deltaLists) (fun events s =>
      WellFormedStream events s.output ↔ ¬ Resumes (answerPieces deltaLists))
      (fun _ _ => False) {} := by
    rw [responseStream_eq]
    simp only [wp_bind, wp_pure]
    refine wp_mono (answered_run _ answered_start) (fun frames s h => ?_) (fun _ _ no => no)
    simp only [nil_append] at h
    by_cases resumed : Resumes (answerPieces deltaLists)
    · refine wp_mono (finishOpenItems_returns h.between) (fun last s' _ => ?_) (fun _ _ no => no)
      refine iff_of_false (fun formed => ?_) (not_not_intro resumed)
      exact h.broken resumed (pairwise_append.mp formed.no_delta_after_done).1
    · obtain ⟨streamed, -⟩ := h.kept resumed
      refine wp_mono (finishOpenItems_spec streamed h.between) (fun last s' formed => ?_)
        (fun _ _ no => no)
      exact iff_of_true formed resumed
  exact exists_of_wp run

def interleavedDeltas : List (List Delta) :=
  [[{ reasoningContent := some "a" }], [{ content := some "b" }],
    [{ reasoningContent := some "c" }]]

/-- The second reasoning delta follows the done events of its item, which reported another
text than the output has. -/
theorem response_stream_resumed :
    ∃ events s, responseStream interleavedDeltas {} = (.ok events, s) ∧
      ¬ WellFormedStream events s.output ∧ .reasoningTextDone 0 0 0 "a" ∈ events ∧
      s.output = [.reasoning 0 "ac", .message 1 .completed ["b"]] := by
  refine ⟨_, _, rfl, fun formed => ?_, by decide +kernel, by decide +kernel⟩
  exact absurd formed.no_delta_after_done (by decide +kernel)

end SparseEngine.Responses
