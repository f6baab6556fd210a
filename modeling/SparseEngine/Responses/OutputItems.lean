import SparseEngine.Responses.WellFormed

/-! A streamed answer leaves its items in `_ResponseStreamState.output`. -/

namespace SparseEngine.Responses

open PyM ResponseStreamState OutputItem

abbrev TextDelta : Type := { text : String // text ≠ "" }

def textOf (deltas : List TextDelta) : String := joined (deltas.map Subtype.val)

/-- The pieces of an answer in the order of `_response_stream_deltas`. -/
def orderedPieces (reasoning content : List TextDelta) (calls : List ToolCall) : List Piece :=
  reasoning.map (fun t => .reasoning t.1 t.2) ++ content.map (fun t => .content t.1 t.2) ++
    calls.map .toolCall

/-- The whole answer with these texts. -/
def parsedAnswer (reasoning content : String) (calls : List ToolCall) : ParsedModelResponse where
  reasoningContent := if reasoning = "" then none else some reasoning
  content := content
  toolCalls := calls

def reasoningItems (text : String) : List OutputItem :=
  if text = "" then [] else [.reasoning 0 text]

def messageItems (status : ItemStatus) (text : String) : List OutputItem :=
  if text = "" then [] else [.message 0 status [text]]

def functionCallItems (calls : List ToolCall) : List OutputItem :=
  calls.map fun call => .functionCall 0 0 call.name call.arguments .completed

theorem append_ne_empty (text : String) (delta : TextDelta) : text ++ delta.1 ≠ "" := by
  intro empty
  have lengths := congrArg String.length empty
  have positive : delta.1.length ≠ 0 := fun zero => delta.2 (String.length_eq_zero_iff.mp zero)
  simp only [String.length_append, String.length_empty] at lengths
  omega

structure Shown (reasoning content : String) (calls : List ToolCall) (s : ResponseStreamState) :
    Prop where
  items : s.output.map withoutIds =
    reasoningItems reasoning ++ messageItems .inProgress content ++ functionCallItems calls
  reasoningIndex : s.reasoningIndex = if reasoning = "" then none else some 0
  reasoningText : s.reasoningText = reasoning
  messageIndex : s.messageIndex =
    if content = "" then none else some (reasoningItems reasoning).length
  messageText : s.messageText = content
  between : Between s

section

variable {output : List OutputItem} {f g : OutputItem → OutputItem}

theorem map_modify_withoutIds (commute : ∀ item, (f item).withoutIds = f item.withoutIds)
    (i : Nat) : (output.modify i f).map withoutIds =
      (output.map withoutIds).modify i f := by
  refine List.ext_getElem? fun k => ?_
  by_cases here : i = k
  · subst here
    simp [Function.comp_def, commute]
  · simp [List.getElem?_modify_ne, here]

theorem modify_append_at (before after : List OutputItem) (item : OutputItem) :
    (before ++ item :: after).modify before.length f = before ++ f item :: after := by
  simp [List.modify_eq_take_cons_drop]

end

section

variable {s : ResponseStreamState} {reasoning content : String} {calls : List ToolCall}

theorem shown_start : Shown "" "" [] {} := by
  constructor <;> first | rfl | exact ⟨rfl, rfl⟩

theorem Shown.finishReasoning (h : Shown reasoning content calls s) :
    wp finishReasoning (fun _ s' => Shown reasoning content calls s') (fun _ _ => False) s := by
  cases here : s.reasoningIndex with
  | none => rwa [wp_of_ok (finishReasoning_idle (.inl here))]
  | some i =>
    cases undone : s.reasoningDone with
    | true => rwa [wp_of_ok (finishReasoning_idle (.inr undone))]
    | false =>
      rw [wp_of_ok (finishReasoning_run here undone)]
      exact ⟨h.items, h.reasoningIndex, h.reasoningText, h.messageIndex, h.messageText,
        h.between.no_function, h.between.undone⟩

theorem Shown.addReasoning (h : Shown reasoning "" [] s) (delta : TextDelta) :
    wp (reasoningDelta delta.1) (fun _ s' => Shown (reasoning ++ delta.1) "" [] s')
      (fun _ _ => False) s := by
  have more := append_ne_empty reasoning delta
  simp only [reasoningDelta, delta.2, if_false, wp_bind, wp_pure]
  by_cases fresh : reasoning = ""
  · have here : s.reasoningIndex = none := by rw [h.reasoningIndex, if_pos fresh]
    have empty : s.output = [] := by
      simpa [reasoningItems, messageItems, functionCallItems, fresh] using h.items
    rw [wp_of_ok (ensureReasoning_new here), wp_of_ok (extendReasoning_run rfl)]
    refine ⟨?_, ?_, ?_, h.messageIndex, h.messageText, h.between.no_function, h.between.undone⟩
    · simp [setText, withoutIds, empty, reasoningItems,
        messageItems, functionCallItems, more, h.reasoningText]
    · simp [empty, more]
    · simp [h.reasoningText]
  · have here : s.reasoningIndex = some 0 := by rw [h.reasoningIndex, if_neg fresh]
    rw [wp_of_ok (ensureReasoning_old here), wp_of_ok (extendReasoning_run here)]
    refine ⟨?_, ?_, ?_, h.messageIndex, h.messageText, h.between.no_function, h.between.undone⟩
    · rw [map_modify_withoutIds (by rintro (_ | _ | _) <;> rfl), h.items]
      simp [setText, reasoningItems, messageItems, functionCallItems, fresh, more,
        h.reasoningText]
    · simp [here, more]
    · simp [h.reasoningText]

theorem Shown.addContent (h : Shown reasoning content [] s) (delta : TextDelta) :
    wp (contentFrames delta.1) (fun _ s' => Shown reasoning (content ++ delta.1) [] s')
      (fun _ _ => False) s := by
  have more := append_ne_empty content delta
  simp only [contentFrames, messageDelta, delta.2, if_false, wp_bind, wp_pure]
  refine wp_mono h.finishReasoning (fun _ s₁ h₁ => ?_) (fun _ _ no => no)
  by_cases fresh : content = ""
  · have here : s₁.messageIndex = none := by rw [h₁.messageIndex, if_pos fresh]
    have items : s₁.output.map withoutIds = reasoningItems reasoning := by
      simpa [messageItems, functionCallItems, fresh] using h₁.items
    have length : s₁.output.length = (reasoningItems reasoning).length := by
      rw [← items, List.length_map]
    rw [wp_of_ok (ensureMessage_new here), wp_of_ok (extendMessage_run rfl)]
    refine ⟨?_, h₁.reasoningIndex, h₁.reasoningText, ?_, ?_, h₁.between.no_function,
      h₁.between.undone⟩
    · simp [modify_append_last, setPartText, withoutIds, items,
        messageItems, functionCallItems, more, h₁.messageText]
    · simp [length, more]
    · simp [h₁.messageText]
  · have here : s₁.messageIndex = some (reasoningItems reasoning).length := by
      rw [h₁.messageIndex, if_neg fresh]
    rw [wp_of_ok (ensureMessage_old here), wp_of_ok (extendMessage_run here)]
    refine ⟨?_, h₁.reasoningIndex, h₁.reasoningText, ?_, ?_, h₁.between.no_function,
      h₁.between.undone⟩
    · rw [map_modify_withoutIds (by rintro (_ | _ | _) <;> rfl), h₁.items]
      simp [modify_append_at, setPartText, messageItems, functionCallItems, fresh,
        more, h₁.messageText]
    · simp [here, more]
    · simp [h₁.messageText]

theorem Shown.addToolCall (h : Shown reasoning content calls s) (call : ToolCall) :
    wp (toolCallFrames call) (fun _ s' => Shown reasoning content (calls ++ [call]) s')
      (fun _ _ => False) s := by
  simp only [toolCallFrames, wp_bind, wp_pure]
  refine wp_mono h.finishReasoning (fun _ s₁ h₁ => ?_) (fun _ _ no => no)
  rw [wp_of_ok (functionCallStarted_run call.name_ne h₁.between.no_function)]
  have here : (s₁.started call.name).functionIndex = some s₁.output.length := rfl
  have finished : (s₁.output ++ [functionCall s₁.nextUuid (s₁.nextUuid + 1) call.name
      call.arguments .completed]).map withoutIds =
        reasoningItems reasoning ++ messageItems .inProgress content ++
          functionCallItems (calls ++ [call]) := by
    simp [h₁.items, functionCallItems, withoutIds]
  by_cases empty : call.arguments = ""
  · rw [empty, wp_of_ok (functionCallArgumentsDelta_empty here),
      wp_of_ok (functionCallDone_run here)]
    refine ⟨?_, h₁.reasoningIndex, h₁.reasoningText, h₁.messageIndex, h₁.messageText, rfl,
      h₁.between.undone⟩
    simpa [started, modify_append_last, complete, empty] using finished
  · rw [wp_of_ok (functionCallArgumentsDelta_run here empty), wp_of_ok (functionCallDone_run rfl)]
    refine ⟨?_, h₁.reasoningIndex, h₁.reasoningText, h₁.messageIndex, h₁.messageText, rfl,
      h₁.between.undone⟩
    simpa [started, modify_append_last, complete, setArguments]
      using finished

theorem collect_inv {α β : Type} {frames : α → PyM ResponseStreamState (List StreamEvent)}
    {I : β → ResponseStreamState → Prop} {add : β → α → β}
    (step : ∀ b a s, I b s → wp (frames a) (fun _ s' => I (add b a) s') (fun _ _ => False) s)
    (l : List α) : ∀ (b : β) (s : ResponseStreamState), I b s →
      wp (collect (l.map frames)) (fun _ s' => I (l.foldl add b) s') (fun _ _ => False) s := by
  induction l with
  | nil => exact fun b s h => h
  | cons a l ih =>
    intro b s h
    simp only [List.map_cons, collect, wp_bind, wp_pure, List.foldl_cons]
    exact wp_mono (step b a s h) (fun _ s₁ h₁ => ih _ s₁ h₁) (fun _ _ no => no)

theorem foldl_text (deltas : List TextDelta) (text : String) :
    deltas.foldl (fun text delta => text ++ delta.1) text = text ++ textOf deltas := by
  induction deltas generalizing text with
  | nil => simp [textOf]
  | cons delta deltas ih => simp [ih, textOf, String.append_assoc]

theorem foldl_calls (more : List ToolCall) (calls : List ToolCall) :
    more.foldl (fun calls call => calls ++ [call]) calls = calls ++ more := by
  induction more generalizing calls with
  | nil => simp
  | cons call more ih => simp [ih]

theorem shown_run (reasoning content : List TextDelta) (calls : List ToolCall) :
    wp (collect ((orderedPieces reasoning content calls).map pieceFrames))
      (fun _ s => Shown (textOf reasoning) (textOf content) calls s) (fun _ _ => False) {} := by
  have reasoned := collect_inv (I := fun text s => Shown text "" [] s)
    (fun _ delta _ h => h.addReasoning delta) reasoning "" {} shown_start
  simp only [foldl_text, String.empty_append] at reasoned
  simp only [orderedPieces, List.map_append, List.map_map, collect_append, wp_bind, wp_pure]
  refine wp_mono reasoned (fun _ s₁ h₁ => ?_) (fun _ _ no => no)
  have answered := collect_inv (I := fun text s => Shown (textOf reasoning) text [] s)
    (fun _ delta _ h => h.addContent delta) content "" s₁ h₁
  simp only [foldl_text, String.empty_append] at answered
  refine wp_mono answered (fun _ s₂ h₂ => ?_) (fun _ _ no => no)
  have called := collect_inv (I := fun calls s =>
    Shown (textOf reasoning) (textOf content) calls s)
    (fun _ call _ h => h.addToolCall call) calls [] s₂ h₂
  simp only [foldl_calls, List.nil_append] at called
  exact called

end

/-- The items `finish_open_items` leaves, up to ids. -/
def streamedItems (reasoning content : String) (calls : List ToolCall) : List OutputItem :=
  if reasoning = "" ∧ content = "" ∧ calls = [] then [.message 0 .completed [""]]
  else reasoningItems reasoning ++ messageItems .completed content ++ functionCallItems calls

section

variable {s : ResponseStreamState} {reasoning content : String} {calls : List ToolCall}

/-- The items after `_finish_message`. -/
structure Finished (reasoning content : String) (calls : List ToolCall)
    (s : ResponseStreamState) : Prop where
  items : s.output.map withoutIds =
    reasoningItems reasoning ++ messageItems .completed content ++ functionCallItems calls
  no_function : s.functionIndex = none
  no_message : content = "" → s.messageIndex = none ∧ s.messageDone = false

theorem Shown.finishMessage (h : Shown reasoning content calls s) :
    wp finishMessage (fun _ s' => Finished reasoning content calls s') (fun _ _ => False) s := by
  by_cases empty : content = ""
  · have idle : s.messageIndex = none := by rw [h.messageIndex, if_pos empty]
    rw [wp_of_ok (finishMessage_idle (.inl idle))]
    refine ⟨?_, h.between.no_function, fun _ => ⟨idle, h.between.undone⟩⟩
    simpa [messageItems, empty] using h.items
  · have here : s.messageIndex = some (reasoningItems reasoning).length := by
      rw [h.messageIndex, if_neg empty]
    rw [wp_of_ok (finishMessage_run here h.between.undone)]
    refine ⟨?_, h.between.no_function, fun no => absurd no empty⟩
    rw [map_modify_withoutIds (by rintro (_ | _ | _) <;> rfl), h.items]
    simp [modify_append_at, complete, messageItems, empty]

theorem Finished.finishReasoning (h : Finished reasoning content calls s) :
    wp finishReasoning (fun _ s' => Finished reasoning content calls s') (fun _ _ => False) s := by
  cases here : s.reasoningIndex with
  | none => rwa [wp_of_ok (finishReasoning_idle (.inl here))]
  | some i =>
    cases undone : s.reasoningDone with
    | true => rwa [wp_of_ok (finishReasoning_idle (.inr undone))]
    | false =>
      rw [wp_of_ok (finishReasoning_run here undone)]
      exact ⟨h.items, h.no_function, h.no_message⟩

theorem no_items_iff (status : ItemStatus) :
    reasoningItems reasoning ++ messageItems status content ++ functionCallItems calls = [] ↔
      reasoning = "" ∧ content = "" ∧ calls = [] := by
  simp [reasoningItems, messageItems, functionCallItems]

theorem Finished.finishEmpty (h : Finished reasoning content calls s) :
    wp finishEmpty (fun _ s' =>
      s'.output.map withoutIds = streamedItems reasoning content calls)
      (fun _ _ => False) s := by
  simp only [ResponseStreamState.finishEmpty, wp_bind, wp_get, wp_ite, wp_pure]
  have empty_iff : s.output = [] ↔ reasoning = "" ∧ content = "" ∧ calls = [] := by
    rw [← no_items_iff .completed, ← h.items, List.map_eq_nil_iff]
  by_cases empty : s.output = []
  · have nothing := empty_iff.mp empty
    obtain ⟨idle, undone⟩ := h.no_message nothing.2.1
    rw [if_pos empty, wp_of_ok (ensureMessage_new idle), wp_of_ok (finishMessage_run rfl ?undone)]
    case undone => exact undone
    simp [empty, streamedItems, nothing, complete, withoutIds]
  · rw [if_neg empty, h.items, streamedItems, if_neg fun nothing => empty (empty_iff.mpr nothing)]

theorem Shown.finishOpenItems (h : Shown reasoning content calls s) :
    wp finishOpenItems (fun _ s' =>
      s'.output.map withoutIds = streamedItems reasoning content calls)
      (fun _ _ => False) s := by
  simp only [ResponseStreamState.finishOpenItems, wp_bind, wp_pure]
  refine wp_mono h.finishMessage (fun _ s₁ h₁ => ?_) (fun _ _ no => no)
  refine wp_mono h₁.finishReasoning (fun _ s₂ h₂ => ?_) (fun _ _ no => no)
  rw [wp_of_ok (finishFunctionCall_idle h₂.no_function)]
  exact h₂.finishEmpty

end

theorem functionCallOutputItems_spec (calls : List ToolCall) (next : Nat) :
    wp (functionCallOutputItems calls)
      (fun items _ => items.map withoutIds = functionCallItems calls)
      (fun _ _ => False) next := by
  induction calls generalizing next with
  | nil => rfl
  | cons call calls ih =>
    simp only [functionCallOutputItems, wp_bind, wp_pure]
    have item : functionCallOutputItem call next =
        (.ok (.functionCall next (next + 1) call.name call.arguments .completed), next + 2) := rfl
    rw [wp_of_ok item]
    refine wp_mono (ih (next + 2)) (fun items _ same => ?_) (fun _ _ no => no)
    rw [List.map_cons, same]
    rfl

/-- The items of `_response_output_items`, up to ids. -/
def builtItems (reasoning content : String) (calls : List ToolCall) : List OutputItem :=
  reasoningItems reasoning ++
    if calls ≠ [] then functionCallItems calls
    else if content ≠ "" ∨ reasoning = "" then [.message 0 .completed [content]]
    else []

theorem reasoningOutputItems_spec (reasoning content : String) (calls : List ToolCall)
    (next : Nat) :
    wp (reasoningOutputItems (parsedAnswer reasoning content calls).reasoningContent)
      (fun items _ => items.map withoutIds = reasoningItems reasoning)
      (fun _ _ => False) next := by
  by_cases empty : reasoning = ""
  · simp [parsedAnswer, empty, reasoningItems, reasoningOutputItems]
  · have drawn : drawUuid next = (.ok next, next + 1) := rfl
    simp [parsedAnswer, empty, reasoningItems, reasoningOutputItems, wp_of_ok drawn,
      withoutIds]

theorem answerOutputItems_spec (reasoning content : String) (calls : List ToolCall)
    (next : Nat) :
    wp (answerOutputItems (parsedAnswer reasoning content calls))
      (fun items _ => items.map withoutIds =
        if calls ≠ [] then functionCallItems calls
        else if content ≠ "" ∨ reasoning = "" then [.message 0 .completed [content]]
        else []) (fun _ _ => False) next := by
  have no_reasoning : (parsedAnswer reasoning content calls).reasoningContent = none ↔
      reasoning = "" := by
    simp [parsedAnswer]
  have drawn : drawUuid next = (.ok next, next + 1) := rfl
  by_cases called : calls = []
  · by_cases shown : content ≠ "" ∨ reasoning = ""
    · simp only [answerOutputItems, no_reasoning, messageOutputItem, wp_ite, wp_bind, wp_pure,
        wp_of_ok drawn]
      simp [parsedAnswer, called, shown, withoutIds]
    · simp only [answerOutputItems, no_reasoning, wp_ite, wp_pure]
      simp only [parsedAnswer, called, ne_eq, not_true_eq_false, if_false, if_neg shown]
      rfl
  · have spec := functionCallOutputItems_spec calls next
    simpa [answerOutputItems, parsedAnswer, called] using spec

theorem responseOutputItems_spec (reasoning content : String) (calls : List ToolCall)
    (next : Nat) :
    wp (responseOutputItems (parsedAnswer reasoning content calls))
      (fun items _ => items.map withoutIds = builtItems reasoning content calls)
      (fun _ _ => False) next := by
  simp only [responseOutputItems, wp_bind, wp_pure]
  refine wp_mono (reasoningOutputItems_spec reasoning content calls next) ?_ (fun _ _ no => no)
  intro items next' first
  refine wp_mono (answerOutputItems_spec reasoning content calls next') ?_ (fun _ _ no => no)
  intro more _ second
  rw [List.map_append, first, second, builtItems]

theorem streamedItems_eq_builtItems (reasoning content : String) (calls : List ToolCall) :
    streamedItems reasoning content calls = builtItems reasoning content calls ↔
      content = "" ∨ calls = [] := by
  by_cases silent : content = ""
  · by_cases called : calls = []
    · by_cases thought : reasoning = ""
      · simp [streamedItems, builtItems, reasoningItems, silent, called, thought]
      · simp [streamedItems, builtItems, messageItems, functionCallItems, silent, called, thought]
    · simp [streamedItems, builtItems, messageItems, silent, called]
  · by_cases called : calls = []
    · simp [streamedItems, builtItems, messageItems, functionCallItems, silent, called]
    · simp [streamedItems, builtItems, messageItems, silent, called]

/-- For an answer cut into deltas in any way, the streamed and the built output are the same up
to ids if and only if the answer has no content or no tool call. -/
theorem response_outputs_agree (reasoning content : List TextDelta) (calls : List ToolCall)
    (deltaLists : List (List Delta))
    (ordered : answerPieces deltaLists = orderedPieces reasoning content calls) (next : Nat) :
    ∃ events s items next', responseStream deltaLists {} = (.ok events, s) ∧
      responseOutputItems (parsedAnswer (textOf reasoning) (textOf content) calls) next =
        (.ok items, next') ∧
      (s.output.map withoutIds = items.map withoutIds ↔
        textOf content = "" ∨ calls = []) := by
  have streamed : wp (responseStream deltaLists)
      (fun _ s => s.output.map withoutIds =
        streamedItems (textOf reasoning) (textOf content) calls) (fun _ _ => False) {} := by
    rw [responseStream_eq, ordered]
    simp only [wp_bind, wp_pure]
    refine wp_mono (shown_run reasoning content calls) (fun _ s h => ?_) (fun _ _ no => no)
    exact h.finishOpenItems
  obtain ⟨events, s, ran, output⟩ := exists_of_wp streamed
  obtain ⟨items, next', built, same⟩ := exists_of_wp
    (responseOutputItems_spec (textOf reasoning) (textOf content) calls next)
  refine ⟨events, s, items, next', ran, built, ?_⟩
  rw [output, same]
  exact streamedItems_eq_builtItems _ _ _

def preambleDeltas : List (List Delta) :=
  [[{ content := some "a" }], [{ toolCalls := [⟨"f", "", by decide⟩] }]]

def preambleAnswer : ParsedModelResponse :=
  parsedAnswer "" "a" [⟨"f", "", by decide⟩]

theorem response_outputs_agree_preamble :
    ∃ events s items next', responseStream preambleDeltas {} = (.ok events, s) ∧
      responseOutputItems (parsedAnswer "" "a" [⟨"f", "", by decide⟩]) 0 = (.ok items, next') ∧
      (s.output.map withoutIds = items.map withoutIds ↔ False) := by
  obtain ⟨events, s, items, next', ran, built, agree⟩ :=
    response_outputs_agree [] [⟨"a", by decide⟩] [⟨"f", "", by decide⟩] preambleDeltas rfl 0
  have texts : textOf [⟨"a", by decide⟩] = "a" := by decide +kernel
  rw [texts] at built agree
  refine ⟨events, s, items, next', ran, built, agree.trans ?_⟩
  decide +kernel

/-- The streamed answer keeps the message, the built one drops it. -/
theorem response_outputs_differ :
    ∃ events s items next', responseStream preambleDeltas {} = (.ok events, s) ∧
      responseOutputItems preambleAnswer 0 = (.ok items, next') ∧
      s.output.map withoutIds ≠ items.map withoutIds ∧
      s.output = [.message 0 .completed ["a"], .functionCall 1 2 "f" "" .completed] ∧
      items = [.functionCall 0 1 "f" "" .completed] :=
  ⟨_, _, _, _, rfl, rfl, by decide +kernel, by decide +kernel, by decide +kernel⟩

end SparseEngine.Responses
