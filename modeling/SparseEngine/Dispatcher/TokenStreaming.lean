import SparseEngine.Dispatcher.Detokenizer

/-! The dispatcher's side of one active request. -/

namespace SparseEngine.Dispatcher

/-- The fields of an `_ActiveRequest` that never change. -/
structure RequestOptions where
  maxTokens : Nat
  stop : List Text := []
  stream : Bool := true
  eosTokenIds : List Int := []
  ignoreEos : Bool := false

inductive FinishReason
  | stop
  | length
deriving DecidableEq, Repr

inductive StreamEvent
  | token (text rawTextDelta : Text) (tokenIds : List Int)
  | final (text rawText textDelta : Text) (finishReason : FinishReason) (tokenIds : List Int)
deriving DecidableEq, Repr

/-- `_ActiveRequest`. -/
structure ActiveRequest where
  options : RequestOptions
  completionTokenIds : List Int := []
  detokenizer : Detokenizer := {}
  terminal : Bool := false
  emittedTextLen : Nat := 0
  emittedRawTextLen : Nat := 0
  pendingTokenIds : List Int := []
  pendingLogprobs : List Bool := []
  events : List StreamEvent := []

def contentTokens (eosTokenIds tokenIds : List Int) : List Int :=
  tokenIds.rdropWhile fun id => decide (id ∈ eosTokenIds)

def parserText (T : Tokenizer) (o : RequestOptions) (tokenIds : List Int) (rawText : Text) : Text :=
  if o.ignoreEos ∨ o.eosTokenIds = [] ∨
      tokenIds.getLast?.all (fun last => decide (last ∉ o.eosTokenIds)) then rawText
  else T.decode false (contentTokens o.eosTokenIds tokenIds)

/-- `_response_parser_raw_text`. -/
def responseParserRawText (T : Tokenizer) (o : RequestOptions) (d : Detokenizer)
    (tokenIds : List Int) (rawText : Text) (visibleTextLen : Nat) : Except PyError Text :=
  let parserRawText := parserText T o tokenIds rawText
  if ¬ parserRawText.isPrefixOf rawText then
    .error (.runtimeError "Response-parser raw text is not a prefix of detokenized raw text.")
  else if o.stop = [] then .ok parserRawText
  else (d.rawOffsetForVisiblePrefix visibleTextLen parserRawText.length).map parserRawText.take

/-- `finish_reason`. -/
def finishReason (o : RequestOptions) (completionTokenIds : List Int) (stopIndex : Option Nat) :
    FinishReason :=
  let endedByEos := !o.ignoreEos &&
    completionTokenIds.getLast?.any fun last => decide (last ∈ o.eosTokenIds)
  if stopIndex.isSome ∨ endedByEos ∨ completionTokenIds.length < o.maxTokens then .stop
  else .length

namespace ActiveRequest

def put (event : StreamEvent) (r : ActiveRequest) : ActiveRequest :=
  { r with events := r.events ++ [event] }

def publishPendingTokenEvent (text rawTextDelta : Text) (r : ActiveRequest) : ActiveRequest :=
  { (if r.options.stream then r.put (.token text rawTextDelta r.pendingTokenIds) else r) with
    pendingTokenIds := []
    pendingLogprobs := []
    emittedRawTextLen := r.emittedRawTextLen + rawTextDelta.length }

/-- `if text or raw_text_delta: self._publish_pending_token_event(...)`. -/
def publishDelta (text rawTextDelta : Text) (r : ActiveRequest) : ActiveRequest :=
  if text = [] ∧ rawTextDelta = [] then r else r.publishPendingTokenEvent text rawTextDelta

variable (T : Tokenizer)

def stopRequest (visibleText text rawTextDelta : Text) (r : ActiveRequest) :
    Except PyError ActiveRequest :=
  match T.finish r.completionTokenIds r.detokenizer with
  | .error e => .error e
  | .ok final =>
    match findStopIndex final.text r.options.stop with
    | none =>
      .error (.runtimeError "Incremental stop match disappeared during final detokenization.")
    | some finalStopIndex =>
      match responseParserRawText T r.options final r.completionTokenIds final.rawText
          finalStopIndex with
      | .error e => .error e
      | .ok finalParserRawText =>
        let r := { r with detokenizer := final }.publishDelta text rawTextDelta
        if finalParserRawText.length < r.emittedRawTextLen then
          .error (.runtimeError "Final response-parser text is shorter than its stream.")
        else
          .ok ({ r with terminal := true }.put (.final visibleText finalParserRawText
            (visibleText.drop r.emittedTextLen) .stop r.completionTokenIds))

/-- `_publish_token_deltas`. -/
def publishTokenDeltas (tokenIds : List Int) (logprobs : List Bool) (r : ActiveRequest) :
    Except PyError ActiveRequest :=
  match T.push tokenIds r.detokenizer with
  | .error e => .error e
  | .ok detokenizer =>
    let r := { r with
      completionTokenIds := r.completionTokenIds ++ tokenIds
      pendingTokenIds := r.pendingTokenIds ++ tokenIds
      pendingLogprobs := r.pendingLogprobs ++ logprobs
      detokenizer := detokenizer }
    let fullText := detokenizer.text
    let stopIndex := findStopIndex fullText r.options.stop
    let visibleText := cutAtStop fullText r.options.stop
    let emitLen := if stopIndex.isSome then visibleText.length
      else safeStreamTextLen visibleText r.options.stop
    match responseParserRawText T r.options detokenizer r.completionTokenIds detokenizer.rawText
        emitLen with
    | .error e => .error e
    | .ok parserRawText =>
      if parserRawText.length < r.emittedRawTextLen then
        .error (.runtimeError "Response-parser boundary precedes emitted text.")
      else
        let rawTextDelta := parserRawText.drop r.emittedRawTextLen
        let text := (visibleText.take emitLen).drop r.emittedTextLen
        let r := { r with emittedTextLen := emitLen }
        if stopIndex.isSome then stopRequest T visibleText text rawTextDelta r
        else .ok (r.publishDelta text rawTextDelta)

/-- `_publish_finished`. -/
def publishFinished (completionTokenIds : List Int) (logprobs : List Bool) (r : ActiveRequest) :
    Except PyError ActiveRequest :=
  let observed := r.completionTokenIds.length
  match T.finish completionTokenIds r.detokenizer with
  | .error e => .error e
  | .ok final =>
    let r := { r with
      pendingTokenIds := r.pendingTokenIds ++ completionTokenIds.drop observed
      pendingLogprobs := r.pendingLogprobs ++ logprobs.drop observed
      completionTokenIds := completionTokenIds
      detokenizer := final }
    let stopIndex := findStopIndex final.text r.options.stop
    match responseParserRawText T r.options final completionTokenIds final.rawText
        (stopIndex.getD final.text.length) with
    | .error e => .error e
    | .ok parserRawText =>
      if parserRawText.length < r.emittedRawTextLen then
        .error (.runtimeError "Final response-parser text is shorter than its stream.")
      else
        let rawTextDelta := parserRawText.drop r.emittedRawTextLen
        let reason := finishReason r.options completionTokenIds stopIndex
        let text := cutAtStop final.text r.options.stop
        let textDelta := text.drop r.emittedTextLen
        let r := if r.pendingTokenIds ≠ [] ∧
            (textDelta ≠ [] ∨ rawTextDelta ≠ [] ∨ r.pendingLogprobs.any id) then
          { r.publishPendingTokenEvent textDelta rawTextDelta with emittedTextLen := text.length }
          else r
        .ok ({ r with terminal := true }.put (.final text parserRawText
          (text.drop r.emittedTextLen) reason completionTokenIds))

def publishSteps : List (List Int × List Bool) → ActiveRequest → Except PyError ActiveRequest
  | [], r => .ok r
  | (tokenIds, logprobs) :: steps, r =>
    if r.terminal then .ok r
    else
      match publishTokenDeltas T tokenIds logprobs r with
      | .error e => .error e
      | .ok r => publishSteps steps r

def serve (steps : List (List Int × List Bool)) (completionTokenIds : List Int)
    (logprobs : List Bool) (r : ActiveRequest) : Except PyError ActiveRequest :=
  match publishSteps T steps r with
  | .error e => .error e
  | .ok r => if r.terminal then .ok r else publishFinished T completionTokenIds logprobs r

end ActiveRequest

section

variable {T : Tokenizer} {o : RequestOptions} {d : Detokenizer} {ids more : List Int} {v : Nat}

theorem contentTokens_append (eos ids more : List Int) :
    contentTokens eos (ids ++ more) = ids ++ contentTokens eos more ∨
      contentTokens eos (ids ++ more) = contentTokens eos ids := by
  simp only [contentTokens, List.rdropWhile, List.reverse_append, List.dropWhile_append]
  split
  · exact .inr rfl
  · exact .inl (by rw [List.reverse_append, List.reverse_reverse])

theorem contentTokens_self {eos : List Int}
    (last : ids.getLast?.all (fun last => decide (last ∉ eos)) = true) :
    contentTokens eos ids = ids := by
  rcases List.eq_nil_or_concat ids with rfl | ⟨front, id, rfl⟩
  · rfl
  · rw [List.concat_eq_append] at last ⊢
    rw [List.getLast?_concat] at last
    rw [contentTokens, List.rdropWhile_concat_neg]
    simpa using last

theorem prefix_parserText (incremental : T.Incremental) (more : List Int) {sent rawText : Text}
    (raw : sent <+: (T.detokenizer ids).rawText)
    (parser : sent <+: parserText T o ids (T.detokenizer ids).rawText)
    (longer : (T.detokenizer ids).rawText <+: rawText) :
    sent <+: parserText T o (ids ++ more) rawText := by
  rw [parserText]
  split
  · exact raw.trans longer
  · next trimmed =>
    have decoded : ∀ more, sent <+: T.decode false (ids ++ more) := fun more =>
      raw.trans ((Tokenizer.detokenizer_rawText_prefix ids more).trans (incremental.rawText _))
    -- the tokens before the trailing ends reach past what was sent, or are those of that step
    rcases contentTokens_append o.eosTokenIds ids more with all | front
    · rw [all]
      exact decoded _
    · rw [front]
      by_cases last : ids.getLast?.all (fun last => decide (last ∉ o.eosTokenIds)) = true
      · rw [contentTokens_self last]
        simpa using decoded []
      · rw [parserText, if_neg] at parser
        · exact parser
        · rintro (ignore | none | here)
          · exact trimmed (.inl ignore)
          · exact trimmed (.inr (.inl none))
          · exact last here

/-- The raw text can be cut at a visible prefix. -/
def Readable (T : Tokenizer) (o : RequestOptions) (d : Detokenizer) (tokenIds : List Int)
    (visibleTextLen : Nat) : Prop :=
  parserText T o tokenIds d.rawText <+: d.rawText ∧ (o.stop ≠ [] → d.Cuttable visibleTextLen)

theorem responseParserRawText_of_readable (chained : d.Chained) (visible : v ≤ d.text.length)
    (readable : Readable T o d ids v) :
    ∃ text, responseParserRawText T o d ids d.rawText v = .ok text := by
  obtain ⟨starts, cuttable⟩ := readable
  rw [responseParserRawText, if_neg (not_not.mpr (List.isPrefixOf_iff_prefix.mpr starts))]
  split
  · exact ⟨_, rfl⟩
  · next stops =>
    obtain ⟨cut, found⟩ := Detokenizer.rawOffsetForVisiblePrefix_of_cuttable chained visible
      starts.length_le (cuttable stops)
    rw [found]
    exact ⟨_, rfl⟩

theorem responseParserRawText_eq (chained : d.Chained) {text : Text}
    (h : responseParserRawText T o d ids d.rawText v = .ok text) :
    Readable T o d ids v ∧ text <+: parserText T o ids d.rawText ∧ text <+: d.rawText ∧
      (o.stop ≠ [] → d.RawBound v text.length) ∧
      ∀ sent v₀, v₀ ≤ v → sent <+: parserText T o ids d.rawText →
        (o.stop ≠ [] → d.RawBound v₀ sent.length) → sent <+: text := by
  rw [responseParserRawText] at h
  split at h
  · exact nomatch h
  · next starts =>
    rw [not_not, List.isPrefixOf_iff_prefix] at starts
    split at h
    · next none =>
      obtain rfl := Except.ok.inj h
      exact ⟨⟨starts, fun stops => (stops none).elim⟩, List.prefix_rfl, starts,
        fun stops => (stops none).elim, fun _ _ _ sent _ => sent⟩
    · next stops =>
      cases found : d.rawOffsetForVisiblePrefix v (parserText T o ids d.rawText).length with
      | error e =>
        rw [found] at h
        exact nomatch h
      | ok cut =>
        rw [found] at h
        obtain rfl := Except.ok.inj h
        obtain ⟨within, cuttable, bound, keeps⟩ :=
          Detokenizer.rawOffsetForVisiblePrefix_eq chained found
        have length : ((parserText T o ids d.rawText).take cut).length = cut := by
          rw [List.length_take, Nat.min_eq_left within]
        refine ⟨⟨starts, fun _ => cuttable⟩, List.take_prefix _ _,
          (List.take_prefix _ _).trans starts, fun _ => length.symm ▸ bound,
          fun sent v₀ le begins bounded => ?_⟩
        exact List.prefix_take_iff.mpr
          ⟨begins, keeps v₀ _ le begins.length_le (bounded stops)⟩

end

end SparseEngine.Dispatcher
