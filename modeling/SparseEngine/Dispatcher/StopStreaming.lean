import SparseEngine.Dispatcher.TokenStreaming

/-! A streamed request sends exactly the decoded completion, cut right before its earliest stop
string. -/

namespace SparseEngine.Dispatcher

open List ActiveRequest Tokenizer

namespace StreamEvent

def textDelta : StreamEvent → Text
  | token text _ _ => text
  | final _ _ textDelta _ _ => textDelta

def rawTextDelta : StreamEvent → Text
  | token _ rawTextDelta _ => rawTextDelta
  | final .. => []

def isToken : StreamEvent → Bool
  | token .. => true
  | final .. => false

end StreamEvent

def streamedText (events : List StreamEvent) : Text := events.flatMap StreamEvent.textDelta

def streamedRawText (events : List StreamEvent) : Text := events.flatMap StreamEvent.rawTextDelta

theorem streamedText_concat (events : List StreamEvent) (event : StreamEvent) :
    streamedText (events ++ [event]) = streamedText events ++ event.textDelta := by
  rw [streamedText, flatMap_append, flatMap_singleton]
  rfl

theorem streamedRawText_concat (events : List StreamEvent) (event : StreamEvent) :
    streamedRawText (events ++ [event]) = streamedRawText events ++ event.rawTextDelta := by
  rw [streamedRawText, flatMap_append, flatMap_singleton]
  rfl

theorem streamedRawText_final (events : List StreamEvent) (text rawText textDelta : Text)
    (reason : FinishReason) (ids : List Int) :
    streamedRawText (events ++ [.final text rawText textDelta reason ids]) =
      streamedRawText events :=
  (streamedRawText_concat _ _).trans (append_nil _)

variable (T : Tokenizer)

structure Completed (r : ActiveRequest) : Prop where
  terminal : r.terminal = true
  final : ∃ before text rawText textDelta reason,
    r.events = before ++ [.final text rawText textDelta reason r.completionTokenIds] ∧
      (∀ event ∈ before, event.isToken = true) ∧
      text = cutAtStop (T.decode true r.completionTokenIds) r.options.stop ∧
      streamedText r.events = text ∧ streamedRawText r.events <+: rawText

/-- Every push and the end of the request go through, and the stream is right. -/
structure StreamsRight (steps : List (List Int × List Bool)) (completionTokenIds : List Int)
    (logprobs : List Bool) (r₀ : ActiveRequest) : Prop where
  served : ∃ r, r₀.serve T steps completionTokenIds logprobs = .ok r ∧ Completed T r ∧
    r.completionTokenIds <+: completionTokenIds
  held : ∀ n r, r₀.publishSteps T (steps.take n) = .ok r → r.terminal = false →
    ∀ more i, findStopIndex (r.detokenizer.text ++ more) r.options.stop = some i →
      (streamedText r.events).length ≤ i
  grows : ∀ n m r r', n ≤ m → r₀.publishSteps T (steps.take n) = .ok r →
    r₀.publishSteps T (steps.take m) = .ok r' → r.emittedTextLen ≤ r'.emittedTextLen

def Clean (o : RequestOptions) (completionTokenIds : List Int) : List Int → List (List Int) → Prop
  | _, [] =>
    Readable T o (T.detokenized completionTokenIds) completionTokenIds
      ((findStopIndex (T.decode true completionTokenIds) o.stop).getD
        (T.decode true completionTokenIds).length)
  | ids, push :: pushes =>
    let now := ids ++ push
    match findStopIndex (T.detokenizer now).text o.stop with
    | none =>
      Readable T o (T.detokenizer now) now (safeStreamTextLen (T.detokenizer now).text o.stop) ∧
        Clean o completionTokenIds now pushes
    | some i =>
      Readable T o (T.detokenizer now) now i ∧ findStopIndex (T.decode true now) o.stop = some i ∧
        Readable T o (T.detokenized now) now i

variable {T}

/-- What was sent of a request in flight no stop string can take back. -/
structure Streaming (T : Tokenizer) (r : ActiveRequest) : Prop where
  active : r.terminal = false
  stream : r.options.stream = true
  detokenizer : r.detokenizer = T.detokenizer r.completionTokenIds
  unstopped : findStopIndex r.detokenizer.text r.options.stop = none
  emitted : r.emittedTextLen = safeStreamTextLen r.detokenizer.text r.options.stop
  text : streamedText r.events = r.detokenizer.text.take r.emittedTextLen
  rawLength : (streamedRawText r.events).length = r.emittedRawTextLen
  raw : streamedRawText r.events <+: r.detokenizer.rawText
  parser : streamedRawText r.events <+:
    parserText T r.options r.completionTokenIds r.detokenizer.rawText
  bound : r.options.stop ≠ [] → r.detokenizer.RawBound r.emittedTextLen r.emittedRawTextLen
  tokens : ∀ event ∈ r.events, event.isToken = true

variable {r r' : ActiveRequest} {text rawTextDelta : Text} {ids completion : List Int}
  {logprobs : List Bool} {i j : Nat}

structure Sent (r r' : ActiveRequest) (text rawTextDelta : Text) : Prop where
  options : r'.options = r.options
  completionTokenIds : r'.completionTokenIds = r.completionTokenIds
  detokenizer : r'.detokenizer = r.detokenizer
  terminal : r'.terminal = r.terminal
  emittedTextLen : r'.emittedTextLen = r.emittedTextLen
  emittedRawTextLen : r'.emittedRawTextLen = r.emittedRawTextLen + rawTextDelta.length
  text : streamedText r'.events = streamedText r.events ++ text
  rawText : streamedRawText r'.events = streamedRawText r.events ++ rawTextDelta
  tokens : (∀ event ∈ r.events, event.isToken = true) → ∀ event ∈ r'.events, event.isToken = true

theorem publishPendingTokenEvent_sends (text rawTextDelta : Text) (stream : r.options.stream = true) :
    Sent r (r.publishPendingTokenEvent text rawTextDelta) text rawTextDelta := by
  rw [publishPendingTokenEvent, if_pos stream]
  refine ⟨rfl, rfl, rfl, rfl, rfl, rfl, ?_, ?_, fun tokens event member => ?_⟩
  · exact streamedText_concat _ _
  · exact streamedRawText_concat _ _
  · obtain old | new := mem_append.mp member
    · exact tokens event old
    · rw [mem_singleton.mp new]
      rfl

theorem publishDelta_sends (text rawTextDelta : Text) (stream : r.options.stream = true) :
    Sent r (r.publishDelta text rawTextDelta) text rawTextDelta := by
  rw [publishDelta]
  split
  · next nothing =>
    obtain ⟨rfl, rfl⟩ := nothing
    exact ⟨rfl, rfl, rfl, rfl, rfl, rfl, (append_nil _).symm, (append_nil _).symm,
      fun tokens => tokens⟩
  · exact publishPendingTokenEvent_sends text rawTextDelta stream

theorem take_append_delta {sent full : Text} {n m : Nat} (longer : sent <+: full) (le : n ≤ m)
    (bound : n ≤ sent.length) : sent.take n ++ (full.take m).drop n = full.take m := by
  have start : sent.take n = (full.take m).take n := by
    rw [take_take, Nat.min_eq_left le]
    obtain ⟨rest, rfl⟩ := longer
    rw [take_append_of_le_length bound]
  rw [start, take_append_drop]

theorem append_drop_of_prefix {sent full : Text} (longer : sent <+: full) :
    sent ++ full.drop sent.length = full := by
  obtain ⟨rest, rfl⟩ := longer
  rw [drop_left]

theorem final_events (text rawText textDelta : Text) (reason : FinishReason)
    (tokens : r.completionTokenIds = ids) :
    ({ r with terminal := true }.put (.final text rawText textDelta reason ids)).events =
      r.events ++ [.final text rawText textDelta reason r.completionTokenIds] := by
  rw [tokens]
  rfl

section

variable (incremental : T.Incremental) (h : Streaming T r)

include h in
theorem Streaming.text_prefix (more : List Int) : r.detokenizer.text <+:
    (T.detokenizer (r.completionTokenIds ++ more)).text := by
  rw [h.detokenizer]
  exact detokenizer_text_prefix _ _

include h in
theorem Streaming.emitted_le {full : Text} (longer : r.detokenizer.text <+: full)
    (found : findStopIndex full r.options.stop = some i) : r.emittedTextLen ≤ i := by
  obtain ⟨more, rfl⟩ := longer
  rw [h.emitted]
  exact safeStreamTextLen_le_of_stopAt h.unstopped (findStopIndex_eq_some.mp found).1

include h in
theorem Streaming.rawBound (more : List Int) (stops : r.options.stop ≠ []) :
    (T.detokenizer (r.completionTokenIds ++ more)).RawBound r.emittedTextLen r.emittedRawTextLen := by
  have bound := h.bound stops
  rw [h.detokenizer] at bound
  exact detokenizer_rawBound bound more

include h in
theorem Streaming.not_short {parserRawText : Text}
    (sent : streamedRawText r.events <+: parserRawText) :
    ¬ parserRawText.length < r.emittedRawTextLen := by
  rw [← h.rawLength]
  exact not_lt.mpr sent.length_le

include h in
theorem Streaming.raw_append_drop {parserRawText : Text}
    (sent : streamedRawText r.events <+: parserRawText) :
    streamedRawText r.events ++ parserRawText.drop r.emittedRawTextLen = parserRawText := by
  rw [← h.rawLength]
  exact append_drop_of_prefix sent

include incremental h in
theorem Streaming.sent_prefix (more : List Int) {d : Detokenizer} {v : Nat} {parserRawText : Text}
    (chained : d.Chained) (later : r.emittedTextLen ≤ v)
    (longer : (T.detokenizer r.completionTokenIds).rawText <+: d.rawText)
    (bound : r.options.stop ≠ [] → d.RawBound r.emittedTextLen r.emittedRawTextLen)
    (read : responseParserRawText T r.options d (r.completionTokenIds ++ more) d.rawText v =
      .ok parserRawText) : streamedRawText r.events <+: parserRawText := by
  obtain ⟨-, -, -, -, keeps⟩ := responseParserRawText_eq chained read
  have raw := h.raw
  have parser := h.parser
  rw [h.detokenizer] at raw parser
  refine keeps _ r.emittedTextLen later (prefix_parserText incremental more raw parser longer) ?_
  rw [h.rawLength]
  exact bound

def pushed (T : Tokenizer) (tokenIds : List Int) (logprobs : List Bool) (emitLen : Nat)
    (r : ActiveRequest) : ActiveRequest :=
  { r with
    completionTokenIds := r.completionTokenIds ++ tokenIds
    pendingTokenIds := r.pendingTokenIds ++ tokenIds
    pendingLogprobs := r.pendingLogprobs ++ logprobs
    detokenizer := T.detokenizer (r.completionTokenIds ++ tokenIds)
    emittedTextLen := emitLen }

theorem cutAtStop_none {full : Text} {stop : List Text} (none : findStopIndex full stop = none) :
    cutAtStop full stop = full := by
  rw [cutAtStop, none]

theorem cutAtStop_some {full : Text} {stop : List Text} (found : findStopIndex full stop = some i) :
    cutAtStop full stop = full.take i := by
  rw [cutAtStop, found]

/-- The tokens arrived, and no stop string did. -/
structure Pushed (T : Tokenizer) (tokenIds : List Int) (r r' : ActiveRequest) : Prop where
  streaming : Streaming T r'
  options : r'.options = r.options
  completionTokenIds : r'.completionTokenIds = r.completionTokenIds ++ tokenIds
  grows : r.emittedTextLen ≤ r'.emittedTextLen

include h in
/-- Without a stop string the push is one reading of the raw text and one event. -/
theorem publishTokenDeltas_unstopped (tokenIds : List Int) (logprobs : List Bool)
    (none : findStopIndex (T.detokenizer (r.completionTokenIds ++ tokenIds)).text
      r.options.stop = none) :
    r.publishTokenDeltas T tokenIds logprobs =
      match responseParserRawText T r.options (T.detokenizer (r.completionTokenIds ++ tokenIds))
          (r.completionTokenIds ++ tokenIds)
          (T.detokenizer (r.completionTokenIds ++ tokenIds)).rawText
          (safeStreamTextLen (T.detokenizer (r.completionTokenIds ++ tokenIds)).text
            r.options.stop) with
      | .error e => .error e
      | .ok parserRawText =>
        if parserRawText.length < r.emittedRawTextLen then
          .error (.runtimeError "Response-parser boundary precedes emitted text.")
        else .ok ((pushed T tokenIds logprobs (safeStreamTextLen
            (T.detokenizer (r.completionTokenIds ++ tokenIds)).text r.options.stop) r).publishDelta
          (((T.detokenizer (r.completionTokenIds ++ tokenIds)).text.take (safeStreamTextLen
            (T.detokenizer (r.completionTokenIds ++ tokenIds)).text r.options.stop)).drop
              r.emittedTextLen)
          (parserRawText.drop r.emittedRawTextLen)) := by
  rw [publishTokenDeltas, h.detokenizer, push_detokenizer]
  dsimp only
  rw [cutAtStop_none none, none]
  rfl

include incremental h in
theorem push_unstopped (tokenIds : List Int) (logprobs : List Bool)
    (none : findStopIndex (T.detokenizer (r.completionTokenIds ++ tokenIds)).text
      r.options.stop = none) :
    (Readable T r.options (T.detokenizer (r.completionTokenIds ++ tokenIds))
        (r.completionTokenIds ++ tokenIds)
        (safeStreamTextLen (T.detokenizer (r.completionTokenIds ++ tokenIds)).text
          r.options.stop) →
      ∃ r', r.publishTokenDeltas T tokenIds logprobs = .ok r') ∧
    ∀ r', r.publishTokenDeltas T tokenIds logprobs = .ok r' →
      Readable T r.options (T.detokenizer (r.completionTokenIds ++ tokenIds))
        (r.completionTokenIds ++ tokenIds)
        (safeStreamTextLen (T.detokenizer (r.completionTokenIds ++ tokenIds)).text
          r.options.stop) ∧ Pushed T tokenIds r r' := by
  have unfolded := publishTokenDeltas_unstopped h tokenIds logprobs none
  set now := r.completionTokenIds ++ tokenIds with now_eq
  set d := T.detokenizer now with d_eq
  set safe := safeStreamTextLen d.text r.options.stop with safe_eq
  have longer := h.text_prefix tokenIds
  have grows : r.emittedTextLen ≤ safe := by
    rw [h.emitted, safe_eq]
    obtain ⟨more, text⟩ := longer
    rw [d_eq, ← text]
    exact safeStreamTextLen_append more
  have chained : d.Chained := detokenizer_chained now
  have rawLonger : (T.detokenizer r.completionTokenIds).rawText <+: d.rawText :=
    detokenizer_rawText_prefix _ _
  have sent : ∀ parserRawText,
      responseParserRawText T r.options d now d.rawText safe = .ok parserRawText →
      streamedRawText r.events <+: parserRawText := fun parserRawText read =>
    h.sent_prefix incremental tokenIds chained grows rawLonger (h.rawBound tokenIds) read
  constructor
  · intro readable
    obtain ⟨parserRawText, read⟩ :=
      responseParserRawText_of_readable chained safeStreamTextLen_le readable
    rw [unfolded, read]
    dsimp only
    rw [if_neg (h.not_short (sent _ read))]
    exact ⟨_, rfl⟩
  · intro r' done
    rw [unfolded] at done
    cases read : responseParserRawText T r.options d now d.rawText safe with
    | error e =>
      rw [read] at done
      cases done
    | ok parserRawText =>
      rw [read] at done
      dsimp only at done
      rw [if_neg (h.not_short (sent _ read))] at done
      obtain ⟨readable, parser, raw, rawBound, -⟩ := responseParserRawText_eq chained read
      obtain rfl := Except.ok.inj done
      have sends : Sent (pushed T tokenIds logprobs safe r) _ _ _ :=
        publishDelta_sends ((d.text.take safe).drop r.emittedTextLen)
          (parserRawText.drop r.emittedRawTextLen) h.stream
      have text := sends.text
      have rawText := sends.rawText.trans (h.raw_append_drop (sent _ read))
      have rawTextLen := sends.emittedRawTextLen
      rw [show (pushed T tokenIds logprobs safe r).events = r.events from rfl, h.text,
        take_append_delta longer grows (by rw [h.emitted]; exact safeStreamTextLen_le)] at text
      have length : (pushed T tokenIds logprobs safe r).emittedRawTextLen +
          (parserRawText.drop r.emittedRawTextLen).length = parserRawText.length := by
        have := h.not_short (sent _ read)
        rw [length_drop, show (pushed T tokenIds logprobs safe r).emittedRawTextLen =
          r.emittedRawTextLen from rfl]
        omega
      refine ⟨readable, ⟨?_, ?_, ?_, ?_, ?_, ?_, ?_, ?_, ?_, ?_, ?_⟩, sends.options,
        sends.completionTokenIds, ?_⟩
      · rw [sends.terminal]
        exact h.active
      · rw [sends.options]
        exact h.stream
      · rw [sends.detokenizer, sends.completionTokenIds]
        rfl
      · rw [sends.detokenizer, sends.options]
        exact none
      · rw [sends.detokenizer, sends.options, sends.emittedTextLen]
        rfl
      · rw [text, sends.detokenizer, sends.emittedTextLen]
        rfl
      · rw [rawText, rawTextLen, length]
      · rw [rawText, sends.detokenizer]
        exact raw
      · rw [rawText, sends.detokenizer, sends.completionTokenIds, sends.options]
        exact parser
      · rw [rawTextLen, length, sends.detokenizer, sends.emittedTextLen, sends.options]
        exact rawBound
      · exact sends.tokens h.tokens
      · rw [sends.emittedTextLen]
        exact grows

structure Stopped (T : Tokenizer) (now : List Int) (i : Nat) (r r' : ActiveRequest) : Prop where
  terminal : r'.terminal = true
  options : r'.options = r.options
  completionTokenIds : r'.completionTokenIds = now
  grows : r.emittedTextLen ≤ r'.emittedTextLen
  final : ∃ before rawText textDelta reason, r'.events = before ++
      [.final ((T.detokenizer now).text.take i) rawText textDelta reason r'.completionTokenIds] ∧
    (∀ event ∈ before, event.isToken = true) ∧
    streamedText r'.events = (T.detokenizer now).text.take i ∧
    streamedRawText r'.events <+: rawText

include h in
/-- With a stop string the raw text is read of the text so far, and then of the completion. -/
theorem publishTokenDeltas_stopped (tokenIds : List Int) (logprobs : List Bool)
    (found : findStopIndex (T.detokenizer (r.completionTokenIds ++ tokenIds)).text
      r.options.stop = some i) :
    r.publishTokenDeltas T tokenIds logprobs =
      match responseParserRawText T r.options (T.detokenizer (r.completionTokenIds ++ tokenIds))
          (r.completionTokenIds ++ tokenIds)
          (T.detokenizer (r.completionTokenIds ++ tokenIds)).rawText i with
      | .error e => .error e
      | .ok parserRawText =>
        if parserRawText.length < r.emittedRawTextLen then
          .error (.runtimeError "Response-parser boundary precedes emitted text.")
        else stopRequest T
          ((T.detokenizer (r.completionTokenIds ++ tokenIds)).text.take i)
          (((T.detokenizer (r.completionTokenIds ++ tokenIds)).text.take i).drop r.emittedTextLen)
          (parserRawText.drop r.emittedRawTextLen) (pushed T tokenIds logprobs i r) := by
  have before := (findStopIndex_eq_some.mp found).1.lt_length
  rw [publishTokenDeltas, h.detokenizer, push_detokenizer]
  dsimp only
  rw [cutAtStop_some found, found]
  simp only [Option.isSome_some, if_true]
  rw [length_take, Nat.min_eq_left before.le, take_take, Nat.min_self]
  rfl

include incremental in
theorem stopRequest_pushed (tokenIds : List Int) (logprobs : List Bool) (visible text delta : Text) :
    stopRequest T visible text delta (pushed T tokenIds logprobs i r) =
      match findStopIndex (T.decode true (r.completionTokenIds ++ tokenIds)) r.options.stop with
      | none =>
        .error (.runtimeError "Incremental stop match disappeared during final detokenization.")
      | some finalStopIndex =>
        match responseParserRawText T r.options (T.detokenized (r.completionTokenIds ++ tokenIds))
            (r.completionTokenIds ++ tokenIds)
            (T.detokenized (r.completionTokenIds ++ tokenIds)).rawText finalStopIndex with
        | .error e => .error e
        | .ok finalParserRawText =>
          let sent := { pushed T tokenIds logprobs i r with
            detokenizer := T.detokenized (r.completionTokenIds ++ tokenIds) }.publishDelta text delta
          if finalParserRawText.length < sent.emittedRawTextLen then
            .error (.runtimeError "Final response-parser text is shorter than its stream.")
          else
            .ok ({ sent with terminal := true }.put (.final visible finalParserRawText
              (visible.drop sent.emittedTextLen) .stop sent.completionTokenIds)) := by
  have finished := finish_detokenizer incremental (r.completionTokenIds ++ tokenIds) []
  rw [append_nil] at finished
  rw [stopRequest, show (pushed T tokenIds logprobs i r).completionTokenIds =
    r.completionTokenIds ++ tokenIds from rfl, show (pushed T tokenIds logprobs i r).detokenizer =
      T.detokenizer (r.completionTokenIds ++ tokenIds) from rfl, finished]
  rfl

include incremental h in
theorem push_stopped (tokenIds : List Int) (logprobs : List Bool)
    (found : findStopIndex (T.detokenizer (r.completionTokenIds ++ tokenIds)).text
      r.options.stop = some i) :
    (Readable T r.options (T.detokenizer (r.completionTokenIds ++ tokenIds))
        (r.completionTokenIds ++ tokenIds) i →
      findStopIndex (T.decode true (r.completionTokenIds ++ tokenIds)) r.options.stop = some i →
      Readable T r.options (T.detokenized (r.completionTokenIds ++ tokenIds))
        (r.completionTokenIds ++ tokenIds) i →
      ∃ r', r.publishTokenDeltas T tokenIds logprobs = .ok r') ∧
    ∀ r', r.publishTokenDeltas T tokenIds logprobs = .ok r' →
      Stopped T (r.completionTokenIds ++ tokenIds) i r r' ∧
      Readable T r.options (T.detokenizer (r.completionTokenIds ++ tokenIds))
        (r.completionTokenIds ++ tokenIds) i ∧
      ∃ j, findStopIndex (T.decode true (r.completionTokenIds ++ tokenIds)) r.options.stop = some j ∧
        Readable T r.options (T.detokenized (r.completionTokenIds ++ tokenIds))
          (r.completionTokenIds ++ tokenIds) j := by
  have unfolded := publishTokenDeltas_stopped h tokenIds logprobs found
  have stopping := stopRequest_pushed (i := i) (r := r) incremental tokenIds logprobs
    ((T.detokenizer (r.completionTokenIds ++ tokenIds)).text.take i)
  set now := r.completionTokenIds ++ tokenIds with now_eq
  set d := T.detokenizer now with d_eq
  have longer := h.text_prefix tokenIds
  have before : i < d.text.length := (findStopIndex_eq_some.mp found).1.lt_length
  have grows : r.emittedTextLen ≤ i := h.emitted_le longer found
  have chained : d.Chained := detokenizer_chained now
  have chained' := detokenized_chained incremental now
  have rawLonger : (T.detokenizer r.completionTokenIds).rawText <+: d.rawText :=
    detokenizer_rawText_prefix _ _
  have visibleLen : (d.text.take i).length = i := by
    rw [length_take, Nat.min_eq_left before.le]
  have sent : ∀ parserRawText,
      responseParserRawText T r.options d now d.rawText i = .ok parserRawText →
      streamedRawText r.events <+: parserRawText := fun parserRawText read =>
    h.sent_prefix incremental tokenIds chained grows rawLonger (h.rawBound tokenIds) read
  have sends : ∀ text delta, Sent { pushed T tokenIds logprobs i r with
      detokenizer := T.detokenized now } (publishDelta text delta
        { pushed T tokenIds logprobs i r with detokenizer := T.detokenized now }) text delta :=
    fun text delta => publishDelta_sends text delta h.stream
  have total : ∀ parserRawText, responseParserRawText T r.options d now d.rawText i =
      .ok parserRawText →
      r.emittedRawTextLen + (parserRawText.drop r.emittedRawTextLen).length =
        parserRawText.length := by
    intro parserRawText read
    have := h.not_short (sent _ read)
    rw [length_drop]
    omega
  constructor
  · intro readable same readable'
    obtain ⟨parserRawText, read⟩ :=
      responseParserRawText_of_readable chained before.le readable
    obtain ⟨finalParserRawText, read'⟩ := responseParserRawText_of_readable chained'
      (findStopIndex_eq_some.mp same).1.lt_length.le readable'
    rw [unfolded, read]
    dsimp only
    rw [if_neg (h.not_short (sent _ read)), stopping, same]
    dsimp only
    rw [read']
    dsimp only
    rw [(sends _ _).emittedRawTextLen, if_neg]
    · exact ⟨_, rfl⟩
    · -- what this push sends stands in the final text as well
      obtain ⟨-, parser, raw, rawBound, -⟩ := responseParserRawText_eq chained read
      obtain ⟨-, -, -, -, keeps⟩ := responseParserRawText_eq chained' read'
      have kept : parserRawText <+: finalParserRawText := by
        refine keeps _ i (le_refl i) ?_ fun stops =>
          detokenized_rawBound incremental (rawBound stops)
        have parser' := prefix_parserText incremental [] raw parser
          (incremental.rawText now)
        rwa [append_nil] at parser'
      have := kept.length_le
      have := total _ read
      show ¬ finalParserRawText.length <
        r.emittedRawTextLen + (parserRawText.drop r.emittedRawTextLen).length
      omega
  · intro r' done
    rw [unfolded] at done
    cases read : responseParserRawText T r.options d now d.rawText i with
    | error e =>
      rw [read] at done
      cases done
    | ok parserRawText =>
      rw [read] at done
      dsimp only at done
      rw [if_neg (h.not_short (sent _ read)), stopping] at done
      cases final : findStopIndex (T.decode true now) r.options.stop with
      | none =>
        rw [final] at done
        cases done
      | some j =>
        rw [final] at done
        dsimp only at done
        cases read' : responseParserRawText T r.options (T.detokenized now) now
            (T.detokenized now).rawText j with
        | error e =>
          rw [read'] at done
          cases done
        | ok finalParserRawText =>
          rw [read'] at done
          dsimp only at done
          split at done
          · cases done
          · next long =>
            -- the length check that passed is what keeps the raw deltas a prefix
            obtain rfl := Except.ok.inj done
            obtain ⟨readable, -, raw, -, -⟩ := responseParserRawText_eq chained read
            obtain ⟨readable', -, raw', -, -⟩ := responseParserRawText_eq chained' read'
            have event := sends ((d.text.take i).drop r.emittedTextLen)
              (parserRawText.drop r.emittedRawTextLen)
            rw [event.emittedRawTextLen] at long
            have long : parserRawText.length ≤ finalParserRawText.length := by
              have := total _ read
              have long : ¬ finalParserRawText.length <
                r.emittedRawTextLen + (parserRawText.drop r.emittedRawTextLen).length := long
              omega
            have text := event.text
            rw [show ({ pushed T tokenIds logprobs i r with
                detokenizer := T.detokenized now } : ActiveRequest).events = r.events from rfl,
              h.text, take_append_delta longer grows
                (by rw [h.emitted]; exact safeStreamTextLen_le)] at text
            have rawText := event.rawText.trans (h.raw_append_drop (sent _ read))
            refine ⟨⟨rfl, event.options, event.completionTokenIds,
              grows.trans event.emittedTextLen.ge, _, _, _, _,
              final_events _ _ _ _ rfl, event.tokens h.tokens, ?_, ?_⟩,
              readable, j, rfl, readable'⟩
            · refine (streamedText_concat _ _).trans ?_
              rw [text]
              have rest : (d.text.take i).drop _ = [] :=
                drop_eq_nil_of_le (visibleLen.trans event.emittedTextLen.symm).le
              exact (congrArg (d.text.take i ++ ·) rest).trans (append_nil _)
            · refine prefix_of_prefix_length_le ?_ raw' ?_
              · refine ((streamedRawText_final _ _ _ _ _ _).trans rawText).symm ▸ ?_
                exact raw.trans (incremental.rawText now)
              · exact (congrArg List.length
                  ((streamedRawText_final _ _ _ _ _ _).trans rawText)).trans_le long

end

def flushed (text rawTextDelta : Text) (r : ActiveRequest) : ActiveRequest :=
  if r.pendingTokenIds ≠ [] ∧
      (text.drop r.emittedTextLen ≠ [] ∨ rawTextDelta ≠ [] ∨ r.pendingLogprobs.any id) then
    { r.publishPendingTokenEvent (text.drop r.emittedTextLen) rawTextDelta with
      emittedTextLen := text.length }
  else r

theorem flushed_sends (rawTextDelta : Text) (stream : r.options.stream = true)
    (sent : streamedText r.events = text.take r.emittedTextLen)
    (tokens : ∀ event ∈ r.events, event.isToken = true) :
    (flushed text rawTextDelta r).options = r.options ∧
      (flushed text rawTextDelta r).completionTokenIds = r.completionTokenIds ∧
      (∀ event ∈ (flushed text rawTextDelta r).events, event.isToken = true) ∧
      streamedText (flushed text rawTextDelta r).events ++
        text.drop (flushed text rawTextDelta r).emittedTextLen = text ∧
      streamedRawText (flushed text rawTextDelta r).events <+:
        streamedRawText r.events ++ rawTextDelta := by
  rw [flushed]
  split
  · have sends : Sent r _ _ _ := publishPendingTokenEvent_sends
      (text.drop r.emittedTextLen) rawTextDelta stream
    refine ⟨sends.options, sends.completionTokenIds, sends.tokens tokens, ?_, ?_⟩
    · dsimp only
      rw [sends.text, sent, take_append_drop, drop_length, append_nil]
    · dsimp only
      rw [sends.rawText]
  · exact ⟨rfl, rfl, tokens, by rw [sent, take_append_drop], prefix_append _ _⟩

theorem Streaming.take_cutAtStop (h : Streaming T r) {full : Text}
    (longer : r.detokenizer.text <+: full) :
    streamedText r.events = (cutAtStop full r.options.stop).take r.emittedTextLen := by
  have same : r.detokenizer.text.take r.emittedTextLen = full.take r.emittedTextLen := by
    obtain ⟨rest, rfl⟩ := longer
    rw [take_append_of_le_length (by rw [h.emitted]; exact safeStreamTextLen_le)]
  rw [h.text, same]
  cases found : findStopIndex full r.options.stop with
  | none => rw [cutAtStop_none found]
  | some i => rw [cutAtStop_some found, take_take, Nat.min_eq_left (h.emitted_le longer found)]

/-- The request when `publish_finished` has added the tokens that were not published. -/
def caughtUp (T : Tokenizer) (completion : List Int) (logprobs : List Bool) (r : ActiveRequest) :
    ActiveRequest :=
  { r with
    pendingTokenIds := r.pendingTokenIds ++ completion.drop r.completionTokenIds.length
    pendingLogprobs := r.pendingLogprobs ++ logprobs.drop r.completionTokenIds.length
    completionTokenIds := completion
    detokenizer := T.detokenized completion }

theorem publishFinished_eq (incremental : T.Incremental) (h : Streaming T r) (more : List Int)
    (logprobs : List Bool) (all : r.completionTokenIds ++ more = completion) :
    r.publishFinished T completion logprobs =
      match responseParserRawText T r.options (T.detokenized completion) completion
          (T.detokenized completion).rawText
          ((findStopIndex (T.decode true completion) r.options.stop).getD
            (T.decode true completion).length) with
      | .error e => .error e
      | .ok parserRawText =>
        if parserRawText.length < r.emittedRawTextLen then
          .error (.runtimeError "Final response-parser text is shorter than its stream.")
        else
          let text := cutAtStop (T.decode true completion) r.options.stop
          let last := flushed text (parserRawText.drop r.emittedRawTextLen)
            (caughtUp T completion logprobs r)
          .ok ({ last with terminal := true }.put (.final text parserRawText
            (text.drop last.emittedTextLen) (finishReason r.options completion
              (findStopIndex (T.decode true completion) r.options.stop)) completion)) := by
  have finished : T.finish completion (T.detokenizer r.completionTokenIds) =
      .ok (T.detokenized completion) := by
    rw [← all]
    exact finish_detokenizer incremental _ _
  rw [publishFinished, h.detokenizer, finished]
  rfl

theorem finish_completes (incremental : T.Incremental) (h : Streaming T r) (more : List Int)
    (logprobs : List Bool) (all : r.completionTokenIds ++ more = completion) :
    (Readable T r.options (T.detokenized completion) completion
        ((findStopIndex (T.decode true completion) r.options.stop).getD
          (T.decode true completion).length) →
      ∃ r', r.publishFinished T completion logprobs = .ok r') ∧
    ∀ r', r.publishFinished T completion logprobs = .ok r' →
      Readable T r.options (T.detokenized completion) completion
        ((findStopIndex (T.decode true completion) r.options.stop).getD
          (T.decode true completion).length) ∧
      Completed T r' ∧ r'.completionTokenIds = completion := by
  have unfolded := publishFinished_eq incremental h more logprobs all
  set v := (findStopIndex (T.decode true completion) r.options.stop).getD
    (T.decode true completion).length with v_eq
  have chained := detokenized_chained incremental completion
  have longer : r.detokenizer.text <+: T.decode true completion := by
    rw [← all]
    exact (h.text_prefix more).trans (incremental.text _)
  have rawLonger : (T.detokenizer r.completionTokenIds).rawText <+: T.decode false completion := by
    rw [← all]
    exact ( detokenizer_rawText_prefix _ more).trans (incremental.rawText _)
  have later : r.emittedTextLen ≤ v := by
    cases found : findStopIndex (T.decode true completion) r.options.stop with
    | none =>
      rw [v_eq, found, h.emitted]
      exact safeStreamTextLen_le.trans longer.length_le
    | some i =>
      rw [v_eq, found]
      exact h.emitted_le longer found
  have visible : v ≤ (T.decode true completion).length := by
    cases found : findStopIndex (T.decode true completion) r.options.stop with
    | none =>
      rw [v_eq, found]
      exact le_refl _
    | some i =>
      rw [v_eq, found]
      exact (findStopIndex_eq_some.mp found).1.lt_length.le
  have bound : r.options.stop ≠ [] →
      (T.detokenized completion).RawBound r.emittedTextLen r.emittedRawTextLen := by
    intro stops
    rw [← all]
    exact detokenized_rawBound incremental (h.rawBound more stops)
  have sent : ∀ parserRawText, responseParserRawText T r.options (T.detokenized completion)
      completion (T.detokenized completion).rawText v = .ok parserRawText →
      streamedRawText r.events <+: parserRawText := by
    intro parserRawText read
    rw [← all] at read
    exact h.sent_prefix incremental more (all ▸ chained) later (all ▸ rawLonger) (all ▸ bound) read
  let caught := caughtUp T completion logprobs r
  constructor
  · intro readable
    obtain ⟨parserRawText, read⟩ := responseParserRawText_of_readable chained visible readable
    rw [unfolded, read]
    dsimp only
    rw [if_neg (h.not_short (sent _ read))]
    exact ⟨_, rfl⟩
  · intro r' done
    rw [unfolded] at done
    cases read : responseParserRawText T r.options (T.detokenized completion) completion
        (T.detokenized completion).rawText v with
    | error e =>
      rw [read] at done
      cases done
    | ok parserRawText =>
      rw [read] at done
      dsimp only at done
      rw [if_neg (h.not_short (sent _ read))] at done
      obtain rfl := Except.ok.inj done
      obtain ⟨readable, -⟩ := responseParserRawText_eq chained read
      obtain ⟨options, tokenIds, tokens, whole, raw⟩ := flushed_sends (r := caught)
        (parserRawText.drop r.emittedRawTextLen) h.stream
        (h.take_cutAtStop longer) h.tokens
      refine ⟨readable, ⟨rfl, _, _, _, _, _, final_events _ _ _ _ tokenIds, tokens, ?_, ?_, ?_⟩,
        tokenIds⟩
      · exact congrArg₂ (fun ids o => cutAtStop (T.decode true ids) (RequestOptions.stop o))
          tokenIds.symm options.symm
      · exact (streamedText_concat _ _).trans whole
      · refine (streamedRawText_final _ _ _ _ _ _).symm ▸ (raw.trans ?_)
        exact (h.raw_append_drop (sent _ read)).symm ▸ prefix_rfl

theorem publishSteps_terminal (ended : r.terminal = true) (steps : List (List Int × List Bool)) :
    r.publishSteps T steps = .ok r := by
  cases steps with
  | nil => rfl
  | cons step steps => rw [publishSteps, if_pos ended]

theorem publishSteps_append (first rest : List (List Int × List Bool)) :
    ∀ r : ActiveRequest, r.publishSteps T (first ++ rest) =
      match r.publishSteps T first with
      | .error e => .error e
      | .ok r => r.publishSteps T rest := by
  induction first with
  | nil => exact fun _ => rfl
  | cons step first ih =>
    intro r
    rw [cons_append, publishSteps, publishSteps]
    by_cases ended : r.terminal = true
    · rw [if_pos ended, if_pos ended]
      exact (publishSteps_terminal ended rest).symm
    · rw [if_neg ended, if_neg ended]
      cases r.publishTokenDeltas T step.1 step.2 with
      | error e => rfl
      | ok r => exact ih r

theorem publishSteps_cons (h : Streaming T r) (tokenIds : List Int)
    (steps : List (List Int × List Bool)) :
    r.publishSteps T ((tokenIds, logprobs) :: steps) =
      match r.publishTokenDeltas T tokenIds logprobs with
      | .error e => .error e
      | .ok r => r.publishSteps T steps := by
  rw [publishSteps, h.active]
  rfl

theorem publishSteps_streams (incremental : T.Incremental) :
    ∀ (steps : List (List Int × List Bool)) (r r' : ActiveRequest), Streaming T r →
      r.publishSteps T steps = .ok r' →
      r.emittedTextLen ≤ r'.emittedTextLen ∧ (r'.terminal = true ∨ Streaming T r')
  | [], r, r', h, done => by
    obtain rfl := Except.ok.inj done
    exact ⟨le_refl _, .inr h⟩
  | (tokenIds, logprobs) :: steps, r, r', h, done => by
    rw [publishSteps_cons h] at done
    cases pushed : r.publishTokenDeltas T tokenIds logprobs with
    | error e =>
      rw [pushed] at done
      exact nomatch done
    | ok r₁ =>
      rw [pushed] at done
      cases found : findStopIndex (T.detokenizer (r.completionTokenIds ++ tokenIds)).text
          r.options.stop with
      | none =>
        obtain ⟨-, push⟩ := (push_unstopped incremental h tokenIds logprobs found).2 r₁ pushed
        obtain ⟨grows, rest⟩ := publishSteps_streams incremental steps r₁ r' push.streaming done
        exact ⟨push.grows.trans grows, rest⟩
      | some i =>
        obtain ⟨stopped, -⟩ := (push_stopped incremental h tokenIds logprobs found).2 r₁ pushed
        have done : r₁.publishSteps T steps = .ok r' := done
        rw [publishSteps_terminal stopped.terminal] at done
        obtain rfl := Except.ok.inj done
        exact ⟨stopped.grows, .inl stopped.terminal⟩

theorem serve_cons (h : Streaming T r) (tokenIds : List Int) (tokenLogprobs : List Bool)
    (steps : List (List Int × List Bool)) :
    r.serve T ((tokenIds, tokenLogprobs) :: steps) completion logprobs =
      match r.publishTokenDeltas T tokenIds tokenLogprobs with
      | .error e => .error e
      | .ok r => r.serve T steps completion logprobs := by
  rw [serve, publishSteps_cons h]
  cases r.publishTokenDeltas T tokenIds tokenLogprobs with
  | error e => rfl
  | ok r => rfl

theorem serve_terminal (ended : r.terminal = true) (steps : List (List Int × List Bool)) :
    r.serve T steps completion logprobs = .ok r := by
  rw [serve, publishSteps_terminal ended]
  exact if_pos ended

theorem take_eq_cutAtStop_iff {sent full : Text} {stop : List Text} (longer : sent <+: full)
    (found : findStopIndex sent stop = some i) (final : findStopIndex full stop = some j) :
    sent.take i = cutAtStop full stop ↔ j = i := by
  have inside := (findStopIndex_eq_some.mp found).1.lt_length
  have inside' := (findStopIndex_eq_some.mp final).1.lt_length
  obtain ⟨rest, rfl⟩ := longer
  rw [cutAtStop_some final]
  constructor
  · intro same
    have lengths := congrArg List.length same
    rw [length_take, length_take, Nat.min_eq_left inside.le,
      Nat.min_eq_left inside'.le] at lengths
    exact lengths.symm
  · rintro rfl
    rw [take_append_of_le_length inside.le]

theorem Stopped.completed_iff (incremental : T.Incremental) {now : List Int}
    (stopped : Stopped T now i r r')
    (found : findStopIndex (T.detokenizer now).text r.options.stop = some i)
    (final : findStopIndex (T.decode true now) r.options.stop = some j) :
    Completed T r' ↔ j = i := by
  rw [← take_eq_cutAtStop_iff (incremental.text now) found final]
  obtain ⟨before, rawText, textDelta, reason, events, tokens, text, raw⟩ := stopped.final
  constructor
  · rintro ⟨-, before', text', rawText', textDelta', reason', events', -, cut, -, -⟩
    obtain ⟨-, last⟩ := append_inj' (events.symm.trans events') rfl
    injection last with last
    injection last with same
    rw [same, cut, stopped.completionTokenIds, stopped.options]
  · intro cut
    refine ⟨stopped.terminal, before, _, rawText, textDelta, reason, events, tokens, ?_, text, raw⟩
    rw [stopped.completionTokenIds, stopped.options]
    exact cut

theorem serve_completes_iff (incremental : T.Incremental) (logprobs : List Bool) :
    ∀ (steps : List (List Int × List Bool)) (r : ActiveRequest), Streaming T r →
      r.completionTokenIds ++ steps.flatMap (·.1) <+: completion →
      ((∃ r', r.serve T steps completion logprobs = .ok r' ∧ Completed T r' ∧
        r'.completionTokenIds <+: completion) ↔
        Clean T r.options completion r.completionTokenIds (steps.map (·.1)))
  | [], r, h, sent => by
    obtain ⟨more, all⟩ := sent
    rw [flatMap_nil, append_nil] at all
    obtain ⟨returns, completes⟩ := finish_completes incremental h more logprobs all
    have ending : r.serve T [] completion logprobs =
        r.publishFinished T completion logprobs := by
      rw [serve, publishSteps]
      dsimp only
      rw [if_neg (by rw [h.active]; exact (by simp))]
    rw [ending]
    constructor
    · rintro ⟨r', done, -⟩
      exact (completes r' done).1
    · intro clean
      obtain ⟨r', done⟩ := returns clean
      obtain ⟨-, completed, tokenIds⟩ := completes r' done
      exact ⟨r', done, completed, tokenIds ▸ prefix_rfl⟩
  | (tokenIds, tokenLogprobs) :: steps, r, h, sent => by
    rw [serve_cons h]
    rw [flatMap_cons, ← append_assoc] at sent
    cases found : findStopIndex (T.detokenizer (r.completionTokenIds ++ tokenIds)).text
        r.options.stop with
    | none =>
      obtain ⟨returns, pushes⟩ :=
        push_unstopped incremental h tokenIds tokenLogprobs found
      have rest : ∀ r₁, Pushed T tokenIds r r₁ →
          ((∃ r', r₁.serve T steps completion logprobs = .ok r' ∧ Completed T r' ∧
            r'.completionTokenIds <+: completion) ↔
          Clean T r.options completion (r.completionTokenIds ++ tokenIds) (steps.map (·.1))) := by
        intro r₁ push
        rw [← push.options, ← push.completionTokenIds]
        exact serve_completes_iff incremental logprobs steps r₁ push.streaming
          (push.completionTokenIds ▸ sent)
      rw [map_cons, Clean]
      simp only [found]
      constructor
      · rintro ⟨r', done, completed⟩
        cases pushed : r.publishTokenDeltas T tokenIds tokenLogprobs with
        | error e =>
          rw [pushed] at done
          cases done
        | ok r₁ =>
          rw [pushed] at done
          obtain ⟨readable, push⟩ := pushes r₁ pushed
          exact ⟨readable, (rest r₁ push).mp ⟨r', done, completed⟩⟩
      · rintro ⟨readable, clean⟩
        obtain ⟨r₁, pushed⟩ := returns readable
        rw [pushed]
        exact (rest r₁ (pushes r₁ pushed).2).mpr clean
    | some i =>
      -- the request ends here: it is complete when the two stop strings are one
      obtain ⟨returns, stops⟩ := push_stopped incremental h tokenIds tokenLogprobs found
      rw [map_cons, Clean]
      simp only [found]
      constructor
      · rintro ⟨r', done, completed, -⟩
        cases pushed : r.publishTokenDeltas T tokenIds tokenLogprobs with
        | error e =>
          rw [pushed] at done
          cases done
        | ok r₁ =>
          rw [pushed] at done
          obtain ⟨stopped, readable, j, final, readable'⟩ := stops r₁ pushed
          have done : r₁.serve T steps completion logprobs = .ok r' := done
          rw [serve_terminal stopped.terminal] at done
          obtain rfl := Except.ok.inj done
          obtain rfl := (stopped.completed_iff incremental found final).mp completed
          exact ⟨readable, final, readable'⟩
      · rintro ⟨readable, final, readable'⟩
        obtain ⟨r₁, pushed⟩ := returns readable final readable'
        obtain ⟨stopped, -⟩ := stops r₁ pushed
        rw [pushed]
        refine ⟨r₁, serve_terminal stopped.terminal steps,
          (stopped.completed_iff incremental found final).mpr rfl, ?_⟩
        rw [stopped.completionTokenIds]
        exact (prefix_append _ _).trans sent

theorem streaming_start (T : Tokenizer) {o : RequestOptions} (streams : o.stream = true) :
    Streaming T { options := o } where
  active := rfl
  stream := streams
  detokenizer := rfl
  unstopped := findStopIndex_eq_none.mpr fun _ stopped => absurd stopped.lt_length (Nat.not_lt_zero _)
  emitted := (Nat.le_zero.mp safeStreamTextLen_le).symm
  text := rfl
  rawLength := rfl
  raw := nil_prefix
  parser := nil_prefix
  bound _ := ⟨le_refl _, nofun⟩
  tokens := nofun

/-- A streamed request is right exactly when the raw text can be cut at each of its pushes, and the
stop string that ends it is the earliest of the decoded completion. -/
theorem streaming_with_stops (T : Tokenizer) (incremental : T.Incremental) (o : RequestOptions)
    (streams : o.stream = true) (steps : List (List Int × List Bool)) (completion : List Int)
    (logprobs : List Bool) (sent : steps.flatMap (·.1) <+: completion) :
    StreamsRight T steps completion logprobs { options := o } ↔
      Clean T o completion [] (steps.map (·.1)) := by
  have start := streaming_start T streams
  have completes := serve_completes_iff incremental logprobs steps _ start sent
  refine ⟨fun right => completes.mp right.served, fun clean => ⟨completes.mpr clean, ?_, ?_⟩⟩
  · intro n r done active more i found
    obtain ⟨-, ended | streaming⟩ := publishSteps_streams incremental _ _ r start done
    · exact nomatch active.symm.trans ended
    · rw [streaming.text, length_take]
      exact (Nat.min_le_left _ _).trans
        (streaming.emitted_le (prefix_append _ more) found)
  · intro n m r r' le done done'
    -- the longer run goes on from where the shorter one is
    have split : steps.take m = steps.take n ++ (steps.take m).drop n := by
      have parts := take_append_drop n (steps.take m)
      rw [take_take, Nat.min_eq_left le] at parts
      exact parts.symm
    rw [split, publishSteps_append, done] at done'
    obtain ⟨-, ended | streaming⟩ := publishSteps_streams incremental _ _ r start done
    · have done' : r.publishSteps T ((steps.take m).drop n) = .ok r' := done'
      rw [publishSteps_terminal ended] at done'
      exact (congrArg emittedTextLen (Except.ok.inj done')).le
    · exact (publishSteps_streams incremental _ r r' streaming done').1

/-- Token 0 is `ab`, token 1 the first byte of a longer character. -/
def halfTokenizer : Tokenizer :=
  let waiting (ids : List Int) : Text := if ids.getLast? = some 1 then ['\uFFFD'] else []
  let step : Bool → List Int → Int → Text := fun _ history id =>
    waiting history ++ (if id = 0 then ['a', 'b'] else [])
  let streams : Tokenizer := ⟨step, fun _ _ => []⟩
  { step := step
    decode := fun skip ids =>
      (if skip then (streams.detokenizer ids).text else (streams.detokenizer ids).rawText) ++
        waiting ids }

theorem halfTokenizer_incremental : halfTokenizer.Incremental where
  text _ := prefix_append _ _
  rawText _ := prefix_append _ _

/-- The first push holds `b` back, and the second one ends the request before it. -/
theorem streaming_with_stops_half :
    StreamsRight halfTokenizer [([0], [false]), ([0], [false])] [0, 0] [false, false]
      { options := { maxTokens := 8, stop := [['b', 'a', 'b']] } } := by
  refine (streaming_with_stops halfTokenizer halfTokenizer_incremental
    { maxTokens := 8, stop := [['b', 'a', 'b']] } rfl _ [0, 0] _ prefix_rfl).mpr ?_
  have cuttable : ∀ ids, ids = [0] ∨ ids = [0, 0] → (halfTokenizer.detokenizer ids).Cuttable 1 := by
    rintro ids (rfl | rfl) f found <;>
      exact Option.some.inj (show some _ = some f from found) ▸ .inl rfl
  exact ⟨⟨prefix_rfl, fun _ => cuttable _ (.inl rfl)⟩,
    ⟨prefix_rfl, fun _ => cuttable _ (.inr rfl)⟩, by decide, prefix_rfl,
    fun _ => cuttable _ (.inr rfl)⟩

/-- The push finds `b` and has sent the raw text before it, but in the decoded completion a stop
string begins with the `a`. -/
theorem half_stop_raises :
    ¬ StreamsRight halfTokenizer [([0, 1], [false, false])] [0, 1] [false, false]
      { options := { maxTokens := 8, stop := [['b'], ['a', 'b', '\uFFFD']] } } := by
  intro right
  obtain ⟨r, done, -⟩ := right.served
  exact nomatch (show Except.error _ = Except.ok r from done)

end SparseEngine.Dispatcher
