import SparseEngine.Dispatcher.StopStrings
import SparseEngine.Lib.Py
import Mathlib.Data.List.DropRight

/-! `IncrementalDetokenizer` decodes tokens as they come. -/

namespace SparseEngine.Dispatcher

/-- A fast tokenizer. The flag is `skip_special_tokens`. -/
structure Tokenizer where
  /-- `DecodeStream.step` after the tokens it got before, `""` where it returns `None`. -/
  step : Bool → List Int → Int → Text
  decode : Bool → List Int → Text

structure VisibleFragment where
  visibleStart : Nat
  text : Text
  rawStart : Nat
  rawText : Text

namespace VisibleFragment

def visibleEnd (f : VisibleFragment) : Nat := f.visibleStart + f.text.length

def rawOffset (f : VisibleFragment) (visibleOffset : Nat) : Except PyError Nat :=
  if ¬ (f.visibleStart ≤ visibleOffset ∧ visibleOffset < f.visibleEnd) then
    .error (.valueError "Visible offset is outside fragment.")
  else
    let relative := visibleOffset - f.visibleStart
    if f.text = f.rawText then .ok (f.rawStart + relative)
    else if f.rawText = [] then .ok f.rawStart
    else
      match find f.rawText f.text with
      | some first =>
        if find (f.rawText.drop (first + 1)) f.text = none then .ok (f.rawStart + first + relative)
        else .error (.runtimeError "Visible and raw decode fragments cannot be aligned.")
      | none => .error (.runtimeError "Visible and raw decode fragments cannot be aligned.")

def Aligned (f : VisibleFragment) : Prop :=
  f.text = f.rawText ∨ f.rawText = [] ∨
    ∃ first, find f.rawText f.text = some first ∧
      find (f.rawText.drop (first + 1)) f.text = none

end VisibleFragment

/-- `IncrementalDetokenizer`. -/
structure Detokenizer where
  tokenIds : List Int := []
  text : Text := []
  rawText : Text := []
  fragments : List VisibleFragment := []
  finished : Bool := false

namespace Detokenizer

def recordFragment (text rawText : Text) (d : Detokenizer) : Detokenizer :=
  if text = [] then d
  else { d with fragments := d.fragments ++ [⟨d.text.length, text, d.rawText.length, rawText⟩] }

/-- The fragment that `bisect_right` finds in the ends. -/
def fragmentAt (d : Detokenizer) (visibleTextLen : Nat) : Option VisibleFragment :=
  d.fragments.find? fun f => decide (visibleTextLen < f.visibleEnd)

/-- `raw_offset_for_visible_prefix`. -/
def rawOffsetForVisiblePrefix (d : Detokenizer) (visibleTextLen rawTextLimit : Nat) :
    Except PyError Nat :=
  if d.text.length < visibleTextLen then .error (.valueError "Visible prefix length is outside.")
  else if d.rawText.length < rawTextLimit then .error (.valueError "Raw text limit is outside.")
  else
    match d.fragmentAt visibleTextLen with
    | none => .ok rawTextLimit
    | some f => (f.rawOffset visibleTextLen).map (min · rawTextLimit)

end Detokenizer

namespace Tokenizer

variable (T : Tokenizer)

/-- One round of the loop of `push`. -/
def pushToken (d : Detokenizer) (tokenId : Int) : Detokenizer :=
  let text := T.step true d.tokenIds tokenId
  let rawText := T.step false d.tokenIds tokenId
  { d.recordFragment text rawText with
    tokenIds := d.tokenIds ++ [tokenId]
    text := d.text ++ text
    rawText := d.rawText ++ rawText }

/-- `push`. The pieces it returns are not used. -/
def push (tokenIds : List Int) (d : Detokenizer) : Except PyError Detokenizer :=
  if d.finished then
    .error (.runtimeError "Cannot push token IDs after incremental detokenization finished.")
  else .ok (tokenIds.foldl T.pushToken d)

/-- The tokens that `finish` was given and `push` was not. -/
def pushRest (finalTokenIds : List Int) (d : Detokenizer) : Except PyError Detokenizer :=
  if d.tokenIds.length < finalTokenIds.length then
    T.push (finalTokenIds.drop d.tokenIds.length) d
  else .ok d

/-- `finish`. -/
def finish (finalTokenIds : List Int) (d : Detokenizer) : Except PyError Detokenizer :=
  if d.finished then .error (.runtimeError "Incremental detokenization already finished.")
  else if finalTokenIds.length < d.tokenIds.length ∨
      finalTokenIds.take d.tokenIds.length ≠ d.tokenIds then
    .error (.runtimeError "Incremental detokenization token history mismatch.")
  else
    match T.pushRest finalTokenIds d with
    | .error e => .error e
    | .ok d =>
      let finalText := T.decode true finalTokenIds
      let finalRawText := T.decode false finalTokenIds
      if ¬ d.text.isPrefixOf finalText then
        .error (.runtimeError "Incremental visible text is not a prefix of canonical final text.")
      else if ¬ d.rawText.isPrefixOf finalRawText then
        .error (.runtimeError "Incremental raw text is not a prefix of canonical final text.")
      else
        .ok { d.recordFragment (finalText.drop d.text.length)
                (finalRawText.drop d.rawText.length) with
              text := finalText
              rawText := finalRawText
              finished := true }

def detokenizer (tokenIds : List Int) : Detokenizer := tokenIds.foldl T.pushToken {}

/-- The detokenizer that `finish` leaves. -/
def detokenized (tokenIds : List Int) : Detokenizer :=
  let d := T.detokenizer tokenIds
  { d.recordFragment ((T.decode true tokenIds).drop d.text.length)
      ((T.decode false tokenIds).drop d.rawText.length) with
    text := T.decode true tokenIds
    rawText := T.decode false tokenIds
    finished := true }

structure Incremental : Prop where
  text : ∀ ids, (T.detokenizer ids).text <+: T.decode true ids
  rawText : ∀ ids, (T.detokenizer ids).rawText <+: T.decode false ids

end Tokenizer

namespace Tokenizer

variable {T : Tokenizer} {ids more : List Int}

theorem detokenizer_append : T.detokenizer (ids ++ more) =
    more.foldl T.pushToken (T.detokenizer ids) := List.foldl_append

theorem pushToken_fields (d : Detokenizer) (id : Int) :
    (T.pushToken d id).tokenIds = d.tokenIds ++ [id] ∧ (T.pushToken d id).finished = d.finished ∧
      d.text <+: (T.pushToken d id).text ∧ d.rawText <+: (T.pushToken d id).rawText := by
  refine ⟨rfl, ?_, List.prefix_append _ _, List.prefix_append _ _⟩
  simp only [pushToken, Detokenizer.recordFragment]
  split <;> rfl

theorem foldl_pushToken_fields : ∀ (more : List Int) (d : Detokenizer),
    (more.foldl T.pushToken d).tokenIds = d.tokenIds ++ more ∧
      (more.foldl T.pushToken d).finished = d.finished ∧
      d.text <+: (more.foldl T.pushToken d).text ∧
      d.rawText <+: (more.foldl T.pushToken d).rawText
  | [], d => ⟨(List.append_nil _).symm, rfl, List.prefix_rfl, List.prefix_rfl⟩
  | id :: more, d => by
    obtain ⟨tokenIds, finished, text, rawText⟩ := pushToken_fields (T := T) d id
    obtain ⟨tokenIds', finished', text', rawText'⟩ := foldl_pushToken_fields more (T.pushToken d id)
    refine ⟨?_, finished'.trans finished, text.trans text', rawText.trans rawText'⟩
    rw [List.foldl_cons, tokenIds', tokenIds, List.append_assoc]
    rfl

theorem detokenizer_tokenIds (ids : List Int) : (T.detokenizer ids).tokenIds = ids :=
  (foldl_pushToken_fields ids {}).1

theorem detokenizer_finished (ids : List Int) : (T.detokenizer ids).finished = false :=
  (foldl_pushToken_fields ids {}).2.1

theorem detokenizer_text_prefix (ids more : List Int) :
    (T.detokenizer ids).text <+: (T.detokenizer (ids ++ more)).text := by
  rw [detokenizer_append]
  exact (foldl_pushToken_fields more _).2.2.1

theorem detokenizer_rawText_prefix (ids more : List Int) :
    (T.detokenizer ids).rawText <+: (T.detokenizer (ids ++ more)).rawText := by
  rw [detokenizer_append]
  exact (foldl_pushToken_fields more _).2.2.2

theorem push_detokenizer (ids more : List Int) :
    T.push more (T.detokenizer ids) = .ok (T.detokenizer (ids ++ more)) := by
  rw [push, detokenizer_finished, detokenizer_append]
  rfl

theorem finish_detokenizer (incremental : T.Incremental) (ids more : List Int) :
    T.finish (ids ++ more) (T.detokenizer ids) = .ok (T.detokenized (ids ++ more)) := by
  have pushed : T.pushRest (ids ++ more) (T.detokenizer ids) =
      .ok (T.detokenizer (ids ++ more)) := by
    rw [pushRest, detokenizer_tokenIds]
    split
    · rw [List.drop_left, push_detokenizer]
    · next none =>
      have empty : more = [] := by
        rw [List.length_append] at none
        exact List.eq_nil_of_length_eq_zero (by omega)
      rw [empty, List.append_nil]
  have history : ¬ ((ids ++ more).length < ids.length ∨ (ids ++ more).take ids.length ≠ ids) := by
    rw [List.take_left, List.length_append]
    simp
  have text := List.isPrefixOf_iff_prefix.mpr (incremental.text (ids ++ more))
  have rawText := List.isPrefixOf_iff_prefix.mpr (incremental.rawText (ids ++ more))
  rw [finish, detokenizer_finished, if_neg nofun, detokenizer_tokenIds, if_neg history, pushed]
  simp only [text, rawText, not_true_eq_false, if_false]
  rfl

end Tokenizer

namespace VisibleFragment

variable {f : VisibleFragment} {v v' r r' : Nat}

def rawEnd (f : VisibleFragment) : Nat := f.rawStart + f.rawText.length

theorem rawOffset_eq (h : f.rawOffset v = .ok r) :
    f.visibleStart ≤ v ∧ v < f.visibleEnd ∧ f.Aligned ∧ f.rawStart ≤ r ∧ r ≤ f.rawEnd ∧
      ∀ v' r', v ≤ v' → f.rawOffset v' = .ok r' → r ≤ r' := by
  by_cases inside : f.visibleStart ≤ v ∧ v < f.visibleEnd
  · obtain ⟨start, before⟩ := inside
    have range : ∀ v' r', f.rawOffset v' = .ok r' → f.visibleStart ≤ v' ∧ v' < f.visibleEnd := by
      intro v' r' h'
      by_contra outside
      rw [rawOffset, if_pos outside] at h'
      exact nomatch h'
    have form : ∀ v' r', f.rawOffset v' = .ok r' →
        (if f.text = f.rawText then .ok (f.rawStart + (v' - f.visibleStart))
        else if f.rawText = [] then .ok f.rawStart
        else
          match find f.rawText f.text with
          | some first =>
            if find (f.rawText.drop (first + 1)) f.text = none then
              .ok (f.rawStart + first + (v' - f.visibleStart))
            else .error (.runtimeError "Visible and raw decode fragments cannot be aligned.")
          | none => .error (.runtimeError "Visible and raw decode fragments cannot be aligned.") :
          Except PyError Nat) = .ok r' := by
      intro v' r' h'
      rwa [rawOffset, if_neg (not_not.mpr (range v' r' h'))] at h'
    have here := form v r h
    rw [visibleEnd] at before
    refine ⟨start, before, ?_⟩
    by_cases same : f.text = f.rawText
    · rw [if_pos same] at here
      have here : f.rawStart + (v - f.visibleStart) = r := Except.ok.inj here
      refine ⟨.inl same, by omega, ?_, fun v' r' le h' => ?_⟩
      · rw [rawEnd, ← same]
        omega
      · have there := form v' r' h'
        rw [if_pos same] at there
        have there : f.rawStart + (v' - f.visibleStart) = r' := Except.ok.inj there
        omega
    · rw [if_neg same] at here
      by_cases gone : f.rawText = []
      · rw [if_pos gone] at here
        have here : f.rawStart = r := Except.ok.inj here
        refine ⟨.inr (.inl gone), here.le, by rw [rawEnd]; omega, fun v' r' le h' => ?_⟩
        have there := form v' r' h'
        rw [if_neg same, if_pos gone] at there
        exact (here.symm.trans (Except.ok.inj there)).le
      · rw [if_neg gone] at here
        cases found : find f.rawText f.text with
        | none =>
          rw [found] at here
          exact nomatch here
        | some first =>
          rw [found] at here
          dsimp only at here
          by_cases once : find (f.rawText.drop (first + 1)) f.text = none
          · rw [if_pos once] at here
            have here : f.rawStart + first + (v - f.visibleStart) = r := Except.ok.inj here
            obtain ⟨stands, bound, -⟩ := find_eq_some.mp found
            have length := stands.length_le
            rw [List.length_drop] at length
            refine ⟨.inr (.inr ⟨first, found, once⟩), by omega, by rw [rawEnd]; omega,
              fun v' r' le h' => ?_⟩
            have there := form v' r' h'
            rw [if_neg same, if_neg gone, found] at there
            dsimp only at there
            rw [if_pos once] at there
            have there : f.rawStart + first + (v' - f.visibleStart) = r' := Except.ok.inj there
            omega
          · rw [if_neg once] at here
            exact nomatch here
  · rw [rawOffset, if_pos inside] at h
    exact nomatch h

theorem rawOffset_of_aligned (aligned : f.Aligned) (start : f.visibleStart ≤ v)
    (before : v < f.visibleEnd) : ∃ r, f.rawOffset v = .ok r := by
  rw [rawOffset, if_neg (by simp [start, before])]
  dsimp only
  split
  · exact ⟨_, rfl⟩
  · next differ =>
    split
    · exact ⟨_, rfl⟩
    · next present =>
      obtain same | gone | ⟨first, found, once⟩ := aligned
      · exact (differ same).elim
      · exact (present gone).elim
      · rw [found]
        dsimp only
        rw [if_pos once]
        exact ⟨_, rfl⟩

end VisibleFragment

namespace Detokenizer

structure Chained (d : Detokenizer) : Prop where
  visible : ∀ f ∈ d.fragments, f.visibleEnd ≤ d.text.length
  raw : ∀ f ∈ d.fragments, f.rawEnd ≤ d.rawText.length
  ordered : d.fragments.Pairwise fun f f' => f.visibleEnd ≤ f'.visibleStart ∧ f.rawEnd ≤ f'.rawStart
  covers : ∀ v < d.text.length, ∃ f, d.fragmentAt v = some f ∧ f.visibleStart ≤ v

variable {d : Detokenizer} {text rawText : Text} {v : Nat}

theorem Chained.extend (chained : d.Chained) {d' : Detokenizer}
    (fragments : d'.fragments = (d.recordFragment text rawText).fragments)
    (visible : d'.text = d.text ++ text) (raw : d'.rawText = d.rawText ++ rawText) :
    d'.Chained := by
  by_cases empty : text = []
  · subst empty
    rw [recordFragment, if_pos rfl] at fragments
    rw [List.append_nil] at visible
    have longer : d.rawText.length ≤ d'.rawText.length := by
      rw [raw, List.length_append]
      exact Nat.le_add_right _ _
    refine ⟨?_, ?_, ?_, fun v => ?_⟩
    · rw [fragments, visible]
      exact chained.visible
    · rw [fragments]
      exact fun f member => (chained.raw f member).trans longer
    · rw [fragments]
      exact chained.ordered
    · rw [visible, fragmentAt, fragments]
      exact chained.covers v
  · rw [recordFragment, if_neg empty] at fragments
    dsimp only at fragments
    have positive : 0 < text.length := List.length_pos_of_ne_nil empty
    refine ⟨fun f member => ?_, fun f member => ?_, ?_, fun v before => ?_⟩
    · rw [visible, List.length_append]
      rw [fragments, List.mem_append, List.mem_singleton] at member
      obtain old | rfl := member
      · exact (chained.visible f old).trans (Nat.le_add_right _ _)
      · exact le_refl _
    · rw [raw, List.length_append]
      rw [fragments, List.mem_append, List.mem_singleton] at member
      obtain old | rfl := member
      · exact (chained.raw f old).trans (Nat.le_add_right _ _)
      · exact le_refl _
    · rw [fragments, List.pairwise_append]
      refine ⟨chained.ordered, List.pairwise_singleton _ _, fun f old f' new => ?_⟩
      rw [List.mem_singleton] at new
      subst new
      exact ⟨chained.visible f old, chained.raw f old⟩
    · rw [fragmentAt, fragments, List.find?_append]
      by_cases inside : v < d.text.length
      · obtain ⟨f, found, start⟩ := chained.covers v inside
        rw [fragmentAt] at found
        exact ⟨f, by rw [found]; rfl, start⟩
      · -- behind the old text only the new fragment is left
        have none : d.fragments.find? (fun f => decide (v < f.visibleEnd)) = none := by
          rw [List.find?_eq_none]
          intro f old
          have := chained.visible f old
          simp only [decide_eq_true_eq]
          omega
        rw [visible, List.length_append] at before
        refine ⟨⟨d.text.length, text, d.rawText.length, rawText⟩, ?_, by dsimp only; omega⟩
        rw [none, List.find?_singleton, if_pos (decide_eq_true ?_)]
        · rfl
        · exact before

def Cuttable (d : Detokenizer) (visibleTextLen : Nat) : Prop :=
  ∀ f, d.fragmentAt visibleTextLen = some f → f.Aligned

structure RawBound (d : Detokenizer) (visibleTextLen rawTextLen : Nat) : Prop where
  within : rawTextLen ≤ d.rawText.length
  after : ∀ f ∈ d.fragments, ∀ v r, visibleTextLen ≤ v → f.rawOffset v = .ok r → rawTextLen ≤ r

theorem RawBound.extend {n : Nat} (bound : d.RawBound v n) {d' : Detokenizer}
    (fragments : d'.fragments = (d.recordFragment text rawText).fragments)
    (raw : d'.rawText = d.rawText ++ rawText) : d'.RawBound v n where
  within := by
    rw [raw, List.length_append]
    exact bound.within.trans (Nat.le_add_right _ _)
  after f member v' r le found := by
    rw [fragments, recordFragment] at member
    split at member
    · exact bound.after f member v' r le found
    · obtain old | new := List.mem_append.mp member
      · exact bound.after f old v' r le found
      · rw [List.mem_singleton] at new
        subst new
        obtain ⟨-, -, -, start, -⟩ := VisibleFragment.rawOffset_eq found
        exact bound.within.trans start

theorem Chained.order (chained : d.Chained) {f f' : VisibleFragment} (member : f ∈ d.fragments)
    (member' : f' ∈ d.fragments) : f = f' ∨
      (f.visibleEnd ≤ f'.visibleStart ∧ f.rawEnd ≤ f'.rawStart) ∨
      (f'.visibleEnd ≤ f.visibleStart ∧ f'.rawEnd ≤ f.rawStart) :=
  List.Pairwise.forall_of_forall_of_flip
    (R := fun f f' : VisibleFragment => f = f' ∨
      (f.visibleEnd ≤ f'.visibleStart ∧ f.rawEnd ≤ f'.rawStart) ∨
      (f'.visibleEnd ≤ f.visibleStart ∧ f'.rawEnd ≤ f.rawStart))
    (fun _ _ => .inl rfl) (chained.ordered.imp fun h => .inr (.inl h))
    (chained.ordered.imp fun h => .inr (.inr h)) member member'

variable {limit cut n : Nat}

theorem rawOffsetForVisiblePrefix_of_cuttable (chained : d.Chained) (visible : v ≤ d.text.length)
    (raw : limit ≤ d.rawText.length) (cuttable : d.Cuttable v) :
    ∃ cut, d.rawOffsetForVisiblePrefix v limit = .ok cut := by
  rw [rawOffsetForVisiblePrefix, if_neg (by omega), if_neg (by omega)]
  cases found : d.fragmentAt v with
  | none => exact ⟨limit, rfl⟩
  | some f =>
    have before : v < f.visibleEnd := by simpa using List.find?_some found
    have inside : v < d.text.length :=
      before.trans_le (chained.visible f (List.mem_of_find?_eq_some found))
    obtain ⟨f', found', start⟩ := chained.covers v inside
    obtain rfl := Option.some.inj (found.symm.trans found')
    obtain ⟨r, offset⟩ := VisibleFragment.rawOffset_of_aligned (cuttable f found) start before
    refine ⟨min r limit, ?_⟩
    dsimp only
    rw [offset]
    rfl

theorem rawOffsetForVisiblePrefix_eq (chained : d.Chained)
    (h : d.rawOffsetForVisiblePrefix v limit = .ok cut) :
    cut ≤ limit ∧ d.Cuttable v ∧ d.RawBound v cut ∧
      ∀ v₀ n, v₀ ≤ v → n ≤ limit → d.RawBound v₀ n → n ≤ cut := by
  rw [rawOffsetForVisiblePrefix] at h
  split at h
  · exact nomatch h
  · split at h
    · exact nomatch h
    · next visible raw =>
      cases found : d.fragmentAt v with
      | none =>
        rw [found] at h
        obtain rfl := Except.ok.inj h
        refine ⟨le_refl _, fun f here => (nomatch found.symm.trans here),
          ⟨by omega, fun f member v' r le offset => ?_⟩, fun v₀ n _ bound _ => bound⟩
        obtain ⟨-, before, -⟩ := VisibleFragment.rawOffset_eq offset
        have behind := List.find?_eq_none.mp found f member
        simp only [decide_eq_true_eq] at behind
        omega
      | some f =>
        rw [found] at h
        dsimp only at h
        cases offset : f.rawOffset v with
        | error e =>
          rw [offset] at h
          exact nomatch h
        | ok r =>
          rw [offset] at h
          have h : min r limit = cut := Except.ok.inj h
          obtain ⟨start, before, aligned, low, high, moves⟩ := VisibleFragment.rawOffset_eq offset
          have member := List.mem_of_find?_eq_some found
          refine ⟨by omega, fun f' here => ?_, ⟨by omega, fun f' member' v' r' le offset' => ?_⟩,
            fun v₀ n le bound kept => ?_⟩
          · obtain rfl := Option.some.inj (found.symm.trans here)
            exact aligned
          · obtain ⟨start', before', -, low', high', -⟩ := VisibleFragment.rawOffset_eq offset'
            -- in the same fragment the offsets move together, a later one begins behind this one
            by_cases same : f' = f
            · subst same
              have := moves v' r' le offset'
              omega
            · obtain equal | ⟨visible, raw⟩ | ⟨visible, raw⟩ := chained.order member member'
              · exact (same equal.symm).elim
              · omega
              · omega
          · have := kept.after f member v r le offset
            omega

end Detokenizer

namespace Tokenizer

variable {T : Tokenizer} {ids : List Int}

theorem foldl_pushToken_chained : ∀ (more : List Int) (d : Detokenizer), d.Chained →
    (more.foldl T.pushToken d).Chained
  | [], _, chained => chained
  | _ :: more, _, chained =>
    foldl_pushToken_chained more _ (chained.extend rfl rfl rfl)

theorem detokenizer_chained (ids : List Int) : (T.detokenizer ids).Chained :=
  foldl_pushToken_chained ids {} ⟨nofun, nofun, List.Pairwise.nil, nofun⟩

theorem detokenized_chained (incremental : T.Incremental) (ids : List Int) :
    (T.detokenized ids).Chained :=
  (detokenizer_chained ids).extend rfl
    (List.prefix_iff_eq_append.mp (incremental.text ids)).symm
    (List.prefix_iff_eq_append.mp (incremental.rawText ids)).symm

theorem foldl_pushToken_rawBound {v n : Nat} : ∀ (more : List Int) (d : Detokenizer),
    d.RawBound v n → (more.foldl T.pushToken d).RawBound v n
  | [], _, bound => bound
  | _ :: more, _, bound => foldl_pushToken_rawBound more _ (bound.extend rfl rfl)

theorem detokenizer_rawBound {v n : Nat} (bound : (T.detokenizer ids).RawBound v n)
    (more : List Int) : (T.detokenizer (ids ++ more)).RawBound v n := by
  rw [detokenizer_append]
  exact foldl_pushToken_rawBound more _ bound

theorem detokenized_rawBound (incremental : T.Incremental) {v n : Nat}
    (bound : (T.detokenizer ids).RawBound v n) : (T.detokenized ids).RawBound v n :=
  bound.extend rfl (List.prefix_iff_eq_append.mp (incremental.rawText ids)).symm

end Tokenizer

end SparseEngine.Dispatcher
