import SparseEngine.Responses.StreamState

/-! A stream is well formed when each output item is announced once, before its other events. -/

namespace SparseEngine.Responses

open PyM List

def joined (texts : List String) : String := texts.foldr (· ++ ·) ""

@[simp] theorem joined_nil : joined [] = "" := rfl

@[simp] theorem joined_cons (text : String) (texts : List String) :
    joined (text :: texts) = text ++ joined texts := rfl

@[simp] theorem joined_append (texts more : List String) :
    joined (texts ++ more) = joined texts ++ joined more := by
  induction texts with
  | nil => simp
  | cons text texts ih => simp [ih, String.append_assoc]

namespace StreamEvent

/-- The field `output_index`. -/
def outputIndex : StreamEvent → Nat
  | outputItemAdded index _ | outputItemDone index _ => index
  | contentPartAdded _ index _ _ | contentPartDone _ index _ _ => index
  | outputTextDelta _ index _ _ | outputTextDone _ index _ _ => index
  | reasoningPartAdded _ index _ _ | reasoningPartDone _ index _ _ => index
  | reasoningTextDelta _ index _ _ | reasoningTextDone _ index _ _ => index
  | functionCallArgumentsDelta _ index _ | functionCallArgumentsDone _ index _ => index

/-- The field `item_id`. -/
def itemId : StreamEvent → Nat
  | outputItemAdded _ item | outputItemDone _ item => item.id
  | contentPartAdded id _ _ _ | contentPartDone id _ _ _ => id
  | outputTextDelta id _ _ _ | outputTextDone id _ _ _ => id
  | reasoningPartAdded id _ _ _ | reasoningPartDone id _ _ _ => id
  | reasoningTextDelta id _ _ _ | reasoningTextDone id _ _ _ => id
  | functionCallArgumentsDelta id _ _ | functionCallArgumentsDone id _ _ => id

/-- The index an `output_item_added` event announces. -/
def addedIndex : StreamEvent → Option Nat
  | outputItemAdded index _ => some index
  | _ => none

/-- The index an `output_item_done` event closes. -/
def doneIndex : StreamEvent → Option Nat
  | outputItemDone index _ => some index
  | _ => none

def delta : StreamEvent → Option String
  | outputTextDelta _ _ _ delta => some delta
  | reasoningTextDelta _ _ _ delta => some delta
  | functionCallArgumentsDelta _ _ delta => some delta
  | _ => none

def doneValue : StreamEvent → Option String
  | outputItemDone _ item => some item.value
  | contentPartDone _ _ _ part => some part
  | outputTextDone _ _ _ text => some text
  | reasoningPartDone _ _ _ part => some part
  | reasoningTextDone _ _ _ text => some text
  | functionCallArgumentsDone _ _ arguments => some arguments
  | _ => none

theorem outputIndex_of_done {event : StreamEvent} {index : Nat}
    (done : event.doneIndex = some index) :
    event.outputIndex = index ∧ event.doneValue ≠ none := by
  cases event <;> simp_all [doneIndex, outputIndex, doneValue]

end StreamEvent

def deltasAt (index : Nat) (events : List StreamEvent) : List String :=
  (events.filter (·.outputIndex = index)).filterMap StreamEvent.delta

@[simp] theorem deltasAt_append (index : Nat) (events frames : List StreamEvent) :
    deltasAt index (events ++ frames) = deltasAt index events ++ deltasAt index frames := by
  simp [deltasAt]

theorem deltasAt_of_no_delta {index : Nat} {frames : List StreamEvent}
    (none_delta : ∀ e ∈ frames, e.delta = none) : deltasAt index frames = [] := by
  refine filterMap_eq_nil_iff.mpr fun e member => ?_
  exact none_delta e (mem_filter.mp member).1

theorem deltasAt_of_ne {index : Nat} {frames : List StreamEvent}
    (elsewhere : ∀ e ∈ frames, e.outputIndex ≠ index) : deltasAt index frames = [] := by
  have empty : frames.filter (·.outputIndex = index) = [] := by
    simpa [filter_eq_nil_iff] using elsewhere
  simp [deltasAt, empty]

def AddedFirst (before after : StreamEvent) : Prop :=
  before.outputIndex = after.outputIndex → after.addedIndex = none

def NoDeltaAfterDone (before after : StreamEvent) : Prop :=
  before.outputIndex = after.outputIndex → before.doneValue ≠ none → after.delta = none

instance : DecidableRel NoDeltaAfterDone := fun _ _ => by unfold NoDeltaAfterDone; infer_instance

/-- What a client may rely on in a stream of events. -/
structure WellFormedStream (events : List StreamEvent) (output : List OutputItem) : Prop where
  /-- Each item is announced once. -/
  added : events.filterMap StreamEvent.addedIndex = range output.length
  /-- Each event names the item at its index. -/
  item_ids : ∀ e ∈ events, (output[e.outputIndex]?).map OutputItem.id = some e.itemId
  added_first : events.Pairwise AddedFirst
  done_once : ∀ index < output.length, (events.filterMap StreamEvent.doneIndex).count index = 1
  no_delta_after_done : events.Pairwise NoDeltaAfterDone
  done_deltas : ∀ e ∈ events, ∀ text, e.doneValue = some text →
    text = joined (deltasAt e.outputIndex events)
  done_value : ∀ e ∈ events, ∀ text, e.doneValue = some text →
    (output[e.outputIndex]?).map OutputItem.value = some text

/-- What holds of the events so far when the items at the indices `isOpen` are not done. -/
structure Tracked (isOpen : Nat → Prop) (events : List StreamEvent) (output : List OutputItem) :
    Prop where
  added : events.filterMap StreamEvent.addedIndex = range output.length
  item_ids : ∀ e ∈ events, (output[e.outputIndex]?).map OutputItem.id = some e.itemId
  added_first : events.Pairwise AddedFirst
  no_delta_after_done : events.Pairwise NoDeltaAfterDone
  closed_once : ∀ index < output.length, ¬ isOpen index →
    (events.filterMap StreamEvent.doneIndex).count index = 1
  open_undone : ∀ e ∈ events, isOpen e.outputIndex → e.doneValue = none
  value : ∀ index item, output[index]? = some item →
    item.value = joined (deltasAt index events)
  done_value : ∀ e ∈ events, ∀ text, e.doneValue = some text →
    (output[e.outputIndex]?).map OutputItem.value = some text

namespace Tracked

variable {isOpen isOpen' : Nat → Prop} {events frames : List StreamEvent}
  {output output' : List OutputItem} {index : Nat} {item item' : OutputItem}

theorem empty : Tracked (fun _ => False) [] [] := by
  constructor <;> simp

theorem congr (h : Tracked isOpen events output) (same : ∀ i, isOpen i ↔ isOpen' i) :
    Tracked isOpen' events output := by
  have eq : isOpen = isOpen' := funext fun i => propext (same i)
  exact eq ▸ h

theorem index_lt (h : Tracked isOpen events output) {e : StreamEvent} (member : e ∈ events) :
    e.outputIndex < output.length := by
  have named := h.item_ids e member
  by_contra outside
  rw [getElem?_eq_none (by omega)] at named
  simp at named

theorem done_mem (h : Tracked isOpen events output) (bound : index < output.length)
    (closed : ¬ isOpen index) : ∃ e ∈ events, e.doneIndex = some index := by
  have once := h.closed_once index bound closed
  have member : index ∈ events.filterMap StreamEvent.doneIndex := by
    rw [← count_pos_iff]
    omega
  exact mem_filterMap.mp member

theorem wellFormed (h : Tracked isOpen events output) (closed : ∀ i, ¬ isOpen i) :
    WellFormedStream events output where
  __ := h
  done_once i bound := h.closed_once i bound (closed i)
  done_deltas e member text done := by
    have shown := h.done_value e member text done
    obtain ⟨item, found, rfl⟩ := Option.map_eq_some_iff.mp shown
    exact h.value _ item found

end Tracked

/-- An event that comes with the announcement of the item at `index`. -/
def Announces (index id : Nat) (event : StreamEvent) : Prop :=
  event.outputIndex = index ∧ event.itemId = id ∧ event.addedIndex = none ∧
    event.doneValue = none ∧ event.delta = none

/-- An event that reports the item at `index` done with `text`. -/
def Reports (index id : Nat) (text : String) (event : StreamEvent) : Prop :=
  event.outputIndex = index ∧ event.itemId = id ∧ event.addedIndex = none ∧
    event.doneValue = some text ∧ event.delta = none

/-- A delta event of the item at `index`. -/
def Extends (index id : Nat) (text : String) (event : StreamEvent) : Prop :=
  event.outputIndex = index ∧ event.itemId = id ∧ event.addedIndex = none ∧
    event.doneValue = none ∧ event.delta = some text

theorem no_doneIndex {frames : List StreamEvent} (undone : ∀ e ∈ frames, e.doneValue = none) :
    frames.filterMap StreamEvent.doneIndex = [] := by
  refine filterMap_eq_nil_iff.mpr fun e member => ?_
  cases found : e.doneIndex with
  | none => rfl
  | some index => exact absurd (undone e member) (StreamEvent.outputIndex_of_done found).2

theorem no_addedIndex {frames : List StreamEvent} (old : ∀ e ∈ frames, e.addedIndex = none) :
    frames.filterMap StreamEvent.addedIndex = [] :=
  filterMap_eq_nil_iff.mpr old

theorem pairwise_append_at {R : StreamEvent → StreamEvent → Prop}
    {events frames : List StreamEvent} (before : events.Pairwise R) (after : frames.Pairwise R)
    (across : ∀ a ∈ events, ∀ b ∈ frames, R a b) : (events ++ frames).Pairwise R :=
  pairwise_append.mpr ⟨before, after, across⟩

theorem pairwise_of_forall {R : StreamEvent → StreamEvent → Prop} {frames : List StreamEvent}
    (all : ∀ a, ∀ b ∈ frames, R a b) : frames.Pairwise R := by
  refine pairwise_iff_forall_sublist.mpr fun {a b} sub => ?_
  exact all a b (sub.subset (by simp))

namespace Tracked

variable {isOpen : Nat → Prop} {events frames : List StreamEvent}
  {output : List OutputItem} {index : Nat} {item item' : OutputItem} {text : String}

theorem announced_silent {index id : Nat} {shown : OutputItem}
    (parts : ∀ e ∈ frames, Announces index id e) {e : StreamEvent}
    (member : e ∈ .outputItemAdded index shown :: frames) : e.doneValue = none ∧ e.delta = none := by
  rcases mem_cons.mp member with rfl | part
  · exact ⟨rfl, rfl⟩
  · exact (parts e part).2.2.2

theorem opened (h : Tracked isOpen events output) (shown item : OutputItem)
    (frames : List StreamEvent) (same_id : shown.id = item.id) (no_text : item.value = "") (parts : ∀ e ∈ frames, Announces output.length item.id e) :
    Tracked (fun i => isOpen i ∨ i = output.length)
      (events ++ .outputItemAdded output.length shown :: frames) (output ++ [item]) where
  added := by
    have rest := no_addedIndex fun e member => (parts e member).2.2.1
    simp [h.added, StreamEvent.addedIndex, rest, range_succ]
  item_ids e member := by
    rcases mem_append.mp member with old | new
    · rw [getElem?_append_left (h.index_lt old)]
      exact h.item_ids e old
    · rcases mem_cons.mp new with rfl | part
      · simp [StreamEvent.outputIndex, StreamEvent.itemId, same_id]
      · obtain ⟨at_index, named, -⟩ := parts e part
        simp [at_index, named]
  added_first := by
    refine pairwise_append_at h.added_first ?_ ?_
    · refine pairwise_cons.mpr ⟨fun e part _ => (parts e part).2.2.1, ?_⟩
      exact pairwise_of_forall fun _ e part _ => (parts e part).2.2.1
    · intro a old b new same
      have bound := h.index_lt old
      rcases mem_cons.mp new with rfl | part
      · exact absurd same (Nat.ne_of_lt bound)
      · exact (parts b part).2.2.1
  no_delta_after_done :=
    pairwise_append_at h.no_delta_after_done
      (pairwise_of_forall fun _ _ new _ _ => (announced_silent parts new).2)
      fun _ _ _ new _ _ => (announced_silent parts new).2
  closed_once i bound closed := by
    have rest := no_doneIndex
      fun (e : StreamEvent) (new : e ∈ .outputItemAdded output.length shown :: frames) =>
        (announced_silent parts new).1
    have inside : i < output.length := by
      simp only [length_append, length_singleton] at bound
      omega
    rw [filterMap_append, rest, append_nil]
    exact h.closed_once i inside fun o => closed (.inl o)
  open_undone e member opened := by
    rcases mem_append.mp member with old | new
    · have bound := h.index_lt old
      exact h.open_undone e old (opened.resolve_right (Nat.ne_of_lt bound))
    · exact (announced_silent parts new).1
  value i other found := by
    have silent : deltasAt i (.outputItemAdded output.length shown :: frames) = [] :=
      deltasAt_of_no_delta fun e new => (announced_silent parts new).2
    rw [deltasAt_append, silent, append_nil]
    rcases Nat.lt_trichotomy i output.length with inside | rfl | outside
    · exact h.value i other (by rwa [getElem?_append_left inside] at found)
    · obtain rfl : item = other := by simpa using found
      rw [deltasAt_of_ne fun e old => Nat.ne_of_lt (h.index_lt old), no_text, joined_nil]
    · rw [getElem?_eq_none (by simp; omega)] at found
      cases found
  done_value e member text done := by
    rcases mem_append.mp member with old | new
    · rw [getElem?_append_left (h.index_lt old)]
      exact h.done_value e old text done
    · rw [(announced_silent parts new).1] at done
      cases done

theorem lt_of_item (found : output[index]? = some item) : index < output.length :=
  (List.getElem?_eq_some_iff.mp found).1

theorem item_ids_set (h : Tracked isOpen events output) (found : output[index]? = some item)
    (same_id : item'.id = item.id) {e : StreamEvent} (old : e ∈ events) :
    ((output.set index item')[e.outputIndex]?).map OutputItem.id = some e.itemId := by
  have named := h.item_ids e old
  by_cases here : index = e.outputIndex
  · subst here
    rw [found] at named
    rw [getElem?_set_self (lt_of_item found)]
    simpa [same_id] using named
  · rwa [getElem?_set_ne here]

theorem extended (h : Tracked isOpen events output) (item' : OutputItem) (event : StreamEvent)
    (opened : isOpen index) (found : output[index]? = some item) (same_id : item'.id = item.id)
    (longer : item'.value = item.value ++ text)
    (extends_ : Extends index item.id text event) :
    Tracked isOpen (events ++ [event]) (output.set index item') := by
  obtain ⟨at_index, named, old_item, undone, delta⟩ := extends_
  have bound := lt_of_item found
  constructor
  · simp [h.added, old_item]
  · intro e member
    rcases mem_append.mp member with old | new
    · exact h.item_ids_set found same_id old
    · obtain rfl := mem_singleton.mp new
      rw [at_index, getElem?_set_self bound]
      simp [named, same_id]
  · refine pairwise_append_at h.added_first (pairwise_singleton _ _) ?_
    intro a old b new _
    obtain rfl := mem_singleton.mp new
    exact old_item
  · refine pairwise_append_at h.no_delta_after_done (pairwise_singleton _ _) ?_
    intro a old b new same done
    obtain rfl := mem_singleton.mp new
    have at_open : isOpen a.outputIndex := by rwa [same, at_index]
    exact absurd (h.open_undone a old at_open) done
  · intro i inside closed
    have rest : [event].filterMap StreamEvent.doneIndex = [] :=
      no_doneIndex (by simpa using undone)
    rw [filterMap_append, rest, append_nil]
    exact h.closed_once i (by simpa using inside) closed
  · intro e member opened
    rcases mem_append.mp member with old | new
    · exact h.open_undone e old opened
    · obtain rfl := mem_singleton.mp new
      exact undone
  · intro i other found'
    by_cases here : index = i
    · subst here
      rw [getElem?_set_self bound] at found'
      obtain rfl := Option.some.inj found'
      have last : deltasAt index [event] = [text] := by simp [deltasAt, at_index, delta]
      rw [deltasAt_append, last, joined_append, longer, h.value index item found]
      simp
    · rw [getElem?_set_ne here] at found'
      have elsewhere : deltasAt i [event] = [] := deltasAt_of_ne (by simpa [at_index] using here)
      rw [deltasAt_append, elsewhere, append_nil]
      exact h.value i other found'
  · intro e member reported done
    rcases mem_append.mp member with old | new
    · have away : index ≠ e.outputIndex := by
        rintro rfl
        rw [h.open_undone e old opened] at done
        cases done
      rw [getElem?_set_ne away]
      exact h.done_value e old reported done
    · obtain rfl := mem_singleton.mp new
      rw [undone] at done
      cases done

theorem closed (h : Tracked isOpen events output) (item' : OutputItem)
    (frames : List StreamEvent) (opened : isOpen index) (found : output[index]? = some item)
    (same_id : item'.id = item.id) (same_value : item'.value = item.value)
    (reports : ∀ e ∈ frames, Reports index item.id item.value e)
    (once : frames.filterMap StreamEvent.doneIndex = [index]) :
    Tracked (fun i => isOpen i ∧ i ≠ index) (events ++ frames) (output.set index item') := by
  have bound := lt_of_item found
  have no_delta : ∀ e ∈ frames, e.delta = none := fun e new => (reports e new).2.2.2.2
  have old_item : ∀ e ∈ frames, e.addedIndex = none := fun e new => (reports e new).2.2.1
  constructor
  · simp [h.added, no_addedIndex old_item]
  · intro e member
    rcases mem_append.mp member with old | new
    · exact h.item_ids_set found same_id old
    · obtain ⟨at_index, named, -⟩ := reports e new
      rw [at_index, getElem?_set_self bound]
      simp [named, same_id]
  · exact pairwise_append_at h.added_first (pairwise_of_forall fun _ e new _ => old_item e new)
      fun _ _ e new _ => old_item e new
  · exact pairwise_append_at h.no_delta_after_done
      (pairwise_of_forall fun _ e new _ _ => no_delta e new) fun _ _ e new _ _ => no_delta e new
  · intro i inside closed
    rw [filterMap_append, once, count_append]
    by_cases here : i = index
    · subst here
      have before : (events.filterMap StreamEvent.doneIndex).count i = 0 := by
        refine count_eq_zero.mpr fun member => ?_
        obtain ⟨e, old, done⟩ := mem_filterMap.mp member
        obtain ⟨at_index, reported⟩ := StreamEvent.outputIndex_of_done done
        exact reported (h.open_undone e old (at_index ▸ opened))
      simp [before]
    · have before := h.closed_once i (by simpa using inside) fun o => closed ⟨o, here⟩
      rw [before, count_eq_zero.mpr (by simpa using here)]
  · intro e member still
    rcases mem_append.mp member with old | new
    · exact h.open_undone e old still.1
    · exact absurd (reports e new).1 still.2
  · intro i other found'
    rw [deltasAt_append, deltasAt_of_no_delta no_delta, append_nil]
    by_cases here : index = i
    · subst here
      rw [getElem?_set_self bound] at found'
      obtain rfl := Option.some.inj found'
      rw [same_value]
      exact h.value index item found
    · exact h.value i other (by rwa [getElem?_set_ne here] at found')
  · intro e member reported done
    rcases mem_append.mp member with old | new
    · have away : index ≠ e.outputIndex := by
        rintro rfl
        rw [h.open_undone e old opened] at done
        cases done
      rw [getElem?_set_ne away]
      exact h.done_value e old reported done
    · obtain ⟨at_index, -, -, shown, -⟩ := reports e new
      rw [at_index, getElem?_set_self bound]
      rw [shown] at done
      simpa [same_value] using done

end Tracked

end SparseEngine.Responses
