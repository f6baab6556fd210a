import Mathlib.Tactic

/-! `_find_stop_index` looks for the earliest stop string in a text. -/

namespace SparseEngine.Dispatcher

abbrev Text := List Char

/-- `text.find(item)`. -/
def find (text item : Text) : Option Nat :=
  (List.range (text.length + 1)).find? fun i => item.isPrefixOf (text.drop i)

def findStopIndex (text : Text) (stop : List Text) : Option Nat :=
  ((stop.filter fun item => !item.isEmpty).filterMap (find text)).min?

/-- The inner loop of `_safe_stream_text_len`. -/
def overlapFrom (text item : Text) : Nat → Nat
  | 0 => 0
  | overlap + 1 =>
    if (item.take (overlap + 1)).isSuffixOf text then overlap + 1 else overlapFrom text item overlap

/-- The loop of `_safe_stream_text_len` over the stop strings. -/
def maxOverlap (text : Text) : List Text → Nat → Nat
  | [], overlap => overlap
  | item :: stop, overlap =>
    maxOverlap text stop
      (max overlap (overlapFrom text item (min (item.length - 1) text.length)))

def safeStreamTextLen (text : Text) (stop : List Text) : Nat :=
  text.length - maxOverlap text stop 0

/-- `text` cut right before its earliest stop string. -/
def cutAtStop (text : Text) (stop : List Text) : Text :=
  match findStopIndex text stop with
  | some i => text.take i
  | none => text

example : findStopIndex "abc".toList ["c".toList, "bc".toList] = some 1 := by decide

example : safeStreamTextLen "say <st".toList ["<stop>".toList] = 4 := by decide

variable {text more item : Text} {stop : List Text} {i j : Nat}

theorem find_eq_some : find text item = some i ↔
    item <+: text.drop i ∧ i ≤ text.length ∧ ∀ j < i, ¬ item <+: text.drop j := by
  rw [find, List.find?_range_eq_some]
  simp only [List.isPrefixOf_iff_prefix, List.mem_range, Nat.lt_succ_iff, Bool.not_eq_true',
    ← Bool.not_eq_true]

/-- A stop string stands at position `i`. -/
def StopAt (text : Text) (stop : List Text) (i : Nat) : Prop :=
  ∃ item ∈ stop, item ≠ [] ∧ item <+: text.drop i

theorem StopAt.lt_length (h : StopAt text stop i) : i < text.length := by
  obtain ⟨item, -, nonempty, here⟩ := h
  by_contra past
  rw [List.drop_eq_nil_of_le (by omega), List.prefix_nil] at here
  exact nonempty here

theorem find_le_of_prefix (here : item <+: text.drop i) (bound : i ≤ text.length) :
    ∃ j ≤ i, find text item = some j := by
  induction i using Nat.strong_induction_on with
  | _ i ih =>
    by_cases earlier : ∃ j < i, item <+: text.drop j
    · obtain ⟨j, less, before⟩ := earlier
      obtain ⟨k, le, found⟩ := ih j less before (by omega)
      exact ⟨k, by omega, found⟩
    · exact ⟨i, le_refl i, find_eq_some.mpr ⟨here, bound, fun j less before =>
        earlier ⟨j, less, before⟩⟩⟩

theorem findStopIndex_eq_some : findStopIndex text stop = some i ↔
    StopAt text stop i ∧ ∀ j, StopAt text stop j → i ≤ j := by
  rw [findStopIndex, List.min?_eq_some_iff]
  simp only [List.mem_filterMap, List.mem_filter, Bool.not_eq_true', List.isEmpty_eq_false_iff]
  constructor
  · rintro ⟨⟨item, ⟨member, nonempty⟩, found⟩, least⟩
    refine ⟨⟨item, member, nonempty, (find_eq_some.mp found).1⟩, fun j stopped => ?_⟩
    have bound := stopped.lt_length
    obtain ⟨other, member', nonempty', here⟩ := stopped
    obtain ⟨k, le, found'⟩ := find_le_of_prefix here bound.le
    exact (least k ⟨other, ⟨member', nonempty'⟩, found'⟩).trans le
  · rintro ⟨stopped, least⟩
    have bound := stopped.lt_length
    obtain ⟨item, member, nonempty, here⟩ := stopped
    refine ⟨⟨item, ⟨member, nonempty⟩, find_eq_some.mpr ⟨here, bound.le, fun j less before => ?_⟩⟩, ?_⟩
    · have := least j ⟨item, member, nonempty, before⟩
      omega
    · rintro j ⟨other, ⟨member', nonempty'⟩, found⟩
      exact least j ⟨other, member', nonempty', (find_eq_some.mp found).1⟩

theorem findStopIndex_of_stopAt (h : StopAt text stop i) :
    ∃ j ≤ i, findStopIndex text stop = some j := by
  induction i using Nat.strong_induction_on with
  | _ i ih =>
    by_cases earlier : ∃ j < i, StopAt text stop j
    · obtain ⟨j, less, before⟩ := earlier
      obtain ⟨k, le, found⟩ := ih j less before
      exact ⟨k, by omega, found⟩
    · refine ⟨i, le_refl i, findStopIndex_eq_some.mpr ⟨h, fun j before => ?_⟩⟩
      by_contra less
      exact earlier ⟨j, by omega, before⟩

theorem findStopIndex_eq_none : findStopIndex text stop = none ↔ ∀ j, ¬ StopAt text stop j := by
  constructor
  · intro absent j here
    obtain ⟨k, -, found⟩ := findStopIndex_of_stopAt here
    exact nomatch absent.symm.trans found
  · intro never
    cases found : findStopIndex text stop with
    | none => rfl
    | some i => exact (never i (findStopIndex_eq_some.mp found).1).elim

theorem overlapFrom_le (text item : Text) (n : Nat) : overlapFrom text item n ≤ n := by
  induction n with
  | zero => exact le_refl 0
  | succ n ih =>
    rw [overlapFrom]
    split
    · exact le_refl _
    · omega

theorem le_overlapFrom {overlap n : Nat} (positive : 0 < overlap) (bound : overlap ≤ n)
    (suffix : item.take overlap <:+ text) : overlap ≤ overlapFrom text item n := by
  induction n with
  | zero => omega
  | succ n ih =>
    rw [overlapFrom]
    split
    · exact bound
    · next absent =>
      refine ih ?_
      by_contra beyond
      have last : overlap = n + 1 := by omega
      exact absent (List.isSuffixOf_iff_suffix.mpr (last ▸ suffix))

theorem le_maxOverlap : ∀ (stop : List Text) (overlap : Nat), overlap ≤ maxOverlap text stop overlap
  | [], overlap => le_refl overlap
  | _ :: stop, _ => (le_max_left _ _).trans (le_maxOverlap stop _)

theorem overlap_le_maxOverlap (text item : Text) : ∀ (stop : List Text) (overlap : Nat), item ∈ stop →
    overlapFrom text item (min (item.length - 1) text.length) ≤ maxOverlap text stop overlap
  | other :: stop, overlap, member => by
    rw [maxOverlap]
    rcases List.mem_cons.mp member with rfl | member
    · exact (le_max_right _ _).trans (le_maxOverlap stop _)
    · exact overlap_le_maxOverlap text item stop _ member

theorem safeStreamTextLen_le : safeStreamTextLen text stop ≤ text.length := Nat.sub_le _ _

theorem safeStreamTextLen_le_of_prefix (member : item ∈ stop) (inside : i < text.length)
    (begins : text.drop i <+: item) (proper : text.length - i < item.length) :
    safeStreamTextLen text stop ≤ i := by
  have length : (text.drop i).length = text.length - i := List.length_drop
  have suffix : item.take (text.length - i) <:+ text := by
    rw [← length, ← List.prefix_iff_eq_take.mp begins]
    exact List.drop_suffix i text
  have overlap := le_overlapFrom (n := min (item.length - 1) text.length)
    (by omega) (by omega) suffix
  have most := overlap_le_maxOverlap text item stop 0 member
  rw [safeStreamTextLen]
  omega

theorem safeStreamTextLen_le_of_stopAt (none : findStopIndex text stop = none)
    (h : StopAt (text ++ more) stop i) : safeStreamTextLen text stop ≤ i := by
  by_cases inside : i < text.length
  · obtain ⟨item, member, nonempty, here⟩ := h
    rw [List.drop_append_of_le_length inside.le] at here
    have length : (text.drop i).length = text.length - i := List.length_drop
    -- a stop string that ends inside the text was found in it, any other begins at its end
    by_cases whole : item.length ≤ text.length - i
    · have here' : item <+: text.drop i :=
        List.prefix_of_prefix_length_le here (List.prefix_append _ _) (by omega)
      exact (findStopIndex_eq_none.mp none i ⟨item, member, nonempty, here'⟩).elim
    · exact safeStreamTextLen_le_of_prefix member inside
        (List.prefix_of_prefix_length_le (List.prefix_append _ _) here (by omega)) (by omega)
  · exact safeStreamTextLen_le.trans (by omega)

theorem overlapFrom_suffix (text item : Text) (n : Nat) : item.take (overlapFrom text item n) <:+ text := by
  induction n with
  | zero => exact List.nil_suffix
  | succ n ih =>
    rw [overlapFrom]
    split
    · next here => exact List.isSuffixOf_iff_suffix.mp here
    · exact ih

theorem maxOverlap_attained (text : Text) : ∀ (stop : List Text) (overlap : Nat),
    maxOverlap text stop overlap = overlap ∨ ∃ item ∈ stop, maxOverlap text stop overlap =
      overlapFrom text item (min (item.length - 1) text.length)
  | [], _ => .inl rfl
  | item :: stop, overlap => by
    rw [maxOverlap]
    rcases maxOverlap_attained text stop
      (max overlap (overlapFrom text item (min (item.length - 1) text.length))) with same | found
    · rcases max_choice overlap (overlapFrom text item (min (item.length - 1) text.length)) with
        left | right
      · exact .inl (same.trans left)
      · exact .inr ⟨item, List.mem_cons_self, same.trans right⟩
    · obtain ⟨other, member, attained⟩ := found
      exact .inr ⟨other, List.mem_cons_of_mem _ member, attained⟩

theorem safeStreamTextLen_append (more : Text) :
    safeStreamTextLen text stop ≤ safeStreamTextLen (text ++ more) stop := by
  have short : safeStreamTextLen text stop ≤ text.length := safeStreamTextLen_le
  rcases maxOverlap_attained (text ++ more) stop 0 with none | ⟨item, member, attained⟩
  · rw [safeStreamTextLen, safeStreamTextLen, none, List.length_append]
    omega
  · -- the end that is held back now begins before or behind the old text
    have bound := overlapFrom_le (text ++ more) item
      (min (item.length - 1) (text ++ more).length)
    have suffix := overlapFrom_suffix (text ++ more) item
      (min (item.length - 1) (text ++ more).length)
    rw [← attained] at bound suffix
    rw [List.length_append] at bound
    have end' : safeStreamTextLen (text ++ more) stop =
        text.length + more.length - maxOverlap (text ++ more) stop 0 := by
      rw [safeStreamTextLen, List.length_append]
    rw [end']
    by_cases inside :
        text.length + more.length - maxOverlap (text ++ more) stop 0 < text.length
    · refine safeStreamTextLen_le_of_prefix member inside ?_ (by omega)
      have begins := List.suffix_iff_eq_drop.mp suffix
      rw [List.length_take, List.length_append,
        Nat.min_eq_left (show maxOverlap (text ++ more) stop 0 ≤ item.length by omega),
        List.drop_append_of_le_length inside.le] at begins
      exact (List.prefix_append _ more).trans (begins ▸ List.take_prefix _ _)
    · omega

end SparseEngine.Dispatcher
