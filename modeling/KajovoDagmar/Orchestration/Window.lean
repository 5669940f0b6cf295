import KajovoDagmar.Library.Budget
import KajovoDagmar.Orchestration.Context

/-! # The messages of the context

`_context_messages` goes backwards through the messages of a conversation and stops before the first one that
does not fit.  What it has taken by then is the longest suffix that fits, and the last message whatever its
length (`contextMessages_window`); no other list is both (`Window.eq`). -/

namespace KajovoDagmar

namespace OrchestrationService

/-- The number of characters of a message. -/
def contentLength (message : ConversationMessage) : ℕ := message.content.length

/-- The messages that a context of so many characters has room for. -/
structure Window (messages : List ConversationMessage) (maxCharacters : ℕ)
    (selected : List ConversationMessage) : Prop where
  suffix : selected <:+ messages
  fits : (∀ last ∈ messages.getLast?, contentLength last ≤ maxCharacters) →
    selected.total contentLength ≤ maxCharacters
  oversized : ∀ last ∈ messages.getLast?, maxCharacters < contentLength last → selected = [last]
  longest : ∀ longer, longer <:+ messages → selected.length < longer.length →
    maxCharacters < longer.total contentLength

variable {messages selected : List ConversationMessage} {maxCharacters : ℕ}

theorem takeWhileFits_cons (used : ℕ) (selected : Bool) (message : ConversationMessage)
    (older : List ConversationMessage) : takeWhileFits maxCharacters used selected (message :: older) =
      if selected = true ∧ maxCharacters < used + contentLength message then []
      else message :: takeWhileFits maxCharacters (used + contentLength message) true older := by
  rw [takeWhileFits]
  rfl

/-- The newest message is taken whatever its length. -/
theorem takeWhileFits_newest (last : ConversationMessage) (older : List ConversationMessage) :
    takeWhileFits maxCharacters 0 false (last :: older) =
      last :: takeWhileFits maxCharacters (contentLength last) true older := by
  rw [takeWhileFits_cons, if_neg fun hover => absurd hover.1 Bool.false_ne_true, Nat.zero_add]

/-- Behind the newest message, the loop takes what is left of the budget. -/
theorem takeWhileFits_selected {used : ℕ} (hused : used ≤ maxCharacters) (older : List ConversationMessage) :
    takeWhileFits maxCharacters used true older = older.within contentLength (maxCharacters - used) := by
  induction older generalizing used with
  | nil => rfl
  | cons message older ih =>
      rw [takeWhileFits_cons, List.within]
      by_cases hfits : used + contentLength message ≤ maxCharacters
      · rw [if_neg fun hover => Nat.not_lt.mpr hfits hover.2, ih hfits, if_pos (Nat.le_sub_of_add_le' hfits),
          Nat.sub_sub]
      · have hover : ¬contentLength message ≤ maxCharacters - used := fun hle =>
          hfits ((Nat.le_sub_iff_add_le' hused).mp hle)
        rw [if_pos ⟨rfl, Nat.not_le.mp hfits⟩, if_neg hover]

/-- A budget that is used up has room for nothing, not for an empty message either. -/
theorem takeWhileFits_over {used : ℕ} (hused : maxCharacters < used) (older : List ConversationMessage) :
    takeWhileFits maxCharacters used true older = [] := by
  cases older with
  | nil => rfl
  | cons message older => rw [takeWhileFits_cons, if_pos ⟨rfl, Nat.lt_add_right _ hused⟩]

/-- Where the last message fits, the loop takes the longest suffix that does. -/
theorem contextMessages_of_fits
    (h : ∀ last ∈ messages.getLast?, contentLength last ≤ maxCharacters) :
    contextMessages messages maxCharacters = (messages.reverse.within contentLength maxCharacters).reverse := by
  rw [contextMessages]
  cases hreverse : messages.reverse with
  | nil => rfl
  | cons last older =>
      have hlast : messages.getLast? = some last := by rw [← List.head?_reverse, hreverse]; rfl
      have hfits := h last hlast
      rw [takeWhileFits_newest, takeWhileFits_selected hfits, List.within, if_pos hfits]

theorem contextMessages_of_oversized {last : ConversationMessage} (hlast : messages.getLast? = some last)
    (hover : maxCharacters < contentLength last) : contextMessages messages maxCharacters = [last] := by
  obtain ⟨older, rfl⟩ := List.getLast?_eq_some_iff.mp hlast
  rw [contextMessages, List.reverse_append, List.reverse_singleton, List.singleton_append, takeWhileFits_newest,
    takeWhileFits_over hover, List.reverse_singleton]

/-- **The context has the longest suffix of the messages that fits**, and never less than the last one. -/
theorem contextMessages_window (messages : List ConversationMessage) (maxCharacters : ℕ) :
    Window messages maxCharacters (contextMessages messages maxCharacters) := by
  by_cases h : ∀ last ∈ messages.getLast?, contentLength last ≤ maxCharacters
  · rw [contextMessages_of_fits h]
    refine ⟨?_, fun _ => ?_, fun last hlast hover => ?_, fun longer hsuffix hlength => ?_⟩
    · rw [← List.reverse_prefix, List.reverse_reverse]
      exact List.within_prefix _ _
    · rw [List.total_reverse]
      exact List.total_within_le _ _
    · exact absurd (h last hlast) (Nat.not_le.mpr hover)
    · by_contra hfits
      have hle := List.length_le_within (List.reverse_prefix.mpr hsuffix)
        (by rw [List.total_reverse]; exact Nat.not_lt.mp hfits : longer.reverse.total contentLength ≤ maxCharacters)
      rw [List.length_reverse] at hle hlength
      exact absurd hlength (Nat.not_lt.mpr hle)
  · push Not at h
    obtain ⟨last, hlast, hover⟩ := h
    rw [contextMessages_of_oversized hlast hover]
    obtain ⟨older, rfl⟩ := List.getLast?_eq_some_iff.mp hlast
    refine ⟨List.suffix_append _ _, fun hfits => ?_, fun last' hlast' _ => ?_, fun longer hsuffix hlength => ?_⟩
    · exact absurd (hfits last hlast) (Nat.not_le.mpr hover)
    · rw [Option.some.inj (hlast.symm.trans hlast')]
    · -- a longer suffix ends with the last message too
      obtain ⟨front, rfl⟩ := List.suffix_of_suffix_length_le (List.suffix_append older [last]) hsuffix hlength.le
      rw [List.total, List.map_append, List.sum_append, List.map_singleton, List.sum_singleton]
      exact Nat.lt_add_left _ hover

/-- A window is determined by the messages and the budget. -/
theorem Window.eq (h : Window messages maxCharacters selected) :
    selected = contextMessages messages maxCharacters := by
  have hcode := contextMessages_window messages maxCharacters
  by_cases hfits : ∀ last ∈ messages.getLast?, contentLength last ≤ maxCharacters
  · have hlength : selected.length = (contextMessages messages maxCharacters).length := by
      refine Nat.le_antisymm (Nat.not_lt.mp fun hlt => ?_) (Nat.not_lt.mp fun hlt => ?_)
      · exact absurd (h.fits hfits) (Nat.not_le.mpr (hcode.longest _ h.suffix hlt))
      · exact absurd (hcode.fits hfits) (Nat.not_le.mpr (h.longest _ hcode.suffix hlt))
    exact (List.suffix_of_suffix_length_le h.suffix hcode.suffix hlength.le).eq_of_length hlength
  · push Not at hfits
    obtain ⟨last, hlast, hover⟩ := hfits
    rw [h.oversized last hlast hover, hcode.oversized last hlast hover]

end OrchestrationService

end KajovoDagmar
