import Mathlib.Data.List.Basic
import Mathlib.Tactic.Common

/-! The events of a speech detector, and what every detector keeps: speech starts and stops in turn, and
each stop lies behind the speech of its utterance. -/

namespace Audio

def frameSamples : Nat := 512

def sampleRate : Nat := 16000

inductive EventType
  | speechStarted
  | speechStopped
  deriving DecidableEq

structure Emit where
  eventType : EventType
  sampleOffset : Nat
  deriving DecidableEq

/-- The part of a detector's state that its events depend on.  `firstFrames` is history: where the first
speech frame of each utterance starts. -/
structure Track where
  isSpeech : Bool := false
  samplesConsumed : Nat := 0
  lastSpeechOffset : Nat := 0
  firstFrames : List Nat := []

inductive Track.Step (t : Track) : Track → List Emit → Prop
  | silence : Step t { t with samplesConsumed := t.samplesConsumed + frameSamples } []
  | speech : Step t
      { t with
        samplesConsumed := t.samplesConsumed + frameSamples
        lastSpeechOffset := t.samplesConsumed + frameSamples } []
  | start (h : t.isSpeech = false) (offset : Nat) : Step t
      { isSpeech := true
        samplesConsumed := t.samplesConsumed + frameSamples
        lastSpeechOffset := t.samplesConsumed + frameSamples
        firstFrames := t.firstFrames ++ [t.samplesConsumed] }
      [{ eventType := .speechStarted, sampleOffset := offset }]
  | stop (h : t.isSpeech = true) : Step t
      { t with isSpeech := false, samplesConsumed := t.samplesConsumed + frameSamples }
      [{ eventType := .speechStopped, sampleOffset := t.lastSpeechOffset }]

def stops (events : List Emit) : List Nat :=
  (events.filter fun e => e.eventType = .speechStopped).map Emit.sampleOffset

/-- Starts and stops take turns, the stops move on, and each is at least a frame after the start of the
first speech frame of its utterance. -/
structure Orderly (firstFrames : List Nat) (events : List Emit) : Prop where
  alternates : ∀ (i : Nat) (e : Emit), events[i]? = some e →
    e.eventType = if i % 2 = 0 then .speechStarted else .speechStopped
  increasing : (stops events).Pairwise (· < ·)
  behind : ∀ (i offset : Nat), (stops events)[i]? = some offset →
    ∃ first : Nat, firstFrames[i]? = some first ∧ first + frameSamples ≤ offset

/-- `Orderly` with what the state says of the utterance under way. -/
structure Spoken (t : Track) (events : List Emit) : Prop where
  orderly : Orderly t.firstFrames events
  parity : events.length % 2 = if t.isSpeech then 1 else 0
  firsts : t.firstFrames.length = (stops events).length + if t.isSpeech then 1 else 0
  last : t.lastSpeechOffset ≤ t.samplesConsumed
  consumed : ∀ offset ∈ stops events, offset ≤ t.samplesConsumed
  moved : t.isSpeech = true → ∀ offset ∈ stops events, offset < t.lastSpeechOffset
  under : t.isSpeech = true → ∀ first, t.firstFrames.getLast? = some first →
    first + frameSamples ≤ t.lastSpeechOffset

theorem Spoken.initial {t : Track} (hspeech : t.isSpeech = false) (hfirsts : t.firstFrames = [])
    (hlast : t.lastSpeechOffset ≤ t.samplesConsumed) : Spoken t [] where
  orderly := ⟨fun i e he => (by cases he), List.Pairwise.nil, fun i offset h => (by cases h)⟩
  parity := by rw [hspeech]; rfl
  firsts := by rw [hspeech, hfirsts]; rfl
  last := hlast
  consumed := fun offset h => (by cases h)
  moved := fun h => (by rw [hspeech] at h; cases h)
  under := fun h => (by rw [hspeech] at h; cases h)

theorem stops_append (events more : List Emit) : stops (events ++ more) = stops events ++ stops more := by
  rw [stops, List.filter_append, List.map_append]
  rfl

theorem alternates_concat {events : List Emit} {e : Emit}
    (h : ∀ (i : Nat) (e : Emit), events[i]? = some e →
      e.eventType = if i % 2 = 0 then .speechStarted else .speechStopped)
    (he : e.eventType = if events.length % 2 = 0 then .speechStarted else .speechStopped) :
    ∀ (i : Nat) (e' : Emit), (events ++ [e])[i]? = some e' →
      e'.eventType = if i % 2 = 0 then .speechStarted else .speechStopped := by
  intro i e' hget
  by_cases hi : i < events.length
  · rw [List.getElem?_append_left hi] at hget
    exact h i e' hget
  · rw [List.getElem?_append_right (Nat.not_lt.mp hi)] at hget
    obtain ⟨hindex, rfl⟩ := List.getElem?_eq_some_iff.mp hget
    have hi : i = events.length := by
      simp at hindex
      omega
    simpa [hi] using he

theorem Spoken.step {t t' : Track} {events new : List Emit} (h : Spoken t events)
    (hstep : t.Step t' new) : Spoken t' (events ++ new) := by
  have hfirst := h.firsts
  have hparity := h.parity
  have hlast := h.last
  cases hstep with
  | silence =>
    rw [List.append_nil]
    refine ⟨h.orderly, hparity, hfirst, ?_, fun offset ho => ?_, h.moved, h.under⟩
    · exact Nat.le_add_right_of_le hlast
    · exact Nat.le_add_right_of_le (h.consumed offset ho)
  | speech =>
    rw [List.append_nil]
    refine ⟨h.orderly, hparity, hfirst, Nat.le_refl _, fun offset ho => ?_, fun _ offset ho => ?_,
      fun hspeech first hget => ?_⟩
    · exact Nat.le_add_right_of_le (h.consumed offset ho)
    · exact Nat.lt_of_le_of_lt (h.consumed offset ho) (Nat.lt_add_of_pos_right (by decide))
    · have hunder := h.under hspeech first hget
      show first + frameSamples ≤ t.samplesConsumed + frameSamples
      omega
  | start hspeech offset =>
    rw [hspeech] at hfirst hparity
    have hstops : stops (events ++ [{ eventType := .speechStarted, sampleOffset := offset }]) =
        stops events := by
      rw [stops_append]
      exact List.append_nil _
    refine ⟨⟨?_, ?_, ?_⟩, ?_, ?_, Nat.le_refl _, ?_, ?_, ?_⟩
    · apply alternates_concat h.orderly.alternates
      rw [if_pos (by simpa using hparity)]
    · rw [hstops]
      exact h.orderly.increasing
    · intro i o ho
      rw [hstops] at ho
      obtain ⟨first, hget, hle⟩ := h.orderly.behind i o ho
      refine ⟨first, ?_, hle⟩
      rw [List.getElem?_append_left (List.getElem?_eq_some_iff.mp hget).1]
      exact hget
    · rw [List.length_append, List.length_singleton]
      simp at hparity ⊢
      omega
    · rw [hstops]
      simpa using hfirst
    · intro o ho
      rw [hstops] at ho
      exact Nat.le_add_right_of_le (h.consumed o ho)
    · intro _ o ho
      rw [hstops] at ho
      exact Nat.lt_of_le_of_lt (h.consumed o ho) (Nat.lt_add_of_pos_right (by decide))
    · intro _ first hget
      rw [List.getLast?_concat] at hget
      cases hget
      exact Nat.le_refl _
  | stop hspeech =>
    rw [hspeech] at hfirst hparity
    have hstops : stops (events ++ [{ eventType := .speechStopped, sampleOffset := t.lastSpeechOffset }]) =
        stops events ++ [t.lastSpeechOffset] := by
      rw [stops_append]
      rfl
    refine ⟨⟨?_, ?_, ?_⟩, ?_, ?_, ?_, ?_, fun h => ?_, fun h => ?_⟩
    · apply alternates_concat h.orderly.alternates
      rw [if_neg (by simpa using hparity)]
    · rw [hstops, List.pairwise_append]
      refine ⟨h.orderly.increasing, List.pairwise_singleton _ _, fun o ho o' ho' => ?_⟩
      rw [List.mem_singleton.mp ho']
      exact h.moved hspeech o ho
    · intro i o ho
      rw [hstops] at ho
      by_cases hi : i < (stops events).length
      · rw [List.getElem?_append_left hi] at ho
        exact h.orderly.behind i o ho
      · rw [List.getElem?_append_right (Nat.not_lt.mp hi)] at ho
        obtain ⟨hindex, rfl⟩ := List.getElem?_eq_some_iff.mp ho
        have hi : i = t.firstFrames.length - 1 := by
          simp at hindex hfirst
          omega
        have hne : t.firstFrames ≠ [] := by
          intro hnil
          rw [hnil] at hfirst
          simp at hfirst
        have hget := List.getLast?_eq_some_getLast hne
        refine ⟨t.firstFrames.getLast hne, ?_, ?_⟩
        · rw [hi, ← List.getLast?_eq_getElem?]
          exact hget
        · simpa using h.under hspeech _ hget
    · rw [List.length_append, List.length_singleton]
      simp at hparity ⊢
      omega
    · rw [hstops]
      simpa using hfirst
    · exact Nat.le_add_right_of_le hlast
    · intro o ho
      rw [hstops] at ho
      rcases List.mem_append.mp ho with hold | hnew
      · exact Nat.le_add_right_of_le (h.consumed o hold)
      · rw [List.mem_singleton.mp hnew]
        exact Nat.le_add_right_of_le hlast
    · cases h
    · cases h

end Audio
