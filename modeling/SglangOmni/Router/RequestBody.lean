import Mathlib.Algebra.GroupWithZero.Nat
import Mathlib.Data.List.Infix

/-! The two ways in which the router reads a request body: `DirectRequestBody`, which hands each frame
on and publishes how the upload stands, and `read_buffered`, which collects the frames. -/

namespace Router

inductive HttpFault
  | malformedRequest
  | ambiguousModel
  | methodNotAllowed
  | requestTimeout
  | requestBodyTooLarge
  | unsupportedMediaType
  | unsupportedContentEncoding
  | expectationFailed
  | noCompatibleWorker
  | routerOverloaded
  | internalError
  | upstreamProtocolError
  | routerUnavailable
  | upstreamTimeout
  | httpVersionNotSupported
  | notFound
  deriving DecidableEq

abbrev Bytes := List UInt8

inductive Frame
  | data (data : Bytes)
  | trailers
  | error
  deriving DecidableEq

/-- What one poll of the incoming body gives; a body with none left has ended. -/
inductive Incoming
  | pending
  | ready (frame : Frame)
  deriving DecidableEq

def received : List Incoming → Bytes
  | [] => []
  | .ready (.data data) :: rest => data ++ received rest
  | _ :: rest => received rest

inductive UploadState
  | incomplete
  | failed (fault : HttpFault)
  | complete
  deriving DecidableEq

def u64Limit : Nat := 2 ^ 64

/-- `observed.checked_add(length)` for the length of a frame, which must fit in 64 bits, within the
maximum and the declared length. -/
def observe (expected : Option Nat) (maximum observed length : Nat) : Option Nat :=
  if u64Limit ≤ length ∨ u64Limit ≤ observed + length then none
  else if maximum < observed + length ∨ expected.any (· < observed + length) then none
  else some (observed + length)

/-! ### `DirectRequestBody` -/

/-- `state` is the state shared with the task that awaits the upload. -/
structure DirectRequestBody where
  inner : List Incoming
  expected : Option Nat
  maximum : Nat
  observed : Nat := 0
  finalFrameReturned : Bool := false
  state : UploadState := .incomplete
  terminal : Bool := false

inductive Poll
  | pending
  | data (data : Bytes)
  | uploadError
  | ended
  deriving DecidableEq

def Poll.bytes : Poll → Bytes
  | .data chunk => chunk
  | _ => []

namespace DirectRequestBody

def new (inner : List Incoming) (expected : Option Nat) (maximum : Nat) : DirectRequestBody :=
  { inner, expected, maximum }

def fail (body : DirectRequestBody) (fault : HttpFault) : Poll × DirectRequestBody :=
  (.uploadError, { body with terminal := true, state := .failed fault })

/-- The branch of `poll_frame` for a data frame. -/
def pollData (body : DirectRequestBody) (data : Bytes) : Poll × DirectRequestBody :=
  if data.isEmpty then (.pending, body)
  else
    match observe body.expected body.maximum body.observed data.length with
    | none => body.fail .requestBodyTooLarge
    | some observed =>
      let body := { body with observed }
      if body.expected = some observed then
        (.data data, { body with state := .complete, finalFrameReturned := true })
      else
        (.data data, body)

/-- The branch of `poll_frame` for the end of the body. -/
def pollEnd (body : DirectRequestBody) : Poll × DirectRequestBody :=
  let body := { body with terminal := true }
  if body.expected.any (body.observed != ·) then body.fail .malformedRequest
  else (.ended, { body with state := .complete })

def pollInner (body : DirectRequestBody) : List Incoming → Poll × DirectRequestBody
  | [] => body.pollEnd
  | .pending :: inner => (.pending, { body with inner })
  | .ready (.data data) :: inner => pollData { body with inner } data
  | .ready .trailers :: inner => fail { body with inner } .malformedRequest
  | .ready .error :: inner => fail { body with inner } .malformedRequest

def pollFrame (body : DirectRequestBody) : Poll × DirectRequestBody :=
  if body.terminal then (.ended, body)
  else if body.finalFrameReturned then (.ended, { body with terminal := true })
  else body.pollInner body.inner

def run : Nat → DirectRequestBody → Bytes × DirectRequestBody
  | 0, body => ([], body)
  | polls + 1, body =>
    let (forwarded, body) := run polls body
    let (poll, body) := body.pollFrame
    (forwarded ++ poll.bytes, body)

end DirectRequestBody

/-! ### `read_buffered` -/

/-- The loop of `read_buffered`, its budget and its deadline aside. -/
def readFrames (expected : Option Nat) (maximum : Nat) :
    List Incoming → Nat → Bytes → Except HttpFault Bytes
  | [], observed, output =>
    if expected.any (observed != ·) then .error .malformedRequest else .ok output
  | .pending :: rest, observed, output => readFrames expected maximum rest observed output
  | .ready (.data data) :: rest, observed, output =>
    match observe expected maximum observed data.length with
    | none => .error .requestBodyTooLarge
    | some observed => readFrames expected maximum rest observed (output ++ data)
  | .ready .trailers :: _, _, _ => .error .malformedRequest
  | .ready .error :: _, _, _ => .error .malformedRequest

def readBuffered (frames : List Incoming) (expected : Option Nat) (maximum : Nat) :
    Except HttpFault Bytes :=
  readFrames expected maximum frames 0 []

/-! ### What both observe -/

section Observe

variable {expected : Option Nat} {maximum observed length total : Nat}

theorem observe_eq_some (h : observe expected maximum observed length = some total) :
    total = observed + length ∧ total ≤ maximum ∧ ∀ e, expected = some e → total ≤ e := by
  unfold observe at h
  split at h
  · cases h
  split at h
  · cases h
  · next hle =>
    obtain rfl := Option.some.inj h
    rw [not_or] at hle
    refine ⟨rfl, by omega, ?_⟩
    rintro e rfl
    have := hle.2
    simp only [Option.any_some, decide_eq_true_eq] at this
    omega

theorem observe_zero (h64 : observed < u64Limit) (hmaximum : observed ≤ maximum)
    (hexpected : ∀ e, expected = some e → observed ≤ e) :
    observe expected maximum observed 0 = some observed := by
  have hlimit : 0 < u64Limit := by decide
  unfold observe
  rw [if_neg (by omega), if_neg]
  · rfl
  · rw [not_or]
    refine ⟨by omega, ?_⟩
    cases expected with
    | none => simp
    | some e =>
      have := hexpected e rfl
      simp only [Option.any_some, decide_eq_true_eq]
      omega

theorem observe_lt (h : observe expected maximum observed length = some total) :
    total < u64Limit := by
  unfold observe at h
  split at h
  · cases h
  split at h
  · cases h
  · obtain rfl := Option.some.inj h
    omega

end Observe

theorem readFrames_at_expected {maximum declared : Nat} {frames : List Incoming} {output bytes : Bytes}
    (h : readFrames (some declared) maximum frames declared output = .ok bytes) : bytes = output := by
  induction frames generalizing output with
  | nil =>
    simp only [readFrames, Option.any_some, bne_self_eq_false, Bool.false_eq_true, if_false] at h
    exact (Except.ok.inj h).symm
  | cons item rest ih =>
    match item with
    | .pending => exact ih h
    | .ready .trailers => cases h
    | .ready .error => cases h
    | .ready (.data data) =>
      simp only [readFrames] at h
      split at h
      · cases h
      · next total htotal =>
        obtain ⟨htotal, -, hle⟩ := observe_eq_some htotal
        have hnil : data = [] := List.length_eq_zero_iff.mp (by have := hle declared rfl; omega)
        subst hnil
        rw [List.length_nil, Nat.add_zero] at htotal
        subst htotal
        rw [List.append_nil] at h
        exact ih h

/-! ### The direct body beside the buffered one -/

variable {frames : List Incoming} {expected : Option Nat} {maximum : Nat}

/-- What holds of a direct body that has forwarded some bytes: as long as the upload is incomplete,
`read_buffered` has the same bytes and the same frames to go, and afterwards it has come to the same
end. -/
structure Forwarding (frames : List Incoming) (expected : Option Nat) (maximum : Nat)
    (forwarded : Bytes) (body : DirectRequestBody) : Prop where
  expected_eq : body.expected = expected
  maximum_eq : body.maximum = maximum
  observed : body.observed = forwarded.length
  le_maximum : forwarded.length ≤ maximum
  le_expected : ∀ e, expected = some e → forwarded.length ≤ e
  lt_limit : forwarded.length < u64Limit
  isPart : forwarded <+: received frames
  incomplete : body.state = .incomplete →
    body.terminal = false ∧ body.finalFrameReturned = false ∧
      received frames = forwarded ++ received body.inner ∧
      readBuffered frames expected maximum =
        readFrames expected maximum body.inner body.observed forwarded
  failed : ∀ fault, body.state = .failed fault →
    body.terminal = true ∧ readBuffered frames expected maximum = .error fault
  complete : body.state = .complete →
    (body.terminal = true ∨ body.finalFrameReturned = true) ∧
      (expected = some forwarded.length ∨ expected = none ∧ body.inner = []) ∧
      ∀ bytes, readBuffered frames expected maximum = .ok bytes → bytes = forwarded

namespace Forwarding

open DirectRequestBody

theorem new (frames : List Incoming) (expected : Option Nat) (maximum : Nat) :
    Forwarding frames expected maximum [] (DirectRequestBody.new frames expected maximum) where
  expected_eq := rfl
  maximum_eq := rfl
  observed := rfl
  le_maximum := Nat.zero_le _
  le_expected _ _ := Nat.zero_le _
  lt_limit := by decide
  isPart := List.nil_prefix
  incomplete _ := ⟨rfl, rfl, rfl, rfl⟩
  failed _ h := by cases h
  complete h := by cases h

variable {forwarded : Bytes} {body : DirectRequestBody}

theorem pollFrame_of_ended (h : Forwarding frames expected maximum forwarded body)
    (hend : body.state ≠ .incomplete) :
    ∃ terminal, body.pollFrame = (.ended, { body with terminal }) ∧
      Forwarding frames expected maximum forwarded { body with terminal } := by
  have hstop : body.terminal = true ∨ body.finalFrameReturned = true := by
    cases hstate : body.state with
    | incomplete => exact absurd hstate hend
    | failed fault => exact .inl (h.failed fault hstate).1
    | complete => exact (h.complete hstate).1
  refine ⟨true, ?_, ?_⟩
  · unfold DirectRequestBody.pollFrame
    split
    · next hterminal =>
      cases body
      simp only at hterminal
      rw [hterminal]
    · next hterminal => rw [if_pos (hstop.resolve_left hterminal)]
  · exact {
      expected_eq := h.expected_eq
      maximum_eq := h.maximum_eq
      observed := h.observed
      le_maximum := h.le_maximum
      le_expected := h.le_expected
      lt_limit := h.lt_limit
      isPart := h.isPart
      incomplete := fun hstate => absurd hstate hend
      failed := fun fault hstate => ⟨rfl, (h.failed fault hstate).2⟩
      complete := fun hstate => ⟨.inl rfl, (h.complete hstate).2⟩ }

theorem fail (h : Forwarding frames expected maximum forwarded body) {fault : HttpFault}
    (hfault : readBuffered frames expected maximum = .error fault) (inner : List Incoming) :
    Forwarding frames expected maximum forwarded
      (DirectRequestBody.fail { body with inner } fault).2 where
  expected_eq := h.expected_eq
  maximum_eq := h.maximum_eq
  observed := h.observed
  le_maximum := h.le_maximum
  le_expected := h.le_expected
  lt_limit := h.lt_limit
  isPart := h.isPart
  incomplete hstate := by cases hstate
  failed fault' hstate := by
    cases hstate
    exact ⟨rfl, hfault⟩
  complete hstate := by cases hstate

theorem skip (h : Forwarding frames expected maximum forwarded body) {item : Incoming}
    {inner : List Incoming} (hinner : body.inner = item :: inner) (hstate : body.state = .incomplete)
    (hnone : received (item :: inner) = received inner)
    (hread : readFrames expected maximum (item :: inner) body.observed forwarded =
      readFrames expected maximum inner body.observed forwarded) :
    Forwarding frames expected maximum forwarded { body with inner } where
  expected_eq := h.expected_eq
  maximum_eq := h.maximum_eq
  observed := h.observed
  le_maximum := h.le_maximum
  le_expected := h.le_expected
  lt_limit := h.lt_limit
  isPart := h.isPart
  incomplete _ := by
    obtain ⟨hterminal, hfinal, hreceived, hbuffered⟩ := h.incomplete hstate
    rw [hinner, hnone] at hreceived
    rw [hinner, hread] at hbuffered
    exact ⟨hterminal, hfinal, hreceived, hbuffered⟩
  failed fault hfailed := by
    rw [show body.state = .failed fault from hfailed] at hstate
    cases hstate
  complete hcomplete := by
    rw [show body.state = .complete from hcomplete] at hstate
    cases hstate

theorem hand (h : Forwarding frames expected maximum forwarded body) {data : Bytes}
    {inner : List Incoming} (hinner : body.inner = .ready (.data data) :: inner)
    (hstate : body.state = .incomplete) {total : Nat}
    (htotal : observe expected maximum body.observed data.length = some total) :
    Forwarding frames expected maximum (forwarded ++ data)
      (if expected = some total then
        { body with inner, observed := total, state := .complete, finalFrameReturned := true }
      else { body with inner, observed := total }) := by
  obtain ⟨hterminal, hfinal, hreceived, hbuffered⟩ := h.incomplete hstate
  obtain ⟨hsum, hmaximum, hexpected⟩ := observe_eq_some htotal
  have hlength : (forwarded ++ data).length = total := by
    rw [List.length_append, hsum, h.observed]
  have hlimit : (forwarded ++ data).length < u64Limit := hlength ▸ observe_lt htotal
  have hreceived' : received frames = forwarded ++ data ++ received inner := by
    rw [hreceived, hinner, List.append_assoc]
    rfl
  have hbuffered' : readBuffered frames expected maximum =
      readFrames expected maximum inner total (forwarded ++ data) := by
    rw [hbuffered, hinner]
    simp only [readFrames, htotal]
  have hpart : forwarded ++ data <+: received frames := ⟨received inner, hreceived'.symm⟩
  split
  · next hlast =>
    refine ⟨h.expected_eq, h.maximum_eq, hlength.symm, hlength ▸ hmaximum, ?_, hlimit, hpart, ?_, ?_, ?_⟩
    · exact fun e he => hlength ▸ hexpected e he
    · exact fun hincomplete => (by cases hincomplete)
    · exact fun fault hfailed => (by cases hfailed)
    · refine fun _ => ⟨.inr rfl, .inl (hlength ▸ hlast), fun bytes hbytes => ?_⟩
      rw [hbuffered', hlast] at hbytes
      exact readFrames_at_expected hbytes
  · refine ⟨h.expected_eq, h.maximum_eq, hlength.symm, hlength ▸ hmaximum, ?_, hlimit, hpart, ?_, ?_, ?_⟩
    · exact fun e he => hlength ▸ hexpected e he
    · exact fun _ => ⟨hterminal, hfinal, hreceived', hbuffered'⟩
    · intro fault hfailed
      rw [show body.state = .failed fault from hfailed] at hstate
      cases hstate
    · intro hcomplete
      rw [show body.state = .complete from hcomplete] at hstate
      cases hstate

theorem pollEnd (h : Forwarding frames expected maximum forwarded body) (hinner : body.inner = [])
    (hstate : body.state = .incomplete) :
    body.pollEnd.1.bytes = [] ∧ body.pollEnd.2.state ≠ .incomplete ∧
      Forwarding frames expected maximum forwarded body.pollEnd.2 := by
  obtain ⟨-, -, -, hbuffered⟩ := h.incomplete hstate
  rw [hinner] at hbuffered
  simp only [readFrames] at hbuffered
  simp only [DirectRequestBody.pollEnd]
  by_cases hshort : body.expected.any (body.observed != ·) = true
  · rw [if_pos hshort]
    rw [if_pos (h.expected_eq ▸ hshort)] at hbuffered
    exact ⟨rfl, nofun, h.fail hbuffered body.inner⟩
  · rw [if_neg hshort]
    rw [h.expected_eq] at hshort
    rw [if_neg hshort] at hbuffered
    refine ⟨rfl, nofun, ?_⟩
    refine ⟨h.expected_eq, h.maximum_eq, h.observed, h.le_maximum, h.le_expected, h.lt_limit, h.isPart,
      fun hincomplete => (by cases hincomplete), fun fault hfailed => (by cases hfailed), fun _ => ?_⟩
    refine ⟨.inl rfl, ?_, fun bytes hbytes => ?_⟩
    · cases hexpected : expected with
      | none => exact .inr ⟨rfl, hinner⟩
      | some e =>
        rw [hexpected, Option.any_some] at hshort
        have heq : body.observed = e := by simpa using hshort
        exact .inl (by rw [← heq, h.observed])
    · rw [hbuffered] at hbytes
      exact (Except.ok.inj hbytes).symm

theorem pollFrame (h : Forwarding frames expected maximum forwarded body) :
    Forwarding frames expected maximum (forwarded ++ body.pollFrame.1.bytes) body.pollFrame.2 ∧
      (body.state = .incomplete → body.pollFrame.2.state = .incomplete →
        body.pollFrame.2.inner.length < body.inner.length) := by
  obtain rfl := h.expected_eq
  obtain rfl := h.maximum_eq
  by_cases hstate : body.state = .incomplete
  · obtain ⟨hterminal, hfinal, -, hbuffered⟩ := h.incomplete hstate
    have hpoll : body.pollFrame = body.pollInner body.inner := by
      simp only [DirectRequestBody.pollFrame, hterminal, hfinal, Bool.false_eq_true, if_false]
    rw [hpoll]
    match hinner : body.inner with
    | [] =>
      obtain ⟨hbytes, hended, hkept⟩ := h.pollEnd hinner hstate
      show Forwarding frames body.expected body.maximum (forwarded ++ body.pollEnd.1.bytes) body.pollEnd.2 ∧ _
      rw [hbytes, List.append_nil]
      exact ⟨hkept, fun _ hincomplete => absurd hincomplete hended⟩
    | .pending :: later =>
      refine ⟨?_, fun _ _ => Nat.lt_succ_self _⟩
      show Forwarding frames body.expected body.maximum (forwarded ++ []) { body with inner := later }
      rw [List.append_nil]
      exact h.skip hinner hstate rfl rfl
    | .ready .trailers :: later =>
      refine ⟨?_, fun _ hincomplete => (by cases hincomplete)⟩
      rw [hinner] at hbuffered
      show Forwarding frames body.expected body.maximum (forwarded ++ []) _
      rw [List.append_nil]
      exact h.fail hbuffered later
    | .ready .error :: later =>
      refine ⟨?_, fun _ hincomplete => (by cases hincomplete)⟩
      rw [hinner] at hbuffered
      show Forwarding frames body.expected body.maximum (forwarded ++ []) _
      rw [List.append_nil]
      exact h.fail hbuffered later
    | .ready (.data data) :: later =>
      simp only [DirectRequestBody.pollInner, DirectRequestBody.pollData]
      by_cases hempty : data.isEmpty = true
      · rw [if_pos hempty]
        obtain rfl := List.isEmpty_iff.mp hempty
        refine ⟨?_, fun _ _ => Nat.lt_succ_self _⟩
        show Forwarding frames body.expected body.maximum (forwarded ++ []) { body with inner := later }
        rw [List.append_nil]
        refine h.skip hinner hstate rfl ?_
        have hzero := observe_zero (h.observed ▸ h.lt_limit) (h.observed ▸ h.le_maximum)
          (h.observed ▸ h.le_expected)
        simp only [readFrames, List.length_nil, hzero, List.append_nil]
      · rw [if_neg hempty]
        cases htotal : observe body.expected body.maximum body.observed data.length with
        | none =>
          refine ⟨?_, fun _ hincomplete => (by cases hincomplete)⟩
          rw [hinner] at hbuffered
          simp only [readFrames, htotal] at hbuffered
          show Forwarding frames body.expected body.maximum (forwarded ++ []) _
          rw [List.append_nil]
          exact h.fail hbuffered later
        | some total =>
          have hhand := h.hand hinner hstate htotal
          by_cases hlast : body.expected = some total
          · rw [if_pos hlast] at hhand
            simp only [if_pos hlast]
            exact ⟨hhand, fun _ hincomplete => (by cases hincomplete)⟩
          · rw [if_neg hlast] at hhand
            simp only [if_neg hlast]
            exact ⟨hhand, fun _ _ => Nat.lt_succ_self _⟩
  · obtain ⟨terminal, hpoll, hkept⟩ := h.pollFrame_of_ended hstate
    rw [hpoll]
    refine ⟨?_, fun hincomplete => absurd hincomplete hstate⟩
    show Forwarding frames body.expected body.maximum (forwarded ++ []) _
    rw [List.append_nil]
    exact hkept

theorem ends (h : Forwarding frames expected maximum forwarded body)
    (hpoll : body.pollFrame.1 = .uploadError ∨ body.pollFrame.1 = .ended) :
    body.pollFrame.2.state ≠ .incomplete := by
  by_cases hstate : body.state = .incomplete
  · obtain ⟨hterminal, hfinal, -, -⟩ := h.incomplete hstate
    have hinner : body.pollFrame = body.pollInner body.inner := by
      simp only [DirectRequestBody.pollFrame, hterminal, hfinal, Bool.false_eq_true, if_false]
    rw [hinner] at hpoll ⊢
    match hitems : body.inner with
    | [] => exact (h.pollEnd hitems hstate).2.1
    | .pending :: later =>
      rw [hitems] at hpoll
      rcases hpoll with hpoll | hpoll <;> cases hpoll
    | .ready .trailers :: later => nofun
    | .ready .error :: later => nofun
    | .ready (.data data) :: later =>
      rw [hitems] at hpoll
      simp only [DirectRequestBody.pollInner, DirectRequestBody.pollData] at hpoll ⊢
      split at hpoll
      · rcases hpoll with hpoll | hpoll <;> cases hpoll
      · next hempty =>
        rw [if_neg hempty]
        cases htotal : observe body.expected body.maximum body.observed data.length with
        | none => nofun
        | some total =>
          simp only [htotal] at hpoll
          split at hpoll <;> rcases hpoll with hpoll | hpoll <;> cases hpoll
  · obtain ⟨terminal, hended, -⟩ := h.pollFrame_of_ended hstate
    rw [hended]
    exact hstate

end Forwarding

/-! ### Runs -/

section Runs

open DirectRequestBody

theorem run_succ (polls : Nat) (body : DirectRequestBody) :
    run (polls + 1) body = ((run polls body).1 ++ (run polls body).2.pollFrame.1.bytes,
      (run polls body).2.pollFrame.2) := rfl

theorem run_forwarding (frames : List Incoming) (expected : Option Nat) (maximum polls : Nat) :
    Forwarding frames expected maximum (run polls (new frames expected maximum)).1
      (run polls (new frames expected maximum)).2 := by
  induction polls with
  | zero => exact Forwarding.new frames expected maximum
  | succ polls ih => exact ih.pollFrame.1

theorem run_incomplete (frames : List Incoming) (expected : Option Nat) (maximum polls : Nat)
    (h : (run polls (new frames expected maximum)).2.state = .incomplete) :
    (run polls (new frames expected maximum)).2.inner.length + polls ≤ frames.length := by
  induction polls with
  | zero => exact Nat.le_refl _
  | succ polls ih =>
    have hkept := run_forwarding frames expected maximum polls
    have hbefore : (run polls (new frames expected maximum)).2.state = .incomplete := by
      by_contra hended
      obtain ⟨terminal, hpoll, -⟩ := hkept.pollFrame_of_ended hended
      apply hended
      show ({ (run polls (new frames expected maximum)).2 with terminal } : DirectRequestBody).state = _
      rw [← h]
      show _ = ((run polls (new frames expected maximum)).2.pollFrame).2.state
      rw [hpoll]
    have hle := ih hbefore
    have hlt : (run (polls + 1) (new frames expected maximum)).2.inner.length <
        (run polls (new frames expected maximum)).2.inner.length := hkept.pollFrame.2 hbefore h
    omega

theorem run_ended {frames : List Incoming} {expected : Option Nat} {maximum polls : Nat}
    (h : (run polls (new frames expected maximum)).2.state ≠ .incomplete) (more : Nat) :
    (run (polls + more) (new frames expected maximum)).1 =
        (run polls (new frames expected maximum)).1 ∧
      (run (polls + more) (new frames expected maximum)).2.state =
        (run polls (new frames expected maximum)).2.state ∧
      (run (polls + more) (new frames expected maximum)).2.pollFrame.1 = .ended := by
  induction more with
  | zero =>
    obtain ⟨terminal, hpoll, -⟩ :=
      (run_forwarding frames expected maximum polls).pollFrame_of_ended h
    exact ⟨rfl, rfl, by rw [Nat.add_zero, hpoll]⟩
  | succ more ih =>
    obtain ⟨hforwarded, hstate, hended⟩ := ih
    have hnow : (run (polls + more) (new frames expected maximum)).2.state ≠ .incomplete := by
      rw [hstate]
      exact h
    obtain ⟨terminal, hpoll, -⟩ :=
      (run_forwarding frames expected maximum (polls + more)).pollFrame_of_ended hnow
    have hstep : run (polls + (more + 1)) (new frames expected maximum) =
        ((run (polls + more) (new frames expected maximum)).1,
          { (run (polls + more) (new frames expected maximum)).2 with terminal }) := by
      rw [← Nat.add_assoc, run_succ, hpoll]
      exact Prod.ext (List.append_nil _) rfl
    have hnext : (run (polls + (more + 1)) (new frames expected maximum)).2.state ≠ .incomplete := by
      rw [hstep]
      exact hnow
    obtain ⟨terminal', hpoll', -⟩ :=
      (run_forwarding frames expected maximum (polls + (more + 1))).pollFrame_of_ended hnext
    refine ⟨?_, ?_, by rw [hpoll']⟩
    · rw [hstep]
      exact hforwarded
    · rw [hstep]
      exact hstate

/-- The direct body forwards a part of what it received within both bounds, is complete only at the
declared length or at the end of the body, and returns nothing more after that; and it comes to the
same end as `read_buffered` over the same frames. -/
theorem direct_body_relays (frames : List Incoming) (expected : Option Nat) (maximum : Nat) :
    (∀ polls : Nat,
      let relayed := run polls (new frames expected maximum)
      relayed.1 <+: received frames ∧ relayed.1.length ≤ maximum ∧
      (∀ e, expected = some e → relayed.1.length ≤ e) ∧
      (relayed.2.state = .complete →
        (expected = some relayed.1.length ∨ expected = none ∧ relayed.2.inner = []) ∧
        ∀ more fault, (run (polls + more) (new frames expected maximum)).2.state ≠ .failed fault) ∧
      (relayed.2.state ≠ .incomplete →
        ∀ more, (run (polls + more) (new frames expected maximum)).2.pollFrame.1 = .ended) ∧
      (relayed.2.pollFrame.1 = .uploadError ∨ relayed.2.pollFrame.1 = .ended →
        relayed.2.pollFrame.2.state ≠ .incomplete) ∧
      ∀ fault, relayed.2.state = .failed fault →
        readBuffered frames expected maximum = .error fault) ∧
    ∀ bytes, readBuffered frames expected maximum = .ok bytes →
      ∃ enough, ∀ polls, enough ≤ polls →
        (run polls (new frames expected maximum)).1 = bytes ∧
        (run polls (new frames expected maximum)).2.state = .complete := by
  refine ⟨fun polls => ?_, fun bytes hbytes => ⟨frames.length + 1, fun polls hpolls => ?_⟩⟩
  · have hkept := run_forwarding frames expected maximum polls
    refine ⟨hkept.isPart, hkept.le_maximum, hkept.le_expected, fun hcomplete => ?_, fun hended more => ?_,
      hkept.ends, fun fault hfailed => (hkept.failed fault hfailed).2⟩
    · have hended : (run polls (new frames expected maximum)).2.state ≠ .incomplete := by
        rw [hcomplete]
        nofun
      refine ⟨(hkept.complete hcomplete).2.1, fun more fault => ?_⟩
      rw [(run_ended hended more).2.1, hcomplete]
      nofun
    · exact (run_ended hended more).2.2
  · have hkept := run_forwarding frames expected maximum polls
    cases hstate : (run polls (new frames expected maximum)).2.state with
    | incomplete =>
      have := run_incomplete frames expected maximum polls hstate
      omega
    | failed fault =>
      rw [(hkept.failed fault hstate).2] at hbytes
      cases hbytes
    | complete => exact ⟨((hkept.complete hstate).2.2 bytes hbytes).symm, rfl⟩

end Runs

end Router
