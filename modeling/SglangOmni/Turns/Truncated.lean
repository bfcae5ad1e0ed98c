import Mathlib.Data.List.Nodup
import SglangOmni.Turns.Items
import SglangOmni.Turns.Terminals

/-! A truncated item stays out of the conversation, and the conversation has only completed responses.
What carries the proof is that an item of which a truncation was announced can be appended only by the
turn under way, and then it is in the set of truncated items; the items in the bounded record of
cancelled ones are barred in the same way. -/

namespace Turns

open Lib

/-! ### The steps that stay inside a response -/

/-- The events are of the response, and only the last is its `response.done`. -/
structure Terminals (r : Response) (events : List Event) : Prop where
  own : ∀ e ∈ events, e.response = r.id
  done : ∀ e ∈ events.dropLast, e.isResponseDone = false

def OwnTerminals (s : Session) : Prop :=
  ∀ r events hasRaised, s.phase = .terminals r events hasRaised → Terminals r events

theorem terminals_terminals (r : Response) (text : String) (includeAudio : Bool) (status : Status)
    (reason : String) (error : Option (String × String × String)) :
    Terminals r (r.terminals text includeAudio status reason error) := by
  refine ⟨fun e he => (terminals_own e he).1, ?_⟩
  intro e he
  unfold Response.terminals at he
  rw [List.dropLast_concat] at he
  simp only [List.mem_append, Option.mem_toList, Option.map_eq_some_iff] at he
  rcases he with (he | he) | ⟨_, _, rfl⟩
  · split at he
    · cases he
    · rw [List.mem_singleton.mp he]
      rfl
  · split at he
    · rw [List.mem_singleton.mp he]
      rfl
    · cases he
  · rfl

theorem Terminals.tail {r : Response} {e : Event} {rest : List Event} (h : Terminals r (e :: rest)) :
    Terminals r rest := by
  refine ⟨fun e' he' => h.own e' (List.mem_cons_of_mem _ he'), fun e' he' => ?_⟩
  cases rest with
  | nil => cases he'
  | cons e'' rest => exact h.done e' (List.mem_cons_of_mem _ he')

theorem Terminals.last {r : Response} {e : Event} {rest : List Event} (h : Terminals r (e :: rest))
    (he : e.isResponseDone = true) : rest = [] := by
  cases rest with
  | nil => rfl
  | cons e' rest =>
    rw [h.done e List.mem_cons_self] at he
    cases he

/-- The turn is where it was: before its response has ended, or after. -/
structure SameTurn (s s' : Session) : Prop where
  next : s'.next = s.next
  running : s'.phase.runningId = s.phase.runningId
  audio : ∀ r', s'.phase.running = some r' →
    ∃ r, s.phase.running = some r ∧ r'.wantsAudio = r.wantsAudio
  idle : s'.phase = .idle ↔ s.phase = .idle
  raised : s'.phase = .ended true → s.phase = .ended true
  written : ∀ r hasRaised, s.phase = .terminals r [] hasRaised → s'.phase = s.phase
  log : ∀ e ∈ s.log, e ∈ s'.log

theorem SameTurn.within {s s' : Session} {r r' : Response} (hnext : s'.next = s.next)
    (hr : s.phase.running = some r) (hopen : ∀ r hasRaised, s.phase ≠ .terminals r [] hasRaised)
    (hr' : s'.phase.running = some r') (hid : r'.id = r.id ∧ r'.wantsAudio = r.wantsAudio)
    (hlog : ∀ e ∈ s.log, e ∈ s'.log) : SameTurn s s' := by
  refine ⟨hnext, ?_, fun r'' hr'' => ?_, ⟨fun h => ?_, fun h => ?_⟩, fun h => ?_, fun r b hp => absurd hp (hopen r b),
    hlog⟩
  · unfold Phase.runningId
    rw [hr, hr', Option.map_some, Option.map_some, hid.1]
  · rw [hr'] at hr''
    cases hr''
    exact ⟨r, hr, hid.2⟩
  · rw [h] at hr'
    cases hr'
  · rw [h] at hr
    cases hr
  · rw [h] at hr'
    cases hr'

/-- The steps that neither begin nor end a turn nor end its response. -/
def Action.isInner (s : Session) : Action → Prop
  | .start _ | .resumes | .turnEnds => False
  | .returns => ∀ r hasRaised, s.phase ≠ .terminals r [] hasRaised
  | _ => True

theorem running_afterDeltas (r : Response) (c : Chunk) :
    ∃ r', (Session.afterDeltas r c).running = some r' ∧
      (r'.id = r.id ∧ r'.wantsAudio = r.wantsAudio) ∧
      ∀ r'' events b, Session.afterDeltas r c ≠ .terminals r'' events b := by
  unfold Session.afterDeltas
  simp only
  split
  · exact ⟨_, rfl, ⟨rfl, rfl⟩, fun _ _ _ h => by cases h⟩
  · split
    · exact ⟨_, rfl, ⟨rfl, rfl⟩, fun _ _ _ h => by cases h⟩
    · exact ⟨_, rfl, ⟨rfl, rfl⟩, fun _ _ _ h => by cases h⟩

theorem running_afterTextDelta (r : Response) (c : Chunk) :
    ∃ r', (Session.afterTextDelta r c).running = some r' ∧
      (r'.id = r.id ∧ r'.wantsAudio = r.wantsAudio) ∧
      ∀ r'' events b, Session.afterTextDelta r c ≠ .terminals r'' events b := by
  unfold Session.afterTextDelta
  split
  · exact ⟨_, rfl, ⟨rfl, rfl⟩, fun _ _ _ h => by cases h⟩
  · exact running_afterDeltas r c

theorem running_onChunk (s : Session) (r : Response) (c : Chunk) :
    ∃ r', (s.onChunk r c).running = some r' ∧
      (r'.id = r.id ∧ r'.wantsAudio = r.wantsAudio) ∧
      ∀ r'' events b, s.onChunk r c ≠ .terminals r'' events b := by
  unfold Session.onChunk
  split
  · exact ⟨_, rfl, ⟨rfl, rfl⟩, fun _ _ _ h => by cases h⟩
  · split
    · exact ⟨_, rfl, ⟨rfl, rfl⟩, fun _ _ _ h => by cases h⟩
    · exact running_afterTextDelta r c

theorem OwnTerminals.of_ne {s : Session} (h : ∀ r events b, s.phase ≠ .terminals r events b) :
    OwnTerminals s :=
  fun r events b hp => absurd hp (h r events b)

theorem OwnTerminals.of_eq {s : Session} {r : Response} {events : List Event} {hasRaised : Bool}
    (hp : s.phase = .terminals r events hasRaised) (h : Terminals r events) : OwnTerminals s := by
  intro r' events' hasRaised' hp'
  rw [hp] at hp'
  cases hp'
  exact h

theorem errorTerminals_own (s : Session) (r : Response) : Terminals r (s.errorTerminals r) := by
  unfold Session.errorTerminals
  split
  · exact terminals_terminals ..
  · exact terminals_terminals ..

theorem endTerminals_own (s : Session) (r : Response) : Terminals r (s.endTerminals r) := by
  unfold Session.endTerminals
  split
  · exact terminals_terminals ..
  · split
    · exact terminals_terminals ..
    · exact terminals_terminals ..

theorem inner_begins {s s' : Session} (hs : s.begins = some s') : SameTurn s s' ∧ OwnTerminals s' := by
  unfold Session.begins at hs
  split at hs
  · next r hp =>
    cases hs
    refine ⟨SameTurn.within rfl (by rw [hp]; rfl) (by rw [hp]; simp) rfl ⟨rfl, rfl⟩ fun _ => id, ?_⟩
    exact OwnTerminals.of_ne fun _ _ _ h => by cases h
  · cases hs

theorem inner_chunk {s s' : Session} {c : Chunk} (hs : s.chunk c = some s') :
    SameTurn s s' ∧ OwnTerminals s' := by
  unfold Session.chunk at hs
  split at hs
  · next r hp _ =>
    cases hs
    obtain ⟨r', hr', hid, hne⟩ := running_onChunk s r c
    exact ⟨SameTurn.within rfl (by rw [hp]; rfl) (by rw [hp]; simp) hr' hid fun _ => id, OwnTerminals.of_ne hne⟩
  · cases hs

theorem inner_streamEnds {s s' : Session} (hs : s.streamEnds = some s') :
    SameTurn s s' ∧ OwnTerminals s' := by
  unfold Session.streamEnds at hs
  split at hs
  · next r hp _ =>
    cases hs
    refine ⟨SameTurn.within rfl (by rw [hp]; rfl) (by rw [hp]; simp) rfl ⟨rfl, rfl⟩ fun e he => ?_, ?_⟩
    · exact List.mem_append_left _ he
    · exact OwnTerminals.of_eq rfl (endTerminals_own s r)
  · cases hs

theorem inner_streamRaises {s s' : Session} (hs : s.streamRaises = some s') :
    SameTurn s s' ∧ OwnTerminals s' := by
  unfold Session.streamRaises at hs
  split at hs
  · next r hp _ =>
    cases hs
    refine ⟨SameTurn.within rfl (by rw [hp]; rfl) (by rw [hp]; simp) rfl ⟨rfl, rfl⟩ fun e he => ?_, ?_⟩
    · exact List.mem_append_left _ he
    · exact OwnTerminals.of_eq rfl (errorTerminals_own s r)
  · cases hs

theorem inner_throw {s s' : Session} (hs : s.throw = some s') : SameTurn s s' ∧ OwnTerminals s' := by
  have hthrown : ∀ r, s.phase.running = some r →
      (∀ r hasRaised, s.phase ≠ .terminals r [] hasRaised) → SameTurn s { s.claimTerminal r with
        phase := .terminals r (s.cancelledTerminals r) true
        isInterrupted := false } ∧
      OwnTerminals { s.claimTerminal r with
        phase := .terminals r (s.cancelledTerminals r) true
        isInterrupted := false } := by
    intro r hr hopen
    refine ⟨SameTurn.within rfl hr hopen rfl ⟨rfl, rfl⟩ fun e he => ?_, ?_⟩
    · exact List.mem_append_left _ he
    · exact OwnTerminals.of_eq rfl (terminals_terminals ..)
  unfold Session.throw at hs
  split at hs
  · next r _ _ hp _ =>
    cases hs
    exact hthrown r (by rw [hp]; rfl) (by rw [hp]; simp)
  · next r hp _ =>
    cases hs
    exact hthrown r (by rw [hp]; rfl) (by rw [hp]; simp)
  · cases hs

theorem inner_swallow {s s' : Session} (hown : OwnTerminals s) (hs : s.swallow = some s') :
    SameTurn s s' ∧ OwnTerminals s' := by
  unfold Session.swallow at hs
  split at hs
  · cases hs
    exact ⟨⟨rfl, rfl, fun r hr => ⟨r, hr, rfl⟩, Iff.rfl, id, fun _ _ _ => rfl, fun _ => id⟩, hown⟩
  · cases hs

theorem inner_write {s s' : Session} (hown : OwnTerminals s) (hs : s.write = some s') :
    SameTurn s s' ∧ OwnTerminals s' := by
  unfold Session.write at hs
  split at hs
  · next r send hp _ =>
    cases hs
    refine ⟨SameTurn.within rfl (by rw [hp]; rfl) (by rw [hp]; simp) rfl ⟨rfl, rfl⟩ fun e he => ?_, ?_⟩
    · exact List.mem_append_left _ he
    · exact OwnTerminals.of_ne fun _ _ _ h => by cases h
  · next r event rest hasRaised hp =>
    cases hs
    refine ⟨SameTurn.within rfl (by rw [hp]; rfl) (by rw [hp]; simp) rfl ⟨rfl, rfl⟩ fun e he => ?_, ?_⟩
    · exact List.mem_append_left _ he
    · exact OwnTerminals.of_eq rfl (hown r _ hasRaised hp).tail
  · cases hs

theorem inner_afterCreated {s : Session} {r : Response} (hp : s.phase.running = some r)
    (hopen : ∀ r hasRaised, s.phase ≠ .terminals r [] hasRaised) : SameTurn s (s.afterCreated r) ∧ OwnTerminals (s.afterCreated r) := by
  unfold Session.afterCreated
  simp only
  split
  · refine ⟨SameTurn.within rfl hp hopen rfl ⟨rfl, rfl⟩ fun e he => ?_, ?_⟩
    · exact List.mem_append_left _ he
    · exact OwnTerminals.of_eq rfl (terminals_terminals ..)
  · refine ⟨SameTurn.within rfl hp hopen rfl ⟨rfl, rfl⟩ fun _ => id, ?_⟩
    exact OwnTerminals.of_ne fun _ _ _ h => by cases h

theorem inner_returns {s s' : Session} (hne : ∀ r hasRaised, s.phase ≠ .terminals r [] hasRaised)
    (hs : s.returns = some s') : SameTurn s s' ∧ OwnTerminals s' := by
  unfold Session.returns at hs
  split at hs
  · next r hp _ =>
    cases hs
    exact inner_afterCreated (by rw [hp]; rfl) hne
  · next r c hp _ =>
    cases hs
    obtain ⟨r', hr', hid, hne⟩ := running_afterTextDelta r c
    exact ⟨SameTurn.within rfl (by rw [hp]; rfl) (by rw [hp]; simp) hr' hid fun _ => id, OwnTerminals.of_ne hne⟩
  · next r c hp _ =>
    cases hs
    obtain ⟨r', hr', hid, hne⟩ := running_afterDeltas r c
    exact ⟨SameTurn.within rfl (by rw [hp]; rfl) (by rw [hp]; simp) hr' hid fun _ => id, OwnTerminals.of_ne hne⟩
  · next r hp _ =>
    cases hs
    have hr : s.phase.running = some r := by rw [hp]; rfl
    refine ⟨SameTurn.within rfl hr (by rw [hp]; simp) rfl ⟨rfl, rfl⟩ fun _ => id, ?_⟩
    exact OwnTerminals.of_ne fun _ _ _ h => by cases h
  · next r hp _ =>
    cases hs
    have hr : s.phase.running = some r := by rw [hp]; rfl
    refine ⟨SameTurn.within rfl hr (by rw [hp]; simp) rfl ⟨rfl, rfl⟩ fun _ => id, ?_⟩
    exact OwnTerminals.of_ne fun _ _ _ h => by cases h
  · next r hasRaised hp => exact absurd hp (hne r hasRaised)
  · cases hs

theorem inner_cancel {s : Session} (hown : OwnTerminals s) (reason : CancelReason) :
    SameTurn s (s.cancel reason) ∧ OwnTerminals (s.cancel reason) := by
  have hphase : (s.cancel reason).phase = s.phase := (cancelActiveResponse_phase s reason).1
  have hnext : (s.cancel reason).next = s.next := (cancelActiveResponse_phase s reason).2
  refine ⟨⟨hnext, by rw [hphase], fun r hr => ⟨r, hphase ▸ hr, rfl⟩, by rw [hphase], fun h => hphase ▸ h, fun _ _ _ => hphase,
    fun e he => ?_⟩, ?_⟩
  · exact List.mem_append_left _ he
  · intro r events hasRaised hp
    exact hown r events hasRaised (hphase ▸ hp)

theorem inner_step {s s' : Session} {a : Action} (hin : a.isInner s) (hown : OwnTerminals s)
    (hs : s.step a = some s') : SameTurn s s' ∧ OwnTerminals s' := by
  cases a with
  | start wantsAudio => exact absurd hin id
  | begins => exact inner_begins hs
  | write => exact inner_write hown hs
  | returns => exact inner_returns hin hs
  | chunk c => exact inner_chunk hs
  | streamEnds => exact inner_streamEnds hs
  | streamRaises => exact inner_streamRaises hs
  | throw => exact inner_throw hs
  | swallow => exact inner_swallow hown hs
  | resumes => exact absurd hin id
  | turnEnds => exact absurd hin id
  | cancel reason =>
    cases hs
    exact inner_cancel hown reason

/-! ### The invariant -/

namespace RealtimeSession

variable (s : RealtimeSession)

def Announced (x : ItemId) : Prop :=
  (∃ c m, s.truncating = some (x, c, m)) ∨ ∃ c m, Note.truncated x c m ∈ s.notes

def CanAppend (x : ItemId) : Prop :=
  s.session.phase ≠ .idle ∧ (∃ n, x = .output n ∧ n + 1 = s.session.next) ∧
  (s.session.phase.runningId ≠ none → ∀ status, s.doneStatus = some status → status = .completed) ∧
  (s.session.phase.runningId = none →
    ∃ output, s.responseOutput = some output ∧ output.itemId = x ∧ output.text ≠ "")

def Past (n : Nat) : Prop :=
  n < s.session.next ∧ (s.session.phase ≠ .idle → n + 1 < s.session.next)

def Completed (n : Nat) : Prop :=
  ∃ text includeAudio reason,
    Entry.sent (.responseDone n text includeAudio .completed reason) ∈ s.session.log

structure Barred (x : ItemId) : Prop where
  known : ∃ n, x = .output n ∧ n < s.session.next
  absent : ∀ item ∈ s.conversation, item.itemId ≠ x
  kept : s.CanAppend x → x ∈ s.truncatedAssistantItemIds

structure Kept : Prop where
  own : OwnTerminals s.session
  last : ∀ n, s.session.phase.runningId = some n → n + 1 = s.session.next
  begun : s.session.phase ≠ .idle → 0 < s.session.next
  done : ∀ status, s.doneStatus = some status → ∃ n text includeAudio reason,
    n + 1 = s.session.next ∧
    Entry.sent (.responseDone n text includeAudio status reason) ∈ s.session.log
  items : ∀ item ∈ s.conversation, ∃ n, s.Past n ∧
    (item.itemId = .input n ∧ item.role = .user ∨
      item.itemId = .output n ∧ item.role = .assistant ∧ s.Completed n)
  nodup : (s.conversation.map ConversationItem.itemId).Nodup
  pending : ∀ x ∈ s.pendingAssistantItemIds, s.session.phase ≠ .idle ∧
    (∃ n, x = .output n ∧ n + 1 = s.session.next) ∧
    (s.session.phase.runningId = none →
      ∃ output, s.responseOutput = some output ∧ output.itemId = x)
  audio : s.pendingAssistantItemIds ≠ [] →
    ∀ r, s.session.phase.running = some r → r.wantsAudio = true
  truncated : ∀ x ∈ s.truncatedAssistantItemIds, x ∈ s.pendingAssistantItemIds
  output : ∀ output, s.responseOutput = some output → s.session.phase.runningId = none ∧
    s.session.phase ≠ .idle ∧ (∃ n, output.itemId = .output n ∧ n + 1 = s.session.next) ∧
    (output.text ≠ "" → s.doneStatus = some .completed)
  raised : s.session.phase = .ended true → s.responseOutput = none
  written : ∀ status, s.doneStatus = some status → s.session.phase.runningId = none ∨
    ∃ r hasRaised, s.session.phase = .terminals r [] hasRaised
  barred : ∀ x, s.Announced x ∨ x ∈ s.cancelledAssistantItemIds → s.Barred x
  requests : s.notes.Pairwise fun earlier later => ∀ x c m conversation,
    earlier = .truncated x c m → later = .request conversation →
      ∀ item ∈ conversation, item.itemId ≠ x

variable {s}

theorem kept_init : Kept {} := by
  refine ⟨OwnTerminals.of_ne fun _ _ _ h => (by cases h), fun n h => (by cases h),
    fun h => absurd rfl h, fun _ h => (by cases h), fun _ h => (by cases h), List.nodup_nil, fun _ h => (by cases h),
    fun h => absurd rfl h, fun _ h => (by cases h), fun _ h => (by cases h), fun _ => rfl,
    fun _ h => (by cases h), ?_, List.Pairwise.nil⟩
  rintro x ((⟨c, m, h⟩ | ⟨c, m, h⟩) | h)
  · cases h
  · cases h
  · cases h

theorem CanAppend.of_sameTurn {session : Session} (hsame : SameTurn s.session session) {x : ItemId}
    (h : CanAppend { s with session := session } x) : s.CanAppend x := by
  obtain ⟨hidle, hid, hrunning, hover⟩ := h
  refine ⟨fun hp => hidle (hsame.idle.mpr hp), ?_, fun hr => hrunning ?_, fun hr => hover ?_⟩
  · rw [← hsame.next]
    exact hid
  · rw [hsame.running]
    exact hr
  · rw [hsame.running]
    exact hr

theorem Past.of_sameTurn {session : Session} (hsame : SameTurn s.session session) {n : Nat}
    (h : s.Past n) : Past { s with session := session } n := by
  obtain ⟨hlt, hpast⟩ := h
  refine ⟨?_, fun hp => ?_⟩
  · show n < session.next
    rw [hsame.next]
    exact hlt
  · show n + 1 < session.next
    rw [hsame.next]
    exact hpast fun hidle => hp (hsame.idle.mpr hidle)

theorem Kept.inner {session : Session} (h : s.Kept) (hsame : SameTurn s.session session)
    (hown : OwnTerminals session) : Kept { s with session := session } := by
  have hidle : session.phase = .idle → s.session.phase = .idle := hsame.idle.mp
  refine ⟨hown, ?_, ?_, ?_, ?_, h.nodup, ?_, ?_, h.truncated, ?_, ?_, ?_, ?_, h.requests⟩
  · intro n hn
    show n + 1 = session.next
    rw [hsame.next]
    exact h.last n (hsame.running ▸ hn)
  · intro hp
    show 0 < session.next
    rw [hsame.next]
    exact h.begun fun hp' => hp (hsame.idle.mpr hp')
  · intro status hstatus
    obtain ⟨n, text, includeAudio, reason, hn, hmem⟩ := h.done status hstatus
    exact ⟨n, text, includeAudio, reason, hn.trans hsame.next.symm, hsame.log _ hmem⟩
  · intro item hitem
    obtain ⟨n, hpast, hkind⟩ := h.items item hitem
    refine ⟨n, hpast.of_sameTurn hsame, hkind.imp_right ?_⟩
    rintro ⟨hid, hrole, text, includeAudio, reason, hmem⟩
    exact ⟨hid, hrole, text, includeAudio, reason, hsame.log _ hmem⟩
  · intro x hx
    obtain ⟨hp, ⟨n, hid, hn⟩, hout⟩ := h.pending x hx
    exact ⟨fun hp' => hp (hidle hp'), ⟨n, hid, hn.trans hsame.next.symm⟩,
      fun hr => hout (hsame.running ▸ hr)⟩
  · intro hpending r' hr'
    obtain ⟨r, hr, haudio⟩ := hsame.audio r' hr'
    exact haudio.trans (h.audio hpending r hr)
  · intro output houtput
    obtain ⟨hr, hp, ⟨n, hid, hn⟩, htext⟩ := h.output output houtput
    exact ⟨hsame.running.trans hr, fun hp' => hp (hidle hp'), ⟨n, hid, hn.trans hsame.next.symm⟩,
      htext⟩
  · intro hp
    exact h.raised (hsame.raised hp)
  · intro status hstatus
    rcases h.written status hstatus with hr | ⟨r, hasRaised, hp⟩
    · exact Or.inl (hsame.running.trans hr)
    · exact Or.inr ⟨r, hasRaised, (hsame.written r hasRaised hp).trans hp⟩
  · intro x hx
    obtain ⟨⟨n, hid, hn⟩, habsent, hkept⟩ := h.barred x hx
    exact ⟨⟨n, hid, Nat.lt_of_lt_of_eq hn hsame.next.symm⟩, habsent,
      fun hcan => hkept (hcan.of_sameTurn hsame)⟩

theorem Kept.not_current (h : s.Kept) {item : ConversationItem} (hitem : item ∈ s.conversation)
    (hp : s.session.phase ≠ .idle) {n : Nat} (hn : n + 1 = s.session.next) :
    item.itemId ≠ .input n ∧ item.itemId ≠ .output n := by
  obtain ⟨m, hpast, hkind⟩ := h.items item hitem
  have hlt := hpast.2 hp
  rcases hkind with ⟨hid, -⟩ | ⟨hid, -, -⟩
  · rw [hid]
    refine ⟨fun he => ?_, fun he => (by cases he)⟩
    cases he
    omega
  · rw [hid]
    refine ⟨fun he => (by cases he), fun he => ?_⟩
    cases he
    omega

theorem mem_addItem {x y : ItemId} {items : List ItemId} :
    y ∈ addItem x items ↔ y = x ∨ y ∈ items := by
  unfold addItem
  split
  · next hmem => exact ⟨Or.inr, fun h => h.elim (fun he => he ▸ hmem) id⟩
  · rw [List.mem_append, List.mem_singleton, or_comm]

theorem mem_discardItem {x y : ItemId} {items : List ItemId} :
    y ∈ discardItem x items ↔ y ∈ items ∧ y ≠ x := by
  unfold discardItem
  rw [List.mem_filter, decide_eq_true_eq]

theorem Kept.told (h : s.Kept) {note : Note} (truncating : Option (ItemId × Int × Int))
    (hannounced : ∀ x, Announced { s with truncating := truncating, notes := s.notes ++ [note] } x → s.Announced x)
    (hrequest : ∀ earlier ∈ s.notes, ∀ x c m conversation, earlier = .truncated x c m →
      note = .request conversation → ∀ item ∈ conversation, item.itemId ≠ x) :
    Kept { s with truncating := truncating, notes := s.notes ++ [note] } := by
  refine ⟨h.own, h.last, h.begun, h.done, h.items, h.nodup, h.pending, h.audio, h.truncated, h.output, h.raised, h.written, ?_, ?_⟩
  · intro x hx
    obtain ⟨hknown, habsent, hkept⟩ := h.barred x (hx.imp_left (hannounced x))
    exact ⟨hknown, habsent, hkept⟩
  · refine List.pairwise_append.mpr ⟨h.requests, List.pairwise_singleton _ _, ?_⟩
    intro earlier hearlier later hlater x c m conversation hx he
    rw [List.mem_singleton.mp hlater] at he
    exact hrequest earlier hearlier x c m conversation hx he

theorem Kept.error (h : s.Kept) (type code : String) :
    Kept { s with notes := s.notes ++ [Note.error type code] } := by
  refine h.told s.truncating (fun x hx => hx.imp_right ?_) fun _ _ _ _ _ _ _ he => by cases he
  rintro ⟨c, m, hmem⟩
  rcases List.mem_append.mp hmem with hmem | hmem
  · exact ⟨c, m, hmem⟩
  · cases List.mem_singleton.mp hmem

theorem Kept.announce (h : s.Kept) {x : ItemId} (c m : Int) (hbarred : s.Barred x) :
    Kept { s with truncating := some (x, c, m) } := by
  refine ⟨h.own, h.last, h.begun, h.done, h.items, h.nodup, h.pending, h.audio, h.truncated, h.output, h.raised, h.written, ?_,
    h.requests⟩
  rintro y ((⟨c', m', hy⟩ | hy) | hy)
  · cases hy
    exact ⟨hbarred.known, hbarred.absent, hbarred.kept⟩
  · obtain ⟨hknown, habsent, hkept⟩ := h.barred y (Or.inl (Or.inr hy))
    exact ⟨hknown, habsent, hkept⟩
  · obtain ⟨hknown, habsent, hkept⟩ := h.barred y (Or.inr hy)
    exact ⟨hknown, habsent, hkept⟩

theorem Kept.truncatePending (h : s.Kept) {x : ItemId} (hx : x ∈ s.pendingAssistantItemIds) :
    Kept { s with truncatedAssistantItemIds := addItem x s.truncatedAssistantItemIds } := by
  refine ⟨h.own, h.last, h.begun, h.done, h.items, h.nodup, h.pending, h.audio, ?_, h.output, h.raised, h.written, ?_, h.requests⟩
  · intro y hy
    rcases mem_addItem.mp hy with rfl | hy
    · exact hx
    · exact h.truncated y hy
  · intro y hy
    obtain ⟨hknown, habsent, hkept⟩ := h.barred y hy
    exact ⟨hknown, habsent, fun hcan => mem_addItem.mpr (Or.inr (hkept hcan))⟩

theorem Kept.eraseIdx (h : s.Kept) (index : Nat) :
    Kept { s with conversation := s.conversation.eraseIdx index } := by
  refine ⟨h.own, h.last, h.begun, h.done, ?_, ?_, h.pending, h.audio, h.truncated, h.output, h.raised, h.written, ?_, h.requests⟩
  · intro item hitem
    exact h.items item (List.mem_of_mem_eraseIdx hitem)
  · exact h.nodup.sublist ((List.eraseIdx_sublist _ _).map _)
  · intro y hy
    obtain ⟨hknown, habsent, hkept⟩ := h.barred y hy
    exact ⟨hknown, fun item hitem => habsent item (List.mem_of_mem_eraseIdx hitem), hkept⟩

theorem Kept.erased (h : s.Kept) {x : ItemId} {index : Nat}
    (hindex : s.conversation.findIdx? (fun item => item.itemId = x ∧ item.role = .assistant) =
      some index) :
    Barred { s with conversation := s.conversation.eraseIdx index } x := by
  obtain ⟨hlt, hfound, -⟩ := List.findIdx?_eq_some_iff_getElem.mp hindex
  rw [decide_eq_true_eq] at hfound
  obtain ⟨hid, hrole⟩ := hfound
  have hmem : s.conversation[index] ∈ s.conversation := List.getElem_mem hlt
  obtain ⟨n, hpast, hkind⟩ := h.items _ hmem
  have hout : x = .output n := by
    rcases hkind with ⟨-, huser⟩ | ⟨hout, -⟩
    · rw [hrole] at huser
      cases huser
    · exact hid.symm.trans hout
  refine ⟨⟨n, hout, hpast.1⟩, ?_, ?_⟩
  · intro item hitem he
    obtain ⟨j, hj, hne, rfl⟩ := List.mem_eraseIdx_iff_getElem.mp hitem
    have hj' : j < (s.conversation.map ConversationItem.itemId).length := by simpa using hj
    have hlt' : index < (s.conversation.map ConversationItem.itemId).length := by simpa using hlt
    have hsame : (s.conversation.map ConversationItem.itemId)[j] =
        (s.conversation.map ConversationItem.itemId)[index] := by
      rw [List.getElem_map, List.getElem_map, he, hid]
    exact hne ((h.nodup.getElem_inj_iff).mp hsame)
  · rintro ⟨hp, ⟨m, hm, hnext⟩, -⟩
    exact absurd (hid.trans hm) (h.not_current hmem hp hnext).2

theorem Kept.truncate (h : s.Kept) (x : ItemId) (c m : Int) :
    (s.handleConversationItemTruncate x c m).Kept := by
  unfold handleConversationItemTruncate
  simp only
  split
  · exact h.error _ _
  · split
    · next hpending =>
      obtain ⟨hp, hn, -⟩ := h.pending x hpending
      refine (h.truncatePending hpending).announce c m ⟨?_, ?_, ?_⟩
      · obtain ⟨n, hid, hn⟩ := hn
        exact ⟨n, hid, Nat.lt_of_succ_le (Nat.le_of_eq hn)⟩
      · intro item hitem
        obtain ⟨n, rfl, hn⟩ := hn
        exact (h.not_current hitem hp hn).2
      · intro _
        exact mem_addItem.mpr (Or.inl rfl)
    · split
      · split
        · exact h.error _ _
        · next index hindex => exact (h.eraseIdx index).announce c m (h.erased hindex)
      · next hcancelled =>
        exact h.announce c m (h.barred x (Or.inr (not_not.mp hcancelled)))

theorem Kept.truncateSent (h : s.Kept) {x : ItemId} {c m : Int}
    (ht : s.truncating = some (x, c, m)) :
    Kept { s with truncating := none, notes := s.notes ++ [Note.truncated x c m] } := by
  refine h.told none ?_ fun _ _ _ _ _ _ _ he => by cases he
  rintro y (⟨c', m', hy⟩ | ⟨c', m', hmem⟩)
  · cases hy
  · rcases List.mem_append.mp hmem with hmem | hmem
    · exact Or.inr ⟨c', m', hmem⟩
    · cases List.mem_singleton.mp hmem
      exact Or.inl ⟨_, _, ht⟩

theorem Kept.request (h : s.Kept) : Kept { s with notes := s.notes ++ [Note.request s.conversation] } := by
  refine h.told s.truncating (fun x hx => hx.imp_right ?_) ?_
  · rintro ⟨c, m, hmem⟩
    rcases List.mem_append.mp hmem with hmem | hmem
    · exact ⟨c, m, hmem⟩
    · cases List.mem_singleton.mp hmem
  · rintro earlier hearlier x c m conversation rfl he
    cases he
    exact (h.barred x (Or.inl (Or.inr ⟨c, m, hearlier⟩))).absent

theorem Kept.addPending (h : s.Kept) {r : Response} (hr : s.session.phase.running = some r)
    (haudio : r.wantsAudio = true) :
    Kept { s with pendingAssistantItemIds := addItem (.output r.id) s.pendingAssistantItemIds } := by
  have hid : s.session.phase.runningId = some r.id := by
    unfold Phase.runningId
    rw [hr]
    rfl
  refine ⟨h.own, h.last, h.begun, h.done, h.items, h.nodup, ?_, ?_, ?_, h.output, h.raised, h.written, ?_,
    h.requests⟩
  · intro x hx
    rcases mem_addItem.mp hx with rfl | hx
    · refine ⟨fun hp => ?_, ⟨r.id, rfl, h.last _ hid⟩, fun hnone => ?_⟩
      · rw [show s.session.phase = .idle from hp] at hr
        cases hr
      · rw [show s.session.phase.runningId = none from hnone] at hid
        cases hid
    · exact h.pending x hx
  · intro _ r' hr'
    rw [show s.session.phase.running = some r' from hr'] at hr
    cases hr
    exact haudio
  · intro x hx
    exact mem_addItem.mpr (Or.inr (h.truncated x hx))
  · intro x hx
    obtain ⟨hknown, habsent, hkept⟩ := h.barred x hx
    exact ⟨hknown, habsent, hkept⟩

theorem Kept.terminalsReturn (h : s.Kept) {r : Response} {status : Status}
    (hr : s.session.phase.runningId = some r.id) (hstatus : s.doneStatus = some status) :
    (s.terminalsReturn r status).Kept := by
  have hbarred : status = .cancelled → s.Barred (.output r.id) := by
    rintro rfl
    have hp : s.session.phase ≠ .idle := fun hp => (by rw [hp] at hr; cases hr)
    refine ⟨⟨r.id, rfl, Nat.lt_of_succ_le (Nat.le_of_eq (h.last _ hr))⟩, ?_, ?_⟩
    · intro item hitem
      exact (h.not_current hitem hp (h.last _ hr)).2
    · rintro ⟨-, -, hrunning, -⟩
      cases hrunning (by rw [hr]; exact Option.some_ne_none _) _ hstatus
  unfold RealtimeSession.terminalsReturn
  simp only
  split
  · next hcancelled =>
    refine ⟨h.own, h.last, h.begun, h.done, h.items, h.nodup, h.pending, h.audio, h.truncated, h.output, h.raised, h.written, ?_,
      h.requests⟩
    intro x hx
    have hx' : s.Announced x ∨ x ∈ addItem (.output r.id) s.cancelledAssistantItemIds := by
      refine hx.imp_right fun hmem => ?_
      unfold rememberCancelledAssistantItem at hmem
      simp only at hmem
      split at hmem
      · exact List.mem_of_mem_tail hmem
      · exact hmem
    have hx'' : s.Barred x := by
      rcases hx' with hann | hmem
      · exact h.barred x (Or.inl hann)
      · rcases mem_addItem.mp hmem with rfl | hmem
        · exact hbarred hcancelled.2
        · exact h.barred x (Or.inr hmem)
    exact ⟨hx''.known, hx''.absent, hx''.kept⟩
  · refine ⟨h.own, h.last, h.begun, h.done, h.items, h.nodup, h.pending, h.audio, h.truncated, h.output, h.raised, h.written, ?_,
      h.requests⟩
    intro x hx
    obtain ⟨hknown, habsent, hkept⟩ := h.barred x hx
    exact ⟨hknown, habsent, hkept⟩

theorem Kept.responseDone (h : s.Kept) {r : Response} {session : Session} {text reason : String}
    {includeAudio hasRaised : Bool} {status : Status} (hr : s.session.phase.runningId = some r.id)
    (hsame : SameTurn s.session session) (hphase : session.phase = .terminals r [] hasRaised)
    (hsent : Entry.sent (.responseDone r.id text includeAudio status reason) ∈ session.log)
    (hfirst : s.doneStatus = none) :
    Kept { s with session := session, doneStatus := some status } := by
  have hinner := h.inner hsame (OwnTerminals.of_eq hphase ⟨fun e he => (by cases he),
    fun e he => (by cases he)⟩)
  have hnext : r.id + 1 = session.next := by
    rw [hsame.next]
    exact h.last _ hr
  refine ⟨hinner.own, hinner.last, hinner.begun, ?_, hinner.items, hinner.nodup, hinner.pending, hinner.audio,
    hinner.truncated,
    ?_, hinner.raised, ?_, ?_, hinner.requests⟩
  · intro status' hstatus
    cases hstatus
    exact ⟨r.id, text, includeAudio, reason, hnext, hsent⟩
  · intro output houtput
    have hnone := (h.output output houtput).1
    rw [hr] at hnone
    cases hnone
  · intro status' _
    exact Or.inr ⟨r, hasRaised, hphase⟩
  · intro x hx
    obtain ⟨hknown, habsent, hkept⟩ := hinner.barred x hx
    refine ⟨hknown, habsent, ?_⟩
    rintro ⟨hp, hid, -, hover⟩
    refine hkept ⟨hp, hid, fun _ status' hstatus => ?_, hover⟩
    rw [show s.doneStatus = some status' from hstatus] at hfirst
    cases hfirst

theorem Kept.pending_idle (h : s.Kept) (hp : s.session.phase = .idle) :
    s.pendingAssistantItemIds = [] := by
  apply List.eq_nil_iff_forall_not_mem.mpr
  intro x hx
  exact (h.pending x hx).1 hp

theorem Kept.truncated_of_pending (h : s.Kept) (hp : s.pendingAssistantItemIds = []) :
    s.truncatedAssistantItemIds = [] := by
  apply List.eq_nil_iff_forall_not_mem.mpr
  intro x hx
  have hpending := h.truncated x hx
  rw [hp] at hpending
  cases hpending

theorem Kept.start (h : s.Kept) {wantsAudio : Bool} {session : Session}
    (hs : s.session.start wantsAudio = some session) :
    Kept { s with
      session := session
      responseOutput := none
      doneStatus := none
      terminalsOver := false } := by
  unfold Session.start at hs
  split at hs
  · next hp =>
    cases hs
    have hpending := h.pending_idle hp
    have htruncated := h.truncated_of_pending hpending
    refine ⟨OwnTerminals.of_ne fun _ _ _ h => (by cases h), ?_, fun _ => Nat.succ_pos _,
      fun _ h => (by cases h), ?_, h.nodup,
      ?_, ?_, ?_, fun _ h => (by cases h), fun h => (by cases h), fun _ h => (by cases h), ?_,
      h.requests⟩
    · intro n hn
      cases hn
      rfl
    · intro item hitem
      obtain ⟨n, hpast, hkind⟩ := h.items item hitem
      exact ⟨n, ⟨Nat.lt_succ_of_lt hpast.1, fun _ => Nat.succ_lt_succ hpast.1⟩, hkind⟩
    · intro x hx
      rw [show s.pendingAssistantItemIds = [] from hpending] at hx
      cases hx
    · intro hne
      exact absurd hpending hne
    · intro x hx
      rw [show s.truncatedAssistantItemIds = [] from htruncated] at hx
      cases hx
    · intro x hx
      obtain ⟨⟨n, hid, hn⟩, habsent, -⟩ := h.barred x hx
      refine ⟨⟨n, hid, Nat.lt_succ_of_lt hn⟩, habsent, ?_⟩
      rintro ⟨-, ⟨m, hm, hnext⟩, -⟩
      rw [hid] at hm
      cases hm
      have hnext : n + 1 = s.session.next + 1 := hnext
      omega
  · cases hs

theorem Kept.responseReturns (h : s.Kept) {r : Response} {hasRaised : Bool}
    (hp : s.session.phase = .terminals r [] hasRaised) :
    (s.responseReturns r hasRaised (s.session.release r hasRaised)).Kept := by
  have hr : s.session.phase.runningId = some r.id := by rw [hp]; rfl
  have hn := h.last _ hr
  have hpending : ∀ x ∈ s.pendingAssistantItemIds, x = .output r.id := by
    intro x hx
    obtain ⟨-, ⟨n, hid, hnext⟩, -⟩ := h.pending x hx
    have hsame : n = r.id := by omega
    rw [hid, hsame]
  have hdropped : ∀ items : List ItemId, (∀ x ∈ items, x = .output r.id) →
      discardItem (.output r.id) items = [] := by
    intro items hall
    apply List.eq_nil_iff_forall_not_mem.mpr
    intro x hx
    obtain ⟨hmem, hne⟩ := mem_discardItem.mp hx
    exact hne (hall x hmem)
  have hidle : s.session.phase ≠ .idle := fun hp' => (by rw [hp] at hp'; cases hp')
  have haudio : ∀ x ∈ s.pendingAssistantItemIds, r.wantsAudio = true := fun x hx =>
    h.audio (List.ne_nil_of_mem hx) r (by rw [hp]; rfl)
  unfold RealtimeSession.responseReturns
  generalize hcompleted : (!hasRaised && decide (s.doneStatus = some .completed)) = completed
  have hstatus : completed = true → hasRaised = false ∧ s.doneStatus = some .completed := by
    intro hc
    rw [hc, Bool.and_eq_true, Bool.not_eq_true', decide_eq_true_eq] at hcompleted
    exact hcompleted
  have hout : ∀ output, (if hasRaised then none
      else some (ResponseOutput.mk (.output r.id) (if completed then r.text else ""))) = some output →
      hasRaised = false ∧ output.itemId = .output r.id ∧ (output.text ≠ "" → completed = true) := by
    intro output houtput
    cases hasRaised with
    | true => cases houtput
    | false =>
      cases houtput
      refine ⟨rfl, rfl, fun htext => ?_⟩
      cases completed with
      | true => rfl
      | false => exact absurd rfl htext
  simp only
  refine ⟨OwnTerminals.of_ne fun _ _ _ h => (by cases h), fun n h => (by cases h),
    fun _ => h.begun hidle, h.done, ?_, h.nodup, ?_, fun _ _ h => (by cases h), ?_, ?_, ?_, fun _ _ => Or.inl rfl, ?_, h.requests⟩
  · intro item hitem
    obtain ⟨n, hpast, hkind⟩ := h.items item hitem
    exact ⟨n, ⟨hpast.1, fun _ => hpast.2 hidle⟩, hkind⟩
  · intro x hx
    have hmem : x ∈ s.pendingAssistantItemIds := by
      split at hx
      · exact (mem_discardItem.mp hx).1
      · exact hx
    refine ⟨fun h => (by cases h), ⟨r.id, hpending x hmem, hn⟩, fun _ => ?_⟩
    cases hc : completed with
    | true =>
      rw [(hstatus hc).1]
      exact ⟨_, rfl, (hpending x hmem).symm⟩
    | false =>
      rw [hc, haudio x hmem] at hx
      have hx' : x ∈ discardItem (.output r.id) s.pendingAssistantItemIds := hx
      rw [hdropped _ hpending] at hx'
      cases hx'
  · intro x hx
    split at hx
    · next hd =>
      rw [if_pos hd]
      obtain ⟨hmem, hne⟩ := mem_discardItem.mp hx
      exact mem_discardItem.mpr ⟨h.truncated x hmem, hne⟩
    · next hd =>
      rw [if_neg hd]
      exact h.truncated x hx
  · intro output houtput
    obtain ⟨-, hitem, htext⟩ := hout output houtput
    exact ⟨rfl, fun h => (by cases h), ⟨r.id, hitem, hn⟩, fun ht => (hstatus (htext ht)).2⟩
  · intro hp'
    cases hp'
    rfl
  · intro x hx
    obtain ⟨hknown, habsent, hkept⟩ := h.barred x hx
    refine ⟨hknown, habsent, ?_⟩
    rintro ⟨-, hid, -, hover⟩
    obtain ⟨output, houtput, -, htext⟩ := hover rfl
    have hc := (hout output houtput).2.2 htext
    have hmem : x ∈ s.truncatedAssistantItemIds := by
      refine hkept ⟨hidle, hid, fun _ status hs => ?_, fun hnone => ?_⟩
      · rw [(hstatus hc).2] at hs
        exact (Option.some.inj hs).symm
      · rw [hr] at hnone
        cases hnone
    rw [hc, Bool.not_true, Bool.and_false]
    exact hmem

theorem Kept.resumes (h : s.Kept) {session : Session} (hs : s.session.resumes = some session) :
    Kept { s with session := session } := by
  unfold Session.resumes at hs
  split at hs
  · next hasRaised hp =>
    have hnone : s.session.phase.runningId = none := by rw [hp]; rfl
    have hidle : s.session.phase ≠ .idle := fun hp' => (by rw [hp] at hp'; cases hp')
    simp only at hs
    split at hs
    · next hraised =>
      cases hs
      have hout : s.responseOutput = none := h.raised (by rw [hp, hraised.1])
      have hpending : s.pendingAssistantItemIds = [] := by
        apply List.eq_nil_iff_forall_not_mem.mpr
        intro x hx
        obtain ⟨output, houtput, -⟩ := (h.pending x hx).2.2 hnone
        rw [hout] at houtput
        cases houtput
      have htruncated := h.truncated_of_pending hpending
      refine ⟨OwnTerminals.of_ne fun _ _ _ h => (by cases h), fun n h => (by cases h),
        fun _ => h.begun hidle, h.done, ?_, h.nodup, ?_, fun _ _ h => (by cases h), h.truncated, ?_, fun h => (by cases h),
        fun _ _ => Or.inl rfl, ?_, h.requests⟩
      · intro item hitem
        obtain ⟨n, hpast, hkind⟩ := h.items item hitem
        exact ⟨n, ⟨hpast.1, fun h => absurd rfl h⟩, hkind⟩
      · intro x hx
        rw [show s.pendingAssistantItemIds = [] from hpending] at hx
        cases hx
      · intro output houtput
        rw [show s.responseOutput = some output from houtput] at hout
        cases hout
      · intro x hx
        obtain ⟨hknown, habsent, -⟩ := h.barred x hx
        exact ⟨hknown, habsent, fun hcan => absurd rfl hcan.1⟩
    · cases hs
      refine ⟨OwnTerminals.of_ne fun _ _ _ h => (by cases h), fun n h => (by cases h),
        fun _ => h.begun hidle, h.done, ?_, h.nodup, ?_, fun _ _ h => (by cases h), h.truncated, ?_, fun h => (by cases h),
        fun _ _ => Or.inl rfl, ?_, h.requests⟩
      · intro item hitem
        obtain ⟨n, hpast, hkind⟩ := h.items item hitem
        exact ⟨n, ⟨hpast.1, fun _ => hpast.2 hidle⟩, hkind⟩
      · intro x hx
        obtain ⟨-, hid, hover⟩ := h.pending x hx
        exact ⟨fun h => (by cases h), hid, fun _ => hover hnone⟩
      · intro output houtput
        obtain ⟨-, -, hid, htext⟩ := h.output output houtput
        exact ⟨rfl, fun h => (by cases h), hid, htext⟩
      · intro x hx
        obtain ⟨hknown, habsent, hkept⟩ := h.barred x hx
        refine ⟨hknown, habsent, ?_⟩
        rintro ⟨-, hid, -, hover⟩
        exact hkept ⟨hidle, hid, fun hne => absurd hnone hne, fun _ => hover rfl⟩
  · cases hs

theorem Kept.assistantItem (h : s.Kept) {item : ConversationItem} (hitem : item ∈ s.assistantItem) :
    item.role = .assistant ∧ item.itemId ∉ s.truncatedAssistantItemIds ∧
    s.CanAppend item.itemId ∧
    ∃ n, item.itemId = .output n ∧ n + 1 = s.session.next ∧ s.Completed n := by
  unfold RealtimeSession.assistantItem at hitem
  split at hitem
  · cases hitem
  · next output houtput =>
    split at hitem
    · next happend =>
      rw [List.mem_singleton.mp hitem]
      obtain ⟨hnone, hidle, ⟨n, hid, hn⟩, htext⟩ := h.output output houtput
      obtain ⟨m, text, includeAudio, reason, hm, hsent⟩ := h.done _ (htext happend.1)
      have hsame : m = n := by omega
      rw [hsame] at hsent
      exact ⟨rfl, happend.2, ⟨hidle, ⟨n, hid, hn⟩, fun hne => absurd hnone hne,
        fun _ => ⟨output, houtput, rfl, happend.1⟩⟩, n, hid, hn, text, includeAudio, reason, hsent⟩
    · cases hitem

theorem assistantItem_cases (s : RealtimeSession) :
    s.assistantItem = [] ∨ ∃ item, s.assistantItem = [item] := by
  unfold RealtimeSession.assistantItem
  split
  · exact Or.inl rfl
  · split
    · exact Or.inr ⟨_, rfl⟩
    · exact Or.inl rfl

theorem transcribed_conversation (s : RealtimeSession) (transcript : Option String) (turn : Nat)
    (session : Session) :
    ∃ added, (s.transcribed transcript turn session).conversation = s.conversation ++ added ∧
      (∀ item ∈ added, item.itemId = .input turn ∧ item.role = .user ∨ item ∈ s.assistantItem) ∧
      (s.Kept → (added.map ConversationItem.itemId).Nodup) := by
  cases transcript with
  | none => exact ⟨[], (List.append_nil _).symm, fun _ h => (by cases h), fun _ => List.nodup_nil⟩
  | some text =>
    refine ⟨(if text ≠ "" then [ConversationItem.mk .user text (.input turn)] else []) ++
      s.assistantItem, List.append_assoc _ _ _, ?_, ?_⟩
    · intro item hitem
      rcases List.mem_append.mp hitem with huser | hassistant
      · split at huser
        · rw [List.mem_singleton.mp huser]
          exact Or.inl ⟨rfl, rfl⟩
        · cases huser
      · exact Or.inr hassistant
    · intro h
      rcases s.assistantItem_cases with hnil | ⟨item, hone⟩
      · rw [hnil, List.append_nil]
        split
        · exact List.nodup_singleton _
        · exact List.nodup_nil
      · rw [hone]
        have hitem : item ∈ s.assistantItem := by
          rw [hone]
          exact List.mem_singleton_self item
        obtain ⟨-, -, -, n, hid, -, -⟩ := h.assistantItem hitem
        split
        · simp [hid]
        · exact List.nodup_singleton _

theorem Kept.transcribed (h : s.Kept) {session : Session} (transcript : Option String)
    (hs : s.session.turnEnds = some session) :
    (s.transcribed transcript (s.session.next - 1) session).Kept := by
  unfold Session.turnEnds at hs
  split at hs
  · next hp =>
    cases hs
    have hnone : s.session.phase.runningId = none := by rw [hp]; rfl
    have hidle : s.session.phase ≠ .idle := fun hp' => (by rw [hp] at hp'; cases hp')
    have hturn : s.session.next - 1 + 1 = s.session.next := Nat.sub_add_cancel (h.begun hidle)
    obtain ⟨added, hconversation, hadded, hnodup⟩ := s.transcribed_conversation transcript
      (s.session.next - 1) s.session.turnOver
    have hgone : ∀ x ∈ (s.transcribed transcript (s.session.next - 1)
        s.session.turnOver).pendingAssistantItemIds, False := by
      intro x hx
      unfold RealtimeSession.transcribed at hx
      simp only at hx
      split at hx
      · next hout =>
        obtain ⟨output, houtput, -⟩ := (h.pending x hx).2.2 hnone
        rw [hout] at houtput
        cases houtput
      · next output hout =>
        obtain ⟨hmem, hne⟩ := mem_discardItem.mp hx
        obtain ⟨output', houtput, hid⟩ := (h.pending x hmem).2.2 hnone
        rw [hout] at houtput
        cases houtput
        exact hne hid.symm
    refine ⟨OwnTerminals.of_ne fun _ _ _ h => (by cases h), fun n h => (by cases h),
      fun h => absurd rfl h, h.done, ?_, ?_, fun x hx => absurd (hgone x hx) id,
      fun _ _ h => (by cases h), ?_, fun _ h => (by cases h), fun h => (by cases h),
      fun _ _ => Or.inl rfl, ?_, h.requests⟩
    · intro item hitem
      rw [hconversation] at hitem
      rcases List.mem_append.mp hitem with hitem | hitem
      · obtain ⟨n, hpast, hkind⟩ := h.items item hitem
        exact ⟨n, ⟨hpast.1, fun h => absurd rfl h⟩, hkind⟩
      · rcases hadded item hitem with hkind | hassistant
        · exact ⟨s.session.next - 1, ⟨Nat.lt_of_succ_le (Nat.le_of_eq hturn), fun h => absurd rfl h⟩,
            Or.inl hkind⟩
        · obtain ⟨hrole, -, -, n, hid, hn, hcompleted⟩ := h.assistantItem hassistant
          exact ⟨n, ⟨Nat.lt_of_succ_le (Nat.le_of_eq hn), fun h => absurd rfl h⟩,
            Or.inr ⟨hid, hrole, hcompleted⟩⟩
    · rw [hconversation, List.map_append]
      refine List.nodup_append.mpr ⟨h.nodup, hnodup h, ?_⟩
      intro x hx y hy hxy
      obtain ⟨item, hitem, rfl⟩ := List.mem_map.mp hx
      obtain ⟨item', hitem', rfl⟩ := List.mem_map.mp hy
      obtain ⟨hinput, houtput⟩ := h.not_current hitem hidle hturn
      rcases hadded item' hitem' with ⟨hid, -⟩ | hassistant
      · exact hinput (hxy.trans hid)
      · obtain ⟨-, -, -, n, hid, hn, -⟩ := h.assistantItem hassistant
        have hsame : n = s.session.next - 1 := by omega
        exact houtput (hxy.trans (hsame ▸ hid))
    · intro x hx
      unfold RealtimeSession.transcribed at hx ⊢
      simp only at hx ⊢
      split at hx
      · exact h.truncated x hx
      · obtain ⟨hmem, hne⟩ := mem_discardItem.mp hx
        exact mem_discardItem.mpr ⟨h.truncated x hmem, hne⟩
    · intro x hx
      obtain ⟨hknown, habsent, hkept⟩ := h.barred x hx
      refine ⟨hknown, ?_, fun hcan => absurd rfl hcan.1⟩
      intro item hitem hid
      rw [hconversation] at hitem
      rcases List.mem_append.mp hitem with hitem | hitem
      · exact habsent item hitem hid
      · rcases hadded item hitem with ⟨hinput, -⟩ | hassistant
        · obtain ⟨n, hout, -⟩ := hknown
          rw [hid, hout] at hinput
          cases hinput
        · obtain ⟨-, hnot, hcan, -⟩ := h.assistantItem hassistant
          rw [hid] at hnot hcan
          exact hnot (hkept hcan)
  · cases hs

theorem Kept.turnStep (h : s.Kept) {s' : RealtimeSession} {a : Action} (hs : s.turnStep a = some s') :
    s'.Kept := by
  have hinner : ∀ session, a.isInner s.session → s.session.step a = some session →
      Kept { s with session := session } := by
    intro session hin hstep
    obtain ⟨hsame, hown⟩ := inner_step hin h.own hstep
    exact h.inner hsame hown
  unfold RealtimeSession.turnStep at hs
  split at hs
  · cases hs
  · next session hstep =>
    split at hs
    · cases hs
      exact h.start hstep
    · next r hp =>
      cases hs
      have hkept := hinner session trivial hstep
      have hsession : session =
          { s.session with phase := .sending r .created false, activeResponse := some r.id } := by
        unfold Session.step Session.begins at hstep
        rw [hp] at hstep
        exact (Option.some.inj hstep).symm
      unfold RealtimeSession.begins
      split
      · next haudio => exact (hkept.addPending (by rw [hsession]; rfl) haudio).request
      · exact hkept.request
    · next r n text includeAudio status reason rest hasRaised hp =>
      cases hs
      have hown := h.own _ _ _ hp
      have hrest : rest = [] := hown.last rfl
      have hn : n = r.id := hown.own _ List.mem_cons_self
      obtain ⟨hsame, -⟩ := inner_step (a := .write) trivial h.own hstep
      have hsession : session =
          { s.session with
            phase := .terminals r rest hasRaised
            log := s.session.log ++
              [Entry.sent (.responseDone n text includeAudio status reason)] } := by
        unfold Session.step Session.write at hstep
        rw [hp] at hstep
        exact (Option.some.inj hstep).symm
      have hsent : Entry.sent (.responseDone r.id text includeAudio status reason) ∈ session.log := by
        rw [hsession, ← hn]
        exact List.mem_append_right _ List.mem_cons_self
      refine h.responseDone (by rw [hp]; rfl) hsame (by rw [hsession, hrest]) hsent ?_
      cases hdone : s.doneStatus with
      | none => rfl
      | some status' =>
        rcases h.written status' hdone with hnone | ⟨r', hasRaised', hp'⟩
        · rw [hp] at hnone
          cases hnone
        · rw [hp] at hp'
          cases hp'
    · next r hasRaised hp =>
      split at hs
      · cases hs
        have hsession : session = s.session.release r hasRaised := by
          unfold Session.step Session.returns at hstep
          rw [hp] at hstep
          exact (Option.some.inj hstep).symm
        rw [hsession]
        exact h.responseReturns hp
      · cases hs
    · cases hs
    · next action _ _ hstart hends _ _ hreturns =>
      cases hs
      cases action with
      | start wantsAudio => exact absurd rfl (hstart wantsAudio)
      | returns =>
        refine hinner session (fun r hasRaised hp => ?_) hstep
        exact hreturns r hasRaised rfl hp
      | resumes => exact h.resumes hstep
      | turnEnds => exact absurd rfl hends
      | begins => exact hinner session trivial hstep
      | write => exact hinner session trivial hstep
      | chunk c => exact hinner session trivial hstep
      | streamEnds => exact hinner session trivial hstep
      | streamRaises => exact hinner session trivial hstep
      | throw => exact hinner session trivial hstep
      | swallow => exact hinner session trivial hstep
      | cancel reason => exact hinner session trivial hstep

theorem Kept.step (h : s.Kept) {s' : RealtimeSession} {a : TalkAction} (hs : talk.step s a = some s') :
    s'.Kept := by
  cases a with
  | turn a => exact h.turnStep hs
  | terminalsReturn =>
    unfold talk RealtimeSession.step at hs
    simp only at hs
    split at hs
    · next r hasRaised status hp hstatus _ =>
      cases hs
      exact h.terminalsReturn (by rw [hp]; rfl) hstatus
    · cases hs
  | transcribed transcript =>
    obtain ⟨session, hsession, rfl⟩ := Option.map_eq_some_iff.mp hs
    exact h.transcribed transcript hsession
  | truncate itemId contentIndex audioEndMs =>
    unfold talk RealtimeSession.step at hs
    simp only at hs
    split at hs
    · cases hs
      exact h.truncate itemId contentIndex audioEndMs
    · cases hs
  | truncateSent =>
    obtain ⟨⟨x, c, m⟩, ht, rfl⟩ := Option.map_eq_some_iff.mp hs
    exact h.truncateSent ht

theorem kept_of_reaches (hs : talk.Reaches Machine.anyAction s) : s.Kept := by
  apply hs.invariant (P := Kept) kept_init
  intro s a s' h _ hstep
  exact h.step hstep

end RealtimeSession

/-- Once `conversation.item.truncated` is sent, its item is neither in the conversation nor in a request
built later, and every assistant item in the conversation is of a response that finished with status
completed. -/
theorem truncated_stays_out {s : RealtimeSession} (hs : talk.Reaches Machine.anyAction s) :
    (∀ x c m, Note.truncated x c m ∈ s.notes → ∀ item ∈ s.conversation, item.itemId ≠ x) ∧
    (s.notes.Pairwise fun earlier later => ∀ x c m conversation,
      earlier = .truncated x c m → later = .request conversation →
        ∀ item ∈ conversation, item.itemId ≠ x) ∧
    ∀ item ∈ s.conversation, item.role = .assistant → ∃ n text includeAudio reason,
      item.itemId = .output n ∧
      Entry.sent (.responseDone n text includeAudio .completed reason) ∈ s.session.log := by
  have h := RealtimeSession.kept_of_reaches hs
  refine ⟨fun x c m hmem => (h.barred x (Or.inl (Or.inr ⟨c, m, hmem⟩))).absent, h.requests, ?_⟩
  intro item hitem hrole
  obtain ⟨n, -, hkind⟩ := h.items item hitem
  rcases hkind with ⟨-, huser⟩ | ⟨hid, -, text, includeAudio, reason, hsent⟩
  · rw [hrole] at huser
    cases huser
  · exact ⟨n, text, includeAudio, reason, hid, hsent⟩

/-- A turn whose response is completed with audio, up to its transcription. -/
def spokenTurn (reply : String) : List TalkAction :=
  ([.start true, .begins, .write, .returns, .chunk { modality := .text, text := some reply }, .write,
    .returns, .chunk { modality := .audio, audioB64 := some "pcm" }, .write, .returns, .streamEnds,
    .write, .write, .write] : List Action).map TalkAction.turn ++
  [TalkAction.terminalsReturn, TalkAction.turn .returns, TalkAction.turn .resumes]

/-- Two spoken turns; the first response is truncated in the conversation and the second while its audio
is transcribed. -/
def truncatedRun : List TalkAction :=
  spokenTurn "one" ++ [TalkAction.transcribed (some "first")] ++ spokenTurn "two" ++
    [TalkAction.truncate (.output 0) 0 100, TalkAction.truncateSent,
      TalkAction.truncate (.output 1) 0 100, TalkAction.truncateSent,
      TalkAction.transcribed (some "second"), TalkAction.turn (.start true), TalkAction.turn .begins]

def truncatedState : RealtimeSession := (talk.exec {} truncatedRun).getD {}

theorem truncated_stays_out_twoTurns :
    truncatedState.notes =
      [.request [], .request [⟨.user, "first", .input 0⟩, ⟨.assistant, "one", .output 0⟩],
        .truncated (.output 0) 0 100, .truncated (.output 1) 0 100,
        .request [⟨.user, "first", .input 0⟩, ⟨.user, "second", .input 1⟩]] ∧
    (∀ x c m, Note.truncated x c m ∈ truncatedState.notes →
      ∀ item ∈ truncatedState.conversation, item.itemId ≠ x) ∧
    (truncatedState.notes.Pairwise fun earlier later => ∀ x c m conversation,
      earlier = .truncated x c m → later = .request conversation →
        ∀ item ∈ conversation, item.itemId ≠ x) ∧
    ∀ item ∈ truncatedState.conversation, item.role = .assistant → ∃ n text includeAudio reason,
      item.itemId = .output n ∧
      Entry.sent (.responseDone n text includeAudio .completed reason) ∈
        truncatedState.session.log :=
  ⟨by decide +kernel,
    truncated_stays_out (Machine.path_of_exec
      (show talk.exec talk.init truncatedRun = some truncatedState by decide +kernel))⟩

/-- In every run each item is in the conversation once, as the input or the completed output of a past turn; the
pending assistant items are of the latest turn, which is running, and no cancelled item is in the
conversation. -/
theorem conversation_once {s : RealtimeSession} (hs : talk.Reaches Machine.anyAction s) :
    (s.conversation.map ConversationItem.itemId).Nodup ∧
    (∀ item ∈ s.conversation, ∃ n, s.Past n ∧ (item.itemId = .input n ∧ item.role = .user ∨
      item.itemId = .output n ∧ item.role = .assistant ∧ s.Completed n)) ∧
    (∀ x ∈ s.pendingAssistantItemIds, s.session.phase ≠ .idle ∧
      ∃ n, x = .output n ∧ n + 1 = s.session.next) ∧
    (∀ x ∈ s.truncatedAssistantItemIds, x ∈ s.pendingAssistantItemIds) ∧
    ∀ x ∈ s.cancelledAssistantItemIds, ∀ item ∈ s.conversation, item.itemId ≠ x := by
  have h := RealtimeSession.kept_of_reaches hs
  refine ⟨h.nodup, h.items, fun x hx => ⟨(h.pending x hx).1, (h.pending x hx).2.1⟩, h.truncated,
    fun x hx => (h.barred x (.inr hx)).absent⟩

theorem conversation_once_twoTurns :
    truncatedState.conversation.length = 2 ∧
    (truncatedState.conversation.map ConversationItem.itemId).Nodup :=
  ⟨by decide +kernel, (conversation_once (Machine.path_of_exec
    (show talk.exec talk.init truncatedRun = some truncatedState by decide +kernel))).1⟩

end Turns
