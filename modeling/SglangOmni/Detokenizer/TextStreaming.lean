import Mathlib.Algebra.Order.Ring.Int
import Mathlib.Data.List.DropRight
import SglangOmni.Cascade.Dialog

/-! The streamed text of `scheduling/exact_text_streaming.py` and of
`scheduling/token_text_streaming.py`: what is sent of a text while its tokens arrive. -/

namespace TextStreaming

open Cascade (Text isSpace rstrip strip)

def replacement : Char := '\uFFFD'

def isReplacement (c : Char) : Bool := c == replacement

/-- `str.rstrip` of replacement characters. -/
def rstripReplacement (text : Text) : Text := text.rdropWhile isReplacement

variable {κ τ : Type}

/-- More tokens change at most a trailing run of replacement characters. -/
def Revises (decode : List κ → Text) : Prop :=
  ∀ tokens more, rstripReplacement (decode tokens) <+: decode (tokens ++ more)

/-- Tokens whose text has no incomplete character at its end are decoded on their own. -/
def Splits (decode : List κ → Text) : Prop :=
  ∀ tokens more, tokens = [] ∨ (decode tokens).getLast? ≠ some replacement →
    decode (tokens ++ more) = decode tokens ++ decode more

/-! ### What is cut off a text -/

section Cut

variable {α : Type} {p q : α → Bool} {x y : List α}

theorem rdropWhile_append (p : α → Bool) (x y : List α) :
    (x ++ y).rdropWhile p = if (y.rdropWhile p).isEmpty then x.rdropWhile p else x ++ y.rdropWhile p := by
  simp only [List.rdropWhile, List.reverse_append, List.dropWhile_append, List.isEmpty_reverse]
  split <;> simp

theorem rdropWhile_mono (h : x <+: y) : x.rdropWhile p <+: y.rdropWhile p := by
  obtain ⟨z, rfl⟩ := h
  rw [rdropWhile_append]
  split
  · exact List.prefix_rfl
  · exact (List.rdropWhile_prefix p x).trans (List.prefix_append x _)

theorem prefix_rdropWhile (hx : x.rdropWhile p = x) (h : x <+: y) : x <+: y.rdropWhile p :=
  hx ▸ rdropWhile_mono h

theorem dropWhile_mono (h : x <+: y) (hne : x.dropWhile p ≠ []) : x.dropWhile p <+: y.dropWhile p := by
  obtain ⟨z, rfl⟩ := h
  rw [List.dropWhile_append, if_neg (by simpa using hne)]
  exact List.prefix_append _ z

theorem dropWhile_prefix_self (h : y <+: x.dropWhile p) : y.dropWhile p = y := by
  cases y with
  | nil => rfl
  | cons a y =>
    obtain ⟨z, hz⟩ := h
    have hhead := List.head?_dropWhile_not p x
    rw [← hz] at hhead
    exact List.dropWhile_cons_of_neg (by simp [show p a = false from hhead])

theorem dropWhile_rdropWhile (x : List α) : (x.rdropWhile q).dropWhile p = (x.dropWhile p).rdropWhile q := by
  have hspaces {z : List α} (hz : z <+: x.takeWhile p) : z.dropWhile p = [] :=
    List.dropWhile_eq_nil_iff.mpr fun _ ha => List.mem_takeWhile_imp (hz.subset ha)
  have hsplit := rdropWhile_append q (x.takeWhile p) (x.dropWhile p)
  rw [List.takeWhile_append_dropWhile] at hsplit
  rw [hsplit]
  split
  · next hempty => rw [hspaces (List.rdropWhile_prefix q _), List.isEmpty_iff.mp hempty]
  · rw [List.dropWhile_append, hspaces List.prefix_rfl, dropWhile_prefix_self (List.rdropWhile_prefix q _)]
    rfl

end Cut

/-- What a step may send: the stripped text without its trailing replacement characters. -/
def settledText (text : Text) : Text := rstrip (rstripReplacement (strip text))

theorem rstrip_settledText (text : Text) : rstrip (settledText text) = settledText text :=
  List.rdropWhile_idempotent isSpace _

theorem settledText_prefix {text later : Text} (h : rstripReplacement text <+: later) :
    settledText text <+: strip later := by
  by_cases hempty : settledText text = []
  · rw [hempty]
    exact List.nil_prefix
  have hcut : settledText text <+: (rstripReplacement text).dropWhile isSpace := by
    rw [rstripReplacement, dropWhile_rdropWhile]
    exact (List.rdropWhile_prefix isSpace _).trans (rdropWhile_mono (List.rdropWhile_prefix isSpace _))
  have hne : (rstripReplacement text).dropWhile isSpace ≠ [] := fun hnil =>
    hempty (List.prefix_nil.mp (hnil ▸ hcut))
  exact prefix_rdropWhile (rstrip_settledText text) (hcut.trans (dropWhile_mono h hne))

theorem prefix_settledText_iff {sent text : Text} (hsent : rstrip sent = sent) (h : sent <+: strip text) :
    sent <+: settledText text ↔
      ¬(sent.getLast? = some replacement ∧ ∃ n, strip text = sent ++ List.replicate n replacement) := by
  obtain ⟨rest, hrest⟩ := h
  have hstrip : sent <+: settledText text ↔ sent <+: rstripReplacement (strip text) :=
    ⟨fun h => h.trans (List.rdropWhile_prefix isSpace _), prefix_rdropWhile hsent⟩
  have hall : (rest.rdropWhile isReplacement).isEmpty = true ↔ ∃ n, rest = List.replicate n replacement := by
    rw [List.isEmpty_iff, List.rdropWhile_eq_nil_iff]
    simp only [isReplacement, beq_iff_eq]
    exact ⟨fun h => ⟨_, List.eq_replicate_of_mem h⟩, by rintro ⟨n, rfl⟩ c hc; exact List.eq_of_mem_replicate hc⟩
  rw [hstrip, ← hrest, rstripReplacement, rdropWhile_append]
  simp only [List.append_cancel_left_eq, ← hall]
  split
  · next hempty =>
    have hself : sent <+: sent.rdropWhile isReplacement ↔ sent.rdropWhile isReplacement = sent :=
      ⟨fun h => ((List.rdropWhile_prefix isReplacement sent).eq_of_length_le h.length_le),
        fun h => h.symm ▸ List.prefix_rfl⟩
    rw [hself, List.rdropWhile_eq_self_iff]
    cases hlast : sent.getLast? with
    | none => simp [List.getLast?_eq_none_iff.mp hlast]
    | some c =>
      obtain ⟨hne, rfl⟩ := List.mem_getLast?_eq_getLast hlast
      simp [hne, hempty, isReplacement]
  · next hne => simp [hne]

/-! ### `ExactTextStreamState` -/

structure ExactTextStreamState (κ τ : Type) where
  decoder : List κ → Text
  intervalSeconds : τ
  tokenIds : List κ := []
  emittedText : Text := []
  lastEmitSeconds : τ

/-- A call of `step`, before the terminal one or the terminal one itself. -/
structure StepCall (κ τ : Type) where
  tokenId : Option κ
  nowSeconds : τ

namespace ExactTextStreamState

section Step

variable [Sub τ] [LT τ] [DecidableLT τ] (s : ExactTextStreamState κ τ)

def throttles (nowSeconds : τ) : Bool :=
  !s.emittedText.isEmpty && decide (nowSeconds - s.lastEmitSeconds < s.intervalSeconds)

def take (tokenId : Option κ) : ExactTextStreamState κ τ := { s with tokenIds := s.tokenIds ++ tokenId.toList }

def send (text : Text) (nowSeconds : τ) : Except String (Text × ExactTextStreamState κ τ) :=
  if !s.emittedText.isPrefixOf text then .error "Incremental ASR decoding changed an emitted prefix"
  else
    let delta := text.drop s.emittedText.length
    if delta.isEmpty then .ok (delta, s)
    else .ok (delta, { s with emittedText := text, lastEmitSeconds := nowSeconds })

def step (call : StepCall κ τ) (terminal : Bool) : Except String (Text × ExactTextStreamState κ τ) :=
  let s := s.take call.tokenId
  if !terminal && s.throttles call.nowSeconds then .ok ([], s)
  else
    let text := strip (s.decoder s.tokenIds)
    -- Later byte tokens can complete trailing Unicode.
    s.send (if terminal then text else rstrip (rstripReplacement text)) call.nowSeconds

def stream (s : ExactTextStreamState κ τ) (last : StepCall κ τ) : List (StepCall κ τ) → Except String (List Text)
  | [] => do
    let (delta, _) ← s.step last true
    pure [delta]
  | call :: calls => do
    let (delta, s) ← s.step call false
    let deltas ← s.stream last calls
    pure (delta :: deltas)

/-- The text is decoded now, and it is the text sent before, which ends in a replacement character,
with only replacement characters behind it. -/
def Recedes (call : StepCall κ τ) : Prop :=
  s.throttles call.nowSeconds = false ∧ s.emittedText.getLast? = some replacement ∧
    ∃ n, strip (s.decoder (s.tokenIds ++ call.tokenId.toList)) = s.emittedText ++ List.replicate n replacement

def Steady (s : ExactTextStreamState κ τ) : List (StepCall κ τ) → Prop
  | [] => True
  | call :: calls => ¬s.Recedes call ∧ ∀ after, s.step call false = .ok after → after.2.Steady calls

end Step

/-- The text sent is at the start of the stripped text of the tokens, whatever tokens follow. -/
structure Sends (s : ExactTextStreamState κ τ) : Prop where
  stripped : rstrip s.emittedText = s.emittedText
  ahead : ∀ more, s.emittedText <+: strip (s.decoder (s.tokenIds ++ more))

theorem Sends.take {s : ExactTextStreamState κ τ} (h : s.Sends) (tokenId : Option κ) : (s.take tokenId).Sends := by
  refine ⟨h.stripped, fun more => ?_⟩
  show s.emittedText <+: strip (s.decoder (s.tokenIds ++ tokenId.toList ++ more))
  rw [List.append_assoc]
  exact h.ahead _

structure Advanced (s : ExactTextStreamState κ τ) (tokenId : Option κ) (after : Text × ExactTextStreamState κ τ) :
    Prop where
  decoder : after.2.decoder = s.decoder
  tokenIds : after.2.tokenIds = s.tokenIds ++ tokenId.toList
  emittedText : after.2.emittedText = s.emittedText ++ after.1

theorem send_of_prefix (s : ExactTextStreamState κ τ) (tokenId : Option κ) {text : Text} (h : s.emittedText <+: text)
    (nowSeconds : τ) :
    ∃ after, (s.take tokenId).send text nowSeconds = .ok after ∧ s.Advanced tokenId after ∧
      after.2.emittedText = text := by
  obtain ⟨delta, rfl⟩ := h
  have hprefix : (s.take tokenId).emittedText.isPrefixOf (s.emittedText ++ delta) = true :=
    List.isPrefixOf_iff_prefix.mpr (List.prefix_append _ delta)
  have hdrop : (s.emittedText ++ delta).drop (s.take tokenId).emittedText.length = delta := List.drop_left
  rw [send, hprefix, hdrop]
  cases delta with
  | nil => exact ⟨_, rfl, ⟨rfl, rfl, (List.append_nil _).symm⟩, (List.append_nil _).symm⟩
  | cons c delta => exact ⟨_, rfl, ⟨rfl, rfl, rfl⟩, rfl⟩

theorem send_of_not_prefix {s : ExactTextStreamState κ τ} {text : Text} (h : ¬s.emittedText <+: text) (nowSeconds : τ) :
    s.send text nowSeconds = .error "Incremental ASR decoding changed an emitted prefix" := by
  have hprefix : s.emittedText.isPrefixOf text = false := by
    rw [← Bool.not_eq_true, List.isPrefixOf_iff_prefix]
    exact h
  rw [send, hprefix]
  rfl

section Run

variable [Sub τ] [LT τ] [DecidableLT τ] {s : ExactTextStreamState κ τ}

theorem step_terminal (h : s.Sends) (call : StepCall κ τ) :
    ∃ after, s.step call true = .ok after ∧
      s.emittedText ++ after.1 = strip (s.decoder (s.tokenIds ++ call.tokenId.toList)) := by
  obtain ⟨after, hsend, hadvanced, htext⟩ := send_of_prefix s call.tokenId (h.ahead call.tokenId.toList) call.nowSeconds
  exact ⟨after, hsend, hadvanced.emittedText ▸ htext⟩

theorem step_cases (h : s.Sends) (hrevises : Revises s.decoder) (call : StepCall κ τ) :
    (¬s.Recedes call ∧ ∃ after, s.step call false = .ok after ∧ s.Advanced call.tokenId after ∧ after.2.Sends) ∨
      (s.Recedes call ∧ ∃ message, s.step call false = .error message) := by
  cases hthrottles : s.throttles call.nowSeconds with
  | true =>
    have hstep : s.step call false = .ok ([], s.take call.tokenId) := by
      simp [step, show (s.take call.tokenId).throttles call.nowSeconds = true from hthrottles]
    refine .inl ⟨fun hrecedes => ?_, _, hstep, ⟨rfl, rfl, (List.append_nil _).symm⟩, h.take _⟩
    exact Bool.noConfusion (hthrottles.symm.trans hrecedes.1)
  | false =>
    have hstep : s.step call false = (s.take call.tokenId).send
        (settledText (s.decoder (s.tokenIds ++ call.tokenId.toList))) call.nowSeconds := by
      simp only [step, show (s.take call.tokenId).throttles call.nowSeconds = false from hthrottles]
      rfl
    have hprefix := prefix_settledText_iff h.stripped (h.ahead call.tokenId.toList)
    by_cases hsettled : s.emittedText <+: settledText (s.decoder (s.tokenIds ++ call.tokenId.toList))
    · obtain ⟨after, hsend, hadvanced, htext⟩ := send_of_prefix s call.tokenId hsettled call.nowSeconds
      refine .inl ⟨fun hrecedes => hprefix.mp hsettled hrecedes.2, after, hstep.trans hsend, hadvanced, ?_, fun more => ?_⟩
      · rw [htext]
        exact rstrip_settledText _
      · rw [htext, hadvanced.decoder, hadvanced.tokenIds]
        exact settledText_prefix (hrevises _ more)
    · have hraise := send_of_not_prefix (s := s.take call.tokenId) hsettled call.nowSeconds
      exact .inr ⟨⟨hthrottles, not_not.mp fun hnot => hsettled ( hprefix.mpr hnot)⟩, _, hstep.trans hraise⟩

def tokens (calls : List (StepCall κ τ)) : List κ := calls.flatMap fun call => call.tokenId.toList

theorem stream_iff (h : s.Sends) (hrevises : Revises s.decoder) (calls : List (StepCall κ τ)) (last : StepCall κ τ) :
    (∃ deltas, s.stream last calls = .ok deltas ∧
        s.emittedText ++ deltas.flatten = strip (s.decoder (s.tokenIds ++ tokens (calls ++ [last])))) ↔
      s.Steady calls := by
  induction calls generalizing s with
  | nil =>
    refine iff_of_true ?_ trivial
    obtain ⟨after, hstep, htext⟩ := step_terminal h last
    refine ⟨[after.1], by rw [stream, hstep]; rfl, ?_⟩
    simpa [tokens] using htext
  | cons call calls ih =>
    rcases step_cases h hrevises call with ⟨hnot, after, hstep, hadvanced, hsends⟩ | ⟨hrecedes, message, hstep⟩
    · have hrest := ih hsends (hadvanced.decoder.symm ▸ hrevises)
      rw [hadvanced.decoder, hadvanced.tokenIds, hadvanced.emittedText] at hrest
      have hsteady : s.Steady (call :: calls) ↔ after.2.Steady calls :=
        ⟨fun h => h.2 after hstep, fun h => ⟨hnot, fun next hnext => by cases hstep.symm.trans hnext; exact h⟩⟩
      have hstream : s.stream last (call :: calls) = (after.2.stream last calls).map (after.1 :: ·) := by
        rw [stream, hstep]
        show (do let deltas ← after.2.stream last calls; pure (after.1 :: deltas)) = _
        cases after.2.stream last calls <;> rfl
      rw [hsteady, ← hrest, hstream]
      cases after.2.stream last calls with
      | error message => simp [Except.map]
      | ok deltas => simp [Except.map, tokens, List.append_assoc]
    · refine iff_of_false ?_ fun hsteady => hsteady.1 hrecedes
      rintro ⟨deltas, hstream, -⟩
      rw [stream, hstep] at hstream
      cases hstream

end Run

end ExactTextStreamState

/-! ### `make_token_text_stream_output_builder` -/

/-- `req_output.data`: no token, a token, or what `int` does not read. -/
inductive TokenData (κ : Type) where
  | none
  | token (tokenId : κ)
  | unreadable

structure BuildCall (κ τ : Type) where
  hasReq : Bool := true
  inflightMiddleChunks : ℕ := 0
  /-- The `stream` parameter of the stage payload, if it has one. -/
  stream : Option Bool := some true
  finished : Bool
  data : TokenData κ
  now : τ

structure PendingText (κ τ : Type) where
  pendingIds : Option (List κ) := none
  lastEmit : Option τ := none

structure StreamMessage (κ : Type) where
  text : Text
  tokenId : Option κ

structure StreamOutputBuilder (κ τ : Type) where
  decodeFn : List κ → Text
  eosTokenId : Option κ
  minEmitIntervalS : τ
  allowTerminalFlush : Bool
  emitTrailingReplacementOnTerminal : Bool

def BuildCall.admitted (call : BuildCall κ τ) : Bool :=
  call.hasReq && call.inflightMiddleChunks == 0 && call.stream == some true

def TokenData.tokenId : TokenData κ → Option κ
  | .token tokenId => some tokenId
  | _ => .none

namespace StreamOutputBuilder

variable [DecidableEq κ] (b : StreamOutputBuilder κ τ)

def isEos (tokenId : Option κ) : Bool := tokenId.isSome && tokenId == b.eosTokenId

def kept (tokenId : Option κ) : List κ := if b.isEos tokenId then [] else tokenId.toList

/-- The tokens of the calls that are admitted, less the end of the sequence. -/
def nonEosTokens (calls : List (BuildCall κ τ)) : List κ :=
  (calls.filter BuildCall.admitted).flatMap fun call => b.kept call.data.tokenId

theorem nonEosTokens_cons (call : BuildCall κ τ) (calls : List (BuildCall κ τ)) :
    b.nonEosTokens (call :: calls) = b.nonEosTokens [call] ++ b.nonEosTokens calls := by
  simp only [nonEosTokens, ← List.flatMap_append, ← List.filter_append, List.singleton_append]

variable [Zero τ] [Sub τ] [LT τ] [DecidableLT τ]

/-- The body of `_build_stream_output` from the tokens that wait on. -/
def emit (req : PendingText κ τ) (tokenId : Option κ) (isTerminal : Bool) (now : τ) :
    List (StreamMessage κ) × PendingText κ τ :=
  let pending := req.pendingIds.getD [] ++ b.kept tokenId
  let req := { req with pendingIds := some pending }
  if pending.isEmpty then ([], req)
  else
    let lastEmit := req.lastEmit.getD 0
    if !b.isEos tokenId && !isTerminal && decide (0 < b.minEmitIntervalS) && decide (0 < lastEmit)
        && decide (now - lastEmit < b.minEmitIntervalS) then ([], req)
    else
      let delta := b.decodeFn pending
      if delta.getLast? == some replacement && !(isTerminal && b.emitTrailingReplacementOnTerminal) then ([], req)
      else
        let req := { req with pendingIds := some [] }
        if delta.isEmpty then ([], req) else ([⟨delta, tokenId⟩], { req with lastEmit := some now })

def buildStreamOutput (req : PendingText κ τ) (call : BuildCall κ τ) : List (StreamMessage κ) × PendingText κ τ :=
  if !call.admitted then ([], req)
  else
    let isTerminal := b.allowTerminalFlush && call.finished
    match call.data with
    | .token tokenId => b.emit req (some tokenId) isTerminal call.now
    | .none => if isTerminal then b.emit req none isTerminal call.now else ([], req)
    | .unreadable => ([], req)

def streamed (req : PendingText κ τ) : List (BuildCall κ τ) → Text
  | [] => []
  | call :: calls =>
    let (messages, req) := b.buildStreamOutput req call
    messages.flatMap StreamMessage.text ++ streamed req calls

theorem emit_cases (req : PendingText κ τ) (tokenId : Option κ) (isTerminal : Bool) (now : τ) :
    ((b.emit req tokenId isTerminal now).1 = [] ∧
        (b.emit req tokenId isTerminal now).2.pendingIds = some (req.pendingIds.getD [] ++ b.kept tokenId) ∧
        (isTerminal = true → b.emitTrailingReplacementOnTerminal = true →
          req.pendingIds.getD [] ++ b.kept tokenId = [])) ∨
      ((b.emit req tokenId isTerminal now).1.flatMap StreamMessage.text =
          b.decodeFn (req.pendingIds.getD [] ++ b.kept tokenId) ∧
        (b.emit req tokenId isTerminal now).2.pendingIds = some [] ∧
        (isTerminal = false →
          (b.decodeFn (req.pendingIds.getD [] ++ b.kept tokenId)).getLast? ≠ some replacement)) := by
  rw [emit]
  generalize req.pendingIds.getD [] ++ b.kept tokenId = pending
  dsimp only
  split
  · next hempty => exact .inl ⟨rfl, rfl, fun _ _ => List.isEmpty_iff.mp hempty⟩
  split
  · next hthrottled => exact .inl ⟨rfl, rfl, fun hterminal _ => by simp [hterminal] at hthrottled⟩
  split
  · next hheld => exact .inl ⟨rfl, rfl, fun hterminal htrailing => by simp [hterminal, htrailing] at hheld⟩
  · next hsent =>
    refine .inr ⟨?_, ?_, fun hterminal hlast => ?_⟩
    · split
      · next hempty => rw [List.isEmpty_iff.mp hempty]; rfl
      · exact List.flatMap_singleton StreamMessage.text _
    · split <;> rfl
    · simp [hterminal, hlast] at hsent

/-- What was sent is the text of the tokens that no longer wait, and it is settled. -/
def Sent (req : PendingText κ τ) (taken : List κ) (text : Text) : Prop :=
  ∃ cleared, taken = cleared ++ req.pendingIds.getD [] ∧ text = b.decodeFn cleared ∧
    ∀ more, b.decodeFn (cleared ++ more) = b.decodeFn cleared ++ b.decodeFn more

variable {b} {req : PendingText κ τ} {taken : List κ} {text : Text}

theorem Sent.emit (h : b.Sent req taken text) (hsplits : Splits b.decodeFn) (tokenId : Option κ) (now : τ) :
    b.Sent (b.emit req tokenId false now).2 (taken ++ b.kept tokenId)
      (text ++ (b.emit req tokenId false now).1.flatMap StreamMessage.text) := by
  obtain ⟨cleared, rfl, rfl, hcleared⟩ := h
  rcases b.emit_cases req tokenId false now with ⟨hnone, hpending, -⟩ | ⟨htext, hpending, hlast⟩
  · refine ⟨cleared, ?_, by rw [hnone]; exact List.append_nil _, hcleared⟩
    rw [hpending, Option.getD_some, List.append_assoc]
  · refine ⟨cleared ++ (req.pendingIds.getD [] ++ b.kept tokenId), ?_, ?_, fun more => ?_⟩
    · rw [hpending, Option.getD_some, List.append_nil, List.append_assoc]
    · rw [htext, hcleared]
    · rw [List.append_assoc, hcleared, hcleared, hsplits _ more (.inr (hlast rfl)), List.append_assoc]

theorem Sent.emit_terminal (h : b.Sent req taken text) (htrailing : b.emitTrailingReplacementOnTerminal = true)
    (tokenId : Option κ) (now : τ) :
    text ++ (b.emit req tokenId true now).1.flatMap StreamMessage.text = b.decodeFn (taken ++ b.kept tokenId) := by
  obtain ⟨cleared, rfl, rfl, hcleared⟩ := h
  rw [List.append_assoc, hcleared]
  rcases b.emit_cases req tokenId true now with ⟨hnone, -, hempty⟩ | ⟨htext, -, -⟩
  · have hnil := hcleared []
    rw [List.append_nil] at hnil
    rw [hnone, hempty rfl htrailing, ← hnil]
    exact List.append_nil _
  · rw [htext]

theorem Sent.buildStreamOutput (h : b.Sent req taken text) (hsplits : Splits b.decodeFn) {call : BuildCall κ τ}
    (hgoing : call.admitted = true → call.finished = false) :
    b.Sent (b.buildStreamOutput req call).2 (taken ++ b.nonEosTokens [call])
      (text ++ (b.buildStreamOutput req call).1.flatMap StreamMessage.text) := by
  have hkeep : b.kept call.data.tokenId = [] → b.Sent req (taken ++ b.nonEosTokens [call]) (text ++ []) := by
    intro hkept
    have hnone : b.nonEosTokens [call] = [] := by
      cases hadmitted : call.admitted <;> simp [nonEosTokens, hadmitted, hkept]
    rwa [hnone, List.append_nil, List.append_nil]
  rw [StreamOutputBuilder.buildStreamOutput]
  cases hadmitted : call.admitted with
  | false =>
    have hnone : b.nonEosTokens [call] = [] := by simp [nonEosTokens, hadmitted]
    rw [hnone, List.append_nil]
    exact (List.append_nil text).symm ▸ h
  | true =>
    have hterminal : (b.allowTerminalFlush && call.finished) = false := by rw [hgoing hadmitted, Bool.and_false]
    simp only [hterminal, Bool.not_true, Bool.false_eq_true, if_false]
    have htokens : b.nonEosTokens [call] = b.kept call.data.tokenId := by simp [nonEosTokens, hadmitted]
    cases hdata : call.data with
    | none => exact hkeep (by rw [hdata]; rfl)
    | unreadable => exact hkeep (by rw [hdata]; rfl)
    | token tokenId =>
      rw [htokens, hdata]
      exact h.emit hsplits (some tokenId) call.now

theorem Sent.buildStreamOutput_terminal (h : b.Sent req taken text) (hflush : b.allowTerminalFlush = true)
    (htrailing : b.emitTrailingReplacementOnTerminal = true) {call : BuildCall κ τ} (hadmitted : call.admitted = true)
    (hfinished : call.finished = true) (hdata : call.data ≠ .unreadable) :
    text ++ (b.buildStreamOutput req call).1.flatMap StreamMessage.text =
      b.decodeFn (taken ++ b.nonEosTokens [call]) := by
  have hterminal : (b.allowTerminalFlush && call.finished) = true := by rw [hflush, hfinished]; rfl
  have htokens : b.nonEosTokens [call] = b.kept call.data.tokenId := by simp [nonEosTokens, hadmitted]
  rw [StreamOutputBuilder.buildStreamOutput, htokens]
  simp only [hadmitted, hterminal, Bool.not_true, Bool.false_eq_true, if_false, if_true]
  cases hcase : call.data with
  | none => exact h.emit_terminal htrailing none call.now
  | token tokenId => exact h.emit_terminal htrailing (some tokenId) call.now
  | unreadable => exact absurd hcase hdata

theorem Sent.streamed (h : b.Sent req taken text) (hsplits : Splits b.decodeFn) (hflush : b.allowTerminalFlush = true)
    (htrailing : b.emitTrailingReplacementOnTerminal = true) {calls : List (BuildCall κ τ)}
    (hgoing : ∀ call ∈ calls, call.admitted = true → call.finished = false) {last : BuildCall κ τ}
    (hadmitted : last.admitted = true) (hfinished : last.finished = true) (hdata : last.data ≠ .unreadable) :
    text ++ b.streamed req (calls ++ [last]) = b.decodeFn (taken ++ b.nonEosTokens (calls ++ [last])) := by
  induction calls generalizing req taken text with
  | nil =>
    rw [List.nil_append, ← h.buildStreamOutput_terminal hflush htrailing hadmitted hfinished hdata]
    exact congrArg (text ++ ·) (List.append_nil _)
  | cons call calls ih =>
    have hnext := h.buildStreamOutput hsplits (hgoing call (List.mem_cons_self ..))
    have hrest := ih hnext fun call hcall => hgoing call (List.mem_cons_of_mem _ hcall)
    rw [List.append_assoc, List.append_assoc, ← nonEosTokens_cons] at hrest
    exact hrest

end StreamOutputBuilder

/-- The exact stream raises nothing and has the stripped text of all its tokens exactly if no step meets
a text that recedes; the builder's stream has the text of all tokens once the terminal step is built. -/
theorem streams_iff_steady [DecidableEq κ] [Zero τ] [Sub τ] [LT τ] [DecidableLT τ] {decoder : List κ → Text}
    (hrevises : Revises decoder) (intervalSeconds : τ) (calls : List (StepCall κ τ)) (last : StepCall κ τ)
    (b : StreamOutputBuilder κ τ) (hsplits : Splits b.decodeFn) (hflush : b.allowTerminalFlush = true)
    (htrailing : b.emitTrailingReplacementOnTerminal = true) (builds : List (BuildCall κ τ))
    (hgoing : ∀ call ∈ builds, call.admitted = true → call.finished = false) (terminal : BuildCall κ τ)
    (hadmitted : terminal.admitted = true) (hfinished : terminal.finished = true)
    (hdata : terminal.data ≠ .unreadable) :
    let start : ExactTextStreamState κ τ := { decoder, intervalSeconds, lastEmitSeconds := 0 }
    ((∃ deltas, start.stream last calls = .ok deltas ∧
        deltas.flatten = strip (decoder (ExactTextStreamState.tokens (calls ++ [last])))) ↔ start.Steady calls) ∧
      b.streamed {} (builds ++ [terminal]) = b.decodeFn (b.nonEosTokens (builds ++ [terminal])) := by
  refine ⟨?_, ?_⟩
  · exact ExactTextStreamState.stream_iff ⟨rfl, fun more => List.nil_prefix⟩ hrevises calls last
  · have hnil : b.decodeFn [] = [] := by
      have h := hsplits [] [] (.inl rfl)
      rwa [List.append_nil, List.self_eq_append_right] at h
    have hsent : b.Sent {} [] [] := ⟨[], rfl, hnil.symm, fun more => hsplits [] more (.inl rfl)⟩
    exact hsent.streamed hsplits hflush htrailing hgoing hadmitted hfinished hdata

theorem streams_iff_steady_characters :
    let start : ExactTextStreamState Char ℤ := { decoder := id, intervalSeconds := 2, lastEmitSeconds := 0 }
    let b : StreamOutputBuilder Char ℤ := ⟨id, some '.', 2, true, true⟩
    let builds : List (BuildCall Char ℤ) := [{ finished := false, data := .token 'a', now := 1 }]
    let terminal : BuildCall Char ℤ := { finished := true, data := .token '.', now := 2 }
    ((∃ deltas, start.stream ⟨none, 3⟩ [⟨some 'a', 1⟩, ⟨some 'b', 2⟩] = .ok deltas ∧
        deltas.flatten = strip (id (ExactTextStreamState.tokens [⟨some 'a', 1⟩, ⟨some 'b', 2⟩, ⟨none, (3 : ℤ)⟩]))) ↔
      start.Steady [⟨some 'a', 1⟩, ⟨some 'b', 2⟩]) ∧
      b.streamed {} (builds ++ [terminal]) = b.decodeFn (b.nonEosTokens (builds ++ [terminal])) :=
  streams_iff_steady (show Revises (id : Text → Text) from fun tokens more =>
      (List.rdropWhile_prefix _ tokens).trans (List.prefix_append tokens more)) (2 : ℤ)
    [⟨some 'a', 1⟩, ⟨some 'b', 2⟩] ⟨none, 3⟩ ⟨id, some '.', 2, true, true⟩ (fun _ _ _ => rfl) rfl rfl
    [{ finished := false, data := .token 'a', now := 1 }] (fun call hcall _ => by cases hcall with
      | head => rfl
      | tail _ h => cases h)
    { finished := true, data := .token '.', now := 2 } rfl rfl nofun

/-- The text of two tokens, the first of which ends inside the three bytes of an ideographic space. -/
def decodeIdeographicSpace : List ℕ → Text
  | [] => []
  | [_] => ['a', replacement, ' ', replacement]
  | _ => ['a', replacement, ' ', '\u3000']

/-- The stripped text of a later step is shorter than what an earlier one sent, and the step raises. -/
theorem step_raises_at_replacement :
    Revises decodeIdeographicSpace ∧
      ({ decoder := decodeIdeographicSpace, intervalSeconds := 0, lastEmitSeconds := 0 } :
          ExactTextStreamState ℕ ℤ).stream ⟨none, 3⟩ [⟨some 0, 1⟩, ⟨some 1, 2⟩] =
        .error "Incremental ASR decoding changed an emitted prefix" := by
  refine ⟨fun tokens more => ?_, by rfl⟩
  match tokens, more with
  | [], _ => exact List.nil_prefix
  | [_], [] => exact List.rdropWhile_prefix _ _
  | [_], _ :: _ => exact ⟨['\u3000'], rfl⟩
  | _ :: _ :: _, _ => exact List.rdropWhile_prefix _ _

end TextStreaming
