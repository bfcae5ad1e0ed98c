import Mathlib.Algebra.GroupWithZero.Nat
import Mathlib.Algebra.Order.Ring.Rat
import SglangOmni.Lib.Machine

/-! The input side of a `SessionRuntime`: the commands of the client, the pump that cuts the pending
audio into units for the adapter, and the start of a close.  The commands and the pump's cut run under
`command_lock`; only `clear` suspends while it holds the lock.  What the adapter does is left open: it
takes any time and consumes any part of a unit, or raises.  Whether an event fits the output buffer is
left open too; a command that finds no room raises, and its caller fails the session in the same step.
The fields after `isCloseRunning` are history. -/

namespace Realtime

open Lib

def bytesPerSample : Nat := 2

inductive TailPolicy
  | flush
  | pad
  | reject
  deriving DecidableEq

/-- The part of `Capabilities`, of the granted capabilities and of `RuntimeLimits` that the input side
reads.  A session forwards partial units when its interaction is turn based. -/
structure Config where
  inputSampleRateHz : Nat
  nativeUnitMs : Nat
  rate_pos : 0 < inputSampleRateHz
  unit_pos : 0 < nativeUnitMs
  whole_samples : inputSampleRateHz * nativeUnitMs % 1000 = 0
  forwardsPartialUnits : Bool
  tailPolicy : TailPolicy
  hasImageInput : Bool
  maxImageBytes : Nat
  maxFramesPerUnit : Nat
  clientCommit : Bool
  maxInputBytes : Nat

namespace Config

variable (cfg : Config)

def nativeUnitSamples : Nat := cfg.inputSampleRateHz * cfg.nativeUnitMs / 1000

def nativeUnitBytes : Nat := cfg.nativeUnitSamples * bytesPerSample

def inputDurationMs (samples : Nat) : ℚ := samples * 1000 / cfg.inputSampleRateHz

end Config

/-- An image on its way to a unit.  `number` is history: its place among the accepted images. -/
structure Frame where
  tMs : ℚ
  image : List UInt8
  number : Nat

/-- `Unit`, less the modalities of its outputs and its profiler observation. -/
structure MediaUnit where
  index : Nat
  startSample : Nat
  pcm : List UInt8
  realSamples : Nat
  eos : Bool := false
  images : List Frame := []

/-- What became of a range of the accepted samples: a unit of the adapter, or cleared. -/
inductive Taken
  | unit (u : MediaUnit)
  | cleared (start count : Nat)

namespace Taken

def start : Taken → Nat
  | .unit u => u.startSample
  | .cleared start _ => start

def count : Taken → Nat
  | .unit u => u.realSamples
  | .cleared _ count => count

def unit? : Taken → Option MediaUnit
  | .unit u => some u
  | .cleared _ _ => none

end Taken

inductive Phase
  | isOpen
  | closing
  deriving DecidableEq

/-- Where the pump is suspended: it waits for input, the adapter processes a unit or a commit, or it
returned. -/
inductive Pump
  | waiting
  | processing (unit : MediaUnit) (receipt : Option MediaUnit)
  | committing
  | returned

structure DrainReport where
  accepted : Nat
  consumed : Nat
  discarded : Nat
  padding : Nat

/-- The input side of `SessionRuntime`.  `clearing` is the `clear` that holds the lock, with the pending
samples that it counted. -/
structure State where
  phase : Phase := .isOpen
  nextAppendSequence : Nat := 0
  acceptedSamples : Nat := 0
  consumedSamples : Nat := 0
  discardedSamples : Nat := 0
  paddingSamples : Nat := 0
  pendingPcm : List UInt8 := []
  pendingCommits : Nat := 0
  pendingFrames : Nat → List Frame := fun _ => []
  nextUnitIndex : Nat := 0
  openUnitSamples : Nat := 0
  openUnitStartSample : Nat := 0
  clearedUnitReceipt : Option MediaUnit := none
  isInputEnded : Bool := false
  inputReady : Bool := false
  isUnitInFlight : Bool := false
  pump : Pump := .waiting
  clearing : Option Nat := none
  hasCloseTask : Bool := false
  isCloseRunning : Bool := false
  /-- An exception has reached `fail`. -/
  hasFailed : Bool := false
  /-- The bytes of every accepted append. -/
  stream : List UInt8 := []
  taken : List Taken := []
  /-- The receipts put on the output buffer as `UnitCompleted`. -/
  completed : List MediaUnit := []
  drained : Option DrainReport := none
  /-- The samples accepted before each accepted commit, and those handed over before each call of
  `adapter.commit`. -/
  commits : List Nat := []
  commitCalls : List Nat := []
  /-- The accepted images with the unit that their `ImageAccepted` named, and those of them that a clear
  dropped. -/
  acceptedImages : List (Nat × Frame) := []
  droppedImages : List (Nat × Frame) := []

namespace State

variable (cfg : Config) (s : State)

def pendingSamples : Nat := s.pendingPcm.length / bytesPerSample

def uncutUnitBytes : Nat := s.openUnitSamples * bytesPerSample + s.pendingPcm.length

def handed : List MediaUnit := s.taken.filterMap Taken.unit?

def handedSamples : Nat := (s.handed.map MediaUnit.realSamples).sum

def fail : State := { s with hasCloseTask := true, hasFailed := true }

/-- The lock is free and the session is `OPEN`. -/
def takesCommands : Bool := s.clearing.isNone && s.phase = .isOpen

/-! ### Commands -/

/-- Whether `append` refuses a chunk of an open session. -/
def refusesAppend (pcm : List UInt8) (sequence : Nat) (tStartMs : Option ℚ) : Bool :=
  let buffered : Int := s.acceptedSamples - s.consumedSamples - s.discardedSamples
  s.isInputEnded || sequence ≠ s.nextAppendSequence || pcm.isEmpty ||
    pcm.length % bytesPerSample ≠ 0 ||
    tStartMs.any (fun t => 1 / 10000000 < |t - cfg.inputDurationMs s.acceptedSamples|) ||
    cfg.maxInputBytes < buffered * bytesPerSample + pcm.length

/-- `append`: nothing where it refuses the chunk. -/
def append (pcm : List UInt8) (sequence : Nat) (tStartMs : Option ℚ) (fits : Bool) : Option State :=
  if ¬ s.takesCommands ∨ s.refusesAppend cfg pcm sequence tStartMs then none
  else
    let s := { s with
      pendingPcm := s.pendingPcm ++ pcm
      acceptedSamples := s.acceptedSamples + pcm.length / bytesPerSample
      nextAppendSequence := s.nextAppendSequence + 1
      stream := s.stream ++ pcm }
    some (if fits then { s with inputReady := true } else s.fail)

def unitOffset (tMs : ℚ) : Int :=
  let pendingStartMs := cfg.inputDurationMs
    (s.acceptedSamples - s.pendingSamples - s.openUnitSamples)
  ((tMs - pendingStartMs) / cfg.nativeUnitMs).floor

/-- `append_image` on JPEG or PNG bytes, of the unit `offset` after the next one. -/
def acceptsImage (image : List UInt8) (offset : Int) : Bool :=
  let pendingUnits := (s.uncutUnitBytes + cfg.nativeUnitBytes - 1) / cfg.nativeUnitBytes
  cfg.hasImageInput && !s.isInputEnded && image.length ≤ cfg.maxImageBytes &&
    (image.take 2 = [0xff, 0xd8] || image.take 4 = [0x89, 0x50, 0x4e, 0x47]) && 0 ≤ offset &&
    (s.pendingFrames (s.nextUnitIndex + offset.toNat)).length < cfg.maxFramesPerUnit &&
    offset ≤ pendingUnits + 2

/-- `append_image`: nothing where it refuses the image. -/
def appendImage (image : List UInt8) (tMs : ℚ) (fits : Bool) : Option State :=
  let offset := s.unitOffset cfg tMs
  let unitIndex := s.nextUnitIndex + offset.toNat
  if ¬ s.takesCommands ∨ ¬ s.acceptsImage cfg image offset then none
  else
    let frame : Frame := { tMs := tMs, image := image, number := s.acceptedImages.length }
    let s := { s with
      pendingFrames := Function.update s.pendingFrames unitIndex
        (s.pendingFrames unitIndex ++ [frame])
      acceptedImages := s.acceptedImages ++ [(unitIndex, frame)] }
    some (if fits then s else s.fail)

/-- `clear` up to its call of `adapter.clear`. -/
def clearStarts : Option State :=
  if s.takesCommands then some { s with clearing := some s.pendingSamples } else none

def waitingImages : List (Nat × Frame) :=
  s.acceptedImages.filter fun (unitIndex, frame) =>
    (s.pendingFrames unitIndex).any fun waiting => waiting.number = frame.number

def dropPending : State :=
  { s with
    pendingPcm := []
    pendingFrames := fun _ => []
    clearing := none
    taken := s.taken ++ [Taken.cleared (s.acceptedSamples - s.pendingSamples) s.pendingSamples]
    droppedImages := s.droppedImages ++ s.waitingImages }

def openReceipt : MediaUnit where
  index := s.nextUnitIndex
  startSample := s.openUnitStartSample
  pcm := []
  realSamples := s.openUnitSamples

/-- A clear ends the unit of which some audio was handed over; its receipt waits for the adapter, or is
put on the output buffer, which may raise. -/
def endOpenUnit (fits : Bool) : State × Bool :=
  if s.openUnitSamples = 0 then (s, true)
  else
    let receipt := s.openReceipt
    let s := { s with nextUnitIndex := s.nextUnitIndex + 1, openUnitSamples := 0 }
    if s.isUnitInFlight then ({ s with clearedUnitReceipt := some receipt }, true)
    else if fits then ({ s with completed := s.completed ++ [receipt] }, true)
    else (s, false)

/-- `clear` after `adapter.clear` returned 0. -/
def clearEnds (receiptFits fits : Bool) : Option State :=
  match s.clearing with
  | none => none
  | some clearedSamples =>
    match s.dropPending.endOpenUnit receiptFits with
    | (s, false) => some s.fail
    | (s, true) =>
      let s := { s with discardedSamples := s.discardedSamples + clearedSamples }
      some (if fits then s else s.fail)

def commit : Option State :=
  if ¬ s.takesCommands ∨ ¬ cfg.clientCommit ∨ s.isInputEnded then none
  else
    some { s with
      pendingCommits := s.pendingCommits + 1
      inputReady := true
      commits := s.commits ++ [s.acceptedSamples] }

def endInput (fits : Bool) : Option State :=
  if ¬ s.takesCommands ∨ s.isInputEnded ∨
      (cfg.tailPolicy = .reject ∧ s.uncutUnitBytes % cfg.nativeUnitBytes ≠ 0) then none
  else
    let s := { s with isInputEnded := true }
    some (if fits then { s with inputReady := true } else s.fail)

/-! ### The pump -/

def unitPcmBytes : Nat :=
  min (cfg.nativeUnitBytes - s.openUnitSamples * bytesPerSample) s.pendingPcm.length

def pads : Bool :=
  s.unitPcmBytes cfg / bytesPerSample ≠ 0 && s.unitPcmBytes cfg < cfg.nativeUnitBytes &&
    cfg.tailPolicy = .pad

def paddingBytes : Nat :=
  if s.pads cfg then cfg.nativeUnitBytes - s.unitPcmBytes cfg else 0

def nextUnit : MediaUnit where
  index := s.nextUnitIndex
  startSample := s.acceptedSamples - s.pendingSamples
  pcm := s.pendingPcm.take (s.unitPcmBytes cfg) ++ List.replicate (s.paddingBytes cfg) 0
  realSamples := s.unitPcmBytes cfg / bytesPerSample
  eos := s.isInputEnded && (s.pendingPcm.drop (s.unitPcmBytes cfg)).isEmpty
  images := (s.pendingFrames s.nextUnitIndex).mergeSort fun f g => f.tMs ≤ g.tMs

def unitStartSample : Nat :=
  if s.openUnitSamples ≠ 0 then s.openUnitStartSample else s.acceptedSamples - s.pendingSamples

def unitSamples : Nat := s.openUnitSamples + (s.nextUnit cfg).realSamples

def endsUnit : Bool :=
  !cfg.forwardsPartialUnits || s.unitSamples cfg * bytesPerSample = cfg.nativeUnitBytes ||
    (s.nextUnit cfg).eos ||
    (0 < s.pendingCommits && (s.pendingPcm.drop (s.unitPcmBytes cfg)).isEmpty)

def nextReceipt : MediaUnit :=
  { s.nextUnit cfg with startSample := s.unitStartSample, realSamples := s.unitSamples cfg }

def cutNextUnit : State :=
  let unit := s.nextUnit cfg
  let cut := { s with
    pendingPcm := s.pendingPcm.drop (s.unitPcmBytes cfg)
    paddingSamples := s.paddingSamples + s.paddingBytes cfg / bytesPerSample
    pendingFrames := Function.update s.pendingFrames s.nextUnitIndex []
    taken := s.taken ++ [Taken.unit unit]
    isUnitInFlight := true }
  if s.endsUnit cfg then
    { cut with
      nextUnitIndex := s.nextUnitIndex + 1
      openUnitSamples := 0
      pump := .processing unit (some (s.nextReceipt cfg)) }
  else
    { cut with
      openUnitStartSample := s.unitStartSample
      openUnitSamples := s.unitSamples cfg
      pump := .processing unit none }

def pumpIdles : Bool :=
  !s.isInputEnded && s.pendingCommits = 0 &&
    if cfg.forwardsPartialUnits then s.pendingPcm.isEmpty
    else s.pendingPcm.length < cfg.nativeUnitBytes

def callCommit : State :=
  { s with
    pendingCommits := s.pendingCommits - 1
    isUnitInFlight := true
    pump := .committing
    commitCalls := s.commitCalls ++ [s.handedSamples] }

def pumpTurn : Option State :=
  match s.pump with
  | .waiting =>
    if ¬ s.inputReady ∨ s.clearing.isSome then none
    else
      let s := { s with inputReady := false }
      some (
        if s.phase ≠ .isOpen then { s with pump := .returned }
        else if s.pumpIdles cfg then s
        else if s.pendingPcm.isEmpty && 0 < s.pendingCommits && s.openUnitSamples = 0 then
          s.callCommit
        else s.cutNextUnit cfg)
  | _ => none

def pumpFails : State := { s.fail with pump := .returned }

/-- The receipt that is put on the output buffer once the adapter took a piece. -/
def dueReceipt (receipt : Option MediaUnit) : Option MediaUnit :=
  if s.hasCloseTask then none else receipt.or s.clearedUnitReceipt

def afterUnit (unit : MediaUnit) (fits : Bool) : State :=
  if ¬ unit.eos then { s with inputReady := true, pump := .waiting }
  else if s.hasCloseTask then { s with pump := .returned }
  else if ¬ fits then s.pumpFails
  else
    { s with
      pump := .returned
      drained := some {
        accepted := s.acceptedSamples
        consumed := s.consumedSamples
        discarded := s.discardedSamples
        padding := s.paddingSamples } }

/-- `adapter.process` returns the samples that it consumed. -/
def processReturns (consumed : Nat) (receiptFits fits : Bool) : Option State :=
  match s.pump with
  | .processing unit receipt =>
    if unit.realSamples < consumed then none
    else
      let s := { s with isUnitInFlight := false }
      some (
        if s.acceptedSamples < s.consumedSamples + s.discardedSamples + unit.realSamples then
          s.pumpFails
        else
          let s := { s with
            consumedSamples := s.consumedSamples + consumed
            discardedSamples := s.discardedSamples + (unit.realSamples - consumed) }
          let due := s.dueReceipt receipt
          if due.isSome ∧ ¬ receiptFits then s.pumpFails
          else
            { s with
              completed := s.completed ++ due.toList
              clearedUnitReceipt := none }.afterUnit unit fits)
  | _ => none

def commitReturns : Option State :=
  match s.pump with
  | .committing => some { s with isUnitInFlight := false, inputReady := true, pump := .waiting }
  | _ => none

def adapterRaises : Option State :=
  match s.pump with
  | .processing _ _ | .committing => some { s.pumpFails with isUnitInFlight := false }
  | _ => none

/-! ### Closing -/

def expire : Option State :=
  if s.takesCommands ∧ ¬ s.isUnitInFlight then some { s.fail with phase := .closing } else none

/-- `run_close` up to the close of the adapter. -/
def closeRuns : Option State :=
  if ¬ s.hasCloseTask ∨ s.clearing.isSome ∨ s.isCloseRunning then none
  else
    some { s with
      phase := .closing
      pendingFrames := fun _ => []
      discardedSamples := s.discardedSamples + s.pendingSamples
      pendingPcm := []
      inputReady := true
      isCloseRunning := true }

def pumpCancelled : Option State :=
  if s.isCloseRunning ∧ s.phase = .closing then
    some { s with pump := .returned, isUnitInFlight := false }
  else none

end State

inductive Action
  | append (pcm : List UInt8) (sequence : Nat) (tStartMs : Option ℚ) (fits : Bool)
  | appendImage (image : List UInt8) (tMs : ℚ) (fits : Bool)
  | clearStarts
  | clearEnds (receiptFits fits : Bool)
  | clearRaises
  | commit
  | endInput (fits : Bool)
  | pumpTurn
  | processReturns (consumed : Nat) (receiptFits fits : Bool)
  | commitReturns
  | adapterRaises
  | fail
  | close
  | expire
  | closeRuns
  | pumpCancelled

def State.step (cfg : Config) (s : State) : Action → Option State
  | .append pcm sequence tStartMs fits => s.append cfg pcm sequence tStartMs fits
  | .appendImage image tMs fits => s.appendImage cfg image tMs fits
  | .clearStarts => s.clearStarts
  | .clearEnds receiptFits fits => s.clearEnds receiptFits fits
  | .clearRaises => if s.clearing.isSome then some { s.fail with clearing := none } else none
  | .commit => s.commit cfg
  | .endInput fits => s.endInput cfg fits
  | .pumpTurn => s.pumpTurn cfg
  | .processReturns consumed receiptFits fits => s.processReturns consumed receiptFits fits
  | .commitReturns => s.commitReturns
  | .adapterRaises => s.adapterRaises
  | .fail => some s.fail
  | .close => some { s with hasCloseTask := true }
  | .expire => s.expire
  | .closeRuns => s.closeRuns
  | .pumpCancelled => s.pumpCancelled

/-- An open session, from the moment it is `OPEN`. -/
def runtime (cfg : Config) : Machine State Action where
  init := {}
  step := State.step cfg

/-- The session is `OPEN` and nothing has failed. -/
def State.isOpen (s : State) : Bool := s.phase = .isOpen && !s.hasFailed

end Realtime
