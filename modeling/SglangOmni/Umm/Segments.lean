import Mathlib.Data.Rat.Defs
import Mathlib.Data.List.Basic

/-! The outputs of an interleaved (UMM) request: the controller numbers each accepted one as a segment,
publishes it where the request streams, and lists it in the final result. -/

namespace Umm

inductive Json where
  | null
  | bool (b : Bool)
  | int (n : Int)
  | float (x : ℚ)
  | str (s : String)
  | array (items : List Json)
  | object (fields : List (String × Json))

namespace Json

def isTrue : Json → Bool
  | null => false
  | bool b => b
  | int n => n != 0
  | float x => x != 0
  | str s => s != ""
  | array items => !items.isEmpty
  | object fields => !fields.isEmpty

def isStr : Json → Bool
  | str _ => true
  | _ => false

def isNull : Json → Bool
  | null => true
  | _ => false

end Json

abbrev Fields := List (String × Json)

structure Output where
  kind : String
  data : Json

/-- An accepted output as a step adds it to the outputs of the request. -/
def segment (executionId : String) (segmentIndex : Nat) (output : Output) : Fields :=
  [("type", .str "segment"), ("execution_id", .str executionId),
    ("segment_index", .int segmentIndex), ("kind", .str output.kind), ("data", output.data)]

def withoutData (fields : Fields) : Fields := fields.filter fun field => field.1 != "data"

structure Outputs where
  executionId : String
  isStreamed : Bool
  outputs : List Fields := []

namespace Outputs

variable (c : Outputs)

/-- `added`: the outputs of a step as segments, numbered on. -/
def added (step : List Output) : List Fields :=
  (step.zipIdx c.outputs.length).map fun (output, index) => segment c.executionId index output

/-- `apply` of a step that is accepted, as far as it concerns the outputs. -/
def extend (step : List Output) : Outputs := { c with outputs := c.outputs ++ c.added step }

def result : Fields :=
  [("type", .str "umm_result"), ("execution_id", .str c.executionId),
    ("segments", .array (c.outputs.map fun fields =>
      .object (if c.isStreamed then withoutData fields else fields))),
    ("finish_reason", .str "stop")]

/-- The steps of a request to its completion: what the controller publishes on the way, which the output
stage relays in order, and the final payload. -/
def publish (c : Outputs) : List (List Output) → List Fields × Fields
  | [] => ([], c.result)
  | step :: steps =>
    let (segments, final) := (c.extend step).publish steps
    ((if c.isStreamed then c.added step else []) ++ segments, final)

end Outputs

def Outputs.start (executionId : String) (isStreamed : Bool) : Outputs := { executionId, isStreamed }

def segments (executionId : String) (outputs : List Output) : List Fields :=
  outputs.zipIdx.map fun (output, index) => segment executionId index output

theorem segments_append (executionId : String) (before after : List Output) :
    segments executionId (before ++ after)
      = segments executionId before
        ++ (after.zipIdx before.length).map fun (output, index) => segment executionId index output := by
  rw [segments, List.zipIdx_append, List.map_append, Nat.zero_add, ← segments]

theorem segments_length (executionId : String) (outputs : List Output) :
    (segments executionId outputs).length = outputs.length := by
  rw [segments, List.length_map, List.length_zipIdx]

theorem Outputs.extend_of_segments {c : Outputs} {before : List Output}
    (h : c.outputs = segments c.executionId before) (step : List Output) :
    (c.extend step).outputs = segments c.executionId (before ++ step) := by
  rw [extend, segments_append, h, added, h, segments_length]

theorem Outputs.publish_of_segments {c : Outputs} {before : List Output}
    (h : c.outputs = segments c.executionId before) (steps : List (List Output)) :
    c.outputs ++ (c.publish steps).1
        = (if c.isStreamed then segments c.executionId (before ++ steps.flatten) else c.outputs)
      ∧ (c.publish steps).2
        = { c with outputs := segments c.executionId (before ++ steps.flatten) }.result := by
  induction steps generalizing c before with
  | nil =>
    simp only [publish, List.append_nil, List.flatten_nil]
    refine ⟨?_, by rw [← h]⟩
    split
    · exact h
    · rfl
  | cons step steps ih =>
    obtain ⟨hsegments, hfinal⟩ := ih (c.extend_of_segments h step)
    have hid : (c.extend step).executionId = c.executionId := rfl
    have hstreamed : (c.extend step).isStreamed = c.isStreamed := rfl
    simp only [publish, List.flatten_cons, ← List.append_assoc]
    rw [hid, hstreamed] at hsegments
    refine ⟨?_, ?_⟩
    · cases hmode : c.isStreamed with
      | true =>
        rw [hmode] at hsegments
        simpa only [extend, if_true] using hsegments
      | false =>
        rw [hmode] at hsegments
        simpa using hsegments
    · exact hfinal

theorem Outputs.publish_start (executionId : String) (isStreamed : Bool) (steps : List (List Output)) :
    (Outputs.start executionId isStreamed).publish steps
      = (if isStreamed then segments executionId steps.flatten else [],
          { executionId, isStreamed, outputs := segments executionId steps.flatten : Outputs }.result) := by
  have hnone : (Outputs.start executionId isStreamed).outputs = segments executionId [] := rfl
  obtain ⟨hsegments, hfinal⟩ := publish_of_segments hnone steps
  exact Prod.ext hsegments hfinal

end Umm
