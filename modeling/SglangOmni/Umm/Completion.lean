import SglangOmni.Umm.Segments

/-! What the client makes of an interleaved (UMM) request: `Client.completion` reads the segments that
were streamed and the final result, and lists the segments with their data. -/

namespace Umm

inductive ClientError where
  | message
  | segment
  | finalResult
  | order
  | join
  | mismatch
  | noResponse
deriving DecidableEq

structure Segment where
  executionId : String
  segmentIndex : Nat
  kind : String
  data : Json := .null

def Fields.get (fields : Fields) (name : String) : Json := (fields.lookup name).getD .null

def segmentFields : List String := ["type", "execution_id", "segment_index", "kind", "data"]

/-- `UMMSegment.from_dict` of a dict -/
def Segment.fromFields (fields : Fields) : Except ClientError Segment :=
  match fields.get "type", fields.get "execution_id", fields.get "segment_index", fields.get "kind" with
  | .str "segment", .str executionId, .int segmentIndex, .str kind =>
    if (fields.all fun field => segmentFields.contains field.1) && decide (0 ≤ segmentIndex) then
      .ok ⟨executionId, segmentIndex.toNat, kind, fields.get "data"⟩
    else .error .segment
  | _, _, _, _ => .error .segment

def Segment.fromDict : Json → Except ClientError Segment
  | .object fields => fromFields fields
  | _ => .error .segment

/-- `UMMGenerateChunk`: what `completion` reads of it. -/
structure Chunk where
  text : Json
  segment : Option Segment := none
  segments : Option (List Segment) := none

/-- `umm_segment_chunk` -/
def segmentChunk (fields : Fields) : Except ClientError Chunk := do
  let segment ← Segment.fromFields fields
  return { text := if segment.kind = "text" then segment.data else .str "", segment := some segment }

def Segment.text (segment : Segment) : String :=
  match segment.data with
  | .str s => if segment.kind = "text" then s else ""
  | _ => ""

/-- `umm_result_chunk` -/
def resultChunk (fields : Fields) : Except ClientError Chunk :=
  match fields.get "segments", fields.get "execution_id" with
  | .array items, .str executionId => do
    let segments ← items.mapM Segment.fromDict
    if segments.zipIdx.any fun (segment, index) =>
        segment.executionId != executionId || segment.segmentIndex != index then
      throw .order
    return { text := .str (String.join (segments.map Segment.text)), segments := some segments }
  | _, _ => .error .finalResult

/-- `default_stream_builder` of a dict: nothing where the chunk is not one of a UMM request. -/
def streamBuilder (fields : Fields) : Except ClientError (Option Chunk) :=
  match fields.get "type" with
  | .str "segment" => some <$> segmentChunk fields
  | _ => .ok none

/-- `default_result_builder` of a dict: nothing where the chunk is not one of a UMM request. -/
def resultBuilder (fields : Fields) : Except ClientError (Option Chunk) :=
  match fields.get "type" with
  | .str "umm_result" => some <$> resultChunk fields
  | _ => .ok none

def Segment.key (segment : Segment) : String × Nat × String :=
  (segment.executionId, segment.segmentIndex, segment.kind)

def completedSegments (final : List Segment) (streamed : Option (List Segment)) :
    Except ClientError (List Segment) :=
  if final.all fun segment => !segment.data.isNull then .ok final
  else
    match streamed with
    | none => .error .mismatch
    | some streamed =>
      if streamed.map Segment.key = final.map Segment.key then .ok streamed else .error .mismatch

/-- `Client.completion` over the chunks that `generate` yields: the segments of a UMM result, nothing of
another result. -/
def completion (chunks : List (Option Chunk)) : Except ClientError (Option (List Segment)) := do
  let textParts := (chunks.filterMap id).filterMap fun chunk =>
    if chunk.text.isTrue then some chunk.text else none
  let streamed := (chunks.filterMap id).filterMap Chunk.segment
  match chunks.getLast? with
  | none => throw .noResponse
  | some last =>
    if textParts.any fun part => !part.isStr then throw .join
    match last with
    | none => return none
    | some last =>
      some <$> completedSegments (last.segments.getD [])
        (if streamed.isEmpty then none else some streamed)

/-- `generate` and `completion` of a request whose stages sent these segments and this result: a message
that msgpack does not pack fails the request. -/
def receive (packs : Fields → Bool) (stream : List Fields) (result : Fields) :
    Except ClientError (Option (List Segment)) := do
  if !(stream ++ [result]).all packs then throw .message
  let chunks ← stream.mapM streamBuilder
  let last ← resultBuilder result
  completion (chunks ++ [last])

/-- A UMM request from the controller's steps to the client's result. -/
def complete (packs : Fields → Bool) (executionId : String) (isStreamed : Bool)
    (steps : List (List Output)) : Except ClientError (Option (List Segment)) :=
  let (stream, result) := (Outputs.start executionId isStreamed).publish steps
  receive packs stream result

def completed (executionId : String) (outputs : List Output) : List Segment :=
  outputs.zipIdx.map fun (output, index) => ⟨executionId, index, output.kind, output.data⟩

def messages (executionId : String) (isStreamed : Bool) (outputs : List Output) : List Fields :=
  (if isStreamed then segments executionId outputs else [])
    ++ [{ executionId, isStreamed, outputs := segments executionId outputs : Outputs }.result]

/-- What the client keeps of an output: from a stream no text that is neither false nor a string, from a
plain result no null. -/
def Output.isKept (isStreamed : Bool) (output : Output) : Bool :=
  if isStreamed then output.kind != "text" || !output.data.isTrue || output.data.isStr
  else !output.data.isNull

/-! ### Reading what the controller wrote -/

variable {executionId : String}

theorem Fields.get_cons (name : String) (value : Json) (rest : Fields) (other : String) :
    Fields.get ((name, value) :: rest) other = if other = name then value else Fields.get rest other := by
  rw [Fields.get, List.lookup_cons]
  by_cases he : other = name
  · rw [if_pos he, beq_iff_eq.mpr he]
    rfl
  · rw [if_neg he, beq_eq_false_iff_ne.mpr he]
    rfl

theorem fromFields_segment (executionId : String) (index : Nat) (output : Output) :
    Segment.fromFields (segment executionId index output)
      = .ok ⟨executionId, index, output.kind, output.data⟩ := by
  simp [Segment.fromFields, segment, Fields.get_cons, segmentFields]

theorem fromFields_withoutData (executionId : String) (index : Nat) (output : Output) :
    Segment.fromFields (withoutData (segment executionId index output))
      = .ok ⟨executionId, index, output.kind, .null⟩ := by
  simp [Segment.fromFields, withoutData, segment, Fields.get_cons, segmentFields]
  rfl

def streamedChunk (executionId : String) (output : Output) (index : Nat) : Chunk where
  text := if output.kind = "text" then output.data else .str ""
  segment := some ⟨executionId, index, output.kind, output.data⟩

theorem streamBuilder_segment (executionId : String) (index : Nat) (output : Output) :
    streamBuilder (segment executionId index output)
      = .ok (some (streamedChunk executionId output index)) := by
  have htype : Fields.get (segment executionId index output) "type" = .str "segment" := by
    simp [Fields.get, segment]
  rw [streamBuilder, htype]
  simp only [segmentChunk, fromFields_segment]
  rfl

theorem mapM_map_of_ok {α β γ : Type} {f : β → Except ClientError γ} {g : α → γ} {h : α → β}
    (hf : ∀ a, f (h a) = .ok (g a)) (l : List α) : (l.map h).mapM f = .ok (l.map g) := by
  induction l with
  | nil => rfl
  | cons a rest ih =>
    rw [List.map_cons, List.mapM_cons, hf, ih]
    rfl

def listed (executionId : String) (isStreamed : Bool) (outputs : List Output) : List Segment :=
  outputs.zipIdx.map fun (output, index) =>
    ⟨executionId, index, output.kind, if isStreamed then .null else output.data⟩

theorem listed_ordered (executionId : String) (isStreamed : Bool) (outputs : List Output) :
    ((listed executionId isStreamed outputs).zipIdx.any fun (segment, index) =>
      segment.executionId != executionId || segment.segmentIndex != index) = false := by
  rw [List.any_eq_false]
  rintro ⟨segment, index⟩ hmem
  rw [List.mem_zipIdx_iff_getElem?, listed, List.getElem?_map, List.getElem?_zipIdx,
    Option.map_map] at hmem
  obtain ⟨output, -, hsegment⟩ := Option.map_eq_some_iff.mp hmem
  have hsegment : (⟨executionId, 0 + index, output.kind,
    if isStreamed = true then Json.null else output.data⟩ : Segment) = segment := hsegment
  simp [← hsegment]

theorem resultBuilder_result (executionId : String) (isStreamed : Bool) (outputs : List Output) :
    resultBuilder
        { executionId, isStreamed, outputs := segments executionId outputs : Outputs }.result
      = .ok (some
        { text := .str (String.join ((listed executionId isStreamed outputs).map Segment.text))
          segments := some (listed executionId isStreamed outputs) }) := by
  have hlisted : (((segments executionId outputs).map fun fields =>
      Json.object (if isStreamed then withoutData fields else fields)).mapM Segment.fromDict)
        = .ok (listed executionId isStreamed outputs) := by
    rw [segments, List.map_map]
    refine mapM_map_of_ok (fun entry => ?_) _
    cases isStreamed with
    | true => exact fromFields_withoutData executionId entry.2 entry.1
    | false => exact fromFields_segment executionId entry.2 entry.1
  have htype : Fields.get
      { executionId, isStreamed, outputs := segments executionId outputs : Outputs }.result "type"
        = .str "umm_result" := by
    rw [Outputs.result, Fields.get_cons, if_pos rfl]
  have hid : Fields.get
      { executionId, isStreamed, outputs := segments executionId outputs : Outputs }.result "execution_id"
        = .str executionId := by
    simp [Outputs.result, Fields.get_cons]
  have hitems : Fields.get
      { executionId, isStreamed, outputs := segments executionId outputs : Outputs }.result "segments"
        = .array ((segments executionId outputs).map fun fields =>
          .object (if isStreamed then withoutData fields else fields)) := by
    simp [Outputs.result, Fields.get_cons]
  rw [resultBuilder, htype]
  simp only [resultChunk, hitems, hid, hlisted]
  simp only [bind, Except.bind, listed_ordered]
  rfl

/-! ### What the client returns -/

theorem completion_concat (chunks : List Chunk) (last : Chunk) (htext : last.text.isStr = true)
    (hsegment : last.segment = none) :
    completion (chunks.map some ++ [some last])
      = if chunks.any fun chunk => chunk.text.isTrue && !chunk.text.isStr then .error .join
        else some <$> completedSegments (last.segments.getD [])
          (if (chunks.filterMap Chunk.segment).isEmpty then none
            else some (chunks.filterMap Chunk.segment)) := by
  have hparts : ∀ l : List Chunk,
      ((l.filterMap fun chunk => if chunk.text.isTrue then some chunk.text else none).any
          fun part => !part.isStr)
        = l.any fun chunk => chunk.text.isTrue && !chunk.text.isStr := by
    intro l
    induction l with
    | nil => rfl
    | cons chunk rest ih =>
      rw [List.filterMap_cons, List.any_cons]
      cases htrue : chunk.text.isTrue <;> simp [ih]
  have hchunks : (chunks.map some ++ [some last]).filterMap id = chunks ++ [last] := by
    rw [List.filterMap_append, List.filterMap_map]
    simp
  have hlast : ((chunks ++ [last]).any fun chunk => chunk.text.isTrue && !chunk.text.isStr)
      = chunks.any fun chunk => chunk.text.isTrue && !chunk.text.isStr := by
    simp [List.any_append, htext]
  have hsegments : (chunks ++ [last]).filterMap Chunk.segment = chunks.filterMap Chunk.segment := by
    simp [List.filterMap_append, hsegment]
  rw [completion, hchunks, hparts, hlast, hsegments, List.getLast?_concat]
  simp only
  split <;> rfl

theorem completedSegments_plain (executionId : String) (outputs : List Output) :
    completedSegments (listed executionId false outputs) none
      = if outputs.all fun output => !output.data.isNull then .ok (completed executionId outputs)
        else .error .mismatch := by
  have hsame : listed executionId false outputs = completed executionId outputs := rfl
  have hall : ((completed executionId outputs).all fun segment => !segment.data.isNull)
      = outputs.all fun output => !output.data.isNull := by
    rw [completed, List.all_map]
    have hfst : ∀ k, (outputs.zipIdx k).all (fun p => !p.1.data.isNull)
        = outputs.all fun output => !output.data.isNull := by
      induction outputs with
      | nil => exact fun _ => rfl
      | cons output rest ih =>
        intro k
        rw [List.zipIdx_cons, List.all_cons, List.all_cons, ih rfl]
    exact hfst 0
  rw [completedSegments, hsame, hall]

theorem completedSegments_streamed (executionId : String) (outputs : List Output) :
    completedSegments (listed executionId true outputs)
        (if (completed executionId outputs).isEmpty then none
          else some (completed executionId outputs))
      = .ok (completed executionId outputs) := by
  cases outputs with
  | nil => rfl
  | cons output rest =>
    have hkeys : (completed executionId (output :: rest)).map Segment.key
        = (listed executionId true (output :: rest)).map Segment.key := by
      simp [completed, listed, Segment.key]
    have hnull : ((listed executionId true (output :: rest)).all fun segment =>
        !segment.data.isNull) = false := by
      simp [listed, Json.isNull]
    have hsome : (completed executionId (output :: rest)).isEmpty = false := by
      simp [completed]
    rw [hsome, if_neg Bool.false_ne_true]
    unfold completedSegments
    rw [hnull, if_neg Bool.false_ne_true]
    exact if_pos hkeys

def streamedChunks (executionId : String) (outputs : List Output) : List Chunk :=
  outputs.zipIdx.map fun (output, index) => streamedChunk executionId output index

theorem mapM_streamBuilder (executionId : String) (outputs : List Output) :
    (segments executionId outputs).mapM streamBuilder
      = .ok ((streamedChunks executionId outputs).map some) := by
  rw [segments, streamedChunks, List.map_map]
  exact mapM_map_of_ok (fun entry : Output × Nat => streamBuilder_segment executionId entry.2 entry.1) _

theorem streamedChunks_segments (executionId : String) (outputs : List Output) :
    (streamedChunks executionId outputs).filterMap Chunk.segment = completed executionId outputs := by
  rw [streamedChunks, List.filterMap_map, completed, ← List.filterMap_eq_map]
  rfl

theorem streamedChunk_text (executionId : String) (output : Output) (index : Nat) :
    ((streamedChunk executionId output index).text.isTrue
        && !(streamedChunk executionId output index).text.isStr) = !output.isKept true := by
  simp only [streamedChunk, Output.isKept, if_true]
  by_cases hkind : output.kind = "text"
  · rw [if_pos hkind, hkind]
    cases output.data.isTrue <;> cases output.data.isStr <;> rfl
  · rw [if_neg hkind, bne_iff_ne.mpr hkind]
    rfl

theorem streamedChunks_any (executionId : String) (outputs : List Output) :
    ((streamedChunks executionId outputs).any fun chunk => chunk.text.isTrue && !chunk.text.isStr)
      = outputs.any fun output => !output.isKept true := by
  have hfrom : ∀ k, ((outputs.zipIdx k).map fun (output, index) =>
      streamedChunk executionId output index).any
        (fun chunk => chunk.text.isTrue && !chunk.text.isStr)
      = outputs.any fun output => !output.isKept true := by
    induction outputs with
    | nil => exact fun _ => rfl
    | cons output rest ih =>
      intro k
      rw [List.zipIdx_cons, List.map_cons, List.any_cons, List.any_cons, ih]
      simp only [streamedChunk_text]
  exact hfrom 0

theorem receive_streamed (executionId : String) (outputs : List Output) :
    (do
        let chunks ← (segments executionId outputs).mapM streamBuilder
        let last ← resultBuilder
          { executionId, isStreamed := true, outputs := segments executionId outputs : Outputs }.result
        completion (chunks ++ [last]))
      = if outputs.any fun output => !output.isKept true then .error .join
        else .ok (some (completed executionId outputs)) := by
  rw [mapM_streamBuilder, resultBuilder_result]
  simp only [bind, Except.bind]
  rw [completion_concat _ _ rfl rfl, streamedChunks_any, streamedChunks_segments, Option.getD_some,
    completedSegments_streamed]
  rfl

theorem receive_plain (executionId : String) (outputs : List Output) :
    (do
        let chunks ← ([] : List Fields).mapM streamBuilder
        let last ← resultBuilder
          { executionId, isStreamed := false, outputs := segments executionId outputs : Outputs }.result
        completion (chunks ++ [last]))
      = if outputs.all fun output => output.isKept false then .ok (some (completed executionId outputs))
        else .error .mismatch := by
  rw [resultBuilder_result]
  simp only [List.mapM_nil, bind, Except.bind, pure, Except.pure]
  have hconcat := completion_concat []
    { text := .str (String.join ((listed executionId false outputs).map Segment.text))
      segments := some (listed executionId false outputs) } rfl rfl
  rw [List.map_nil] at hconcat
  rw [hconcat]
  simp only [List.any_nil, Bool.false_eq_true, if_false, List.filterMap_nil, List.isEmpty_nil, if_true,
    Option.getD_some, completedSegments_plain]
  have hkept : (outputs.all fun output => output.isKept false)
      = outputs.all fun output => !output.data.isNull := rfl
  rw [hkept]
  split <;> rfl

/-- The client returns a request's outputs exactly where every message packs and it keeps every output. -/
theorem complete_iff (packs : Fields → Bool) (executionId : String) (isStreamed : Bool)
    (steps : List (List Output)) :
    complete packs executionId isStreamed steps = .ok (some (completed executionId steps.flatten))
      ↔ (∀ message ∈ messages executionId isStreamed steps.flatten, packs message = true)
        ∧ ∀ output ∈ steps.flatten, output.isKept isStreamed = true := by
  rw [complete, Outputs.publish_start]
  simp only
  generalize steps.flatten = outputs
  rw [receive, ← messages]
  by_cases hpacks : ∀ message ∈ messages executionId isStreamed outputs, packs message = true
  swap
  · -- the request fails with the first message that does not pack
    have hfails : (messages executionId isStreamed outputs).all packs = false :=
      Bool.eq_false_iff.mpr fun hall => hpacks (List.all_eq_true.mp hall)
    refine iff_of_false (fun h => ?_) fun h => hpacks h.1
    rw [hfails] at h
    cases h
  rw [and_iff_right hpacks, List.all_eq_true.mpr hpacks]
  simp only [Bool.not_true, Bool.false_eq_true, if_false]
  cases isStreamed with
  | true =>
    simp only [if_true]
    rw [receive_streamed]
    cases hany : outputs.any fun output => !output.isKept true with
    | true =>
      obtain ⟨output, hmem, hlost⟩ := List.any_eq_true.mp hany
      refine iff_of_false nofun fun hkept => ?_
      rw [hkept output hmem] at hlost
      cases hlost
    | false =>
      refine iff_of_true rfl fun output hmem => ?_
      have hkept := List.any_eq_false.mp hany output hmem
      simpa using hkept
  | false =>
    simp only [Bool.false_eq_true, if_false]
    rw [receive_plain]
    cases hall : outputs.all fun output => output.isKept false with
    | true => exact iff_of_true rfl (List.all_eq_true.mp hall)
    | false =>
      refine iff_of_false nofun fun hkept => ?_
      rw [List.all_eq_true.mpr hkept] at hall
      cases hall

/-- A null loses a plain result, and a text that is a list breaks a streamed one. -/
theorem complete_null_and_list :
    complete (fun _ => true) "e" false [[⟨"image", .null⟩]] = .error .mismatch
      ∧ complete (fun _ => true) "e" true [[⟨"text", .array [.null]⟩]] = .error .join :=
  ⟨rfl, rfl⟩

end Umm
