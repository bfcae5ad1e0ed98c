import SglangOmni.Proto.Streams

/-! A chunk over `max_chunk_bytes` travels as fragments: consecutive pieces of its encoding, each in a
chunk of its own that keeps the fields of the whole. -/

namespace Proto

/-- A fragment, whether another follows, and where in the encoding that one starts. -/
structure Fragment where
  chunk : TimedChunk
  continues : Bool
  next : Nat

namespace Packer

variable (p : Packer)

def envelopeBytes (chunk : TimedChunk) (seq : Nat) : Nat :=
  p.wireSize { chunk with seq := seq, payload := .bytes [] } + 3

/-- One turn of the loop of `fragment_chunk`: the fragment from `start` of the encoding, numbered
`seq`.  It raises where the envelope leaves no room for a payload. -/
def fragmentFrom (maxChunkBytes : Nat) (chunk : TimedChunk) (seq start : Nat) : Option Fragment :=
  let encoded := p.packChunk chunk
  let envelope := p.envelopeBytes chunk seq
  if maxChunkBytes ≤ envelope then none
  else
    let room := maxChunkBytes - envelope
    some {
      chunk := { chunk with seq := seq, payload := .bytes ((encoded.drop start).take room) }
      continues := start + room < encoded.length
      next := start + room }

end Packer

end Proto
