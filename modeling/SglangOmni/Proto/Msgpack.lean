import Mathlib.Algebra.Order.Floor.Defs
import SglangOmni.Proto.Streams

/-! The msgpack encoding of chunks, by the format's specification: what `msgpack.packb` writes for the
objects that `to_dict` builds.  A float is written as its eight IEEE 754 bytes; the rationals that are
no doubles are cut to 52 bits. -/

namespace Proto

namespace Msgpack

/-- The `k` low bytes of `n`, high byte first. -/
def bigEndian : Nat → Nat → List UInt8
  | 0, _ => []
  | k + 1, n => bigEndian k (n / 256) ++ [UInt8.ofNat n]

/-- A header byte and a length in `k` bytes. -/
def header (tag : UInt8) (k n : Nat) : List UInt8 := tag :: bigEndian k n

def packInt (n : Int) : List UInt8 :=
  if 0 ≤ n then
    let n := n.toNat
    if n < 128 then [UInt8.ofNat n]
    else if n < 256 then header 0xcc 1 n
    else if n < 65536 then header 0xcd 2 n
    else if n < 4294967296 then header 0xce 4 n
    else header 0xcf 8 n
  else if -32 ≤ n then [UInt8.ofNat (n + 256).toNat]
  else if -128 ≤ n then header 0xd0 1 (n + 256).toNat
  else if -32768 ≤ n then header 0xd1 2 (n + 65536).toNat
  else if -2147483648 ≤ n then header 0xd2 4 (n + 4294967296).toNat
  else header 0xd3 8 (n + 18446744073709551616).toNat

def packStr (s : String) : List UInt8 :=
  let data := s.toUTF8.toList
  let n := data.length
  (if n < 32 then [UInt8.ofNat (0xa0 + n)]
    else if n < 256 then header 0xd9 1 n
    else if n < 65536 then header 0xda 2 n
    else header 0xdb 4 n) ++ data

def packBin (data : List UInt8) : List UInt8 :=
  let n := data.length
  (if n < 256 then header 0xc4 1 n
    else if n < 65536 then header 0xc5 2 n
    else header 0xc6 4 n) ++ data

def positiveBits (x : ℚ) : Nat :=
  let exponent : Int := (x.num.toNat.log2 : Int) - (x.den.log2 : Int)
  let scaled := x / 2 ^ exponent
  let exponent := if scaled < 1 then exponent - 1 else exponent
  (exponent + 1023).toNat * 2 ^ 52 + ((x / 2 ^ exponent - 1) * 2 ^ 52).floor.toNat

def doubleBits (x : ℚ) : Nat :=
  if x = 0 then 0 else if 0 < x then positiveBits x else 2 ^ 63 + positiveBits (-x)

def packFloat (x : ℚ) : List UInt8 := header 0xcb 8 (doubleBits x)

def packBool (b : Bool) : List UInt8 := [if b then 0xc3 else 0xc2]

def packNil : List UInt8 := [0xc0]

def mapHeader (n : Nat) : List UInt8 :=
  if n < 16 then [UInt8.ofNat (0x80 + n)] else if n < 65536 then header 0xde 2 n else header 0xdf 4 n

def arrayHeader (n : Nat) : List UInt8 :=
  if n < 16 then [UInt8.ofNat (0x90 + n)] else if n < 65536 then header 0xdc 2 n else header 0xdd 4 n

mutual

def packValue : Value → List UInt8
  | .null => packNil
  | .bool b => packBool b
  | .int n => packInt n
  | .float x => packFloat x
  | .str s => packStr s
  | .bytes data => packBin data
  | .array items => arrayHeader items.length ++ packItems items
  | .map fields => mapHeader fields.length ++ packFields fields

def packItems : List Value → List UInt8
  | [] => []
  | item :: rest => packValue item ++ packItems rest

def packFields : List (String × Value) → List UInt8
  | [] => []
  | (key, value) :: rest => packStr key ++ packValue value ++ packFields rest

end

def packPayload : ChunkPayload → List UInt8
  | .none => packNil
  | .bytes data => packBin data
  | .dict fields => mapHeader fields.length ++ packFields fields

def packOption {α : Type} (pack : α → List UInt8) (value : Option α) : List UInt8 :=
  value.elim packNil pack

/-- The fields that inputs and outputs share, from `payload` on. -/
def packTail (payload : ChunkPayload) (format : Option String) (eos : Bool) (turn : Option Turn) :
    List UInt8 :=
  packStr "payload" ++ packPayload payload ++ packStr "format" ++ packOption packStr format ++
    packStr "eos" ++ packBool eos ++ packStr "turn" ++ packOption packInt turn

def packChunk (chunk : TimedChunk) : List UInt8 :=
  mapHeader 8 ++ packStr "modality" ++ packStr chunk.modality ++
    packStr "t_start_ms" ++ packFloat chunk.tStartMs ++
    packStr "duration_ms" ++ packFloat chunk.durationMs ++ packStr "seq" ++ packInt chunk.seq ++
    packTail chunk.payload chunk.format chunk.eos chunk.turn

def packIdentity (identity : SessionIdentity) : List UInt8 :=
  mapHeader 2 ++ packStr "id" ++ packStr identity.id ++
    packStr "open_index" ++ packInt identity.openIndex

def packOutput (output : OutputChunk) : List UInt8 :=
  mapHeader 11 ++ packStr "session_identity" ++ packIdentity output.sessionIdentity ++
    packStr "seq" ++ packInt output.seq ++ packStr "input_seq" ++ packInt output.inputSeq ++
    packStr "modality" ++ packStr output.modality ++
    packStr "t_start_ms" ++ packFloat output.tStartMs ++
    packStr "duration_ms" ++ packFloat output.durationMs ++
    packTail output.payload output.format output.eos output.turn ++
    packStr "kind" ++ packStr (match output.kind with
      | .data => "data"
      | .inputDone => "input_done")

end Msgpack

def msgpack : Packer where
  packChunk := Msgpack.packChunk
  packOutput := Msgpack.packOutput

end Proto
