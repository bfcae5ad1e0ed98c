import Mathlib.Data.List.DropRight
import SglangOmni.Lib.Except
import SglangOmni.Lib.Utf8
import SglangOmni.Router.RequestBody

/-! Texts and their slices by bytes, as `http_media/multipart.rs` and the relay of headers use them. A slice
that is not at a character boundary panics. -/

namespace Router.Multipart

open Lib

abbrev Text := List Char

inductive Halt
  | panicked
  | fault (fault : HttpFault)
  deriving DecidableEq

/-! ### Slices -/

def dropBytes : Text → ℕ → Option Text
  | text, 0 => some text
  | [], _ + 1 => none
  | c :: text, n + 1 => if c.utf8Size ≤ n + 1 then dropBytes text (n + 1 - c.utf8Size) else none

def takeBytes : Text → ℕ → Option Text
  | _, 0 => some []
  | [], _ + 1 => none
  | c :: text, n + 1 =>
    if c.utf8Size ≤ n + 1 then (takeBytes text (n + 1 - c.utf8Size)).map (c :: ·) else none

def sliceText (text : Text) (start stop : ℕ) : Except Halt Text :=
  match if start ≤ stop then (dropBytes text start).bind (takeBytes · (stop - start)) else none with
  | some range => .ok range
  | none => .error .panicked

/-! ### Texts -/

def isWhitespace (c : Char) : Bool :=
  let code := c.toNat
  (9 ≤ code && code ≤ 13) || code = 32 || code = 0x85 || code = 0xA0 || code = 0x1680 ||
    (0x2000 ≤ code && code ≤ 0x200A) || code = 0x2028 || code = 0x2029 || code = 0x202F ||
    code = 0x205F || code = 0x3000

def trim (text : Text) : Text := (text.dropWhile isWhitespace).rdropWhile isWhitespace

/-- `Char.toLower` changes the letters of ASCII only. -/
def eqIgnoreAsciiCase (text other : Text) : Bool := text.map Char.toLower = other.map Char.toLower

def isAsciiAlphanumeric (byte : UInt8) : Bool :=
  (48 ≤ byte && byte ≤ 57) || (65 ≤ byte && byte ≤ 90) || (97 ≤ byte && byte ≤ 122)

/-! ### Slices of texts -/

theorem length_asBytes_cons (c : Char) (text : Text) :
    (asBytes (c :: text)).length = c.utf8Size + (asBytes text).length := by
  rw [asBytes_cons, List.length_append, String.length_utf8EncodeChar]

theorem dropBytes_cons (c : Char) (text : Text) (n : ℕ) :
    dropBytes (c :: text) (c.utf8Size + n) = dropBytes text n := by
  obtain ⟨k, hk⟩ : ∃ k, c.utf8Size + n = k + 1 := ⟨c.utf8Size + n - 1, by have := c.utf8Size_pos; omega⟩
  rw [hk, dropBytes, if_pos (by omega)]
  congr 1
  omega

theorem takeBytes_cons (c : Char) (text : Text) (n : ℕ) :
    takeBytes (c :: text) (c.utf8Size + n) = (takeBytes text n).map (c :: ·) := by
  obtain ⟨k, hk⟩ : ∃ k, c.utf8Size + n = k + 1 := ⟨c.utf8Size + n - 1, by have := c.utf8Size_pos; omega⟩
  rw [hk, takeBytes, if_pos (by omega)]
  congr 2
  omega

theorem dropBytes_append (before rest : Text) :
    dropBytes (before ++ rest) (asBytes before).length = some rest := by
  induction before with
  | nil =>
    cases rest <;> rfl
  | cons c before ih =>
    rw [List.cons_append, length_asBytes_cons, dropBytes_cons]
    exact ih

theorem takeBytes_append (before rest : Text) :
    takeBytes (before ++ rest) (asBytes before).length = some before := by
  induction before with
  | nil =>
    cases rest <;> rfl
  | cons c before ih =>
    rw [List.cons_append, length_asBytes_cons, takeBytes_cons, ih]
    rfl

theorem sliceText_append (before range rest : Text) :
    sliceText (before ++ (range ++ rest)) (asBytes before).length (asBytes (before ++ range)).length =
      .ok range := by
  have hlength : (asBytes (before ++ range)).length = (asBytes before).length + (asBytes range).length := by
    rw [asBytes_append, List.length_append]
  unfold sliceText
  rw [if_pos (by omega), dropBytes_append]
  show (match takeBytes (range ++ rest) ((asBytes (before ++ range)).length - (asBytes before).length) with
    | some range => Except.ok range
    | none => Except.error Halt.panicked) = _
  rw [hlength, Nat.add_sub_cancel_left, takeBytes_append]

end Router.Multipart
