import Mathlib.Data.List.Basic
import Mathlib.Tactic.Common

/-! A reader that takes its input in frames of one size: it keeps what is left over for the next call.  How
the input is cut into calls does not matter.  A step that raises has no value, and neither has the call. -/

namespace Lib

variable {σ β ω : Type}

structure Framed (σ β : Type) where
  state : σ
  leftover : List β

section

variable (size : Nat) (step : σ → List β → Option (σ × List ω))

def drain (s : σ) (input : List β) : Option (Framed σ β × List ω) :=
  if _h : 0 < size ∧ size ≤ input.length then
    (step s (input.take size)).bind fun r =>
      (drain r.1 (input.drop size)).map fun r' => (r'.1, r.2 ++ r'.2)
  else some (⟨s, input⟩, [])
termination_by input.length
decreasing_by
  rw [List.length_drop]
  omega

def feed (f : Framed σ β) (input : List β) : Option (Framed σ β × List ω) :=
  if input.isEmpty then some (f, []) else drain size step f.state (f.leftover ++ input)

def feedAll (f : Framed σ β) : List (List β) → Option (Framed σ β × List ω)
  | [] => some (f, [])
  | input :: rest =>
    (feed size step f input).bind fun r =>
      (feedAll r.1 rest).map fun r' => (r'.1, r.2 ++ r'.2)

end

variable {size : Nat} {step : σ → List β → Option (σ × List ω)} {s : σ} {input : List β}

theorem drain_of_lt (h : input.length < size) : drain size step s input = some (⟨s, input⟩, []) := by
  rw [drain, dif_neg]
  omega

theorem drain_of_le (hsize : 0 < size) (h : size ≤ input.length) :
    drain size step s input = (step s (input.take size)).bind fun r =>
      (drain size step r.1 (input.drop size)).map fun r' => (r'.1, r.2 ++ r'.2) := by
  rw [drain, dif_pos ⟨hsize, h⟩]

theorem drain_append (hsize : 0 < size) (s : σ) (input more : List β) :
    drain size step s (input ++ more) = (drain size step s input).bind fun r =>
      (drain size step r.1.state (r.1.leftover ++ more)).map fun r' => (r'.1, r.2 ++ r'.2) := by
  induction hn : input.length using Nat.strongRecOn generalizing s input with
  | _ n ih =>
    by_cases hle : size ≤ input.length
    · have hlong : size ≤ (input ++ more).length := by
        rw [List.length_append]
        omega
      rw [drain_of_le hsize hle, drain_of_le hsize hlong, List.take_append_of_le_length hle,
        List.drop_append_of_le_length hle]
      cases hstep : step s (input.take size) with
      | none => rfl
      | some r =>
        have hdrop : (input.drop size).length < n := by
          rw [List.length_drop]
          omega
        simp only [Option.bind_some]
        rw [ih _ hdrop r.1 (input.drop size) rfl]
        cases drain size step r.1 (input.drop size) with
        | none => rfl
        | some r' =>
          simp only [Option.bind_some, Option.map_some, Option.map_map]
          congr 1
          funext r''
          simp
    · rw [drain_of_lt (Nat.not_le.mp hle)]
      simp

theorem drain_leftover (hsize : 0 < size) {r : Framed σ β × List ω}
    (h : drain size step s input = some r) : r.1.leftover.length < size := by
  induction hn : input.length using Nat.strongRecOn generalizing s input r with
  | _ n ih =>
    by_cases hle : size ≤ input.length
    · rw [drain_of_le hsize hle] at h
      obtain ⟨first, -, hrest⟩ := Option.bind_eq_some_iff.mp h
      obtain ⟨rest, hdrain, rfl⟩ := Option.map_eq_some_iff.mp hrest
      have hdrop : (input.drop size).length < n := by
        rw [List.length_drop]
        omega
      have hleft : rest.1.leftover.length < size := ih _ hdrop hdrain rfl
      exact hleft
    · rw [drain_of_lt (Nat.not_le.mp hle)] at h
      cases h
      exact Nat.not_le.mp hle

theorem drain_invariant (hsize : 0 < size) {P : σ → List ω → Prop}
    (hstep : ∀ s out frame r, P s out → step s frame = some r → P r.1 (out ++ r.2))
    {out : List ω} (hs : P s out) {r : Framed σ β × List ω} (h : drain size step s input = some r) :
    P r.1.state (out ++ r.2) := by
  induction hn : input.length using Nat.strongRecOn generalizing s input out r with
  | _ n ih =>
    by_cases hle : size ≤ input.length
    · rw [drain_of_le hsize hle] at h
      obtain ⟨first, hfirst, hrest⟩ := Option.bind_eq_some_iff.mp h
      obtain ⟨rest, hdrain, rfl⟩ := Option.map_eq_some_iff.mp hrest
      have hdrop : (input.drop size).length < n := by
        rw [List.length_drop]
        omega
      have hkept := ih _ hdrop (hstep s out _ first hs hfirst) hdrain rfl
      rw [List.append_assoc] at hkept
      exact hkept
    · rw [drain_of_lt (Nat.not_le.mp hle)] at h
      cases h
      rw [List.append_nil]
      exact hs

theorem feed_eq_drain {f : Framed σ β} (hf : f.leftover.length < size) (input : List β) :
    feed size step f input = drain size step f.state (f.leftover ++ input) := by
  unfold feed
  split
  · next hempty =>
    rw [List.isEmpty_iff.mp hempty, List.append_nil, drain_of_lt hf]
  · rfl

theorem feedAll_eq_feed (hsize : 0 < size) {f : Framed σ β} (hf : f.leftover.length < size)
    (calls : List (List β)) : feedAll size step f calls = feed size step f calls.flatten := by
  induction calls generalizing f with
  | nil => rfl
  | cons input rest ih =>
    have hsplit : drain size step f.state (f.leftover ++ input ++ rest.flatten) = _ :=
      drain_append hsize f.state (f.leftover ++ input) rest.flatten
    rw [feedAll, List.flatten_cons, feed_eq_drain hf, feed_eq_drain hf, ← List.append_assoc, hsplit]
    cases hfirst : drain size step f.state (f.leftover ++ input) with
    | none => rfl
    | some r =>
      have hleft := drain_leftover hsize hfirst
      simp only [Option.bind_some]
      rw [ih hleft, feed_eq_drain hleft]

theorem feed_invariant (hsize : 0 < size) {P : σ → List ω → Prop}
    (hstep : ∀ s out frame r, P s out → step s frame = some r → P r.1 (out ++ r.2))
    {f : Framed σ β} (hf : f.leftover.length < size) (hs : P f.state []) {r : Framed σ β × List ω}
    (h : feed size step f input = some r) : P r.1.state r.2 := by
  rw [feed_eq_drain hf] at h
  exact drain_invariant hsize hstep hs h

end Lib
