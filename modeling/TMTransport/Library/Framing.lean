import Mathlib.Algebra.Order.Ring.Nat
import Mathlib.Tactic.Ring
import Mathlib.Tactic.Linarith

/-!
# Frames with a length in front

A frame is the length of its body, as a fixed number of bytes with the lowest
one first, and then the body. A stream of frames can be cut into frames again in
one way only, so a reader that knows what it has cut off so far knows what is
still to come.
-/

namespace Framing

abbrev Bytes := List UInt8

/-- The last `w` digits of `n` to the base 256, the lowest one first. -/
def leBytes : Nat → Nat → Bytes
  | 0, _ => []
  | w + 1, n => UInt8.ofNat n :: leBytes w (n / 256)

def ofLE : Bytes → Nat
  | [] => 0
  | b :: bs => b.toNat + 256 * ofLE bs

@[simp]
theorem length_leBytes (w n : Nat) : (leBytes w n).length = w := by
  induction w generalizing n with
  | zero => rfl
  | succ w ih => simp [leBytes, ih]

theorem ofLE_leBytes {w n : Nat} (h : n < 256 ^ w) : ofLE (leBytes w n) = n := by
  induction w generalizing n with
  | zero => simp only [pow_zero] at h; simp [leBytes, ofLE]; omega
  | succ w ih =>
      have hq : n / 256 < 256 ^ w := by
        rw [Nat.div_lt_iff_lt_mul (by omega)]
        rw [pow_succ] at h
        exact h
      rw [leBytes, ofLE, ih hq]
      have hb : (UInt8.ofNat n).toNat = n % 256 := by simp
      omega

theorem leBytes_ofLE (bs : Bytes) : leBytes bs.length (ofLE bs) = bs := by
  induction bs with
  | nil => rfl
  | cons b bs ih =>
      have hb := b.toNat_lt
      have hq : (b.toNat + 256 * ofLE bs) / 256 = ofLE bs := by omega
      have hr : UInt8.ofNat (b.toNat + 256 * ofLE bs) = b := by
        apply UInt8.toNat_inj.mp
        simp only [UInt8.toNat_ofNat']
        omega
      rw [List.length_cons, leBytes, ofLE, hq, hr, ih]

theorem ofLE_lt (bs : Bytes) : ofLE bs < 256 ^ bs.length := by
  induction bs with
  | nil => simp [ofLE]
  | cons b bs ih =>
      have hb := b.toNat_lt
      rw [ofLE, List.length_cons, pow_succ]
      omega

/-- `w` bytes for the length, and the body. -/
def frame (w : Nat) (body : Bytes) : Bytes := leBytes w body.length ++ body

/-- The length fits the bytes that there are for it. -/
def Fits (w : Nat) (body : Bytes) : Prop := body.length < 256 ^ w

variable {w : Nat} {b b' u u' : Bytes} {done sent todo : List Bytes}

/-- The length in front is all that a reader needs to find the end of the frame. -/
theorem frame_append_inj (hb : Fits w b) (hb' : Fits w b')
    (h : frame w b ++ u = frame w b' ++ u') : b = b' ∧ u = u' := by
  rw [frame, frame, List.append_assoc, List.append_assoc] at h
  obtain ⟨hlen, h⟩ := List.append_inj h (by simp)
  have hlen : b.length = b'.length := by
    rw [← ofLE_leBytes hb, ← ofLE_leBytes hb', hlen]
  exact List.append_inj h hlen

/-- The frames that have been cut off a stream of frames are its first ones. -/
theorem frames_prefix (hw : 0 < w) (hd : ∀ b ∈ done, Fits w b) (hs : ∀ b ∈ sent, Fits w b)
    (h : done.flatMap (frame w) ++ u = sent.flatMap (frame w)) :
    ∃ todo, sent = done ++ todo ∧ u = todo.flatMap (frame w) := by
  induction done generalizing sent with
  | nil => exact ⟨sent, rfl, h⟩
  | cons b done ih =>
      cases sent with
      | nil =>
          have hl := congrArg List.length h
          simp [frame] at hl
          omega
      | cons b' sent =>
          rw [List.flatMap_cons, List.flatMap_cons, List.append_assoc] at h
          obtain ⟨hb, h⟩ := frame_append_inj (hd b List.mem_cons_self) (hs b' List.mem_cons_self) h
          obtain ⟨todo, hsent, hu⟩ := ih (fun c hc => hd c (List.mem_cons_of_mem b hc))
            (fun c hc => hs c (List.mem_cons_of_mem b' hc)) h
          exact ⟨todo, by rw [hb, hsent, List.cons_append], hu⟩

/-- Less than a length is no frame. -/
theorem frames_eq_nil_of_short (h : u = todo.flatMap (frame w)) (hu : u.length < w) :
    todo = [] := by
  cases todo with
  | nil => rfl
  | cons b todo =>
      have hl := congrArg List.length h
      simp [frame] at hl
      omega

/-- A length and less than it says is not a stream of frames. -/
theorem not_frames_of_partial {n : Nat} (hn : n < 256 ^ w) (hu : u.length < n)
    (ht : ∀ b ∈ todo, Fits w b) : leBytes w n ++ u ≠ todo.flatMap (frame w) := by
  intro h
  cases todo with
  | nil =>
      have hl := congrArg List.length h
      simp only [List.length_append, length_leBytes, List.flatMap_nil, List.length_nil] at hl
      rw [show w = 0 by omega, pow_zero] at hn
      omega
  | cons b todo =>
      rw [List.flatMap_cons, frame, List.append_assoc] at h
      obtain ⟨hlen, h⟩ := List.append_inj h (by simp)
      have hlen : n = b.length := by
        rw [← ofLE_leBytes hn, ← ofLE_leBytes (ht b List.mem_cons_self), hlen]
      have hl := congrArg List.length h
      rw [List.length_append] at hl
      omega

end Framing
