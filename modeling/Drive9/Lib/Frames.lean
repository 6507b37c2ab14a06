import Mathlib.Algebra.Ring.Nat
import Mathlib.Data.List.Basic

/-!
This module contains a log of frames, each a length, a payload and a checksum, and the scan that
finds them.
-/

namespace Frames

open List

abbrev Octets := List UInt8

/--
The `k` low bytes of a number, the lowest first.
-/
def le : Nat → Nat → Octets
  | 0, _ => []
  | k + 1, n => UInt8.ofNat n :: le k (n / 256)

def ofLe : Octets → Nat
  | [] => 0
  | b :: bs => b.toNat + 256 * ofLe bs

@[simp]
theorem length_le (k n : Nat) : (le k n).length = k := by
  induction k generalizing n with
  | zero => rfl
  | succ k ih => simp [le, ih]

theorem ofLe_le (k n : Nat) : ofLe (le k n) = n % 256 ^ k := by
  induction k generalizing n with
  | zero => simp [le, ofLe, Nat.mod_one]
  | succ k ih =>
    simp only [le, ofLe, ih, UInt8.toNat_ofNat']
    rw [Nat.pow_succ' (m := 256), Nat.mod_mul]

theorem ofLe_le_four (h : n < 2 ^ 32) : ofLe (le 4 n) = n := by
  rw [ofLe_le]
  exact Nat.mod_eq_of_lt h

variable {bs p rest : Octets}

theorem ofLe_lt (bs) : ofLe bs < 256 ^ bs.length := by
  induction bs with
  | nil => simp [ofLe]
  | cons b bs ih =>
    have hb := b.toNat_lt
    simp only [ofLe, length_cons, Nat.pow_succ']
    omega

def payload (raw : Octets) : Octets := (raw.drop 4).take (raw.length - 8)

variable (crc : Octets → UInt32)

def frame (payload : Octets) : Octets :=
  le 4 payload.length ++ (payload ++ le 4 (crc payload).toNat)

inductive Head where
  | stop
  | corrupt
  | frame (raw : Octets)
  deriving DecidableEq

/--
What the scan makes of the bytes that it stands before.
-/
def head (data : Octets) : Head :=
  let payloadLen := ofLe (data.take 4)
  if data.length < 8 ∨ data.length < payloadLen + 8 then
    .stop
  else if ofLe ((data.drop (payloadLen + 4)).take 4) ≠ (crc ((data.drop 4).take payloadLen)).toNat then
    .corrupt
  else
    .frame (data.take (payloadLen + 8))

/--
The frames that a scan finds after `skip` bytes. After a bad checksum it goes on at the next byte.
-/
def scan : Nat → Octets → List Octets
  | _, [] => []
  | skip + 1, _ :: rest => scan skip rest
  | 0, b :: rest =>
    match head crc (b :: rest) with
    | .stop => []
    | .corrupt => scan 0 rest
    | .frame raw => raw :: scan (raw.length - 1) rest

variable {crc}

theorem scan_eq_drop (skip : Nat) (data : Octets)
    : scan crc skip data = scan crc 0 (data.drop skip) := by
  induction skip generalizing data with
  | zero => rfl
  | succ skip ih =>
    cases data with
    | nil => rfl
    | cons b rest => exact ih rest

theorem length_frame (p) : (frame crc p).length = p.length + 8 := by
  simp only [frame, length_append, length_le]
  omega

theorem payload_frame (p) : payload (frame crc p) = p := by
  rw [payload, length_frame, frame, drop_left' (length_le 4 _), Nat.add_sub_cancel, take_left' rfl]

theorem head_frame (hshort : p.length < 2 ^ 32) (rest)
    : head crc (frame crc p ++ rest) = .frame (frame crc p) := by
  have hlen : ofLe ((frame crc p ++ rest).take 4) = p.length := by
    rw [frame, append_assoc, take_left' (length_le 4 _), ofLe_le_four hshort]
  have hdrop : (frame crc p ++ rest).drop 4 = p ++ (le 4 (crc p).toNat ++ rest) := by
    rw [frame, append_assoc, drop_left' (length_le 4 _), append_assoc]
  have hstored : ofLe (((frame crc p ++ rest).drop (p.length + 4)).take 4) = (crc p).toNat := by
    rw [Nat.add_comm, ← drop_drop, hdrop, drop_left' rfl, take_left' (length_le 4 _),
      ofLe_le_four (crc p).toNat_lt]
  have hfits : p.length + 8 ≤ (frame crc p ++ rest).length := by
    rw [length_append, length_frame]
    omega
  unfold head
  rw [hlen, if_neg (by omega), hdrop, take_left' rfl, hstored, if_neg (by simp),
    take_left' (length_frame p)]

theorem scan_frame (hshort : p.length < 2 ^ 32) (rest)
    : scan crc 0 (frame crc p ++ rest) = frame crc p :: scan crc 0 rest := by
  have hhead : head crc (frame crc p ++ rest) = .frame (frame crc p) := head_frame hshort rest
  have hlen : (frame crc p).length = p.length + 8 := length_frame p
  cases hframe : frame crc p with
  | nil =>
    rw [hframe] at hlen
    contradiction
  | cons b raw =>
    rw [hframe] at hhead
    rw [cons_append] at hhead ⊢
    rw [scan, hhead]
    dsimp only
    rw [scan_eq_drop, length_cons, Nat.add_sub_cancel, drop_left' rfl]

theorem scan_frames {ps : List Octets} (hshort : ∀ p ∈ ps, p.length < 2 ^ 32) (rest)
    : scan crc 0 ((ps.map (frame crc)).flatten ++ rest)
      = ps.map (frame crc) ++ scan crc 0 rest := by
  induction ps with
  | nil => rfl
  | cons p ps ih =>
    rw [forall_mem_cons] at hshort
    rw [map_cons, flatten_cons, append_assoc, scan_frame hshort.1, ih hshort.2]
    rfl

theorem scan_of_stop (h : head crc data = .stop) : scan crc 0 data = [] := by
  cases data with
  | nil => rfl
  | cons b rest => rw [scan, h]

/--
A frame that is not there as a whole ends the scan.
-/
theorem scan_take_frame (hshort : p.length < 2 ^ 32) (h : k < (frame crc p).length)
    : scan crc 0 ((frame crc p).take k) = [] := by
  apply scan_of_stop
  rw [length_frame] at h
  unfold head
  rw [if_pos]
  by_cases hk : k < 8
  . left
    rw [List.length_take]
    omega
  . right
    rw [List.take_take, Nat.min_eq_left (by omega), List.length_take, frame,
      List.take_left' (length_le 4 _), ofLe_le_four hshort]
    omega

theorem head_eq_stop_iff : head crc data = .stop ↔ data.length < ofLe (data.take 4) + 8 := by
  unfold head
  dsimp only
  split
  . simp only [true_iff]
    omega
  . split
    all_goals
      simp only [reduceCtorEq, false_iff]
      omega

theorem scan_corrupt (h : ∀ i < t.length, head crc ((t ++ rest).drop i) = .corrupt)
    : scan crc 0 (t ++ rest) = scan crc 0 rest := by
  induction t with
  | nil => rfl
  | cons b t ih =>
    have hhead := h 0 (by simp)
    rw [drop_zero, cons_append] at hhead
    rw [cons_append, scan, hhead]
    apply ih
    intro i hi
    exact h (i + 1) (by simpa using hi)

theorem scan_stop (hi : i < t.length) (hstop : head crc ((t ++ rest).drop i) = .stop)
    (h : ∀ i < t.length, ∀ raw, head crc ((t ++ rest).drop i) ≠ .frame raw)
    : scan crc 0 (t ++ rest) = [] := by
  induction t generalizing i with
  | nil => cases hi
  | cons b t ih =>
    have hhead := h 0 (by simp)
    rw [drop_zero, cons_append] at hhead
    rw [cons_append, scan]
    split
    . rfl
    . next hcorrupt =>
      cases i with
      | zero =>
        rw [drop_zero, cons_append, hcorrupt] at hstop
        contradiction
      | succ i =>
        apply ih (by simpa using hi) hstop
        intro i hi
        exact h (i + 1) (by simpa using hi)
    . next raw hframe => exact absurd hframe (hhead raw)

theorem length_of_mem_scan (hraw : raw ∈ scan crc skip data) : raw.length < 2 ^ 32 + 8 := by
  fun_induction scan crc skip data with
  | case1 => cases hraw
  | case2 skip b rest ih => exact ih hraw
  | case3 => cases hraw
  | case4 b rest hhead ih => exact ih hraw
  | case5 b rest raw' hhead ih =>
    rcases mem_cons.mp hraw with rfl | hraw
    . unfold head at hhead
      dsimp only at hhead
      split at hhead
      . contradiction
      . split at hhead
        . contradiction
        . next hfits _ =>
          cases hhead
          have hlt := ofLe_lt ((b :: rest).take 4)
          rw [length_take, Nat.min_eq_left (by omega)] at hlt
          rw [length_take]
          omega
    . exact ih hraw

end Frames
