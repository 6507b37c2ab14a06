import Drive9.Fuse.Journal.Recovery

/-!
This module contains what the write-ahead log gives back when it goes on after a frame that was cut
off.
-/

namespace FuseJournal

open Frames (Octets ofLe)

/--
Wherever the scan stands in the torn bytes, the length that it reads there does not lead past the
end.
-/
def Resumes (torn rest : Octets) : Prop :=
  ∀ i < torn.length, i + ofLe (((torn ++ rest).drop i).take 4) + 8 ≤ (torn ++ rest).length

instance decidableResumes (torn rest : Octets) : Decidable (Resumes torn rest) :=
  Nat.decidableBallLT _ _

theorem scan_torn (crc : Octets → UInt32) (torn rest : Octets)
    (hcrc : ∀ i < torn.length, ∀ raw, Frames.head crc ((torn ++ rest).drop i) ≠ .frame raw)
    : Frames.scan crc 0 (torn ++ rest)
      = if Resumes torn rest then Frames.scan crc 0 rest else [] := by
  split
  . next h =>
    apply Frames.scan_corrupt
    intro i hi
    cases hhead : Frames.head crc ((torn ++ rest).drop i) with
    | stop =>
      have hpast := Frames.head_eq_stop_iff.mp hhead
      have hfits := h i hi
      rw [List.length_drop] at hpast
      omega
    | corrupt => rfl
    | frame raw => exact absurd hhead (hcrc i hi raw)
  . next h =>
    unfold Resumes at h
    push Not at h
    obtain ⟨i, hi, hpast⟩ := h
    refine Frames.scan_stop hi (Frames.head_eq_stop_iff.mpr ?_) hcrc
    rw [List.length_drop]
    omega

theorem torn_write_is_survived_iff (host : Host) (es later : List JournalEntry)
    (h : Written host (es ++ later)) (torn : Octets) (seq : Nat)
    (hcrc : ∀ i < torn.length, ∀ raw, Frames.head host.crc ((torn ++ written host later).drop i) ≠ .frame raw)
    : ((replay host ⟨seq, written host es ++ (torn ++ written host later)⟩).1 = es ++ later
        ∧ ∀ e ∈ es ++ later, e ∈ (replay host (compact host ⟨seq, written host es ++ (torn ++ written host later)⟩)).1
          ∨ ∃ c ∈ es ++ later, covers c e)
      ↔ later = [] ∨ Resumes torn (written host later) := by
  have hes : Written host es := h.mono fun e he => List.mem_append_left later he
  have hlater : Written host later := h.mono fun e he => List.mem_append_right es he
  have hrest := scan_written hlater []
  rw [List.append_nil, Frames.scan, List.append_nil] at hrest
  have hscan := scan_written hes (torn ++ written host later)
  rw [scan_torn host.crc torn _ hcrc, hrest] at hscan
  constructor
  . intro hsurvives
    by_contra hlost
    rw [not_or] at hlost
    rw [if_neg hlost.2, List.append_nil] at hscan
    have hentries := entries_of_scan hes hscan
    rw [replay, hentries] at hsurvives
    exact hlost.1 (List.self_eq_append_right.mp hsurvives.1)
  . intro hresumes
    have hall : Frames.scan host.crc 0 (written host es ++ (torn ++ written host later))
        = frames host (es ++ later) := by
      rw [hscan, frames_append]
      split
      . rfl
      . next hstops =>
        rw [hresumes.resolve_right hstops]
        rfl
    refine ⟨entries_of_scan h hall, ?_⟩
    intro e he
    rw [replay, entries_compact h hall]
    by_cases hcovered : ∃ c ∈ es ++ later, covers c e
    . exact .inr hcovered
    . left
      refine List.mem_filter.mpr ⟨he, List.all_eq_true.mpr fun c hc => ?_⟩
      rw [Bool.not_eq_true', ← Bool.not_eq_true]
      exact fun hcovers => hcovered ⟨c, hc, hcovers⟩

theorem torn_write_is_survived_iff_long
    : (replay goHost ⟨0, written goHost [] ++ ([27] ++ written goHost (List.replicate 199 (entry 1 .write [97])))⟩).1
      = [] ++ List.replicate 199 (entry 1 .write [97]) := by
  have hhead : Frames.head goHost.crc
      ([27] ++ written goHost (List.replicate 199 (entry 1 .write [97]))) = .corrupt := by
    decide +kernel
  have hsurvives := torn_write_is_survived_iff goHost [] (List.replicate 199 (entry 1 .write [97]))
    ⟨by decide +kernel, by decide +kernel, by decide +kernel⟩ [27] 0 (by
      intro i hi raw
      rw [Nat.lt_one_iff.mp hi, List.drop_zero, hhead]
      exact Frames.Head.noConfusion)
  exact (hsurvives.mpr (.inr (by decide +kernel))).1

theorem torn_frame_hides_entries
    : (replay goHost ⟨0, written goHost [entry 1 .commit [98]]
        ++ ([27, 0, 0, 0] ++ written goHost [entry 2 .write [97]])⟩).1
        = [entry 1 .commit [98]]
      ∧ (compact goHost ⟨0, written goHost [entry 1 .commit [98]]
          ++ ([27, 0, 0, 0] ++ written goHost [entry 2 .write [97]])⟩).file = [] := by
  decide +kernel

end FuseJournal
