import Drive9.Fuse.Journal.Impl
import Mathlib.Data.List.Induction

/-!
This module contains what the write-ahead log gives back after a crash and after a compaction.
-/

namespace FuseJournal

open List

open Frames (Octets)

def frames (host : Host) (es : List JournalEntry) : List Octets :=
  es.map fun e => Frames.frame host.crc (host.marshal e)

def written (host : Host) (es : List JournalEntry) : Octets := (frames host es).flatten

/--
The entries whose frames are among the first `k` bytes.
-/
def complete (host : Host) : Nat → List JournalEntry → List JournalEntry
  | _, [] => []
  | k, e :: es =>
    let n := (Frames.frame host.crc (host.marshal e)).length
    if n ≤ k then e :: complete host (k - n) es else []

def covers (c e : JournalEntry) : Bool := c.op = .commit ∧ c.path = e.path ∧ e.seq ≤ c.seq

def live (es : List JournalEntry) : List JournalEntry :=
  es.filter fun e => es.all fun c => !covers c e

/--
Entries as `Append` has numbered them, each short enough for the length of its frame.
-/
structure Written (host : Host) (es : List JournalEntry) : Prop where
  exact : ∀ e ∈ es, host.unmarshal (host.marshal e) = some e
  short : ∀ e ∈ es, (host.marshal e).length < 2 ^ 32
  numbered : ∀ e ∈ es, e.seq ≠ 0

section

variable {host : Host}

theorem Written.mono (h : Written host es) (hsub : ∀ e ∈ es', e ∈ es) : Written host es' where
  exact e he := h.exact e (hsub e he)
  short e he := h.short e (hsub e he)
  numbered e he := h.numbered e (hsub e he)

variable {es es' : List JournalEntry} {entry e : JournalEntry} {m : FMap Octets Nat}

theorem frames_append (host : Host) (es es')
    : frames host (es ++ es') = frames host es ++ frames host es' :=
  map_append

theorem append_written (es) (hseq : n + 1 < 2 ^ 64) (entry)
    : append host ⟨n, written host es⟩ entry
      = ⟨n + 1, written host (es ++ [{ entry with seq := n + 1 }])⟩ := by
  unfold append
  rw [Nat.mod_eq_of_lt hseq, written, written, frames_append, flatten_append]
  simp [frames]

theorem scan_written (h : Written host es) (rest : Octets)
    : Frames.scan host.crc 0 (written host es ++ rest)
      = frames host es ++ Frames.scan host.crc 0 rest := by
  have hps : ∀ p ∈ es.map host.marshal, p.length < 2 ^ 32 := by
    simpa using h.short
  have hscan := @Frames.scan_frames host.crc _ hps rest
  rw [map_map] at hscan
  exact hscan

theorem decode_frame (h : Written host es) (he : e ∈ es)
    : decode host (Frames.frame host.crc (host.marshal e)) = some e := by
  unfold decode
  rw [Frames.payload_frame, h.exact e he]

theorem entries_of_scan (h : Written host es) (hscan : Frames.scan host.crc 0 file = frames host es)
    : entries host file = es := by
  have hdecode : es.filterMap (decode host ∘ fun e => Frames.frame host.crc (host.marshal e))
      = es.filterMap some :=
    filterMap_congr fun e he => decode_frame h he
  unfold entries frames at *
  rw [hscan, filterMap_map, hdecode, filterMap_some]

theorem entries_written (h : Written host es) : entries host (written host es) = es := by
  have hscan := scan_written h []
  rw [append_nil, Frames.scan, append_nil] at hscan
  exact entries_of_scan h hscan

theorem mem_of_mem_complete (he : e ∈ complete host k es) : e ∈ es := by
  induction es generalizing k with
  | nil => cases he
  | cons e' es ih =>
    unfold complete at he
    dsimp only at he
    split at he
    . rcases mem_cons.mp he with rfl | he
      . exact mem_cons_self
      . exact mem_cons_of_mem e' (ih he)
    . cases he

theorem scan_take (h : Written host es) (k : Nat)
    : Frames.scan host.crc 0 ((written host es).take k) = frames host (complete host k es) := by
  induction es generalizing k with
  | nil =>
    rw [show written host [] = [] from rfl, take_nil]
    rfl
  | cons e es ih =>
    have hwritten : written host (e :: es)
        = Frames.frame host.crc (host.marshal e) ++ written host es :=
      flatten_cons
    have hshort := h.short e mem_cons_self
    unfold complete
    dsimp only
    split
    . next hfits =>
      rw [hwritten, take_append, take_of_length_le hfits, Frames.scan_frame hshort,
        ih (h.mono fun _ => mem_cons_of_mem e)]
      rfl
    . next htorn =>
      rw [hwritten, take_append_of_le_length (by omega)]
      exact Frames.scan_take_frame hshort (by omega)

theorem isKept_recordCommit (hc : c.seq ≠ 0) (m) (e)
    : isKept (recordCommit m c) e = (isKept m e && !covers c e) := by
  rw [Bool.eq_iff_iff]
  unfold isKept recordCommit covers
  by_cases hcommit : c.op = .commit
  . by_cases hpath : c.path = e.path
    . rw [← hpath]
      cases hget : m.get? c.path with
      | none => simp [hcommit, Nat.pos_of_ne_zero hc]
      | some b =>
        by_cases hlater : c.seq > b
        . simp [hcommit, hlater]
          omega
        . simp [hcommit, hlater, hget]
          omega
    . have hne : e.path ≠ c.path := fun heq => hpath heq.symm
      split
      . simp [hpath, FMap.get?_set_ne _ _ hne]
      . simp [hpath]
  . simp [hcommit]

theorem isKept_foldl (hseq : ∀ c ∈ es, c.seq ≠ 0) (m) (e)
    : isKept (es.foldl recordCommit m) e = (isKept m e && es.all fun c => !covers c e) := by
  induction es generalizing m with
  | nil => simp
  | cons c es ih =>
    rw [forall_mem_cons] at hseq
    rw [foldl_cons, ih hseq.2, isKept_recordCommit hseq.1, all_cons, Bool.and_assoc]

theorem isKept_committedUpTo (h : Written host es) (e)
    : isKept (committedUpTo es) e = es.all fun c => !covers c e :=
  isKept_foldl h.numbered .empty e

theorem committedUpTo_of_no_commit (h : ∀ e ∈ es, e.op ≠ .commit) : committedUpTo es = .empty := by
  unfold committedUpTo
  induction es with
  | nil => rfl
  | cons e es ih =>
    rw [forall_mem_cons] at h
    have hskip : recordCommit .empty e = .empty := if_neg fun hcommit => h.1 hcommit.1
    rw [foldl_cons, hskip, ih h.2]

theorem op_ne_commit_of_mem_live (he : e ∈ live es) : e.op ≠ .commit := by
  intro hcommit
  obtain ⟨he, hall⟩ := mem_filter.mp he
  have hself := all_eq_true.mp hall e he
  simp [covers, hcommit] at hself

section

variable {j : Journal} (h : Written host es)
  (hscan : Frames.scan host.crc 0 j.file = frames host es)

include h hscan

theorem file_compact : (compact host j = j ∧ live es = es) ∨ (compact host j).file = written host
    (live es) := by
  unfold compact
  dsimp only
  rw [entries_of_scan h hscan, hscan]
  split
  . next hempty =>
    refine .inl ⟨rfl, filter_eq_self.mpr fun e he => ?_⟩
    rw [← isKept_committedUpTo h, isKept, FMap.get?_of_isEmpty hempty]
    rfl
  . right
    have hkept : es.filter ((fun raw => (decode host raw).any (isKept (committedUpTo es)))
          ∘ fun e => Frames.frame host.crc (host.marshal e)) = live es := by
      apply filter_congr
      intro e he
      rw [Function.comp_apply, decode_frame h he, Option.any_some, isKept_committedUpTo h]
    rw [frames, filter_map, hkept]
    rfl

theorem entries_compact : entries host (compact host j).file = live es := by
  cases file_compact h hscan with
  | inl hsame => rw [hsame.1, hsame.2, entries_of_scan h hscan]
  | inr hfile =>
    rw [hfile]
    exact entries_written (h.mono fun e he => (mem_filter.mp he).1)

theorem compact_compact : compact host (compact host j) = compact host j := by
  cases file_compact h hscan with
  | inl hsame => rw [hsame.1, hsame.1]
  | inr _ =>
    have hentries := entries_compact h hscan
    generalize compact host j = j' at hentries
    unfold compact
    rw [hentries, committedUpTo_of_no_commit fun e => op_ne_commit_of_mem_live]
    rfl

end

end

/--
A log that was cut off anywhere gives back the entries that are there as a whole; a compaction
leaves those without a commit of the same path at or after them, and changes nothing when it is made
again.
-/
theorem compaction_keeps_recovery (host : Host) (es : List JournalEntry) (h : Written host es)
    (seq k : Nat)
    : (replay host ⟨seq, (written host es).take k⟩).1 = complete host k es
      ∧ (replay host ⟨seq, (written host es).take k⟩).2.seq = maxSeq (complete host k es)
      ∧ (replay host (compact host ⟨seq, (written host es).take k⟩)).1 = live (complete host k es)
      ∧ compact host (compact host ⟨seq, (written host es).take k⟩)
        = compact host ⟨seq, (written host es).take k⟩ := by
  have hwhole : Written host (complete host k es) := h.mono fun e => mem_of_mem_complete
  have hentries := entries_of_scan hwhole (scan_take h k)
  refine ⟨hentries, ?_, entries_compact hwhole (scan_take h k),
    compact_compact hwhole (scan_take h k)⟩
  rw [replay, hentries]

def entry (seq : Nat) (op : JournalOp) (path : Octets) : JournalEntry :=
  ⟨seq, op, 0, path, [], 0, 0, 0, 0⟩

def crcBit (c : Nat) : Nat := if c % 2 = 1 then c / 2 ^^^ 0xEDB88320 else c / 2

-- The register is compared at every byte, so that the kernel evaluates it there.
def crcBytes (c : Nat) : Octets → Nat
  | [] => c
  | b :: bs => if c < 2 ^ 32 then crcBytes (Nat.repeat crcBit 8 (c ^^^ b.toNat)) bs else 0

def checksumIEEE (p : Octets) : UInt32 := .ofNat (crcBytes 0xFFFFFFFF p ^^^ 0xFFFFFFFF)

def ascii (cs : List Char) : Octets := cs.map fun c => .ofNat c.toNat

example : checksumIEEE (ascii "123456789".toList) = 0xCBF43926 := by decide +kernel

-- `encoding/json` on writes and commits of paths that it does not escape.
def goHost : Host where
  crc := checksumIEEE
  marshal e :=
    ascii ("\x7b\"seq\":".toList ++ Nat.toDigits 10 e.seq ++ ",\"op\":".toList
      ++ (if e.op = .commit then '7' else '0') :: ",\"path\":\"".toList) ++ (e.path ++ ascii "\"\x7d".toList)
  unmarshal p :=
    match (p.dropWhile (· ≠ 44)).drop 6 with
    | op :: rest =>
      some (entry (((p.takeWhile (· ≠ 44)).drop 7).foldl (fun n d => n * 10 + (d.toNat - 48)) 0)
        (if op = 55 then .commit else .write) (rest.drop 9).dropLast.dropLast)
    | [] => none

theorem compaction_keeps_recovery_cut
    : (replay goHost (compact goHost ⟨0, (written goHost
        [entry 1 .write [97], entry 2 .write [98], entry 3 .commit [97], entry 4 .write [97]]).take 120⟩)).1
      = [entry 2 .write [98]] := by
  have h := (compaction_keeps_recovery goHost
    [entry 1 .write [97], entry 2 .write [98], entry 3 .commit [97], entry 4 .write [97]]
    ⟨by decide +kernel, by decide +kernel, by decide⟩ 0 120).2.2.1
  rw [h]
  decide +kernel

-- An append, or `NewJournal` and `Replay` when the mount comes up again.
def appendOrRestart (host : Host) (j : Journal) : Option JournalEntry → Journal
  | some entry => append host j entry
  | none => (replay host ⟨0, j.file⟩).2

def numbered (es : List JournalEntry) : List JournalEntry :=
  es.mapIdx fun i e => { e with seq := i + 1 }

theorem numbered_concat (es e)
    : numbered (es ++ [e]) = numbered es ++ [{ e with seq := es.length + 1 }] :=
  mapIdx_concat

theorem maxSeq_numbered (es) : maxSeq (numbered es) = es.length := by
  unfold maxSeq
  induction es using reverseRecOn with
  | nil => rfl
  | append_singleton es e ih => simp [numbered_concat, ih]

section Runs

variable {host : Host} {ops : List (Option JournalEntry)}
  (h : Written host (numbered (ops.filterMap id)))
  (hlen : (ops.filterMap id).length < 2 ^ 64)

include h hlen

theorem foldl_appendOrRestart : ops.foldl (appendOrRestart host) ⟨0, []⟩
    = ⟨(ops.filterMap id).length, written host (numbered (ops.filterMap id))⟩ := by
  induction ops using reverseRecOn with
  | nil => rfl
  | append_singleton ops op ih =>
    rw [foldl_append, foldl_cons, foldl_nil]
    cases op with
    | none =>
      have hsame : (ops ++ [none]).filterMap id = ops.filterMap id := by simp
      rw [hsame] at h hlen ⊢
      rw [ih h hlen, appendOrRestart, replay, entries_written h, maxSeq_numbered]
    | some e =>
      have hnew : (ops ++ [some e]).filterMap id = ops.filterMap id ++ [e] := by simp
      rw [hnew, length_append, length_singleton] at hlen
      rw [hnew, numbered_concat] at h ⊢
      rw [ih (h.mono fun _ => mem_append_left _) (by omega), appendOrRestart, append_written _ hlen,
        length_append, length_singleton]

/--
Over any restarts the log numbers its entries without a gap and gives all of them back in order.
-/
theorem replay_gives_back_appended : replay host (ops.foldl (appendOrRestart host) ⟨0, []⟩)
    = (numbered (ops.filterMap id), ops.foldl (appendOrRestart host) ⟨0, []⟩) := by
  rw [foldl_appendOrRestart h hlen, replay, entries_written h, maxSeq_numbered]

end Runs

theorem replay_gives_back_appended_restarted
    : (replay goHost ([some (entry 0 .write [97]), none, some (entry 0 .commit [97])].foldl (appendOrRestart goHost)
        ⟨0, []⟩)).1 = [entry 1 .write [97], entry 2 .commit [97]] := by
  rw [replay_gives_back_appended ⟨by decide +kernel, by decide +kernel, by decide⟩ (by decide)]
  rfl

theorem not_mem_entries (hpath : 2 ^ 32 ≤ path.length)
    : entry seq op path ∉ entries goHost file := by
  intro hmem
  obtain ⟨raw, hraw, hdecode⟩ := mem_filterMap.mp hmem
  have hshort := Frames.length_of_mem_scan hraw
  have hlen : (Frames.payload raw).length ≤ raw.length - 8 := length_take_le ..
  unfold decode goHost at hdecode
  dsimp only at hdecode
  split at hdecode
  . next op rest hrest =>
    rw [← (JournalEntry.mk.inj (Option.some.inj hdecode)).2.2.2.1] at hpath
    have hdrop := ((Frames.payload raw).dropWhile_sublist (· ≠ 44)).length_le
    have hlong := congrArg length hrest
    simp only [length_dropLast, length_drop, length_cons] at hpath hlong
    omega
  . contradiction

-- A frame has four bytes for the length, so no frame holds a path of 4 GiB.
theorem long_entry_is_lost
    : (replay goHost (append goHost ⟨0, []⟩ (entry 0 .write (List.replicate (2 ^ 32) 97)))).1
      ≠ [entry 1 .write (List.replicate (2 ^ 32) 97)] := by
  have hlong : 2 ^ 32 ≤ (List.replicate (2 ^ 32) (97 : UInt8)).length := by
    rw [List.length_replicate]
  generalize List.replicate (2 ^ 32) (97 : UInt8) = path at hlong ⊢
  intro heq
  have hmem := List.mem_singleton_self (entry 1 .write path)
  rw [← heq] at hmem
  exact not_mem_entries hlong hmem

end FuseJournal
