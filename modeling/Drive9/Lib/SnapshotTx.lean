import Mathlib.Tactic.Common

/-!
This module contains the transactions of a database with snapshot reads and row locks.
-/

structure SnapshotTx (σ ω κ : Type) where
  snapshot : Option σ
  writes : List ω
  locks : List κ

namespace SnapshotTx

variable {σ ω κ : Type}

def start : SnapshotTx σ ω κ := ⟨none, [], []⟩

def current (apply : σ → ω → σ) (t : SnapshotTx σ ω κ) (committed : σ) : σ :=
  t.writes.foldl apply committed

def read (apply : σ → ω → σ) (t : SnapshotTx σ ω κ) (committed : σ) : σ :=
  t.writes.foldl apply (t.snapshot.getD committed)

def opened (t : SnapshotTx σ ω κ) (committed : σ) : SnapshotTx σ ω κ :=
  { t with snapshot := some (t.snapshot.getD committed) }

def lock (t : SnapshotTx σ ω κ) (keys : List κ) : SnapshotTx σ ω κ :=
  { t with locks := t.locks ++ keys }

def write (t : SnapshotTx σ ω κ) (keys : List κ) (w : ω) : SnapshotTx σ ω κ :=
  { t with writes := t.writes ++ [w], locks := t.locks ++ keys }

theorem current_write (apply : σ → ω → σ) (t : SnapshotTx σ ω κ) (keys : List κ) (w : ω)
    (committed : σ)
    : (t.write keys w).current apply committed = apply (t.current apply committed) w := by
  unfold write current
  rw [List.foldl_append]
  rfl

end SnapshotTx
