import Drive9.Lib.Machine
import Drive9.Fuse.WriteBuffer.Lemmas.Truncate
import Drive9.Fuse.WriteBuffer.Lemmas.Write

/-!
This module contains the operations that change a file, on a plain file and on a write buffer.
-/

inductive FileOp where
  | write (off : Nat) (data : Bytes)
  | truncate (size : Int)

namespace FileOp

variable {wb wb' : WriteBuffer}

def Accepted (maxSize : Int) (op : FileOp) : Prop :=
  match op with
  | .write off data => (off : Int) + data.length ≤ maxSize
  | .truncate size => size ≤ maxSize

instance (maxSize : Int) (op : FileOp) : Decidable (Accepted maxSize op) := by
  unfold Accepted
  split <;> infer_instance

def change (file : Bytes) (op : FileOp) : Bytes :=
  match op with
  | .write off data => Flat.write 0 file off data
  | .truncate size => Flat.resize 0 file size.toNat

/--
The file as its user thinks of it: a byte string that a write extends with zeros and overwrites,
that a truncate cuts or extends with zeros, and that never grows beyond `maxSize`.
-/
def applyRef (maxSize : Int) (file : Bytes) (op : FileOp) : Bytes × Option BufError :=
  if op.Accepted maxSize then
    (op.change file, none)
  else
    (file, some .efbig)

def apply (wb : WriteBuffer) (op : FileOp) : Option (WriteBuffer × Option BufError) :=
  match op with
  | .write off data => (wb.write off data).map (fun r => (r.buf, r.err))
  | .truncate size => wb.truncate size

-- The sums that the buffer forms for the operation stay inside `int64`.
def Fits (maxSize partSize : Int) (op : FileOp) : Prop :=
  match op with
  | .write off data =>
    (off : Int) + data.length ≤ maxInt64
      ∧ ((off : Int) + data.length ≤ maxSize → (off : Int) + data.length + partSize ≤ maxInt64 + 1)
  | .truncate size => size ≤ maxSize → size + partSize ≤ maxInt64 + 1

instance (maxSize partSize : Int) (op : FileOp) : Decidable (Fits maxSize partSize op) := by
  unfold Fits
  split <;> infer_instance

def Changed (wb : WriteBuffer) (op : FileOp) (wb' : WriteBuffer) : Prop :=
  match op with
  | .write off data => wb.Written off data wb'
  | .truncate size => wb.Truncated size.toNat wb'

variable {op : FileOp}

theorem Changed.wf (h : op.Changed wb wb') : wb'.Wf := by
  cases op with
  | write off data => exact WriteBuffer.Written.wf h
  | truncate size => exact WriteBuffer.Truncated.wf h

theorem Changed.cfg (h : op.Changed wb wb') : wb.SameCfg wb' := by
  cases op with
  | write off data => exact WriteBuffer.Written.cfg h
  | truncate size => exact WriteBuffer.Truncated.cfg h

theorem Changed.size (h : op.Changed wb wb') (hsize : wb.totalSize = file.length)
    : wb'.totalSize = (op.change file).length := by
  cases op with
  | write off data =>
    unfold change
    rw [WriteBuffer.Written.size h, hsize, Flat.length_write]
    omega
  | truncate size =>
    unfold change
    rw [WriteBuffer.Truncated.size h, Flat.length_resize]

theorem apply_accepted (hwf : wb.Wf) (hpf : wb.onPartFull ≠ .evictPart)
    (hfits : op.Fits wb.maxSize wb.partSize) (hacc : op.Accepted wb.maxSize)
    : ∃ wb', op.apply wb = some (wb', none) ∧ op.Changed wb wb' := by
  cases op with
  | write off data =>
    obtain ⟨r, hr, herr, hw, _⟩ := WriteBuffer.write_written hwf hpf hacc (hfits.2 hacc)
    unfold apply
    dsimp only
    rw [hr, Option.map_some, herr]
    exact ⟨r.buf, rfl, hw⟩
  | truncate size => exact WriteBuffer.truncate_truncated hwf hacc (hfits hacc)

theorem apply_rejected (hfits : op.Fits wb.maxSize wb.partSize) (hacc : ¬ op.Accepted wb.maxSize)
    : op.apply wb = some (wb, some .efbig) := by
  cases op with
  | write off data =>
    unfold Accepted at hacc
    unfold apply
    dsimp only at hacc ⊢
    rw [WriteBuffer.write_efbig hfits.1 (by omega)]
    rfl
  | truncate size =>
    unfold Accepted at hacc
    exact WriteBuffer.truncate_efbig (by omega)

theorem apply_refines (rel : WriteBuffer → Bytes → Prop) (file : Bytes) (hwf : wb.Wf)
    (hpf : wb.onPartFull ≠ .evictPart) (hfits : op.Fits wb.maxSize wb.partSize)
    (hsame : rel wb file)
    (hchange : op.Accepted wb.maxSize → ∀ wb', op.Changed wb wb' → rel wb' (op.change file))
    : ∃ wb', op.apply wb = some (wb', (op.applyRef wb.maxSize file).2)
        ∧ rel wb' (op.applyRef wb.maxSize file).1
        ∧ wb.SameCfg wb' := by
  unfold applyRef
  split
  . next hacc =>
    obtain ⟨wb', happly, hch⟩ := apply_accepted hwf hpf hfits hacc
    exact ⟨wb', happly, hchange hacc wb' hch, hch.cfg⟩
  . next hacc => exact ⟨wb, apply_rejected hfits hacc, hsame, .refl wb⟩

end FileOp
