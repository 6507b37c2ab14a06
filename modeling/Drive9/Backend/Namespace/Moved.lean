import Drive9.Backend.Namespace.Effects

/-!
This module contains what the invariants of the namespace share.
-/

open List

namespace Datastore

open NodeUpdate

def HasDir (nodes : List FileNode) (d : Str) : Prop :=
  ∃ n ∈ nodes, n.path = d ∧ n.isDirectory = true

instance decidableHasDir (nodes : List FileNode) (d : Str) : Decidable (HasDir nodes d) :=
  inferInstanceAs (Decidable (∃ n ∈ nodes, _))

def Makeable (dirID : Str → ID) (nodes : List FileNode) (d : Str) : Prop :=
  HasDir nodes d ∨ ∀ n ∈ nodes, n.nodeID ≠ dirID d ∧ n.path ≠ d

structure SubtreeMoved (oldPath newPath : Str) (move : FileNode → FileNode)
    (nodes : List FileNode) : Prop where
  keys : KeysOk (nodes.map move)
  rows : ∀ n ∈ nodes, Relocated oldPath newPath n (move n)

theorem subtreeMoved_applyAll (hkeys : KeysOk db.fileNodes) (hd : ∀ c ∈ e ++ ['/'], Like.literal c)
    (hrename : updateNodesTx (renameUpdates (e ++ ['/']) d' db) db = .ok (a, db'))
    : SubtreeMoved (e ++ ['/']) d' (applyAll (renameUpdates (e ++ ['/']) d' db)) db.fileNodes := by
  refine ⟨?_, fun n hn => relocated_applyAll hkeys.nodeIDs hd hn⟩
  have hkeys' := hkeys.updates hrename
  rwa [updateNodesTx_ok hrename] at hkeys'

section Parents

variable {dirID : Str → ID} {nodes nodes' : List FileNode} {dirs : List Str} {c d : Str}

theorem HasDir.of_dirsMade (h : HasDir nodes d) (hmade : DirsMade dirID dirs nodes nodes')
    : HasDir nodes' d := by
  obtain ⟨n, hn, hpath, hdir⟩ := h
  obtain ⟨n', hn', hfill⟩ := hmade.old n hn
  exact ⟨n', hn', hfill.path.trans hpath, hfill.isDirectory.trans hdir⟩

theorem hasDir_ensureDirRow (h : Makeable dirID nodes d)
    : HasDir (ensureDirRow dirID nodes d) d := by
  cases h with
  | inl h => exact h.of_dirsMade (DirsMade.ensureDirRow nodes d)
  | inr h =>
    have hnone : nodes.find? (fun n => n.path = d ∧ n.isDirectory) = none := by
      rw [find?_eq_none]
      intro n hn hc
      rw [decide_eq_true_eq] at hc
      exact (h n hn).2 hc.1
    have hany : nodes.any (fun m => m.nodeID = dirID d ∨ m.path = d) = false := by
      rw [any_eq_false]
      intro n hn hc
      rw [decide_eq_true_eq] at hc
      cases hc with
      | inl hc => exact (h n hn).1 hc
      | inr hc => exact (h n hn).2 hc
    unfold ensureDirRow
    rw [hnone, hany]
    exact ⟨madeDir dirID d, by simp, rfl, rfl⟩

variable (hinj : Function.Injective dirID)

include hinj

theorem Makeable.ensureDirRow (h : Makeable dirID nodes c)
    : Makeable dirID (ensureDirRow dirID nodes d) c := by
  have hmade := @DirsMade.ensureDirRow dirID nodes d
  cases h with
  | inl h => exact .inl (h.of_dirsMade hmade)
  | inr h =>
    by_cases heq : c = d
    . subst heq
      exact .inl (hasDir_ensureDirRow (.inr h))
    . right
      intro n' hn'
      cases hmade.new n' hn' with
      | inl hold =>
        obtain ⟨n, hn, hfill⟩ := hold
        rw [hfill.nodeID, hfill.path]
        exact h n hn
      | inr hnew =>
        obtain ⟨d', hd', hfill, _⟩ := hnew
        rw [mem_singleton.mp hd'] at hfill
        rw [hfill.nodeID, hfill.path]
        exact ⟨fun hid => heq (hinj hid).symm, Ne.symm heq⟩

theorem hasDir_foldl (h : ∀ d ∈ dirs, Makeable dirID nodes d)
    : ∀ d ∈ dirs, HasDir (dirs.foldl (ensureDirRow dirID) nodes) d := by
  induction dirs generalizing nodes with
  | nil => intro d hd; contradiction
  | cons c dirs ih =>
    intro d hd
    rw [foldl_cons]
    cases mem_cons.mp hd with
    | inl heq =>
      subst heq
      exact (hasDir_ensureDirRow (h d mem_cons_self)).of_dirsMade (DirsMade.foldl _ dirs)
    | inr hd =>
      apply ih _ d hd
      intro d' hd'
      exact (h d' (mem_cons_of_mem c hd')).ensureDirRow hinj

theorem hasDir_withParents (h : ∀ d ∈ dirsAbove path, Makeable dirID nodes d)
    : ∀ d ∈ ancestors path.length path, HasDir (withParents dirID path nodes) d := by
  intro d hd
  apply hasDir_foldl hinj
  . intro d' hd'
    exact h d' (ancestors_subset (mem_reverse.mp hd'))
  . exact mem_reverse.mpr hd

end Parents

namespace FileRenamed

variable {oldPath newPath : Str} {u : NodeUpdate} {old n : FileNode} {s s' : FileStore}

section

variable (h : FileRenamed oldPath newPath u old s s')

include h

theorem fileNodes : s'.db.fileNodes = replacedNodes s.db.fileNodes (s.db.node? newPath) u :=
  h.collected.fileNodes

section

variable (hkeys : KeysOk s.db.fileNodes)

include hkeys

theorem keysOk : KeysOk s'.db.fileNodes := by
  rw [h.fileNodes]
  apply hkeys.replaced
  rw [h.path, h.nodeID]
  exact h.free

theorem mem_cases (hn : n ∈ s'.db.fileNodes)
    : n ∈ s.db.fileNodes ∨ n = { old with path := u.newPath, parentPath := u.newParent, name := u.newName } := by
  rw [h.fileNodes] at hn
  obtain ⟨m, hm, _, rfl⟩ := mem_replacedNodes.mp hn
  unfold NodeUpdate.apply
  split
  . next hid =>
    right
    rw [hkeys.eq_of_nodeID hm (Db.mem_of_node? h.source).1 (hid.trans h.nodeID)]
  . exact .inl hm

theorem mem_of_isDirectory (hn : n ∈ s.db.fileNodes) (hdir : n.isDirectory = true)
    : n ∈ s'.db.fileNodes := by
  rw [h.fileNodes]
  refine mem_replacedNodes.mpr ⟨n, hn, ?_, apply_of_ne ?_⟩
  . intro dst hdst hid
    have heq := hkeys.eq_of_nodeID (Db.mem_of_node? hdst).1 hn hid
    have hfile := (h.target dst hdst).1
    rw [heq, hdir] at hfile
    contradiction
  . intro hid
    have heq := hkeys.eq_of_nodeID hn (Db.mem_of_node? h.source).1 (hid.trans h.nodeID)
    have hfile := h.file
    rw [← heq, hdir] at hfile
    contradiction

end

end

end FileRenamed

end Datastore

namespace Backend

open Datastore Pathutil

namespace NamespaceOp

def paths (op : NamespaceOp) : List Str :=
  match op with
  | .write _ _ path _ _ _ => [path]
  | .mkdir _ _ path => [path]
  | .copyFile _ srcPath dstPath => [srcPath, dstPath]
  | .rename oldPath newPath => [oldPath, newPath]
  | .remove path => [path]
  | .removeAll path => [path]

end NamespaceOp

theorem literal_of_resolveNodePath (laws : NfcLaws nfc) (hp : canonicalize nfc raw = .ok p)
    (hplain : '_' ∉ raw ∧ '%' ∉ raw) (hresolve : resolveNodePath nfc db raw = some (path, node))
    : ∀ c ∈ path, Like.literal c := by
  have hliteral := literal_dirForm laws hp hplain
  cases path_of_resolveNodePath laws hp hresolve with
  | inl h => exact h ▸ hliteral
  | inr h =>
    intro c hc
    apply hliteral c
    unfold dirForm
    rw [h.2] at hc
    split
    . exact mem_append_left _ hc
    . exact hc

section ForKind

variable {nfc : Str → Str} (laws : NfcLaws nfc) {path : Str} (hpath : CanonicalPath nfc path)

include laws hpath

theorem canonicalizePathForKind_dir
    : canonicalizeDir nfc path = .ok (canonicalizePathForKind nfc path true) := by
  obtain ⟨p, hp⟩ := hpath.exists_canonicalize laws
  unfold canonicalizePathForKind
  rw [if_pos rfl, canonicalizeDir_of_canonicalize laws hp]

theorem canonicalizePathForKind_file (hlast : path = ['/'] ∨ path.getLast? ≠ some '/')
    : canonicalizePathForKind nfc path false = path := by
  unfold canonicalizePathForKind normalizePath isDir
  rw [if_neg Bool.false_ne_true]
  obtain rfl | ⟨segs, s, hgood, rfl | rfl⟩ := hpath.cases laws
  . rfl
  . have hne := (render_concat_ne segs (segment_last hgood)).1
    rw [decide_eq_false hne, decide_eq_false (hlast.resolve_left hne), Bool.or_false,
      if_neg Bool.false_ne_true, canonicalize_render_concat laws hgood]
  . have hne := (render_concat_ne segs (segment_last hgood)).2
    exact absurd getLast?_concat (hlast.resolve_left hne)

theorem mem_dirsAbove_forKind (isDirectory : Bool) (d)
    : d ∈ dirsAbove (canonicalizePathForKind nfc path isDirectory) ↔ d ∈ dirsAbove path := by
  have hdir := canonicalizePathForKind_dir laws hpath
  cases isDirectory with
  | true => exact (hpath.dir laws hdir).2.2 d
  | false =>
    obtain ⟨p, hp⟩ := hpath.exists_canonicalize laws
    unfold canonicalizePathForKind normalizePath
    rw [if_neg Bool.false_ne_true, hdir, hp]
    split
    . exact (hpath.dir laws hdir).2.2 d
    . exact (hpath.file laws hp).2.2 d

end ForKind

end Backend
