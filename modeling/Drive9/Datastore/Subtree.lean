import Drive9.Datastore.Namespace
import Drive9.Datastore.Parents

/-!
This module contains what a recursive delete and a directory rename do to `file_nodes`.
-/

open List hiding count

namespace Datastore

open Pathutil Str

theorem inDir_iff (hd : ∀ c ∈ d, Like.literal c) (n : FileNode)
    : inDir d n = true ↔ d <+: n.path := by
  unfold inDir
  rw [Bool.or_eq_true, decide_eq_true_iff, Like.accepts_literal hd]
  constructor
  . rintro (h | h)
    . rw [h]
    . exact h
  . exact .inr

theorem fileNodes_markFileDeleted (db : Db) (fileID : ID)
    : (db.markFileDeleted fileID).fileNodes = db.fileNodes := by
  unfold Db.markFileDeleted
  split
  all_goals rfl

theorem fileNodes_foldl_markFileDeleted (db : Db) (fileIDs : List ID)
    : (fileIDs.foldl Db.markFileDeleted db).fileNodes = db.fileNodes := by
  induction fileIDs generalizing db with
  | nil => rfl
  | cons fileID fileIDs ih => rw [foldl_cons, ih, fileNodes_markFileDeleted]

theorem deleteDirRecursive_ok (d : Str) (db : Db)
    : ∃ out db', deleteDirRecursive d db = .ok (out, db')
      ∧ db'.fileNodes = db.fileNodes.filter fun n => !inDir d n := by
  refine ⟨_, _, rfl, ?_⟩
  rw [fileNodes_foldl_markFileDeleted]
  rfl

variable {u : NodeUpdate} {us : List NodeUpdate}

namespace NodeUpdate

@[simp]
theorem nodeID_apply (u : NodeUpdate) (n : FileNode) : (u.apply n).nodeID = n.nodeID := by
  unfold apply
  split
  all_goals rfl

def applyAll (us : List NodeUpdate) (n : FileNode) : FileNode := us.foldl (fun n u => u.apply n) n

theorem apply_of_ne (h : n.nodeID ≠ u.nodeID) : u.apply n = n := by
  unfold apply
  rw [if_neg h]

theorem applyAll_of_ne (h : ∀ u ∈ us, n.nodeID ≠ u.nodeID) : applyAll us n = n := by
  induction us with
  | nil => rfl
  | cons u us ih =>
    rw [forall_mem_cons] at h
    unfold applyAll at *
    rw [foldl_cons, apply_of_ne h.1]
    exact ih h.2

theorem applyAll_of_mem (hnd : (us.map (·.nodeID)).Nodup) (hu : u ∈ us) (hn : n.nodeID = u.nodeID)
    : applyAll us n = u.apply n := by
  induction us generalizing n with
  | nil => contradiction
  | cons v us ih =>
    rw [map_cons, nodup_cons] at hnd
    change applyAll us (v.apply n) = _
    cases mem_cons.mp hu with
    | inl heq =>
      subst heq
      apply applyAll_of_ne
      intro w hw hc
      rw [nodeID_apply, hn] at hc
      exact hnd.1 (mem_map.mpr ⟨w, hw, hc.symm⟩)
    | inr hu =>
      have hne : n.nodeID ≠ v.nodeID := by
        intro hc
        exact hnd.1 (mem_map.mpr ⟨u, hu, hn.symm.trans hc⟩)
      rw [apply_of_ne hne]
      exact ih hnd.2 hu hn

end NodeUpdate

open NodeUpdate Transaction

theorem updateNodeTx_ok (h : updateNodeTx u db = .ok (a, db'))
    : db' = { db with fileNodes := db.fileNodes.map u.apply } := by
  have hrest := of_get h
  obtain ⟨_, hmodify⟩ := of_require_bind hrest
  cases hmodify
  rfl

theorem updateNodesTx_ok (h : updateNodesTx us db = .ok (a, db'))
    : db' = { db with fileNodes := db.fileNodes.map (applyAll us) } := by
  induction us generalizing db with
  | nil =>
    cases h
    have hid : applyAll [] = id := rfl
    rw [hid, map_id]
  | cons u us ih =>
    obtain ⟨_, db1, h1, h2⟩ := of_bind h
    rw [ih h2, updateNodeTx_ok h1]
    rw [map_map]
    rfl

theorem updateNodeTx_of_free (h : ∀ m ∈ db.fileNodes, m.path = u.newPath → m.nodeID = u.nodeID)
    : updateNodeTx u db = .ok ((), { db with fileNodes := db.fileNodes.map u.apply }) := by
  change (require _ _ >>= fun _ => modify _) db = _
  unfold require
  rw [if_pos h]
  rfl

theorem updateNodesTx_of_free (hnew : (us.map (·.newPath)).Nodup)
    (h : ∀ u ∈ us, ∀ m ∈ db.fileNodes, m.path ≠ u.newPath)
    : ∃ db', updateNodesTx us db = .ok ((), db') := by
  induction us generalizing db with
  | nil => exact ⟨db, rfl⟩
  | cons u us ih =>
    rw [map_cons, nodup_cons] at hnew
    rw [forall_mem_cons] at h
    have hu := updateNodeTx_of_free fun m hm hpath => absurd hpath (h.1 m hm)
    have hfree : ∀ v ∈ us, ∀ m ∈ db.fileNodes.map u.apply, m.path ≠ v.newPath := by
      intro v hv m hm
      obtain ⟨n, hn, rfl⟩ := mem_map.mp hm
      unfold NodeUpdate.apply
      split
      . intro hc
        exact hnew.1 (mem_map.mpr ⟨v, hv, hc.symm⟩)
      . exact h.2 v hv n hn
    obtain ⟨db', hdb'⟩ := @ih { db with fileNodes := db.fileNodes.map u.apply } hnew.2 hfree
    refine ⟨db', ?_⟩
    change (updateNodeTx u db >>= fun r => updateNodesTx us r.2) = _
    rw [hu]
    exact hdb'

structure NodesOk (nfc : Str → Str) (nodes : List FileNode) : Prop where
  canonical : ∀ n ∈ nodes, ∃ raw, canonicalizeAs nfc raw n.isDirectory = .ok n.path
  nodeIDs : (nodes.map (·.nodeID)).Nodup
  paths : (nodes.map (·.path)).Nodup

structure Relocated (d d' : Str) (n n' : FileNode) : Prop where
  outside : ¬ d <+: n.path → n' = n
  top : n.path = d → n' = { n with path := d', parentPath := parentPath d', name := baseName d' }
  below : d <+: n.path → n.path ≠ d
    → n' = { n with path := d' ++ n.path.drop d.length, parentPath := n'.parentPath }
  parent : d <+: n.path → n.path ≠ d → n.parentPath = parentPath n.path
    → d <+: n.parentPath ∧ n'.parentPath = d' ++ n.parentPath.drop d.length

namespace Relocated

variable {d d' : Str} {n n' : FileNode}

theorem isDirectory (h : Relocated d d' n n') : n'.isDirectory = n.isDirectory := by
  by_cases hin : d <+: n.path
  . by_cases heq : n.path = d
    . rw [h.top heq]
    . rw [h.below hin heq]
  . rw [h.outside hin]

theorem path_of_append (h : Relocated d d' n n') (hpath : n.path = d ++ rest)
    : n'.path = d' ++ rest := by
  by_cases heq : n.path = d
  . have hrest : rest = [] := by
      rw [hpath] at heq
      simpa using heq
    rw [h.top heq, hrest, append_nil]
  . rw [h.below ⟨rest, hpath.symm⟩ heq, hpath, drop_left]

end Relocated

variable {p s : Str}

theorem prefix_parentPath (hp : e ++ ['/'] <+: p) (hne : p ≠ e ++ ['/'])
    : e ++ ['/'] <+: parentPath p := by
  obtain ⟨rest, rfl⟩ := hp
  have hrest : rest ≠ [] := by
    rintro rfl
    exact hne (append_nil _)
  rw [append_assoc, singleton_append, parentPath_append e hrest]
  exact ⟨_, append_assoc _ _ _⟩

namespace Relocated

variable {e f : Str} {n n' : FileNode}

section

variable (h : Relocated (e ++ ['/']) (f ++ ['/']) n n')

include h

theorem exists_below (hin : e ++ ['/'] <+: n.path) (hne : n.path ≠ e ++ ['/'])
    : ∃ rest, rest ≠ [] ∧ n.path = e ++ '/' :: rest ∧ n'.path = f ++ '/' :: rest := by
  obtain ⟨rest, hrest⟩ := hin
  have hpath := h.path_of_append hrest.symm
  rw [append_assoc, singleton_append] at hpath hrest
  refine ⟨rest, ?_, hrest.symm, hpath⟩
  rintro rfl
  exact hne hrest.symm

theorem parentPath_eq (hparent : n.parentPath = parentPath n.path)
    : n'.parentPath = parentPath n'.path := by
  by_cases hin : e ++ ['/'] <+: n.path
  . by_cases heq : n.path = e ++ ['/']
    . rw [h.top heq]
    . obtain ⟨rest, hne, hpath, hpath'⟩ := h.exists_below hin heq
      have hsplit : n.parentPath = e ++ ['/'] ++ dirPart (trimSlash rest) := by
        rw [hparent, hpath, parentPath_append e hne, append_assoc, singleton_append]
      rw [(h.parent hin heq hparent).2, hsplit, drop_left, hpath', parentPath_append f hne,
        append_assoc, singleton_append]
  . rw [h.outside hin]
    exact hparent

theorem name_eq (hin : e ++ ['/'] <+: n.path)
    (hname : n.path ≠ e ++ ['/'] → n.name = baseName n.path)
    : n'.name = baseName n'.path := by
  by_cases heq : n.path = e ++ ['/']
  . rw [h.top heq]
  . obtain ⟨rest, hne, hpath, hpath'⟩ := h.exists_below hin heq
    have hsame : n'.name = n.name := by rw [h.below hin heq]
    rw [hsame, hname heq, hpath, hpath', baseName_append e hne, baseName_append f hne]

end

end Relocated

section Rename

variable {nfc : Str → Str} {e d' : Str} {db : Db}

theorem trimPrefix_eq_drop (h : d <+: s) : s.trimPrefix d = s.drop d.length := by
  unfold trimPrefix
  rw [if_pos h]

theorem newPath_renameUpdate (h : d <+: n.path)
    : (renameUpdate d d' n).newPath = d' ++ n.path.drop d.length := by
  unfold renameUpdate
  split
  . next heq => simp [heq]
  . exact congrArg (d' ++ ·) (trimPrefix_eq_drop h)

theorem nodeID_renameUpdate (d d') (n) : (renameUpdate d d' n).nodeID = n.nodeID := by
  unfold renameUpdate
  split
  all_goals rfl

theorem relocated_of_outside (h : ¬ e ++ ['/'] <+: n.path) : Relocated (e ++ ['/']) d' n n where
  outside _ := rfl
  top heq := absurd (heq ▸ prefix_rfl) h
  below hp := absurd hp h
  parent hp := absurd hp h

theorem relocated_apply (h : e ++ ['/'] <+: n.path)
    : Relocated (e ++ ['/']) d' n ((renameUpdate (e ++ ['/']) d' n).apply n) := by
  unfold NodeUpdate.apply
  rw [if_pos (nodeID_renameUpdate _ _ n).symm]
  constructor
  case outside => exact fun hc => absurd h hc
  case top =>
    intro heq
    unfold renameUpdate
    rw [if_pos heq]
  case below =>
    intro _ hne
    unfold renameUpdate
    rw [if_neg hne, ← trimPrefix_eq_drop h]
  case parent =>
    intro _ hne hparent
    have hpp : e ++ ['/'] <+: n.parentPath := by
      rw [hparent]
      exact prefix_parentPath h hne
    unfold renameUpdate
    rw [if_neg hne, ← trimPrefix_eq_drop hpp]
    exact ⟨hpp, rfl⟩

def selected (d : Str) (db : Db) : List FileNode :=
  (db.fileNodes.filter (inDir d)).insertionSort fun a b => a.path ≤ b.path

theorem mem_selected : n ∈ selected d db ↔ n ∈ db.fileNodes ∧ inDir d n = true := by
  unfold selected
  rw [mem_insertionSort, mem_filter]

theorem nodup_map_selected (d) (f : FileNode → α) (h : (db.fileNodes.map f).Nodup)
    : ((selected d db).map f).Nodup := by
  have hperm : (selected d db).Perm (db.fileNodes.filter (inDir d)) := perm_insertionSort _ _
  rw [(hperm.map f).nodup_iff]
  exact h.sublist (filter_sublist.map f)

theorem relocated_applyAll (hids : (db.fileNodes.map (·.nodeID)).Nodup)
    (hd : ∀ c ∈ e ++ ['/'], Like.literal c) {n : FileNode} (hn : n ∈ db.fileNodes)
    : Relocated (e ++ ['/']) d' n
      (applyAll ((selected (e ++ ['/']) db).map (renameUpdate (e ++ ['/']) d')) n) := by
  by_cases h : e ++ ['/'] <+: n.path
  . have happly : applyAll ((selected (e ++ ['/']) db).map (renameUpdate (e ++ ['/']) d')) n
        = (renameUpdate (e ++ ['/']) d' n).apply n := by
      apply applyAll_of_mem
      . rw [map_map]
        have := nodup_map_selected (e ++ ['/']) (·.nodeID) hids
        simpa [Function.comp_def, nodeID_renameUpdate] using this
      . exact mem_map_of_mem (mem_selected.mpr ⟨hn, (inDir_iff hd n).mpr h⟩)
      . exact (nodeID_renameUpdate _ _ n).symm
    rw [happly]
    exact relocated_apply h
  . rw [applyAll_of_ne]
    . exact relocated_of_outside h
    . intro u hu hid
      obtain ⟨m, hm, rfl⟩ := mem_map.mp hu
      obtain ⟨hm, hdir⟩ := mem_selected.mp hm
      rw [nodeID_renameUpdate] at hid
      have : n = m := inj_on_of_nodup_map hids hn hm hid
      subst this
      exact h ((inDir_iff hd n).mp hdir)

section

variable (hok : NodesOk nfc db.fileNodes) (hd : ∀ c ∈ e ++ ['/'], Like.literal c)

include hok hd

theorem renameDir_ok
    (h : renameDir (e ++ ['/']) d' db = .ok (count, db1))
    : { db1 with fileNodes := db.fileNodes } = db
      ∧ List.Forall₂ (Relocated (e ++ ['/']) d') db.fileNodes db1.fileNodes := by
  have hrest := of_get h
  obtain ⟨_, _, hupdates, hpure⟩ := of_bind hrest
  cases hpure
  rw [updateNodesTx_ok hupdates]
  refine ⟨rfl, ?_⟩
  rw [forall₂_map_right_iff, forall₂_same]
  exact fun n hn => relocated_applyAll hok.nodeIDs hd hn

theorem exists_renameDir_of_free
    (hfree : ∀ n ∈ db.fileNodes, ¬ d' <+: n.path)
    : ∃ r, renameDir (e ++ ['/']) d' db = .ok r := by
  have hpath : ∀ n ∈ selected (e ++ ['/']) db,
      (renameUpdate (e ++ ['/']) d' n).newPath = d' ++ n.path.drop (e ++ ['/']).length := by
    intro n hn
    exact newPath_renameUpdate ((inDir_iff hd n).mp (mem_selected.mp hn).2)
  obtain ⟨db1, hdb1⟩ : ∃ db1, updateNodesTx ((selected (e ++ ['/']) db).map (renameUpdate (e ++ ['/']) d')) db
      = .ok ((), db1) := by
    apply updateNodesTx_of_free
    . rw [map_map]
      have hnd := nodup_map_selected (e ++ ['/']) (·.path) hok.paths
      rw [nodup_map_iff_inj_on (nodup_map_selected (e ++ ['/']) (·.path) hok.paths).of_map]
      intro n hn m hm heq
      simp only [Function.comp_apply, hpath n hn, hpath m hm, append_cancel_left_eq] at heq
      obtain ⟨r1, hr1⟩ := (inDir_iff hd n).mp (mem_selected.mp hn).2
      obtain ⟨r2, hr2⟩ := (inDir_iff hd m).mp (mem_selected.mp hm).2
      apply inj_on_of_nodup_map hnd hn hm
      rw [← hr1, ← hr2, drop_left, drop_left] at heq
      rw [← hr1, ← hr2, heq]
    . intro u hu m hm hc
      obtain ⟨n, hn, rfl⟩ := mem_map.mp hu
      rw [hpath n hn] at hc
      exact hfree m hm ⟨_, hc.symm⟩
  refine ⟨(((selected (e ++ ['/']) db).map (renameUpdate (e ++ ['/']) d')).length, db1), ?_⟩
  change (updateNodesTx _ db >>= fun r => Except.ok (_, r.2)) = _
  rw [show ((db.fileNodes.filter (inDir (e ++ ['/']))).insertionSort fun a b => a.path ≤ b.path)
    = selected (e ++ ['/']) db from rfl, hdb1]
  rfl

end

end Rename

def DeletesSubtree (nfc : Str → Str) (d : Str) : Prop :=
  ∀ db, NodesOk nfc db.fileNodes → ∃ out db', deleteDirRecursive d db = .ok (out, db')
    ∧ db'.fileNodes = db.fileNodes.filter fun n => ¬ d <+: n.path

-- It fails only where a row of the target stands in the way.
def RenamesSubtree (nfc : Str → Str) (d : Str) : Prop :=
  ∀ db d', NodesOk nfc db.fileNodes → CanonicalDir nfc d' → match renameDir d d' db with
    | .ok (_, db') =>
      { db' with fileNodes := db.fileNodes } = db ∧ List.Forall₂ (Relocated d d') db.fileNodes db'.fileNodes
    | .error _ => ∃ n ∈ db.fileNodes, d' <+: n.path

section Literal

variable {nfc : Str → Str}

theorem deletesSubtree_of_literal (hd : ∀ c ∈ d, Like.literal c) : DeletesSubtree nfc d := by
  intro db _
  obtain ⟨out, db', hdelete, hnodes⟩ := deleteDirRecursive_ok d db
  refine ⟨out, db', hdelete, ?_⟩
  rw [hnodes]
  apply filter_congr
  intro n _
  rw [Bool.eq_iff_iff, Bool.not_eq_true', decide_eq_true_iff, ← inDir_iff hd n, Bool.not_eq_true]

theorem renamesSubtree_of_literal (hd : ∀ c ∈ e ++ ['/'], Like.literal c)
    : RenamesSubtree nfc (e ++ ['/']) := by
  intro db d' hok _
  split
  . next h => exact renameDir_ok hok hd h
  . next h =>
    by_contra hfree
    obtain ⟨r, hr⟩ := exists_renameDir_of_free hok hd fun n hn hprefix => hfree ⟨n, hn, hprefix⟩
    rw [h] at hr
    cases hr

end Literal

section Wildcard

variable {nfc : Str → Str} {d : Str}

def dash (c : Char) : Char := if c = '_' ∨ c = '%' then '-' else c

def sibling (d : Str) : FileNode :=
  { nodeID := [], path := d.map dash, parentPath := [], name := [], isDirectory := true, fileID := none,
    inodeID := none }

theorem dash_cases (c : Char) : dash c = '-' ∨ dash c = c := by
  unfold dash
  split
  . exact .inl rfl
  . exact .inr rfl

theorem mem_map_dash (hc : c ≠ '-') (h : c ∈ s.map dash) : c ∈ s := by
  obtain ⟨b, hb, rfl⟩ := mem_map.mp h
  cases dash_cases b with
  | inl h => contradiction
  | inr h =>
    rw [h]
    exact hb

theorem map_dash_eq_iff : s.map dash = s ↔ ∀ c ∈ s, dash c = c := by
  have h := map_inj_left (l := s) (f := dash) (g := id)
  rwa [map_id] at h

theorem dash_of_literal (c : Char) (hc : Like.literal c) : dash c = c := by
  have hne := Like.ne_of_literal hc
  unfold dash
  rw [if_neg]
  rintro (rfl | rfl)
  . exact hne.2.1 rfl
  . exact hne.1 rfl

theorem map_dash_ne_self (hs : '_' ∈ s ∨ '%' ∈ s) : s.map dash ≠ s := by
  intro heq
  have hmem : ∀ c, c = '_' ∨ c = '%' → c ∉ s := by
    intro c hc hs
    have hdash : dash c = c := map_dash_eq_iff.mp heq c hs
    unfold dash at hdash
    rw [if_pos hc] at hdash
    subst hdash
    simp at hc
  cases hs with
  | inl hs => exact hmem _ (.inl rfl) hs
  | inr hs => exact hmem _ (.inr rfl) hs

theorem map_dash_ne (ht : '-' ∉ t) (h : s ≠ t) : s.map dash ≠ t := by
  intro heq
  apply h
  rw [← heq]
  symm
  apply map_dash_eq_iff.mpr
  intro c hc
  cases dash_cases c with
  | inl hdash =>
    refine absurd ?_ ht
    rw [← heq, ← hdash]
    exact mem_map_of_mem hc
  | inr hdash => exact hdash

theorem goodSegment_map_dash (laws : NfcLaws nfc) (h : GoodSegment nfc s)
    : GoodSegment nfc (s.map dash) where
  segment := ⟨map_dash_ne (by decide) h.segment.1, fun hc => h.segment.2 (mem_map_dash (by decide) hc)⟩
  noDot := ⟨map_dash_ne (by decide) h.noDot.1, map_dash_ne (by decide) h.noDot.2⟩
  noControl := by
    intro c hc hctl
    have hne : c ≠ '-' := by
      rintro rfl
      exact absurd hctl (by decide)
    exact h.noControl c (mem_map_dash hne hc) hctl
  noBackslash := fun hc => h.noBackslash (mem_map_dash (by decide) hc)
  nfc := by
    have := laws.punctuation s
    rw [h.nfc] at this
    exact this

theorem map_dash_render (segs : List Str)
    : (render segs).map dash = render (segs.map (List.map dash)) := by
  induction segs with
  | nil => rfl
  | cons s segs ih =>
    rw [render_cons, cons_append, map_cons, map_append, ih]
    rfl

theorem nodesOk_sibling (laws : NfcLaws nfc) (hd : CanonicalDir nfc d)
    : NodesOk nfc [sibling d] := by
  have hcanon : CanonicalDir nfc (d.map dash) := by
    rw [canonicalDir_iff laws] at *
    obtain ⟨segs, hsegs, rfl⟩ := hd
    refine ⟨segs.map (List.map dash), ?_, ?_⟩
    . intro t ht
      obtain ⟨s, hs, rfl⟩ := mem_map.mp ht
      exact goodSegment_map_dash laws (hsegs s hs)
    . rw [map_append, map_dash_render]
      rfl
  constructor
  case canonical =>
    intro n hn
    rw [mem_singleton.mp hn]
    exact hcanon
  all_goals exact nodup_singleton _

theorem inDir_sibling (hd : '\\' ∉ d) : inDir d (sibling d) = true := by
  unfold inDir
  rw [Bool.or_eq_true]
  exact .inr (Like.accepts_map _ dash_of_literal hd)

theorem not_below_sibling (hd : '_' ∈ d ∨ '%' ∈ d) : ¬ d <+: (sibling d).path := by
  intro h
  exact map_dash_ne_self hd (h.eq_of_length (length_map _).symm).symm

def siblingDb (d : Str) : Db :=
  { useLegacyFiles := false, fileNodes := [sibling d], files := .empty, inodes := .empty, contents := .empty,
    uploads := .empty }

theorem not_deletesSubtree (laws : NfcLaws nfc) (hcanon : CanonicalDir nfc d) (hback : '\\' ∉ d)
    (hd : '_' ∈ d ∨ '%' ∈ d)
    : ¬ DeletesSubtree nfc d := by
  intro h
  obtain ⟨out, db', hdelete, hnodes⟩ := h (siblingDb d) (nodesOk_sibling laws hcanon)
  obtain ⟨_, _, hdelete', hnodes'⟩ := deleteDirRecursive_ok d (siblingDb d)
  rw [hdelete] at hdelete'
  cases hdelete'
  rw [hnodes] at hnodes'
  simp [siblingDb, inDir_sibling hback, not_below_sibling hd] at hnodes'

theorem renameDir_sibling (hback : '\\' ∉ d)
    : renameDir d d (siblingDb d)
      = .ok (1, { siblingDb d with fileNodes := [(renameUpdate d d (sibling d)).apply (sibling d)] }) := by
  have hrows : ((siblingDb d).fileNodes.filter (inDir d)).insertionSort (fun a b => a.path ≤ b.path)
      = [sibling d] := by
    simp [siblingDb, inDir_sibling hback]
  have hfree : ∀ m ∈ (siblingDb d).fileNodes, m.path = (renameUpdate d d (sibling d)).newPath
      → m.nodeID = (renameUpdate d d (sibling d)).nodeID := by
    intro m hm _
    rw [mem_singleton.mp hm, nodeID_renameUpdate]
  change (updateNodesTx (List.map _ (List.insertionSort _ _)) (siblingDb d) >>= fun r => Except.ok (_, r.2)) = _
  rw [hrows]
  have hupdates : updateNodesTx [renameUpdate d d (sibling d)] (siblingDb d)
      = (updateNodeTx (renameUpdate d d (sibling d)) (siblingDb d) >>= fun r => Except.ok ((), r.2)) := rfl
  rw [map_singleton, hupdates, updateNodeTx_of_free hfree]
  rfl

theorem not_renamesSubtree (laws : NfcLaws nfc) (hcanon : CanonicalDir nfc d) (hback : '\\' ∉ d)
    (hd : '_' ∈ d ∨ '%' ∈ d)
    : ¬ RenamesSubtree nfc d := by
  intro h
  have hrename := h (siblingDb d) d (nodesOk_sibling laws hcanon) hcanon
  rw [renameDir_sibling hback] at hrename
  have houtside := (forall₂_cons.mp hrename.2).1.outside (not_below_sibling hd)
  have hpath := congrArg (fun n => n.path.length) houtside
  -- The prefix is not there to be trimmed, so the path grows by the whole of `d`.
  have hnew : (renameUpdate d d (sibling d)).newPath = d ++ (sibling d).path := by
    unfold renameUpdate
    rw [if_neg fun heq => not_below_sibling hd ⟨[], by rw [heq, append_nil]⟩]
    unfold trimPrefix
    rw [if_neg (not_below_sibling hd)]
  unfold NodeUpdate.apply at hpath
  rw [if_pos (nodeID_renameUpdate _ _ _).symm] at hpath
  rw [hnew, length_append] at hpath
  have hne : d ≠ [] := by
    rintro rfl
    simp at hd
  have := length_pos_of_ne_nil hne
  omega

end Wildcard

theorem literal_of_canonicalDir (laws : NfcLaws nfc) (hcanon : CanonicalDir nfc d)
    (hunderscore : '_' ∉ d) (hpercent : '%' ∉ d)
    : ∀ c ∈ d, Like.literal c := by
  intro c hc
  unfold Like.literal
  simp only [ne_eq, Bool.and_eq_true, decide_eq_true_eq]
  refine ⟨⟨?_, ?_⟩, ?_⟩
  all_goals
    rintro rfl
  . exact hpercent hc
  . exact hunderscore hc
  . exact hcanon.noBackslash laws hc

theorem no_wildcard_of_raw (laws : NfcLaws nfc) (h : canonicalize nfc raw = .ok p)
    (hraw : '_' ∉ raw ∧ '%' ∉ raw)
    : '_' ∉ p ∧ '%' ∉ p := by
  have hmap : ∀ s ∈ segments raw, (nfc s).map dash = nfc s := by
    intro s hs
    have hdash : s.map dash = s := by
      apply map_dash_eq_iff.mpr
      intro c hc
      unfold dash
      rw [if_neg]
      rintro (rfl | rfl)
      . exact hraw.1 (mem_of_mem_segments hs hc)
      . exact hraw.2 (mem_of_mem_segments hs hc)
    have := laws.punctuation s
    change nfc (s.map dash) = (nfc s).map dash at this
    rw [hdash] at this
    exact this.symm
  have hfree : ∀ c, c = '_' ∨ c = '%' → c ∉ p := by
    intro c hc hmem
    have hslash : c ≠ '/' := by
      rintro rfl
      simp at hc
    obtain ⟨t, ht, hmem⟩ := exists_segment_of_mem hslash hmem
    rw [segments_of_canonicalize laws h] at ht
    obtain ⟨s, hs, rfl⟩ := mem_map.mp ht
    refine map_dash_ne_self ?_ (hmap s hs)
    cases hc with
    | inl hc => exact .inl (hc ▸ hmem)
    | inr hc => exact .inr (hc ▸ hmem)
  exact ⟨hfree _ (.inl rfl), hfree _ (.inr rfl)⟩

theorem literal_dirForm (laws : NfcLaws nfc) (hp : canonicalize nfc raw = .ok p)
    (hplain : '_' ∉ raw ∧ '%' ∉ raw)
    : ∀ c ∈ dirForm true p, Like.literal c := by
  obtain ⟨hunderscore, hpercent⟩ := no_wildcard_of_raw laws hp hplain
  have hmem : ∀ c, c ≠ '/' → c ∉ p → c ∉ dirForm true p := by
    intro c hc hcp
    unfold dirForm
    split
    . simp [hc, hcp]
    . exact hcp
  exact literal_of_canonicalDir laws ⟨raw, canonicalizeDir_of_canonicalize laws hp⟩
    (hmem _ (by decide) hunderscore)
    (hmem _ (by decide) hpercent)

/--
`deleteDirRecursive` and `renameDir` act on exactly the subtree of a canonical directory if and only
if its path has no wildcard of `LIKE`.
-/
theorem subtree_exact_iff_no_wildcard {nfc : Str → Str} (laws : NfcLaws nfc) {d : Str}
    (hcanon : CanonicalDir nfc d)
    : (DeletesSubtree nfc d ↔ '_' ∉ d ∧ '%' ∉ d) ∧ (RenamesSubtree nfc d ↔ '_' ∉ d ∧ '%' ∉ d) := by
  have hback := hcanon.noBackslash laws
  refine ⟨⟨?_, ?_⟩, ⟨?_, ?_⟩⟩
  . intro h
    by_contra hd
    exact not_deletesSubtree laws hcanon hback (by tauto) h
  . rintro ⟨hunderscore, hpercent⟩
    exact deletesSubtree_of_literal (literal_of_canonicalDir laws hcanon hunderscore hpercent)
  . intro h
    by_contra hd
    exact not_renamesSubtree laws hcanon hback (by tauto) h
  . rintro ⟨hunderscore, hpercent⟩
    obtain ⟨e, rfl⟩ := hcanon.exists_eq_concat laws
    exact renamesSubtree_of_literal (literal_of_canonicalDir laws hcanon hunderscore hpercent)

theorem subtree_exact_iff_no_wildcard_docs
    : ('_' ∉ "/docs/".toList ∧ '%' ∉ "/docs/".toList) ∧ CanonicalDir id "/docs/".toList
      ∧ (DeletesSubtree id "/docs/".toList ↔ '_' ∉ "/docs/".toList ∧ '%' ∉ "/docs/".toList)
      ∧ (RenamesSubtree id "/docs/".toList ↔ '_' ∉ "/docs/".toList ∧ '%' ∉ "/docs/".toList) := by
  have hcanon : CanonicalDir id "/docs/".toList := ⟨"docs".toList, rfl⟩
  exact ⟨by decide, hcanon, subtree_exact_iff_no_wildcard nfcLaws_id hcanon⟩

def underscoreDb : Db :=
  { siblingDb [] with
    fileNodes := [⟨['1'], "/a_b/".toList, ['/'], "a_b".toList, true, none, none⟩,
                  ⟨['2'], "/axb/".toList, ['/'], "axb".toList, true, none, none⟩] }

theorem wildcard_touches_neighbour
    : CanonicalDir id "/a_b/".toList ∧ NodesOk id underscoreDb.fileNodes
      ∧ (∃ out db, deleteDirRecursive "/a_b/".toList underscoreDb = .ok (out, db) ∧ db.fileNodes = [])
      ∧ ∃ count db, renameDir "/a_b/".toList "/c/".toList underscoreDb = .ok (count, db)
        ∧ db.fileNodes.map (·.path) = ["/c/".toList, "/c//axb/".toList] := by
  have hnodes : NodesOk id underscoreDb.fileNodes := by
    constructor
    case canonical =>
      intro n hn
      exact ⟨n.path, by revert n; decide⟩
    all_goals decide
  exact ⟨⟨"/a_b/".toList, rfl⟩, hnodes, ⟨_, _, rfl, rfl⟩, _, _, rfl, rfl⟩

end Datastore
