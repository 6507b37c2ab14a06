import Drive9.Backend.Namespace.Moved

/-!
This module contains the proof of when every row of `file_nodes` has an existing parent.
-/

open List

namespace Backend

open Datastore Pathutil Str NodeUpdate

structure Shaped (n : FileNode) : Prop where
  parent : n.parentPath = Datastore.parentPath n.path
  dir : n.isDirectory = true → n.path.getLast? = some '/'
  file : n.isDirectory = false → n.path = ['/'] ∨ n.path.getLast? ≠ some '/'

structure Linked (nodes : List FileNode) : Prop where
  keys : KeysOk nodes
  shaped : ∀ n ∈ nodes, Shaped n
  linked : ∀ n ∈ nodes, n.parentPath = ['/'] ∨ HasDir nodes n.parentPath

theorem Shaped.refilled (h : Shaped n) (hfill : Refilled dirID n n') : Shaped n' := by
  constructor
  . rw [hfill.parentPath, hfill.path]
    exact h.parent
  . rw [hfill.isDirectory, hfill.path]
    exact h.dir
  . rw [hfill.isDirectory, hfill.path]
    exact h.file

theorem shaped_madeDir (h : d ∈ dirsAbove p)
    : Shaped (madeDir dirID d) where
  parent := rfl
  dir _ := (mem_dirsAbove.mp h).2.1
  file h := by contradiction

theorem shaped_fileNode (laws : NfcLaws nfc) (hp : CanonicalPath nfc p)
    (hlast : p = ['/'] ∨ p.getLast? ≠ some '/') (nodeID : ID) (fileID : Option ID)
    : Shaped (fileNode nodeID p fileID) where
  parent := hp.parentPath_eq laws
  dir h := by contradiction
  file _ := hlast

theorem shaped_dirNode (laws : NfcLaws nfc) (hd : canonicalizeDir nfc d = .ok d)
    (nodeID inodeID : ID)
    : Shaped (dirNode nodeID inodeID d) where
  parent := CanonicalPath.parentPath_eq laws (.inr hd)
  dir _ := by
    obtain ⟨e, he⟩ := CanonicalDir.exists_eq_concat laws ⟨d, hd⟩
    change d.getLast? = some '/'
    rw [he, getLast?_concat]
  file h := by contradiction

namespace Linked

variable {nodes nodes' : List FileNode} {n : FileNode}

theorem nil : Linked [] where
  keys := .nil
  shaped n hn := by contradiction
  linked n hn := by contradiction

section

variable (h : Linked nodes)

include h

theorem append (hfresh : Fresh n nodes) (hshaped : Shaped n)
    (hparent : n.parentPath = ['/'] ∨ HasDir nodes n.parentPath)
    : Linked (nodes ++ [n]) := by
  have hdirs : ∀ d, HasDir nodes d → HasDir (nodes ++ [n]) d := by
    rintro d ⟨m, hm, hd⟩
    exact ⟨m, mem_append_left _ hm, hd⟩
  have hmem : ∀ m ∈ nodes ++ [n], m ∈ nodes ∨ m = n := by simp
  refine ⟨h.keys.append hfresh, ?_, ?_⟩
  . intro m hm
    cases hmem m hm with
    | inl hm => exact h.shaped m hm
    | inr hm => exact hm ▸ hshaped
  . intro m hm
    cases hmem m hm with
    | inl hm => exact (h.linked m hm).imp_right (hdirs _)
    | inr hm =>
      subst hm
      exact hparent.imp_right (hdirs _)

theorem filter (p : FileNode → Bool)
    (hkeep : ∀ n ∈ nodes, p n = true → n.parentPath ≠ ['/'] → ∀ m ∈ nodes, m.path = n.parentPath
      → m.isDirectory = true → p m = true)
    : Linked (nodes.filter p) := by
  refine ⟨h.keys.filter p, ?_, ?_⟩
  . intro n hn
    exact h.shaped n (mem_of_mem_filter hn)
  . intro n hn
    obtain ⟨hn, hp⟩ := mem_filter.mp hn
    by_cases hroot : n.parentPath = ['/']
    . exact .inl hroot
    . obtain ⟨m, hm, hpath, hdir⟩ := (h.linked n hn).resolve_left hroot
      exact .inr ⟨m, mem_filter.mpr ⟨hm, hkeep n hn hp hroot m hm hpath hdir⟩, hpath, hdir⟩

theorem parent_mem_dirsAbove (hn : n ∈ nodes) (hroot : n.parentPath ≠ ['/'])
    : n.parentPath ∈ dirsAbove n.path := by
  rw [(h.shaped n hn).parent] at hroot ⊢
  exact (parentPath_mem_dirsAbove _).resolve_left hroot

theorem withParents (hinj : Function.Injective dirID)
    (hmakeable : ∀ d ∈ dirsAbove path, HasDir nodes d ∨ ∀ n ∈ nodes, n.nodeID ≠ dirID d)
    : Linked (withParents dirID path nodes)
      ∧ (Datastore.parentPath path = ['/']
        ∨ HasDir (Datastore.withParents dirID path nodes) (Datastore.parentPath path)) := by
  have hmade := dirsMade_withParents dirID path nodes
  have hdirs : ∀ d ∈ dirsAbove path, Makeable dirID nodes d := by
    intro d hd
    by_cases hhas : HasDir nodes d
    . exact .inl hhas
    . right
      intro n hn
      refine ⟨(hmakeable d hd).resolve_left hhas n hn, ?_⟩
      rintro rfl
      obtain ⟨_, hlast, hroot, _⟩ := mem_dirsAbove.mp hd
      cases hdir : n.isDirectory with
      | true => exact hhas ⟨n, hn, rfl, hdir⟩
      | false =>
        cases (h.shaped n hn).file hdir with
        | inl hc => exact hroot hc
        | inr hc => exact hc hlast
  have hhas := hasDir_withParents hinj hdirs
  refine ⟨⟨h.keys.withParents dirID path, ?_, ?_⟩, ?_⟩
  . intro n' hn'
    cases hmade.new n' hn' with
    | inl hold =>
      obtain ⟨n, hn, hfill⟩ := hold
      exact (h.shaped n hn).refilled hfill
    | inr hnew =>
      obtain ⟨d, hd, hfill, _⟩ := hnew
      exact (shaped_madeDir (ancestors_subset (mem_reverse.mp hd))).refilled hfill
  . intro n' hn'
    cases hmade.new n' hn' with
    | inl hold =>
      obtain ⟨n, hn, hfill⟩ := hold
      rw [hfill.parentPath]
      exact (h.linked n hn).imp_right fun hdir => hdir.of_dirsMade hmade
    | inr hnew =>
      obtain ⟨d, hd, hfill, _⟩ := hnew
      rw [hfill.parentPath]
      exact (ancestors_closed (Nat.le_refl _) (mem_reverse.mp hd)).imp_right (hhas _)
  . exact (parentPath_mem_ancestors (Nat.le_refl _)).imp_right (hhas _)

end

theorem fileMoved (h : Linked s.db.fileNodes) {oldPath newPath name : Str}
    (hrenamed : FileRenamed oldPath newPath ⟨source.nodeID, newPath, Datastore.parentPath newPath, name⟩ source s s')
    (hlast : newPath = ['/'] ∨ newPath.getLast? ≠ some '/')
    (hparent : Datastore.parentPath newPath = ['/'] ∨ HasDir s.db.fileNodes (Datastore.parentPath newPath))
    : Linked s'.db.fileNodes := by
  have hdirs : ∀ d, HasDir s.db.fileNodes d → HasDir s'.db.fileNodes d := by
    rintro d ⟨m, hm, hpath, hdir⟩
    exact ⟨m, hrenamed.mem_of_isDirectory h.keys hm hdir, hpath, hdir⟩
  refine ⟨hrenamed.keysOk h.keys, ?_, ?_⟩
  . intro n hn
    cases hrenamed.mem_cases h.keys hn with
    | inl hn => exact h.shaped n hn
    | inr hn =>
      subst hn
      refine ⟨rfl, ?_, fun _ => hlast⟩
      intro hdir
      have hfile := hrenamed.file
      rw [hdir] at hfile
      contradiction
  . intro n hn
    cases hrenamed.mem_cases h.keys hn with
    | inl hn => exact (h.linked n hn).imp_right (hdirs _)
    | inr hn =>
      subst hn
      exact hparent.imp_right (hdirs _)

theorem treeRemoved (h : Linked nodes) (hd : ∀ c ∈ d, Like.literal c)
    : Linked (nodes.filter fun n => !inDir d n) := by
  apply h.filter
  intro n hn hkeep hroot m hm hpath _
  rw [Bool.not_eq_true'] at hkeep ⊢
  rw [← Bool.not_eq_true, inDir_iff hd] at hkeep ⊢
  intro hc
  rw [hpath] at hc
  exact hkeep (hc.trans (mem_dirsAbove.mp (h.parent_mem_dirsAbove hn hroot)).1)

end Linked

section DirMoved

variable {e f : Str}

theorem Shaped.relocated (h : Shaped n) (hmoved : Relocated (e ++ ['/']) (f ++ ['/']) n n')
    (htop : n.path = e ++ ['/'] → n.isDirectory = true)
    : Shaped n' := by
  have hparent := hmoved.parentPath_eq h.parent
  by_cases hin : e ++ ['/'] <+: n.path
  . by_cases heq : n.path = e ++ ['/']
    . rw [hmoved.top heq] at hparent ⊢
      refine ⟨hparent, fun _ => getLast?_concat, ?_⟩
      intro hfile
      have hdir := htop heq
      rw [hfile] at hdir
      contradiction
    . obtain ⟨rest, hne, hpath, hpath'⟩ := hmoved.exists_below hin heq
      have hlast : ∀ a : Str, (a ++ '/' :: rest).getLast? = rest.getLast? := by
        intro a
        rw [append_cons, getLast?_append_of_ne_nil _ hne]
      refine ⟨hparent, ?_, ?_⟩
      . rw [hmoved.isDirectory, hpath', hlast, ← hlast e, ← hpath]
        exact h.dir
      . rw [hmoved.isDirectory, hpath', hlast, ← hlast e, ← hpath]
        intro hfile
        right
        apply (h.file hfile).resolve_left
        intro hroot
        rw [hroot] at hpath
        have hlen := congrArg List.length hpath
        have := length_pos_of_ne_nil hne
        simp only [length_append, length_cons, length_nil] at hlen
        omega
  . rw [hmoved.outside hin]
    exact h

theorem Linked.dirMoved (h : Linked nodes)
    (hsub : SubtreeMoved (e ++ ['/']) (f ++ ['/']) move nodes)
    (hhas : HasDir nodes (e ++ ['/'])) (hout : ¬ e ++ ['/'] <+: f ++ ['/'])
    (hparent : Datastore.parentPath (f ++ ['/']) = ['/'] ∨ HasDir nodes (Datastore.parentPath (f ++ ['/'])))
    : Linked (nodes.map move) := by
  obtain ⟨hkeys, hmoved⟩ := hsub
  -- the parent of a row that stays is a row that stays
  have hstays : ∀ d, ¬ e ++ ['/'] <+: d → HasDir nodes d → HasDir (nodes.map move) d := by
    rintro d hd ⟨m, hm, hpath, hdir⟩
    have heq := (hmoved m hm).outside (hpath ▸ hd)
    exact ⟨m, mem_map.mpr ⟨m, hm, heq⟩, hpath, hdir⟩
  have hmoves : ∀ rest, HasDir nodes (e ++ ['/'] ++ rest)
      → HasDir (nodes.map move) (f ++ ['/'] ++ rest) := by
    rintro rest ⟨m, hm, hpath, hdir⟩
    exact ⟨move m, mem_map_of_mem hm, (hmoved m hm).path_of_append hpath,
      (hmoved m hm).isDirectory.trans hdir⟩
  refine ⟨hkeys, ?_, ?_⟩
  . intro n' hn'
    obtain ⟨n, hn, rfl⟩ := mem_map.mp hn'
    apply (h.shaped n hn).relocated (hmoved n hn)
    intro hpath
    obtain ⟨m, hm, hmpath, hdir⟩ := hhas
    rwa [h.keys.eq_of_path hn hm (hpath.trans hmpath.symm)]
  . intro n' hn'
    obtain ⟨n, hn, rfl⟩ := mem_map.mp hn'
    by_cases hin : e ++ ['/'] <+: n.path
    . by_cases heq : n.path = e ++ ['/']
      . rw [(hmoved n hn).top heq]
        by_cases hroot : Datastore.parentPath (f ++ ['/']) = ['/']
        . exact .inl hroot
        . right
          apply hstays _ _ (hparent.resolve_left hroot)
          intro hc
          have habove := (parentPath_mem_dirsAbove (f ++ ['/'])).resolve_left hroot
          exact hout (hc.trans (mem_dirsAbove.mp habove).1)
      . obtain ⟨rest, hrest⟩ := ((hmoved n hn).parent hin heq (h.shaped n hn).parent).1
        rw [((hmoved n hn).parent hin heq (h.shaped n hn).parent).2, ← hrest, drop_left]
        right
        apply hmoves
        rw [hrest]
        cases h.linked n hn with
        | inl hroot =>
          -- the directory is the root
          have hlen := congrArg List.length hrest
          rw [hroot] at hlen
          simp only [length_append, length_singleton] at hlen
          have he : e = [] := eq_nil_of_length_eq_zero (by omega)
          rw [he] at hhas
          rwa [hroot]
        | inr hdir => exact hdir
    . rw [(hmoved n hn).outside hin]
      by_cases hroot : n.parentPath = ['/']
      . exact .inl hroot
      . right
        apply hstays _ _ ((h.linked n hn).resolve_left hroot)
        intro hc
        exact hin (hc.trans (mem_dirsAbove.mp (h.parent_mem_dirsAbove hn hroot)).1)

end DirMoved

-- Every directory above the path is there, or no row has the id that it would be made with.
def ParentsFree (dirID : Str → ID) (s : FileStore) (path : Str) : Prop :=
  ∀ d ∈ dirsAbove path, HasDir s.db.fileNodes d ∨ ∀ n ∈ s.db.fileNodes, n.nodeID ≠ dirID d

/--
The parents of the target can be made; a directory is not renamed to a path below itself, and a file
not to the path of a directory.
-/
def KeepsLinks (dirID : Str → ID) (nfc : Str → Str) (s : FileStore) (op : NamespaceOp) : Prop :=
  match op with
  | .write _ _ path _ _ _ => ParentsFree dirID s path
  | .mkdir _ _ path => ParentsFree dirID s path
  | .copyFile _ _ dstPath => ParentsFree dirID s dstPath
  | .rename oldPath newPath =>
    ParentsFree dirID s newPath
      ∧ ∀ r ∈ resolveNodePath nfc s.db oldPath,
        if r.2.isDirectory then ¬ r.1 <+: newPath ++ ['/'] else newPath = ['/'] ∨ newPath.getLast? ≠ some '/'
  | .remove _ => True
  | .removeAll _ => True

instance decidableKeepsLinks (dirID : Str → ID) (nfc : Str → Str) (s : FileStore) (op : NamespaceOp)
    : Decidable (KeepsLinks dirID nfc s op) :=
  match op with
  | .write _ _ path _ _ _ | .mkdir _ _ path | .copyFile _ _ path =>
    inferInstanceAs (Decidable (∀ d ∈ dirsAbove path, _))
  | .rename _ path => inferInstanceAs (Decidable ((∀ d ∈ dirsAbove path, _) ∧ _))
  | .remove _ | .removeAll _ => .isTrue trivial

section Step

variable {dirID : Str → ID} {nfc : Str → Str} (laws : NfcLaws nfc) {s : FileStore}

include laws

theorem Linked.step (hinj : Function.Injective dirID) (h : Linked s.db.fileNodes)
    (hpaths : ∀ p ∈ op.paths, CanonicalPath nfc p ∧ '_' ∉ p ∧ '%' ∉ p)
    (hok : KeepsLinks dirID nfc s op)
    : Linked (op.run dirID nfc s).2.db.fileNodes := by
  have heffect := @effect_run dirID nfc s op
  generalize (op.run dirID nfc s).2.db.fileNodes = rows at heffect ⊢
  cases heffect with
  | same => exact h
  | written hp hfresh | copied hq hp hsrc hfresh =>
    obtain ⟨hcanon, hlast, habove⟩ :=
      CanonicalPath.file laws (hpaths _ (by simp [NamespaceOp.paths])).1 hp
    obtain ⟨hrows, hparent⟩ := h.withParents hinj fun d hd => hok d ((habove d).mp hd)
    rw [← CanonicalPath.parentPath_eq laws (.inl hcanon)] at hparent
    exact hrows.append hfresh (shaped_fileNode laws (.inl hcanon) hlast _ _) hparent
  | @mkdirParents _ _ path d hd =>
    have hpath := (hpaths path mem_cons_self).1
    obtain ⟨_, _, habove⟩ := hpath.dir laws hd
    exact (h.withParents hinj fun d hd => hok d ((habove d).mp hd)).1
  | @dirMade nodeID inodeID path d hd hfresh =>
    have hpath := (hpaths path mem_cons_self).1
    obtain ⟨hcanon, _, habove⟩ := hpath.dir laws hd
    obtain ⟨hrows, hparent⟩ := h.withParents hinj fun d hd => hok d ((habove d).mp hd)
    rw [← CanonicalPath.parentPath_eq laws (.inr hcanon)] at hparent
    exact hrows.append hfresh (shaped_dirNode laws hcanon _ _) hparent
  | @copyParents nodeID srcPath dstPath p hp =>
    have hpath := (hpaths dstPath (by simp [NamespaceOp.paths])).1
    obtain ⟨_, _, habove⟩ := hpath.file laws hp
    exact (h.withParents hinj fun d hd => hok d ((habove d).mp hd)).1
  | @renameParents old new oldPath newPath node hresolve hnew hne =>
    subst hnew
    have hpath := (hpaths new (by simp [NamespaceOp.paths])).1
    exact (h.withParents hinj fun d hd => hok.1 d ((mem_dirsAbove_forKind laws hpath _ d).mp hd)).1
  | @fileMoved old new oldPath newPath node source s1 s2 hresolve hfile hnew hne hs1 hrenamed =>
    have hpath := (hpaths new (by simp [NamespaceOp.paths])).1
    have hlast := hok.2 _ hresolve
    rw [if_neg (by simp [hfile])] at hlast
    rw [canonicalizePathForKind_file laws hpath hlast] at hnew
    subst hnew
    obtain ⟨hrows, hparent⟩ := h.withParents hinj hok.1
    rw [← hs1] at hrows hparent
    rw [hpath.parentPath_eq laws] at hrenamed
    exact hrows.fileMoved hrenamed hlast hparent
  | @dirMoved old new oldPath newPath node db1 db2 hresolve hdir hnew hne hdb1 hrename =>
    have hpath := (hpaths new (by simp [NamespaceOp.paths])).1
    obtain ⟨hcanon, hbelow, habove⟩ := hpath.dir laws (canonicalizePathForKind_dir laws hpath)
    rw [← hnew] at hcanon hbelow habove
    obtain ⟨hold, hplain⟩ := hpaths old mem_cons_self
    obtain ⟨p, hp⟩ := hold.exists_canonicalize laws
    have hliteral := literal_of_resolveNodePath laws hp hplain hresolve
    obtain ⟨hmem, hnode⟩ := Db.mem_of_node? (of_resolveNodePath hresolve).1
    have hout := hok.2 _ hresolve
    rw [if_pos hdir] at hout
    obtain ⟨hrows, hparent⟩ := h.withParents hinj fun d hd => hok.1 d ((habove d).mp hd)
    have hhas : HasDir s.db.fileNodes oldPath := ⟨node, hmem, hnode, hdir⟩
    have hhas := hhas.of_dirsMade (dirsMade_withParents dirID newPath s.db.fileNodes)
    rw [← hdb1] at hrows hparent hhas
    obtain ⟨e, rfl⟩ := getLast?_eq_some_iff.mp (hnode ▸ (h.shaped node hmem).dir hdir)
    obtain ⟨f, rfl⟩ := CanonicalDir.exists_eq_concat laws ⟨_, hcanon⟩
    apply hrows.dirMoved (subtreeMoved_applyAll hrows.keys hliteral hrename) hhas _ hparent
    exact fun hc => hout (hc.trans hbelow)
  | @fileRemoved _ raw path node hop hnode hfile =>
    obtain ⟨hmem, hpath⟩ := Db.mem_of_node? hnode
    apply h.filter
    intro n _ _ _ m hm _ hdir
    rw [Bool.not_eq_true', decide_eq_false_iff_not]
    intro hc
    rw [← h.keys.eq_of_path hm hmem (hc.trans hpath.symm), hdir] at hfile
    contradiction
  | dirRemoved hempty =>
    apply h.filter
    intro n hn _ _ m _ hpath _
    rw [Bool.not_eq_true', decide_eq_false_iff_not]
    intro hc
    exact hempty n hn (hpath.symm.trans hc.1)
  | @treeRemoved raw path node hresolve hdir =>
    obtain ⟨hraw, hplain⟩ := hpaths raw mem_cons_self
    obtain ⟨p, hp⟩ := hraw.exists_canonicalize laws
    exact h.treeRemoved (literal_of_resolveNodePath laws hp hplain hresolve)

end Step

/--
In every run from an empty table, on canonical paths without a wildcard, whose steps all keep the
links: each row has the root or a directory that is there as its parent.
-/
theorem every_row_has_a_parent (nfc : Str → Str) (laws : NfcLaws nfc) (dirID : Str → ID)
    (hinj : Function.Injective dirID) (s0 : FileStore) (hempty : s0.db.fileNodes = [])
    (ops : List NamespaceOp)
    (hpaths : ∀ op ∈ ops, ∀ p ∈ op.paths, CanonicalPath nfc p ∧ '_' ∉ p ∧ '%' ∉ p)
    (hok : Lts.Along (NamespaceOp.step dirID nfc) (KeepsLinks dirID nfc) s0 ops)
    (s : FileStore) (hexec : Lts.exec (NamespaceOp.step dirID nfc) s0 ops = some s)
    : ∀ n ∈ s.db.fileNodes, n.parentPath = ['/'] ∨ HasDir s.db.fileNodes n.parentPath := by
  have hinv : Linked s.db.fileNodes := by
    refine Lts.exec_invariant _ (fun s => Linked s.db.fileNodes) ?_ ?_
      (Lts.along_and hok hpaths) hexec
    . intro s op s' h hop hstep
      cases hstep
      exact h.step laws hinj hop.2 hop.1
    . rw [hempty]
      exact .nil
  exact hinv.linked

theorem every_row_has_a_parent_renamed
    : ∃ s, Lts.exec (NamespaceOp.step id id) (FileStore.empty false)
        [.write ['f'] ['1'] "/a/x".toList .db9 [] 1, .rename "/a/".toList "/b/c/".toList,
          .mkdir ['2'] ['d'] "/b/e".toList,
          .rename "/b/c/x".toList "/b/y".toList, .removeAll "/b/c/".toList] = some s
      ∧ s.db.fileNodes.map (·.path) = ["/b/y".toList, "/b/".toList, "/b/e/".toList]
      ∧ ∀ n ∈ s.db.fileNodes, n.parentPath = ['/'] ∨ HasDir s.db.fileNodes n.parentPath := by
  refine Lts.exists_of_any (fun s => _) (by decide +kernel) fun s hexec hnames => ⟨hnames, ?_⟩
  exact every_row_has_a_parent id nfcLaws_id id Function.injective_id (FileStore.empty false) rfl _
    (by unfold CanonicalPath; decide +kernel) (by decide +kernel) s hexec

-- A directory that was renamed is not made again for its old name, and one that is renamed below
-- itself is cut off.
theorem renamed_directory_loses_rows
    : (∃ s, Lts.exec (NamespaceOp.step id id) (FileStore.empty false)
          [.write ['f'] ['1'] "/a/x".toList .db9 [] 1, .rename "/a/".toList "/b/".toList,
            .write ['g'] ['2'] "/a/y".toList .db9 [] 1] = some s
        ∧ (∃ n ∈ s.db.fileNodes, n.path = "/a/y".toList ∧ n.parentPath = "/a/".toList)
        ∧ ¬ HasDir s.db.fileNodes "/a/".toList)
      ∧ ∃ s, Lts.exec (NamespaceOp.step id id) (FileStore.empty false)
          [.write ['f'] ['1'] "/a/x".toList .db9 [] 1, .rename "/a/".toList "/a/b/".toList] = some s
        ∧ (∃ n ∈ s.db.fileNodes, n.path = "/a/b/".toList ∧ n.parentPath = "/a/".toList)
        ∧ ¬ HasDir s.db.fileNodes "/a/".toList := by
  refine ⟨⟨_, rfl, ?_⟩, _, rfl, ?_⟩
  . decide +kernel
  . decide +kernel

end Backend
