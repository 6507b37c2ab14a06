import Drive9.Backend.Namespace.Moved

/-!
This module contains the proof of when no name is both a file and a directory.
-/

open List

namespace Backend

open Datastore Pathutil Str NodeUpdate

def NoTwinOf (nodes : List FileNode) (path : Str) (isDirectory : Bool) : Prop :=
  ∀ m ∈ nodes, if isDirectory then m.isDirectory = false → path ≠ m.path ++ ['/']
    else m.isDirectory = true → m.path ≠ path ++ ['/']

instance decidableNoTwinOf (nodes : List FileNode) (path : Str) (isDirectory : Bool)
    : Decidable (NoTwinOf nodes path isDirectory) :=
  inferInstanceAs (Decidable (∀ m ∈ nodes, _))

structure Apart (nodes : List FileNode) : Prop where
  keys : KeysOk nodes
  dirs : ∀ n ∈ nodes, n.isDirectory = true → n.path.getLast? = some '/'
  apart : ∀ n ∈ nodes, ∀ m ∈ nodes, n.isDirectory = false → m.isDirectory = true
    → m.path ≠ n.path ++ ['/']

namespace Apart

variable {nodes : List FileNode} {n : FileNode} {path : Str}

theorem nil : Apart [] where
  keys := .nil
  dirs n hn := by contradiction
  apart n hn := by contradiction

theorem filter (h : Apart nodes) (p : FileNode → Bool) : Apart (nodes.filter p) where
  keys := h.keys.filter p
  dirs n hn := h.dirs n (mem_of_mem_filter hn)
  apart n hn m hm := h.apart n (mem_of_mem_filter hn) m (mem_of_mem_filter hm)

theorem append (h : Apart nodes) (hfresh : Fresh n nodes)
    (hdir : n.isDirectory = true → n.path.getLast? = some '/')
    (htwin : NoTwinOf nodes n.path n.isDirectory)
    : Apart (nodes ++ [n]) := by
  have hmem : ∀ m ∈ nodes ++ [n], m ∈ nodes ∨ m = n := by simp
  refine ⟨h.keys.append hfresh, ?_, ?_⟩
  . intro m hm
    cases hmem m hm with
    | inl hm => exact h.dirs m hm
    | inr hm => exact hm ▸ hdir
  . intro a ha b hb hfile hisDir
    cases hmem a ha with
    | inl hold =>
      cases hmem b hb with
      | inl hb => exact h.apart a hold b hb hfile hisDir
      | inr heq =>
        subst heq
        have := htwin a hold
        rw [if_pos hisDir] at this
        exact this hfile
    | inr heq =>
      subst heq
      cases hmem b hb with
      | inl hold =>
        have := htwin b hold
        rw [if_neg (by simp [hfile])] at this
        exact this hisDir
      | inr heq =>
        subst heq
        rw [hfile] at hisDir
        contradiction

section WithParents

variable (dirID : Str → ID)

theorem of_mem_withParents (hn' : n' ∈ withParents dirID path nodes)
    : (∃ n ∈ nodes, n'.path = n.path ∧ n'.isDirectory = n.isDirectory)
      ∨ n'.path ∈ dirsAbove path ∧ n'.isDirectory = true := by
  cases (dirsMade_withParents dirID path nodes).new n' hn' with
  | inl hold =>
    obtain ⟨n, hn, hfill⟩ := hold
    exact .inl ⟨n, hn, hfill.path, hfill.isDirectory⟩
  | inr hnew =>
    obtain ⟨d, hd, hfill, _⟩ := hnew
    right
    rw [hfill.path, hfill.isDirectory]
    exact ⟨ancestors_subset (mem_reverse.mp hd), rfl⟩

theorem withParents (h : Apart nodes) (hparents : ∀ d ∈ dirsAbove path, NoTwinOf nodes d true)
    : Apart (withParents dirID path nodes) := by
  refine ⟨h.keys.withParents dirID path, ?_, ?_⟩
  . intro n' hn' hdir
    obtain ⟨n, hn, hpath, hkind⟩ | ⟨habove, _⟩ := of_mem_withParents dirID hn'
    . rw [hpath]
      exact h.dirs n hn (hkind.symm.trans hdir)
    . exact (mem_dirsAbove.mp habove).2.1
  . intro a' ha' b' hb' hfile hdir
    obtain ⟨a, ha, hapath, hakind⟩ | ⟨_, hc⟩ := of_mem_withParents dirID ha'
    . obtain ⟨b, hb, hbpath, hbkind⟩ | ⟨habove, _⟩ := of_mem_withParents dirID hb'
      . rw [hapath, hbpath]
        exact h.apart a ha b hb (hakind.symm.trans hfile) (hbkind.symm.trans hdir)
      . rw [hapath]
        have := hparents _ habove a ha
        rw [if_pos rfl] at this
        exact this (hakind.symm.trans hfile)
    . rw [hc] at hfile
      contradiction

theorem noTwinOf_withParents (h : NoTwinOf nodes path isDirectory)
    : NoTwinOf (Datastore.withParents dirID path nodes) path isDirectory := by
  intro m' hm'
  obtain ⟨m, hm, hpath, hkind⟩ | ⟨habove, hdir⟩ := of_mem_withParents dirID hm'
  . rw [hpath, hkind]
    exact h m hm
  . split
    . intro hc
      rw [hdir] at hc
      contradiction
    . intro _ hc
      have hlen := length_lt_of_mem_dirsAbove habove
      rw [hc, length_append] at hlen
      omega

end WithParents

theorem fileMoved (h : Apart s.db.fileNodes) {oldPath newPath parent name : Str}
    (hrenamed : FileRenamed oldPath newPath ⟨source.nodeID, newPath, parent, name⟩ source s s')
    (htwin : NoTwinOf s.db.fileNodes newPath false)
    : Apart s'.db.fileNodes := by
  have hmoved : ∀ m ∈ s'.db.fileNodes, m.isDirectory = true → m ∈ s.db.fileNodes := by
    intro m hm hdir
    cases hrenamed.mem_cases h.keys hm with
    | inl hm => exact hm
    | inr hm =>
      have hfile := hrenamed.file
      rw [hm] at hdir
      rw [hdir] at hfile
      contradiction
  refine ⟨hrenamed.keysOk h.keys, ?_, ?_⟩
  . intro m hm hdir
    exact h.dirs m (hmoved m hm hdir) hdir
  . intro a ha b hb hfile hdir
    cases hrenamed.mem_cases h.keys ha with
    | inl ha => exact h.apart a ha b (hmoved b hb hdir) hfile hdir
    | inr ha =>
      subst ha
      have := htwin b (hmoved b hb hdir)
      rw [if_neg Bool.false_ne_true] at this
      exact this hdir

end Apart

section DirMoved

variable {nodes : List FileNode} {e f : Str} (dirID : Str → ID)

-- The place of every row that is moved, before the parents of the target are made.
def MovesApart (nodes : List FileNode) (oldPath newPath : Str) : Prop :=
  ∀ n ∈ nodes, oldPath <+: n.path
    → NoTwinOf (nodes.filter fun m => ¬ oldPath <+: m.path) (newPath ++ n.path.drop oldPath.length) n.isDirectory

theorem MovesApart.withParents (h : Apart nodes) (hhas : HasDir nodes (e ++ ['/'])) {newPath : Str}
    (hmoves : MovesApart nodes (e ++ ['/']) newPath)
    : MovesApart (withParents dirID newPath nodes) (e ++ ['/']) newPath := by
  intro n' hn' hin m' hm'
  obtain ⟨hm', hout⟩ := mem_filter.mp hm'
  rw [decide_eq_true_eq] at hout
  have hlen : ∀ d ∈ dirsAbove newPath, ∀ rest : Str, d ≠ newPath ++ rest ++ ['/'] := by
    intro d hd rest hc
    have := length_lt_of_mem_dirsAbove hd
    rw [hc, length_append, length_append] at this
    omega
  obtain ⟨m, hm, hmpath, hmkind⟩ | ⟨hmabove, hmdir⟩ := Apart.of_mem_withParents dirID hm'
  . rw [hmpath] at hout
    obtain ⟨n, hn, hnpath, hnkind⟩ | ⟨hnabove, hndir⟩ := Apart.of_mem_withParents dirID hn'
    . rw [hnpath] at hin
      rw [hnpath, hnkind, hmpath, hmkind]
      exact hmoves n hn hin m (mem_filter.mpr ⟨hm, decide_eq_true hout⟩)
    . -- a directory that has been made inside the one that is renamed
      rw [if_pos hndir, hmpath, hmkind]
      intro hfile hc
      have hbelow : e ++ ['/'] <+: m.path ++ ['/'] := by
        rw [← hc]
        exact (hin.trans (mem_dirsAbove.mp hnabove).1).trans (prefix_append _ _)
      cases prefix_concat_iff.mp hbelow with
      | inl heq =>
        obtain ⟨d, hd, hdpath, hdir⟩ := hhas
        exact h.apart m hm d hd hfile hdir (hdpath.trans heq)
      | inr hbelow => exact hout hbelow
  . split
    . intro hc
      rw [hmdir] at hc
      contradiction
    . intro _
      exact hlen _ hmabove _

theorem Apart.dirMoved (h : Apart nodes) (hsub : SubtreeMoved (e ++ ['/']) (f ++ ['/']) move nodes)
    (hmoves : MovesApart nodes (e ++ ['/']) (f ++ ['/']))
    : Apart (nodes.map move) := by
  obtain ⟨hkeys, hmoved⟩ := hsub
  refine ⟨hkeys, ?_, ?_⟩
  . intro n' hn' hdir
    obtain ⟨n, hn, rfl⟩ := mem_map.mp hn'
    rw [(hmoved n hn).isDirectory] at hdir
    have hlast := h.dirs n hn hdir
    by_cases hin : e ++ ['/'] <+: n.path
    . obtain ⟨rest, hrest⟩ := hin
      rw [(hmoved n hn).path_of_append hrest.symm]
      by_cases hnil : rest = []
      . rw [hnil, append_nil, getLast?_concat]
      . rw [← hrest, getLast?_append_of_ne_nil _ hnil] at hlast
        rw [getLast?_append_of_ne_nil _ hnil, hlast]
    . rwa [(hmoved n hn).outside hin]
  . intro a' ha' b' hb' hfile hdir
    obtain ⟨a, ha, rfl⟩ := mem_map.mp ha'
    obtain ⟨b, hb, rfl⟩ := mem_map.mp hb'
    rw [(hmoved a ha).isDirectory] at hfile
    rw [(hmoved b hb).isDirectory] at hdir
    have hnew : ∀ n ∈ nodes, e ++ ['/'] <+: n.path
        → (move n).path = f ++ ['/'] ++ n.path.drop (e ++ ['/']).length := by
      rintro n hn ⟨rest, hrest⟩
      rw [(hmoved n hn).path_of_append hrest.symm, ← hrest, drop_left]
    by_cases hain : e ++ ['/'] <+: a.path
    . by_cases hbin : e ++ ['/'] <+: b.path
      . obtain ⟨r1, hr1⟩ := hain
        obtain ⟨r2, hr2⟩ := hbin
        rw [(hmoved a ha).path_of_append hr1.symm, (hmoved b hb).path_of_append hr2.symm,
          append_assoc (f ++ ['/']) r1]
        intro hc
        have hrest := append_cancel_left hc
        apply h.apart a ha b hb hfile hdir
        rw [← hr1, ← hr2, hrest, append_assoc (e ++ ['/']) r1]
      . have hstays := hmoves a ha hain b (mem_filter.mpr ⟨hb, decide_eq_true hbin⟩)
        rw [if_neg (by simp [hfile])] at hstays
        rw [hnew a ha hain, (hmoved b hb).outside hbin]
        exact hstays hdir
    . rw [(hmoved a ha).outside hain]
      by_cases hbin : e ++ ['/'] <+: b.path
      . have hstays := hmoves b hb hbin a (mem_filter.mpr ⟨ha, decide_eq_true hain⟩)
        rw [if_pos hdir] at hstays
        rw [hnew b hb hbin]
        exact hstays hfile
      . rw [(hmoved b hb).outside hbin]
        exact h.apart a ha b hb hfile hdir

end DirMoved

-- A file can be put at `path`: no directory is next to it, and no file is next to a directory above
-- it.
def FileApart (nodes : List FileNode) (path : Str) : Prop :=
  NoTwinOf nodes path false ∧ ∀ d ∈ dirsAbove path, NoTwinOf nodes d true

def DirApart (nodes : List FileNode) (path : Str) : Prop :=
  NoTwinOf nodes path true ∧ ∀ d ∈ dirsAbove path, NoTwinOf nodes d true

/--
Nothing stands next to a path at which the operation puts a row; the path of a directory that is
renamed has no wildcard.
-/
def KeepsApart (nfc : Str → Str) (s : FileStore) (op : NamespaceOp) : Prop :=
  match op with
  | .write _ _ path _ _ _ => ∀ p ∈ (canonicalize nfc path).toOption, FileApart s.db.fileNodes p
  | .mkdir _ _ path => ∀ d ∈ (canonicalizeDir nfc path).toOption, DirApart s.db.fileNodes d
  | .copyFile _ _ dstPath => ∀ p ∈ (canonicalize nfc dstPath).toOption, FileApart s.db.fileNodes p
  | .rename oldPath newPath =>
    ∀ r ∈ resolveNodePath nfc s.db oldPath,
      if r.2.isDirectory then
        '_' ∉ oldPath ∧ '%' ∉ oldPath ∧ MovesApart s.db.fileNodes r.1 (canonicalizePathForKind nfc newPath true)
          ∧ DirApart s.db.fileNodes (canonicalizePathForKind nfc newPath true)
      else
        FileApart s.db.fileNodes (canonicalizePathForKind nfc newPath false)
  | .remove _ => True
  | .removeAll _ => True

instance decidableKeepsApart (nfc : Str → Str) (s : FileStore) (op : NamespaceOp)
    : Decidable (KeepsApart nfc s op) :=
  match op with
  | .write _ _ _ _ _ _ | .mkdir _ _ _ | .copyFile _ _ _ =>
    inferInstanceAs (Decidable (∀ p ∈ (_ : Option Str), _ ∧ _))
  | .rename _ _ =>
    haveI : ∀ old new, Decidable (MovesApart s.db.fileNodes old new) := fun _ _ =>
      inferInstanceAs (Decidable (∀ n ∈ s.db.fileNodes, _))
    inferInstanceAs (Decidable (∀ r ∈ resolveNodePath _ _ _,
      if r.2.isDirectory then _ ∧ _ ∧ _ ∧ _ ∧ _ else _ ∧ _))
  | .remove _ | .removeAll _ => .isTrue trivial

theorem mem_toOption {r : Except PathError Str} (h : r = .ok p) : p ∈ r.toOption := by
  rw [h]
  rfl

theorem Apart.step (laws : NfcLaws nfc) (h : Apart s.db.fileNodes) {op : NamespaceOp}
    (hpaths : ∀ p ∈ op.paths, CanonicalPath nfc p) (hok : KeepsApart nfc s op)
    : Apart (op.run dirID nfc s).2.db.fileNodes := by
  have heffect := @effect_run dirID nfc s op
  generalize (op.run dirID nfc s).2.db.fileNodes = rows at heffect ⊢
  cases heffect with
  | same => exact h
  | written hp hfresh | copied hq hp hsrc hfresh =>
    obtain ⟨htwin, hparents⟩ := hok _ (mem_toOption hp)
    apply (h.withParents dirID hparents).append hfresh
    . exact fun hc => by contradiction
    . exact noTwinOf_withParents dirID htwin
  | mkdirParents hd => exact h.withParents dirID (hok _ (mem_toOption hd)).2
  | @dirMade nodeID inodeID path d hd hfresh =>
    obtain ⟨htwin, hparents⟩ := hok _ (mem_toOption hd)
    obtain ⟨e, rfl⟩ := CanonicalDir.exists_eq_concat laws ⟨path, hd⟩
    apply (h.withParents dirID hparents).append hfresh
    . exact fun _ => getLast?_concat
    . exact noTwinOf_withParents dirID htwin
  | copyParents hp => exact h.withParents dirID (hok _ (mem_toOption hp)).2
  | @renameParents old new oldPath newPath node hresolve hnew hne =>
    subst hnew
    have hok := hok _ hresolve
    cases hdir : node.isDirectory with
    | true =>
      rw [hdir, if_pos rfl] at hok
      exact h.withParents dirID hok.2.2.2.2
    | false =>
      rw [hdir, if_neg Bool.false_ne_true] at hok
      exact h.withParents dirID hok.2
  | @fileMoved old new oldPath newPath node source s1 s2 hresolve hfile hnew hne hs1 hrenamed =>
    have hok := hok _ hresolve
    rw [if_neg (by simp [hfile]), ← hnew] at hok
    have hrows := h.withParents dirID hok.2
    have htwin := noTwinOf_withParents dirID hok.1
    rw [← hs1] at hrows htwin
    exact hrows.fileMoved hrenamed htwin
  | @dirMoved old new oldPath newPath node db1 db2 hresolve hdir hnew hne hdb1 hrename =>
    have hok := hok _ hresolve
    rw [if_pos hdir, ← hnew] at hok
    obtain ⟨hunderscore, hpercent, hmoves, htwin, hparents⟩ := hok
    obtain ⟨p, hp⟩ := (hpaths old mem_cons_self).exists_canonicalize laws
    have hliteral := literal_of_resolveNodePath laws hp ⟨hunderscore, hpercent⟩ hresolve
    have hcanon := canonicalizePathForKind_dir laws (hpaths new (by simp [NamespaceOp.paths]))
    rw [← hnew] at hcanon
    obtain ⟨hmem, hnode⟩ := Db.mem_of_node? (of_resolveNodePath hresolve).1
    have hhas : HasDir s.db.fileNodes oldPath := ⟨node, hmem, hnode, hdir⟩
    obtain ⟨e, rfl⟩ := getLast?_eq_some_iff.mp (hnode ▸ h.dirs node hmem hdir)
    obtain ⟨f, rfl⟩ := CanonicalDir.exists_eq_concat laws ⟨_, hcanon⟩
    have hrows := h.withParents dirID hparents
    have hmoves := hmoves.withParents dirID h hhas
    rw [← hdb1] at hrows hmoves
    exact hrows.dirMoved (subtreeMoved_applyAll hrows.keys hliteral hrename) hmoves
  | fileRemoved | dirRemoved | treeRemoved => exact h.filter _

/--
In every run from an empty namespace, on canonical paths, whose steps all meet the condition: no
name is both a file and a directory.
-/
theorem no_name_is_file_and_directory (nfc : Str → Str) (laws : NfcLaws nfc) (dirID : Str → ID)
    (s0 : FileStore) (hempty : s0.db.fileNodes = []) (ops : List NamespaceOp)
    (hpaths : ∀ op ∈ ops, ∀ p ∈ op.paths, CanonicalPath nfc p)
    (hok : Lts.Along (NamespaceOp.step dirID nfc) (KeepsApart nfc) s0 ops)
    (s : FileStore) (hexec : Lts.exec (NamespaceOp.step dirID nfc) s0 ops = some s)
    : ∀ n ∈ s.db.fileNodes, ∀ m ∈ s.db.fileNodes, n.isDirectory = false → m.isDirectory = true
      → m.path ≠ n.path ++ ['/'] := by
  have hinv : Apart s.db.fileNodes := by
    refine Lts.exec_invariant _ (fun s => Apart s.db.fileNodes) ?_ ?_
      (Lts.along_and hok hpaths) hexec
    . intro s op s' h hop hstep
      cases hstep
      exact h.step laws hop.2 hop.1
    . rw [hempty]
      exact .nil
  exact hinv.apart

theorem no_name_is_file_and_directory_moved
    : ∃ s, Lts.exec (NamespaceOp.step id id) (FileStore.empty false)
        [.write ['f'] ['1'] "/a/x".toList .db9 [] 1, .mkdir ['2'] ['d'] "/b".toList,
          .rename "/a/".toList "/b/c/".toList,
          .copyFile ['3'] "/b/c/x".toList "/y".toList] = some s
      ∧ s.db.fileNodes.map (·.path) = ["/b/c/".toList, "/b/c/x".toList, "/b/".toList, "/y".toList]
      ∧ ∀ n ∈ s.db.fileNodes, ∀ m ∈ s.db.fileNodes, n.isDirectory = false → m.isDirectory = true
        → m.path ≠ n.path ++ ['/'] := by
  refine Lts.exists_of_any (fun s => _) (by decide +kernel) fun s hexec hnames => ⟨hnames, ?_⟩
  exact no_name_is_file_and_directory id nfcLaws_id id (FileStore.empty false) rfl _
    (by unfold CanonicalPath; decide +kernel) (by decide +kernel) s hexec

-- A directory is made next to a file, by `mkdir` and for the parent of a write.
theorem file_gets_directory_of_its_name
    : (∃ s, Lts.exec (NamespaceOp.step id id) (FileStore.empty false)
          [.write ['f'] ['1'] "/a".toList .db9 [] 1, .mkdir ['2'] ['d'] "/a".toList] = some s
        ∧ s.db.fileNodes.map (fun n => (n.path, n.isDirectory))
          = [("/a".toList, false), ("/a/".toList, true)])
      ∧ ∃ s, Lts.exec (NamespaceOp.step id id) (FileStore.empty false)
          [.write ['f'] ['1'] "/a".toList .db9 [] 1, .write ['g'] ['2'] "/a/b".toList .db9 [] 1] = some s
        ∧ s.db.fileNodes.map (fun n => (n.path, n.isDirectory))
          = [("/a".toList, false), ("/a/".toList, true), ("/a/b".toList, false)] := by
  refine ⟨⟨_, rfl, ?_⟩, _, rfl, ?_⟩
  . decide +kernel
  . decide +kernel

end Backend
