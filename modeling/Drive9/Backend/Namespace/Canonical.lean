import Drive9.Backend.Namespace.Moved

/-!
This module contains the proof of when every row of `file_nodes` is canonical for its kind, whatever
strings the operations get as paths.
-/

open List hiding tail

namespace Backend

open Datastore Pathutil Str NodeUpdate

structure RowCanonical (nfc : Str → Str) (n : FileNode) : Prop where
  dir : n.isDirectory = true → canonicalizeDir nfc n.path = .ok n.path
  file : n.isDirectory = false → canonicalize nfc n.path = .ok n.path ∧ n.path ≠ []
    ∧ n.path.getLast? ≠ some '/'
  parentPath : n.parentPath = Pathutil.parentPath n.path
  name : n.name = Pathutil.baseName n.path

structure AllCanonical (nfc : Str → Str) (nodes : List FileNode) : Prop where
  keys : KeysOk nodes
  rows : ∀ n ∈ nodes, RowCanonical nfc n

namespace RowCanonical

variable {nfc : Str → Str} {n n' : FileNode}

theorem canonicalPath (h : RowCanonical nfc n) : CanonicalPath nfc n.path := by
  cases hdir : n.isDirectory with
  | true => exact .inr (h.dir hdir)
  | false => exact .inl (h.file hdir).1

theorem refilled (h : RowCanonical nfc n) (hfill : Refilled dirID n n') : RowCanonical nfc n' := by
  constructor
  . rw [hfill.isDirectory, hfill.path]
    exact h.dir
  . rw [hfill.isDirectory, hfill.path]
    exact h.file
  . rw [hfill.parentPath, hfill.path]
    exact h.parentPath
  . rw [hfill.name, hfill.path]
    exact h.name

theorem of_render (laws : NfcLaws nfc) (hgood : ∀ t ∈ segs ++ [s], GoodSegment nfc t)
    (hfile : n.isDirectory = false)
    (hpath : n.path = render (segs ++ [s])) (hparent : n.parentPath = Pathutil.parentPath n.path)
    (hname : n.name = Pathutil.baseName n.path)
    : RowCanonical nfc n where
  dir hdir := by
    rw [hfile] at hdir
    contradiction
  file _ := by
    rw [hpath]
    exact ⟨canonicalize_render_concat laws hgood, by simp [render_concat],
      getLast?_render fun t ht => (hgood t ht).segment⟩
  parentPath := hparent
  name := hname

theorem dirNode (hd : canonicalizeDir nfc d = .ok d) (nodeID inodeID : ID)
    : RowCanonical nfc (dirNode nodeID inodeID d) where
  dir _ := hd
  file h := by contradiction
  parentPath := rfl
  name := rfl

theorem madeDir (laws : NfcLaws nfc) (hp : CanonicalPath nfc p) (hd : d ∈ ancestors fuel p)
    : RowCanonical nfc (madeDir dirID d) := by
  have hcanon := canonicalizeDir_of_mem_ancestors laws hp hd
  have hroot := (mem_dirsAbove.mp (ancestors_subset hd)).2.2.1
  constructor
  . exact fun _ => hcanon
  . exact fun h => by contradiction
  . exact (CanonicalPath.parentPath_eq laws (.inr hcanon)).symm
  . exact (CanonicalPath.baseName_eq laws (.inr hcanon) hroot).symm

end RowCanonical

section Relocated

variable {nfc : Str → Str} {ds ns : List Str} {n n' : FileNode}

theorem exists_below_segments (hds : ∀ t ∈ ds, GoodSegment nfc t)
    (hsegs : ∀ t ∈ segs, GoodSegment nfc t)
    (htail : tail = [] ∨ tail = ['/']) (hpath : render segs ++ tail = render ds ++ ['/'] ++ rest)
    : ∃ ts, segs = ds ++ ts ∧ render ts ++ tail = '/' :: rest := by
  rw [append_assoc, singleton_append] at hpath
  have hsegments : segments (render segs ++ tail) = segs := by
    obtain rfl | rfl := htail
    . rw [append_nil]
      exact segments_render fun t ht => (hsegs t ht).segment
    . rw [segments_append_singleton]
      exact segments_render fun t ht => (hsegs t ht).segment
  have hsplit : segs = ds ++ segments rest := by
    rw [← hsegments, hpath, segments_append_slash, segments_render fun t ht => (hds t ht).segment]
  refine ⟨segments rest, hsplit, ?_⟩
  rw [hsplit, render_append, append_assoc] at hpath
  exact append_cancel_left hpath

section

variable (laws : NfcLaws nfc) (h : RowCanonical nfc n) (hds : ∀ t ∈ ds, GoodSegment nfc t)
  (hns : ∀ t ∈ ns, GoodSegment nfc t) (hne : ns ≠ [])

include laws h hds hns hne

theorem RowCanonical.relocated_path (hrest : n.path = render ds ++ ['/'] ++ rest)
    (hpath : n'.path = render ns ++ ['/'] ++ rest)
    : (n.isDirectory = true → canonicalizeDir nfc n'.path = .ok n'.path)
      ∧ (n.isDirectory = false
        → canonicalize nfc n'.path = .ok n'.path ∧ n'.path ≠ [] ∧ n'.path.getLast? ≠ some '/') := by
  have hgood : ∀ ts, (∀ t ∈ ds ++ ts, GoodSegment nfc t) → ∀ t ∈ ns ++ ts, GoodSegment nfc t := by
    intro ts hts t ht
    cases mem_append.mp ht with
    | inl ht => exact hns t ht
    | inr ht => exact hts t (mem_append_right ds ht)
  rw [append_assoc, singleton_append] at hpath
  refine ⟨?_, ?_⟩
  . intro hdir
    obtain ⟨hraw, heq⟩ := (canonicalizeDir_eq_ok_iff laws).mp (h.dir hdir)
    have hsegs := hraw.segments_map laws
    obtain ⟨ts, hts, htail⟩ := exists_below_segments hds hsegs (.inr rfl) (heq.symm.trans hrest)
    rw [hts] at hsegs
    rw [hpath, ← htail, ← append_assoc, ← render_append]
    exact canonicalizeDir_render laws (hgood ts hsegs)
  . intro hfile
    obtain ⟨hcanon, hnil, hlast⟩ := h.file hfile
    obtain ⟨hraw, heq⟩ := (canonicalize_eq_ok_iff laws).mp hcanon
    have hroot : ¬ (n.path = [] ∨ n.path = ['/']) := by
      rintro (hc | hc)
      . exact hnil hc
      . exact hlast (hc ▸ rfl)
    rw [if_neg hroot] at heq
    have hsegs := hraw.segments_map laws
    obtain ⟨ts, hts, htail⟩ := exists_below_segments hds hsegs (.inl rfl)
      ((append_nil _).trans (heq.symm.trans hrest))
    rw [hts] at hsegs
    have hsegs := hgood ts hsegs
    have hnt : ns ++ ts ≠ [] := append_ne_nil_of_left_ne_nil hne ts
    rw [hpath, ← htail, append_nil, ← render_append]
    exact ⟨canonicalize_render laws hnt hsegs, render_ne_nil hnt,
      getLast?_render fun t ht => (hsegs t ht).segment⟩

theorem RowCanonical.relocated
    (hmoved : Relocated (render ds ++ ['/']) (render ns ++ ['/']) n n')
    : RowCanonical nfc n' := by
  by_cases hin : render ds ++ ['/'] <+: n.path
  . obtain ⟨rest, hrest⟩ := hin
    have hpath := hmoved.path_of_append hrest.symm
    obtain ⟨hdir, hfile⟩ := h.relocated_path laws hds hns hne hrest.symm hpath
    rw [← hmoved.isDirectory] at hdir hfile
    have hcanon : CanonicalPath nfc n'.path := by
      cases hkind : n'.isDirectory with
      | true => exact .inr (hdir hkind)
      | false => exact .inl (hfile hkind).1
    refine ⟨hdir, hfile, ?_, ?_⟩
    . rw [hcanon.parentPath_eq laws]
      apply hmoved.parentPath_eq
      rw [h.parentPath, h.canonicalPath.parentPath_eq laws]
    . have hlen : ∀ ss : List Str, (render ss ++ ['/'] ++ rest).length = (render ss).length + 1 + rest.length := by
        intro ss
        simp only [length_append, length_singleton]
      have hroot : n'.path ≠ ['/'] := by
        intro hc
        have := length_pos_of_ne_nil (render_ne_nil hne)
        have hlen := hlen ns
        rw [← hpath, hc, length_singleton] at hlen
        omega
      rw [hcanon.baseName_eq laws hroot]
      apply hmoved.name_eq ⟨rest, hrest⟩
      intro htop
      rw [h.name, h.canonicalPath.baseName_eq laws]
      intro hc
      have hlen := hlen ds
      rw [hrest, hc, length_singleton] at hlen
      rw [eq_nil_of_length_eq_zero (l := rest) (by omega), append_nil] at hrest
      exact htop hrest.symm
  . rw [hmoved.outside hin]
    exact h

end

end Relocated

namespace AllCanonical

variable {nfc : Str → Str} {nodes : List FileNode} {n : FileNode}

theorem nil : AllCanonical nfc [] where
  keys := .nil
  rows n hn := by contradiction

theorem append (h : AllCanonical nfc nodes) (hfresh : Fresh n nodes) (hn : RowCanonical nfc n)
    : AllCanonical nfc (nodes ++ [n]) := by
  refine ⟨h.keys.append hfresh, ?_⟩
  intro m hm
  cases mem_append.mp hm with
  | inl hm => exact h.rows m hm
  | inr hm => exact mem_singleton.mp hm ▸ hn

theorem filter (h : AllCanonical nfc nodes) (p : FileNode → Bool)
    : AllCanonical nfc (nodes.filter p) where
  keys := h.keys.filter p
  rows n hn := h.rows n (mem_of_mem_filter hn)

theorem withParents (laws : NfcLaws nfc) (h : AllCanonical nfc nodes) (dirID : Str → ID)
    (hpath : CanonicalPath nfc path)
    : AllCanonical nfc (withParents dirID path nodes) := by
  have hmade := dirsMade_withParents dirID path nodes
  refine ⟨h.keys.withParents dirID path, ?_⟩
  intro n' hn'
  cases hmade.new n' hn' with
  | inl hold =>
    obtain ⟨n, hn, hfill⟩ := hold
    exact (h.rows n hn).refilled hfill
  | inr hnew =>
    obtain ⟨d, hd, hfill, _⟩ := hnew
    exact (RowCanonical.madeDir laws hpath (mem_reverse.mp hd)).refilled hfill

theorem goodRaw_of_resolve (h : AllCanonical nfc db.fileNodes)
    (hresolve : resolveNodePath nfc db raw = some (path, node))
    : GoodRaw raw := by
  obtain ⟨hnode, hpath⟩ := of_resolveNodePath hresolve
  obtain ⟨hmem, hnodePath⟩ := Db.mem_of_node? hnode
  have hrow : path = raw → GoodRaw raw := by
    intro heq
    rw [← heq, ← hnodePath]
    cases (h.rows node hmem).canonicalPath with
    | inl hcanon | inr hcanon => exact goodRaw_of_canonicalizeAs nfc hcanon
  cases hpath with
  | inl hpath =>
    unfold normalizePath at hpath
    split at hpath
    all_goals
      split at hpath
      . exact hrow hpath
      . next hcanon => exact goodRaw_of_canonicalizeAs nfc hcanon
  | inr hpath => exact goodRaw_of_canonicalizeAs nfc hpath.2

end AllCanonical

/--
What is written has a segment. The target of a rename is accepted and has a segment, a file is not
renamed to the path of a directory, and the path of a directory that is renamed has no wildcard.
-/
def KeepsCanonical (nfc : Str → Str) (s : FileStore) (op : NamespaceOp) : Prop :=
  match op with
  | .write _ _ path _ _ _ => segments path ≠ []
  | .mkdir _ _ _ => True
  | .copyFile _ _ dstPath => segments dstPath ≠ []
  | .rename oldPath newPath =>
    ∀ r ∈ resolveNodePath nfc s.db oldPath,
      (canonicalize nfc newPath).isOk = true ∧ segments newPath ≠ []
        ∧ if r.2.isDirectory then '_' ∉ oldPath ∧ '%' ∉ oldPath else newPath.getLast? ≠ some '/'
  | .remove _ => True
  | .removeAll _ => True

instance decidableKeepsCanonical (nfc : Str → Str) (s : FileStore) (op : NamespaceOp)
    : Decidable (KeepsCanonical nfc s op) := by
  unfold KeepsCanonical
  split <;> infer_instance

section Step

variable {dirID : Str → ID} {nfc : Str → Str} (laws : NfcLaws nfc) {s : FileStore}

include laws

section

variable (hok : (canonicalize nfc new).isOk = true) (hsegs : segments new ≠ [])

include hok hsegs

theorem forKind_dir : ∃ segs s, (∀ t ∈ segs ++ [s], GoodSegment nfc t)
      ∧ canonicalizePathForKind nfc new true = render (segs ++ [s]) ++ ['/'] := by
  cases hp : canonicalize nfc new with
  | error => rw [hp] at hok; contradiction
  | ok p =>
    obtain ⟨segs, s, hgood, rfl⟩ := exists_of_canonicalize laws hp hsegs
    refine ⟨segs, s, hgood, ?_⟩
    unfold canonicalizePathForKind
    rw [if_pos rfl, canonicalizeDir_of_canonicalize laws hp]
    unfold dirForm
    rw [if_pos ⟨rfl, (render_concat_ne segs (segment_last hgood)).1⟩]

theorem forKind_file
    (hlast : new.getLast? ≠ some '/')
    : ∃ segs s, (∀ t ∈ segs ++ [s], GoodSegment nfc t)
      ∧ canonicalizePathForKind nfc new false = render (segs ++ [s]) := by
  cases hp : canonicalize nfc new with
  | error => rw [hp] at hok; contradiction
  | ok p =>
    obtain ⟨segs, s, hgood, rfl⟩ := exists_of_canonicalize laws hp hsegs
    refine ⟨segs, s, hgood, ?_⟩
    have hdir : isDir new = false := by
      unfold isDir
      rw [Bool.or_eq_false_iff, decide_eq_false_iff_not, decide_eq_false_iff_not]
      refine ⟨?_, hlast⟩
      rintro rfl
      exact hlast rfl
    unfold canonicalizePathForKind normalizePath
    rw [if_neg Bool.false_ne_true, hdir, if_neg Bool.false_ne_true, hp]

end

section

variable (h : AllCanonical nfc s.db.fileNodes) (hok : KeepsCanonical nfc s op)

include h hok

theorem AllCanonical.step : AllCanonical nfc (op.run dirID nfc s).2.db.fileNodes := by
  have heffect := @effect_run dirID nfc s op
  generalize (op.run dirID nfc s).2.db.fileNodes = rows at heffect ⊢
  cases heffect with
  | same => exact h
  | written hp hfresh | copied hq hp hsrc hfresh =>
    obtain ⟨segs, s, hgood, rfl⟩ := exists_of_canonicalize laws hp hok
    have hrows := h.withParents laws dirID (.inl (canonicalize_render_concat laws hgood))
    exact hrows.append hfresh (.of_render laws hgood rfl rfl rfl rfl)
  | mkdirParents hd => exact h.withParents laws dirID (.inr (canonicalizeDir_idem laws hd))
  | dirMade hd hfresh =>
    have hcanon := canonicalizeDir_idem laws hd
    exact (h.withParents laws dirID (.inr hcanon)).append hfresh (.dirNode hcanon _ _)
  | copyParents hp =>
    obtain ⟨segs, s, hgood, rfl⟩ := exists_of_canonicalize laws hp hok
    exact h.withParents laws dirID (.inl (canonicalize_render_concat laws hgood))
  | @renameParents old new oldPath newPath node hresolve hnew hne =>
    obtain ⟨haccepted, hsegs, hkind⟩ := hok _ hresolve
    subst hnew
    cases hdir : node.isDirectory with
    | true =>
      obtain ⟨segs, s, hgood, hpath⟩ := forKind_dir laws haccepted hsegs
      rw [hpath]
      exact h.withParents laws dirID (.inr (canonicalizeDir_render_slash laws hgood))
    | false =>
      rw [hdir, if_neg Bool.false_ne_true] at hkind
      obtain ⟨segs, s, hgood, hpath⟩ := forKind_file laws haccepted hsegs hkind
      rw [hpath]
      exact h.withParents laws dirID (.inl (canonicalize_render_concat laws hgood))
  | @fileMoved old new oldPath newPath node source s1 s2 hresolve hfile hnew hne hs1 hrenamed =>
    obtain ⟨haccepted, hsegs, hkind⟩ := hok _ hresolve
    rw [if_neg (by simp [hfile])] at hkind
    obtain ⟨segs, s, hgood, hpath⟩ := forKind_file laws haccepted hsegs hkind
    rw [hpath] at hnew
    have hrows := h.withParents laws dirID (.inl (canonicalize_render_concat laws hgood))
    rw [← hnew, ← hs1] at hrows
    refine ⟨hrenamed.keysOk hrows.keys, ?_⟩
    intro n hn
    cases hrenamed.mem_cases hrows.keys hn with
    | inl hn => exact hrows.rows n hn
    | inr hn => exact hn ▸ .of_render laws hgood hrenamed.file hnew rfl rfl
  | @dirMoved old new oldPath newPath node db1 db2 hresolve hdir hnew hne hdb1 hrename =>
    obtain ⟨haccepted, hsegs, hplain⟩ := hok _ hresolve
    rw [if_pos hdir] at hplain
    obtain ⟨segs, s, hgood, hpath⟩ := forKind_dir laws haccepted hsegs
    rw [hpath] at hnew
    have hrows := h.withParents laws dirID (.inr (canonicalizeDir_render_slash laws hgood))
    rw [← hnew, ← hdb1] at hrows
    have hp := (canonicalize_eq_ok_iff laws).mpr ⟨h.goodRaw_of_resolve hresolve, rfl⟩
    have hliteral := literal_of_resolveNodePath laws hp hplain hresolve
    obtain ⟨hmem, hnode⟩ := Db.mem_of_node? (of_resolveNodePath hresolve).1
    have hold := (h.rows node hmem).dir hdir
    rw [hnode] at hold
    obtain ⟨hraw, hold⟩ := (canonicalizeDir_eq_ok_iff laws).mp hold
    rw [hold] at hliteral
    rw [hold, hnew] at hrename ⊢
    obtain ⟨hkeys, hmoved⟩ := subtreeMoved_applyAll hrows.keys hliteral hrename
    refine ⟨hkeys, ?_⟩
    intro n' hn'
    obtain ⟨n, hn, rfl⟩ := mem_map.mp hn'
    exact (hrows.rows n hn).relocated laws (hraw.segments_map laws) hgood (by simp) (hmoved n hn)
  | fileRemoved | dirRemoved | treeRemoved => exact h.filter _

theorem AllCanonical.refused (hp : p ∈ op.paths)
    (hrefused : (canonicalize nfc p).isOk = false)
    : ∃ err, op.run dirID nfc s = (.error err, s) := by
  obtain ⟨err, herr⟩ : ∃ err, canonicalize nfc p = .error err := by
    cases hcanon : canonicalize nfc p with
    | error err => exact ⟨err, rfl⟩
    | ok q => rw [hcanon] at hrefused; contradiction
  have hbad : ¬ GoodRaw p := by
    intro hgood
    rw [(canonicalize_eq_ok_iff laws).mpr ⟨hgood, rfl⟩] at herr
    contradiction
  have hresolve : resolveNodePath nfc s.db p = none := by
    cases hresolve : resolveNodePath nfc s.db p with
    | none => rfl
    | some r => exact absurd (h.goodRaw_of_resolve hresolve) hbad
  cases op with
  | write fileID nodeID path storageType storageRef size =>
    rw [mem_singleton.mp hp] at herr
    unfold NamespaceOp.run writeCtx
    dsimp only
    rw [herr]
    exact ⟨_, rfl⟩
  | mkdir nodeID inodeID path =>
    obtain rfl := mem_singleton.mp hp
    unfold NamespaceOp.run mkdirCtx
    dsimp only
    cases hdir : canonicalizeDir nfc p with
    | error err => exact ⟨_, rfl⟩
    | ok d => exact absurd (goodRaw_of_canonicalizeAs nfc hdir) hbad
  | copyFile nodeID srcPath dstPath =>
    unfold NamespaceOp.run copyFileCtx
    dsimp only
    cases hsrc : canonicalize nfc srcPath with
    | error err => exact ⟨_, rfl⟩
    | ok q =>
      cases mem_cons.mp hp with
      | inl hp => rw [hp, hsrc] at herr; contradiction
      | inr hp =>
        rw [mem_singleton.mp hp] at herr
        rw [herr]
        exact ⟨_, rfl⟩
  | rename oldPath newPath =>
    have hnone : resolveNodePath nfc s.db oldPath = none := by
      cases mem_cons.mp hp with
      | inl hp => rwa [← hp]
      | inr hp =>
        cases hold : resolveNodePath nfc s.db oldPath with
        | none => rfl
        | some r =>
          have haccepted := (hok r hold).1
          rw [← mem_singleton.mp hp, hrefused] at haccepted
          contradiction
    unfold NamespaceOp.run renameCtx
    dsimp only
    rw [hnone]
    exact ⟨_, rfl⟩
  | remove path =>
    unfold NamespaceOp.run removeCtx
    dsimp only
    rw [← mem_singleton.mp hp, hresolve]
    exact ⟨_, rfl⟩
  | removeAll path =>
    unfold NamespaceOp.run removeAllCtx
    dsimp only
    rw [← mem_singleton.mp hp, hresolve]
    exact ⟨_, rfl⟩

end

end Step

/--
In every run from an empty namespace, with any strings as paths, whose steps all meet the condition:
each row is canonical for its kind, and the next operation, if it meets the condition, fails and
does nothing where an argument is refused.
-/
theorem every_row_is_canonical (nfc : Str → Str) (laws : NfcLaws nfc) (dirID : Str → ID)
    (s0 : FileStore) (hempty : s0.db.fileNodes = []) (ops : List NamespaceOp)
    (hok : Lts.Along (NamespaceOp.step dirID nfc) (KeepsCanonical nfc) s0 ops)
    (s : FileStore) (hexec : Lts.exec (NamespaceOp.step dirID nfc) s0 ops = some s)
    : (∀ n ∈ s.db.fileNodes, RowCanonical nfc n)
      ∧ ∀ op, KeepsCanonical nfc s op → ∀ p ∈ op.paths, (canonicalize nfc p).isOk = false
        → ∃ err, op.run dirID nfc s = (.error err, s) := by
  have hinv : AllCanonical nfc s.db.fileNodes := by
    refine Lts.exec_invariant _ (fun s => AllCanonical nfc s.db.fileNodes) ?_ ?_ hok hexec
    . intro s op s' h hop hstep
      cases hstep
      exact h.step laws hop
    . rw [hempty]
      exact .nil
  refine ⟨hinv.rows, ?_⟩
  intro op hop p hp hrefused
  exact hinv.refused laws hop hp hrefused

theorem every_row_is_canonical_raw
    : ∃ s, Lts.exec (NamespaceOp.step id id) (FileStore.empty false)
        [.write ['f'] ['1'] "a//x".toList .db9 [] 1, .mkdir ['2'] ['d'] "//b".toList,
          .rename "a".toList "/b//c/".toList,
          .copyFile ['3'] "b/c/x/".toList "b/y".toList, .rename "/b/../a".toList "/q".toList] = some s
      ∧ s.db.fileNodes.map (·.path) = ["/b/c/".toList, "/b/c/x".toList, "/b/".toList, "/b/y".toList]
      ∧ (∀ n ∈ s.db.fileNodes, RowCanonical id n)
      ∧ ∃ err, NamespaceOp.run id id s (.removeAll "/b/..".toList) = (.error err, s) := by
  refine Lts.exists_of_any (fun s => _) (by decide +kernel) fun s hexec hnames => ⟨hnames, ?_⟩
  obtain ⟨hrows, hrefused⟩ := every_row_is_canonical id nfcLaws_id id (FileStore.empty false) rfl _
    (by decide +kernel) s hexec
  exact ⟨hrows, hrefused (.removeAll "/b/..".toList) trivial "/b/..".toList (mem_singleton_self _) (by decide +kernel)⟩

-- A target that is refused becomes the path of a row, a file gets the path of a directory, and a
-- write makes a file of the root.
theorem raw_paths_become_rows
    : (∃ s, Lts.exec (NamespaceOp.step id id) (FileStore.empty false)
          [.write ['f'] ['1'] "/a".toList .db9 [] 1, .rename "/a".toList "/b/..".toList] = some s
        ∧ (canonicalize id "/b/..".toList).isOk = false
        ∧ "/b/..".toList ∈ s.db.fileNodes.map (·.path))
      ∧ (∃ s, Lts.exec (NamespaceOp.step id id) (FileStore.empty false)
          [.write ['f'] ['1'] "/a".toList .db9 [] 1, .rename "/a".toList "/b/".toList] = some s
        ∧ ∃ n ∈ s.db.fileNodes, n.isDirectory = false ∧ n.path = "/b/".toList)
      ∧ ∃ s, Lts.exec (NamespaceOp.step id id) (FileStore.empty false)
          [.write ['f'] ['1'] "/".toList .db9 [] 1] = some s
        ∧ ∃ n ∈ s.db.fileNodes, n.isDirectory = false ∧ n.path = "/".toList := by
  refine ⟨⟨_, rfl, ?_⟩, ⟨_, rfl, ?_⟩, _, rfl, ?_⟩
  all_goals decide +kernel

end Backend
