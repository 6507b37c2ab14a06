import Drive9.Backend.Namespace.Effects
import Drive9.Server.Sources.Authorized

/-!
This module contains the frame of the handlers.
-/

namespace Server

open Datastore Backend Pathutil NodeUpdate

variable {nfc : Str → Str} {dirID : Str → ID} {scope : Option TenantScope} {s : FileStore}

section BatchRead

variable {blobs : ID → List UInt8}

theorem named_of_readInlinePlanCtx (h : readInlinePlanCtx nfc s blobs path = .ok plan)
    : SourceRequest.batchRead.named nfc s path = some plan.node := by
  unfold readInlinePlanCtx at h
  unfold SourceRequest.named
  split at h
  . contradiction
  . next resolvedPath _ =>
    cases hnode : s.db.node? resolvedPath with
    | none =>
      rw [hnode] at h
      contradiction
    | some node =>
      rw [hnode] at h
      dsimp only at h
      split at h
      . contradiction
      . split at h
        . contradiction
        . split at h
          . contradiction
          . cases h
            rfl

theorem named_of_batchReadSmallOne (h : batchReadSmallOne nfc s blobs path maxBytes = .ok plan)
    : SourceRequest.batchRead.named nfc s path = some plan.node ∧ plan.size ≤ maxBytes
      ∧ plan.inlineData.length ≤ maxBytes := by
  unfold batchReadSmallOne at h
  split at h
  . contradiction
  . split at h
    . contradiction
    . next hplan =>
      split at h
      . contradiction
      . next hsize =>
        cases h
        rw [not_or] at hsize
        exact ⟨named_of_readInlinePlanCtx hplan, Int.not_lt.mp hsize.1, Int.not_lt.mp hsize.2⟩

theorem named_of_handleBatchReadSmall
    (h : handleBatchReadSmall nfc scope s blobs paths maxBytes = .ok results)
    : results.length = paths.length
      ∧ ∀ (i : Nat) plan, results[i]? = some (.ok plan)
        → ∃ path, paths[i]? = some path ∧ SourceRequest.batchRead.authorize nfc scope path = .ok ()
          ∧ SourceRequest.batchRead.named nfc s path = some plan.node
          ∧ ∀ n : Int, n = plan.size ∨ n = plan.inlineData.length
            → n ≤ maxBatchReadSmallBytes ∧ (0 < maxBytes → n ≤ maxBytes) := by
  unfold handleBatchReadSmall at h
  split at h
  . contradiction
  . cases h
    refine ⟨List.length_map _, ?_⟩
    intro i plan hplan
    rw [List.getElem?_map] at hplan
    obtain ⟨path, hpath, heq⟩ := Option.map_eq_some_iff.mp hplan
    refine ⟨path, hpath, ?_⟩
    split at heq
    . contradiction
    . next hauthorized =>
      obtain ⟨hnamed, hsize, hdata⟩ := named_of_batchReadSmallOne heq
      refine ⟨hauthorized, hnamed, ?_⟩
      intro n hn
      split at hsize
      all_goals omega

end BatchRead

section Copy

variable {nodeID : ID} {srcPath dstPath : Str}

theorem answer_snd (r : Backend.Result) : (answer r).2 = r.2 := by
  unfold answer
  split
  all_goals rfl

theorem rows_of_handleCopy
    : (handleCopy nfc dirID scope s nodeID srcPath dstPath).2.db.fileNodes = s.db.fileNodes
      ∨ ∃ p, canonicalize nfc dstPath = .ok p
        ∧ DirsMade dirID (ancestors p.length p).reverse s.db.fileNodes (withParents dirID p s.db.fileNodes)
        ∧ ((handleCopy nfc dirID scope s nodeID srcPath dstPath).2.db.fileNodes
            = withParents dirID p s.db.fileNodes
          ∨ ∃ srcNode, (SourceRequest.copy dstPath).named nfc s srcPath = some srcNode
            ∧ (handleCopy nfc dirID scope s nodeID srcPath dstPath).2.db.fileNodes
              = withParents dirID p s.db.fileNodes ++ [fileNode nodeID p srcNode.fileID]) := by
  unfold handleCopy
  split
  . exact .inl rfl
  . next hne =>
    split
    . exact .inl rfl
    . rw [answer_snd]
      have heffect := @effect_copyFileCtx dirID nfc s nodeID srcPath dstPath
      generalize (copyFileCtx _ _ _ _ _ _).2.db.fileNodes = rows at heffect ⊢
      cases heffect with
      | same => exact .inl rfl
      | copyParents hp => exact .inr ⟨_, hp, dirsMade_withParents .., .inl rfl⟩
      | copied hq hp hsrc =>
        refine .inr ⟨_, hp, dirsMade_withParents .., .inr ⟨_, ?_, rfl⟩⟩
        unfold SourceRequest.named
        dsimp only
        rw [hq, hp]
        dsimp only
        rw [if_neg hne, hsrc]
      | fileRemoved hop => simp at hop

end Copy

section Rename

variable {oldPath newPath : Str} {n : FileNode}

theorem moved_eq (hold : oldPath ≠ [])
    (hresolve : resolveNodePath nfc s.db oldPath = some (path, node))
    (hne : path ≠ canonicalizePathForKind nfc newPath node.isDirectory)
    : (SourceRequest.rename newPath).moved nfc dirID s oldPath
      = if node.isDirectory then
          selected path
            (ensureParentDirs dirID s (canonicalizePathForKind nfc newPath node.isDirectory)).db
        else
          [node] := by
  unfold SourceRequest.moved
  rw [hresolve]
  dsimp only
  rw [if_neg hold, if_neg hne]

theorem kept_of_handleRename (hkeys : KeysOk s.db.fileNodes) (hn : n ∈ s.db.fileNodes)
    (hmoved : ∀ m ∈ (SourceRequest.rename newPath).moved nfc dirID s oldPath, m.path ≠ n.path)
    (hnew : ∀ isDirectory, n.path ≠ canonicalizePathForKind nfc newPath isDirectory)
    : ∃ n' ∈ (handleRename nfc dirID scope s oldPath newPath).2.db.fileNodes,
      Refilled dirID n n' := by
  unfold handleRename
  split
  . exact ⟨n, hn, .refl n⟩
  . next hold =>
    split
    . exact ⟨n, hn, .refl n⟩
    . rw [answer_snd]
      have heffect := @effect_renameCtx dirID nfc s oldPath newPath
      generalize (renameCtx _ _ _ _ _).2.db.fileNodes = rows at heffect ⊢
      cases heffect with
      | same => exact ⟨n, hn, .refl n⟩
      | renameParents => exact (dirsMade_withParents _ _ _).old n hn
      | @fileMoved _ _ path _ node source s1 s2 hresolve hfile hpath hne hrows hrenamed =>
        subst hpath
        have hkeys1 : KeysOk s1.db.fileNodes := by
          rw [hrows]
          exact hkeys.withParents dirID _
        rw [moved_eq hold hresolve (hfile ▸ hne), hfile] at hmoved
        have hmade :=
          dirsMade_withParents dirID (canonicalizePathForKind nfc newPath false) s.db.fileNodes
        obtain ⟨n', hn', hfill⟩ := hmade.old n hn
        rw [← hrows] at hn'
        refine ⟨n', ?_, hfill⟩
        rw [hrenamed.collected.fileNodes]
        refine mem_replacedNodes.mpr ⟨n', hn', ?_, apply_of_ne ?_⟩
        . intro d hd hid
          obtain ⟨hdmem, hdpath⟩ := Db.mem_of_node? hd
          have := hkeys1.eq_of_nodeID hdmem hn' hid
          rw [this, hfill.path] at hdpath
          exact hnew false hdpath
        . intro hid
          obtain ⟨hmem, hpath⟩ := Db.mem_of_node? hrenamed.source
          have := hkeys1.eq_of_nodeID hn' hmem hid
          have hnode := (Db.mem_of_node? (of_resolveNodePath hresolve).1).2
          refine hmoved node (List.mem_singleton_self _) ?_
          rw [hnode, ← hpath, ← this, hfill.path]
      | @dirMoved _ _ path _ node db1 db2 hresolve hdir hpath hne hrows hrename =>
        subst hpath
        have hkeys1 : KeysOk db1.fileNodes := by
          rw [hrows]
          exact hkeys.withParents dirID _
        rw [moved_eq hold hresolve (hdir ▸ hne), hdir] at hmoved
        have hmade :=
          dirsMade_withParents dirID (canonicalizePathForKind nfc newPath true) s.db.fileNodes
        obtain ⟨n', hn', hfill⟩ := hmade.old n hn
        rw [← hrows] at hn'
        refine ⟨n', List.mem_map.mpr ⟨n', hn', applyAll_of_ne ?_⟩, hfill⟩
        intro u hu hid
        obtain ⟨m, hm, rfl⟩ := List.mem_map.mp hu
        obtain ⟨hmem, hin⟩ := mem_selected.mp hm
        rw [nodeID_renameUpdate] at hid
        have := hkeys1.eq_of_nodeID hn' hmem hid
        subst this
        refine hmoved n' ?_ hfill.path
        rw [if_pos rfl]
        apply mem_selected.mpr
        rw [fileNodes_ensureParentDirs, ← hrows]
        exact ⟨hn', hin⟩
      | fileRemoved hop => simp at hop

theorem kept_of_handleRename_other
    : let r := handleRename id id (some ⟨false, []⟩) colonStore "/:/a/x".toList "/y".toList
      r.1 = .ok () ∧ ∃ n' ∈ r.2.db.fileNodes, Refilled id (fileNode ['2'] "/axb/k".toList (some ['g'])) n' :=
  ⟨by decide +kernel, kept_of_handleRename ⟨by decide +kernel, by decide +kernel⟩ (by decide +kernel)
    (by decide +kernel) (by decide +kernel)⟩

end Rename

end Server
