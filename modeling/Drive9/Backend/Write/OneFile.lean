import Drive9.Backend.Write.Lemmas

/-!
This module contains runs in which only writes to one existing file take place.
-/

open Datastore Backend Transaction Option FMap

namespace Datastore.Db

def resolves (db : Db) (fileID : ID) (path : Str) : Bool :=
  (db.node? path).any fun n => !n.isDirectory && n.fileID = some fileID

end Datastore.Db

namespace WriteSystem

def writesTo (fileID : ID) (s : WriteSystem) (label : WriteLabel) : Bool :=
  match label with
  | .start _ args => s.store.db.resolves fileID args.path
  | .run _ _ _ => true
  | .txFail _ _ => true
  | .file _ => false
  | .upload _ => false

def current? (s : WriteSystem) (fileID : ID) : Option StatFile :=
  match s.store.db.inodes.get? fileID, s.store.db.contents.get? fileID with
  | some inode, some content =>
    some ⟨fileID, inode.revision, content.storageType, content.storageRef, (s.blobs.get? fileID).getD []⟩
  | _, _ => none

structure UpdateOf (fileID : ID) (db : Db) (req : WriteRequest) : Prop where
  path : db.resolves fileID req.args.path
  updates : req.phase.creating = false
  file : ∀ file, req.phase.file? = some file → file.fileID = fileID

structure OneFile (fileID : ID) (s : WriteSystem) : Prop where
  named : fileID ≠ []
  current : (s.current? fileID).isSome
  confirmed : (s.store.db.row fileID).map Prod.fst = some .confirmed
  revision : (s.store.db.row fileID).map Prod.snd = (s.current? fileID).map (·.revision)
  requests : ∀ r req, s.requests.get? r = some req → UpdateOf fileID s.store.db req

variable {cfg : WriteConfig} {dirID : Str → ID} {fileID : ID}

variable {s s' : WriteSystem} {cur file : StatFile}

theorem stat_of_resolves (hnamed : fileID ≠ []) (hcurrent : s.current? fileID = some file)
    (h : s.store.db.resolves fileID path)
    : ∃ node, stat s.store.db s.blobs path = .found node (some file) := by
  obtain ⟨node, hnode, hn⟩ := (any_eq_true _ _).mp h
  simp only [Bool.and_eq_true, Bool.not_eq_true', decide_eq_true_eq] at hn
  refine ⟨node, ?_⟩
  unfold current? at hcurrent
  unfold stat
  rw [hnode]
  dsimp only
  rw [hn.2]
  dsimp only
  rw [if_neg (by simp [hn.1, hnamed])]
  split at hcurrent
  . next hinode hcontent =>
    cases hcurrent
    rw [hinode, hcontent]
  . contradiction

variable {db : Db}

theorem current?_updated (hs : s.OneFile fileID) (hcurrent : s.current? fileID = some cur)
    (hfile : file.fileID = fileID)
    (htx : overwriteFileTx file.fileID expectedRevision storageType storageRef finalData.length
      s.store.db = .ok (rev, db))
    : rev = cur.revision + 1
      ∧ ((s.setDb db).setBlob file.fileID storageType finalData).current? fileID
        = some ⟨fileID, rev, storageType, storageRef, if storageType = .db9 then finalData else []⟩
      ∧ db.row fileID = some (.confirmed, rev) ∧ db.fileNodes = s.store.db.fileNodes := by
  subst hfile
  have hcontent := of_updateFileContentTx htx
  obtain ⟨st, old, hrow, hrow', _⟩ := (rowUpdated_overwriteFileTx htx).updated
  have hrevision := hs.revision
  rw [hrow, hcurrent, map_some, map_some] at hrevision
  cases hrevision
  have hrev : rev = cur.revision + 1 := by
    have hlegacy := hcontent.legacy
    have hsplit := hcontent.split
    unfold Db.row Db.fileRow Db.inodeRow at hrow
    split at hrow
    . next hl =>
      obtain ⟨f, hf, heq, _⟩ := hlegacy hl
      rw [hf, map_some, Option.some.injEq, Prod.mk.injEq] at hrow
      rw [heq, hrow.2]
    . next hl =>
      obtain ⟨i, hi, heq, _⟩ := hsplit hl
      rw [hi, map_some, Option.some.injEq, Prod.mk.injEq] at hrow
      rw [heq, hrow.2]
  refine ⟨hrev, ?_, hrev ▸ hrow', ?_⟩
  . unfold current? at hcurrent
    split at hcurrent
    . next hinode hcontent' =>
      rw [hcontent.eq]
      unfold current? setBlob setDb
      rw [get?_modify, if_pos rfl, hinode, get?_modify, if_pos rfl, hcontent', get?_set_self]
      rfl
    . contradiction
  . rw [hcontent.eq]

section

variable (cfg : WriteConfig) (fileID : ID) (s : WriteSystem) (cur : StatFile)

inductive Moved : WriteLabel → WriteSystem → Prop where
  | started {r args} (hnew : s.requests.get? r = none)
      : Moved (.start r args) { s with requests := s.requests.set r ⟨args, .stat⟩ }
  | read {r newID nodeID req} (hreq : s.requests.get? r = some req)
      (hp : req.phase = .stat)
      : Moved (.run r newID nodeID) (s.setPhase r req (.readExisting cur))
  | replace {r newID nodeID req} (hreq : s.requests.get? r = some req)
      (hp : req.phase = .stat) (hpart : req.args.partialWrite = false)
      : Moved (.run r newID nodeID) (s.setPhase r req (.put cur req.args.data))
  | failed {r newID nodeID req} (hreq : s.requests.get? r = some req)
      (hp : req.phase = .stat ∨ ∃ file, req.phase = .readExisting file) (err : WriteError)
      : Moved (.run r newID nodeID) (s.setPhase r req (.failed err))
  | loaded {r newID nodeID req file existing}
      (hreq : s.requests.get? r = some req) (hp : req.phase = .readExisting file)
      (hread : s.readFileData file = some existing)
      : Moved (.run r newID nodeID) (s.setPhase r req (.put file (req.args.finalData existing)))
  | put {r newID nodeID req file finalData s1 storageType storageRef} (hreq : s.requests.get? r = some req)
      (hp : req.phase = .put file finalData) (hput : Put cfg s newID finalData s1 storageType storageRef)
      : Moved (.run r newID nodeID)
          (s1.setPhase r req (.updateTx file finalData storageType storageRef))
  | rolledBack {r label req file finalData storageType storageRef} (hreq : s.requests.get? r = some req)
      (hp : req.phase = .updateTx file finalData storageType storageRef) (err : WriteError)
      : Moved label (s.setPhase r req (WriteArgs.rolledBack storageType storageRef err))
  | committed {r newID nodeID req file finalData storageType storageRef db} (hreq : s.requests.get? r = some req)
      (hp : req.phase = .updateTx file finalData storageType storageRef)
      (hcurrent : ((s.setDb db).setBlob file.fileID storageType finalData).current? fileID
        = some ⟨fileID, cur.revision + 1, storageType, storageRef, if storageType = .db9 then finalData else []⟩)
      (hrow : db.row fileID = some (.confirmed, cur.revision + 1)) (hnodes : db.fileNodes = s.store.db.fileNodes)
      : Moved (.run r newID nodeID)
          (((s.setDb db).setBlob file.fileID storageType finalData).setPhase r req
            (WriteArgs.updated file storageRef (cur.revision + 1)))
  | deletedBlob {r newID nodeID req storageRef err}
      (hreq : s.requests.get? r = some req) (hp : req.phase = .deleteBlob storageRef err)
      : Moved (.run r newID nodeID)
          { s.setPhase r req (.failed err) with objects := s.objects.del storageRef }
  | enqueued {r newID nodeID req storageRef revision}
      (hreq : s.requests.get? r = some req) (hp : req.phase = .enqueue storageRef revision)
      : Moved (.run r newID nodeID)
          { s.setPhase r req (.committed revision) with candidates := storageRef :: s.candidates }

end

variable {req : WriteRequest}

section

variable (hs : s.OneFile fileID) (hcurrent : s.current? fileID = some cur)

include hs hcurrent

theorem moved_of_ran
    (hreq : s.requests.get? r = some req) (h : Ran cfg dirID s r newID nodeID req s')
    : Moved cfg fileID s cur (.run r newID nodeID) s' := by
  have hupdate := hs.requests r req hreq
  have hcreating := hupdate.updates
  cases h with
  | statted hp h =>
    obtain ⟨node, hstat⟩ := stat_of_resolves hs.named hcurrent hupdate.path
    cases h with
    | create hfound hexp =>
      rw [hstat] at hfound
      contradiction
    | read hfound hexp hpart =>
      rw [hstat] at hfound
      cases hfound
      exact .read hreq hp
    | replace hfound hexp hpart =>
      rw [hstat] at hfound
      cases hfound
      exact .replace hreq hp hpart
    | failed err => exact .failed hreq (.inl hp) err
  | readFailed hp => exact .failed hreq (.inr ⟨_, hp⟩) _
  | read hp hread =>
    obtain heq | heq := WritePhase.sized_cases cfg _ _
    . rw [heq]
      exact .loaded hreq hp hread
    . rw [heq]
      exact .failed hreq (.inr ⟨_, hp⟩) _
  | putNew hp hput | created hp htx | createFailed hp htx err' =>
    rw [hp] at hcreating
    contradiction
  | put hp hput => exact .put hreq hp hput
  | updated hp htx =>
    obtain ⟨rfl, hcurrent', hrow, hnodes⟩ :=
      current?_updated hs hcurrent (hupdate.file _ (by rw [hp]; rfl)) htx
    exact .committed hreq hp hcurrent' hrow hnodes
  | updateFailed hp htx err' => exact .rolledBack hreq hp err'
  | deletedBlob hp => exact .deletedBlob hreq hp
  | enqueued hp => exact .enqueued hreq hp

theorem moved_of_step
    (hlabel : s.writesTo fileID label = true) (h : s.step cfg dirID label = some s')
    : Moved cfg fileID s cur label s' := by
  cases stepped_of_step h with
  | started hnew => exact .started hnew
  | ran hreq h => exact moved_of_ran hs hcurrent hreq h
  | @txFailed r err req storageType storageRef hreq hp err' =>
    have hcreating := (hs.requests r req hreq).updates
    unfold WritePhase.stored? at hp
    split at hp
    . next hp' =>
      rw [hp'] at hcreating
      contradiction
    . next hp' =>
      cases hp
      exact .rolledBack hreq hp' err'
    . contradiction
  | file hother htxn | upload htxn | uploadFailed htxn => contradiction

end

section

variable (h : UpdateOf fileID db req)

include h

theorem UpdateOf.of_nodes (hnodes : db'.fileNodes = db.fileNodes) : UpdateOf fileID db' req := by
  refine ⟨?_, h.updates, h.file⟩
  have hpath := h.path
  unfold Db.resolves Db.node? at *
  rw [hnodes]
  exact hpath

theorem UpdateOf.setPhase_of_none (hcreating : phase.creating = false) (hfile : phase.file? = none)
    : UpdateOf fileID db { req with phase := phase } := by
  refine ⟨h.path, hcreating, ?_⟩
  intro file hc
  rw [hfile] at hc
  contradiction

theorem UpdateOf.setPhase_rolledBack (storageType : StorageType) (storageRef : Str)
    (err : WriteError)
    : UpdateOf fileID db { req with phase := WriteArgs.rolledBack storageType storageRef err } := by
  unfold WriteArgs.rolledBack
  split
  all_goals exact h.setPhase_of_none rfl rfl

theorem UpdateOf.setPhase_updated (file) (keepRef : Str) (revision : Int)
    : UpdateOf fileID db { req with phase := WriteArgs.updated file keepRef revision } := by
  unfold WriteArgs.updated
  split
  all_goals exact h.setPhase_of_none rfl rfl

theorem UpdateOf.setPhase (hcreating : phase.creating = false)
    (hphase : phase.file? = some file) (hfile : file.fileID = fileID)
    : UpdateOf fileID db { req with phase := phase } := by
  refine ⟨h.path, hcreating, ?_⟩
  intro file' hc
  cases hphase.symm.trans hc
  exact hfile

end

theorem fileID_of_current? (h : s.current? fileID = some cur) : cur.fileID = fileID := by
  unfold current? at h
  split at h
  . cases h
    rfl
  . contradiction

theorem OneFile.set (hs : s.OneFile fileID) (hstore : s'.store = s.store)
    (hblobs : s'.blobs = s.blobs)
    (hrequests : s'.requests = s.requests.set r req) (hreq : UpdateOf fileID s.store.db req)
    : s'.OneFile fileID := by
  have hcurrent : s'.current? fileID = s.current? fileID := by
    unfold current?
    rw [hstore, hblobs]
  refine ⟨hs.named, by rw [hcurrent]; exact hs.current, by rw [hstore]; exact hs.confirmed,
    by rw [hstore, hcurrent]; exact hs.revision, ?_⟩
  intro r' req' hget
  rw [hrequests, get?_set] at hget
  rw [hstore]
  split at hget
  . cases hget
    exact hreq
  . exact hs.requests r' req' hget

theorem OneFile.moved (hs : s.OneFile fileID) (hcurrent : s.current? fileID = some cur)
    (hlabel : s.writesTo fileID label = true) (h : Moved cfg fileID s cur label s')
    : s'.OneFile fileID := by
  have hcur := fileID_of_current? hcurrent
  cases h with
  | started hnew =>
    refine hs.set rfl rfl rfl ⟨hlabel, rfl, ?_⟩
    intro file hc
    contradiction
  | read hreq hp | replace hreq hp hpart =>
    exact hs.set rfl rfl rfl ((hs.requests _ _ hreq).setPhase rfl rfl hcur)
  | failed hreq hp err | deletedBlob hreq hp | enqueued hreq hp =>
    exact hs.set rfl rfl rfl ((hs.requests _ _ hreq).setPhase_of_none rfl rfl)
  | loaded hreq hp hread =>
    have hupdate := hs.requests _ _ hreq
    exact hs.set rfl rfl rfl (hupdate.setPhase rfl rfl (hupdate.file _ (by rw [hp]; rfl)))
  | put hreq hp hput =>
    have hupdate := hs.requests _ _ hreq
    refine hs.set hput.store hput.blobs (by rw [requests_setPhase, hput.requests]) ?_
    exact hupdate.setPhase rfl rfl (hupdate.file _ (by rw [hp]; rfl))
  | rolledBack hreq hp err =>
    exact hs.set rfl rfl rfl ((hs.requests _ _ hreq).setPhase_rolledBack _ _ _)
  | committed hreq hp hcurrent' hrow hnodes =>
    refine ⟨hs.named, ?_, ?_, ?_, ?_⟩
    . exact isSome_of_eq_some hcurrent'
    . exact congrArg (Option.map Prod.fst) hrow
    . exact (congrArg (Option.map Prod.snd) hrow).trans
        (congrArg (Option.map StatFile.revision) hcurrent').symm
    . intro r' req' hget
      apply UpdateOf.of_nodes _ hnodes
      rw [requests_setPhase, get?_set] at hget
      split at hget
      . cases hget
        exact (hs.requests _ _ hreq).setPhase_updated _ _ _
      . exact hs.requests r' req' hget

end WriteSystem
