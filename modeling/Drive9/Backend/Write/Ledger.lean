import Drive9.Backend.Write.OneFile
import Drive9.Lib.Ledger

/-!
This module contains the account of the objects that writes to one file put into S3.
-/

open Datastore Backend Transaction List FMap

def StatFile.object? (file : StatFile) : Option Str :=
  if file.storageType = .s3 then some file.storageRef else none

def WritePhase.returned (p : WritePhase) : Bool :=
  match p with
  | .committed _ => true
  | .failed _ => true
  | _ => false

def WritePhase.object? (p : WritePhase) : Option Str :=
  match p with
  | .createTx _ .s3 storageRef => some storageRef
  | .updateTx _ _ .s3 storageRef => some storageRef
  | .deleteBlob storageRef _ => some storageRef
  | .enqueue storageRef _ => some storageRef
  | _ => none

namespace WriteSystem

def ledger (s : WriteSystem) (fileID : ID) : Ledger Str Nat where
  puts := s.puts
  candidates := s.candidates
  gone := fun ref => s.objects.get? ref = none
  current := (s.current? fileID).bind StatFile.object?
  held := fun r => (s.requests.get? r).bind (·.phase.object?)

def replacesUnseen (fileID : ID) (s : WriteSystem) (label : WriteLabel) : Bool :=
  match label with
  | .run r _ _ =>
    match s.requests.get? r with
    | some ⟨_, .updateTx file _ _ _⟩ => file.object? ≠ (s.current? fileID).bind StatFile.object?
    | _ => false
  | _ => false

structure KeysMade (s : WriteSystem) : Prop where
  puts : ∀ ref ∈ s.puts, ∃ id, ref = blobRef id
  inline : ∀ r req file finalData storageRef, s.requests.get? r = some req
    → req.phase = .updateTx file finalData .db9 storageRef → storageRef = inlineRef

variable {cfg : WriteConfig} {dirID : Str → ID} {fileID : ID} {s s' : WriteSystem}

theorem ledger_setPhase (s : WriteSystem) (fileID : ID) (r : Nat) (req : WriteRequest)
    (phase : WritePhase)
    : (s.setPhase r req phase).ledger fileID
        =
      { s.ledger fileID with held := Function.update (s.ledger fileID).held r phase.object? } := by
  unfold ledger
  congr 1
  funext r'
  rw [requests_setPhase, get?_set]
  by_cases heq : r' = r
  . rw [if_pos heq, heq, Function.update_self]
    rfl
  . rw [if_neg heq, Function.update_of_ne heq]

theorem held_of_request (hreq : s.requests.get? r = some req)
    : (s.ledger fileID).held r = req.phase.object? := by
  unfold ledger
  dsimp only
  rw [hreq]
  rfl

theorem ledger_kept (hheld : (s.ledger fileID).held r = phase.object?)
    : (s.setPhase r req phase).ledger fileID = s.ledger fileID := by
  rw [ledger_setPhase, ← hheld, Function.update_eq_self]

theorem object?_updated (revision : Int)
    (h : ∀ ref, file.object? = some ref → ref ≠ [] ∧ ref ≠ keepRef)
    : (WriteArgs.updated file keepRef revision).object? = file.object? := by
  unfold StatFile.object? at *
  unfold WriteArgs.updated
  by_cases hs3 : file.storageType = .s3
  . rw [if_pos hs3] at h ⊢
    obtain ⟨hne, hkeep⟩ := h file.storageRef rfl
    rw [if_neg (by simp [hs3, hne, hkeep])]
    rfl
  . rw [if_neg hs3, if_pos (.inl hs3)]
    rfl

theorem blobRef_ne (id : ID) : blobRef id ≠ [] ∧ blobRef id ≠ inlineRef := by
  constructor
  . intro hc
    cases hc
  . intro hc
    cases hc

theorem balanced_committed {file cur : StatFile} (hbalanced : (s.ledger fileID).Balanced)
    (hkeys : s.KeysMade)
    (hreq : s.requests.get? r = some req)
    (hp : req.phase = .updateTx file finalData storageType storageRef)
    (hcurrent' : ((s.setDb db).setBlob file.fileID storageType finalData).current? fileID
      = some ⟨fileID, cur.revision + 1, storageType, storageRef, if storageType = .db9 then finalData else []⟩)
    (hok : s.replacesUnseen fileID (.run r newID nodeID) = false)
    : ((((s.setDb db).setBlob file.fileID storageType finalData).setPhase r req
        (WriteArgs.updated file storageRef (cur.revision + 1))).ledger fileID).Balanced := by
  have hheld : (s.ledger fileID).held r = (WritePhase.updateTx file finalData storageType storageRef).object? := by
    rw [held_of_request hreq, hp]
  have hseen : file.object? = (s.ledger fileID).current := by
    obtain ⟨args, phase⟩ := req
    cases hp
    unfold replacesUnseen at hok
    dsimp only at hok
    rw [hreq] at hok
    change _ = (s.current? fileID).bind StatFile.object?
    simpa using hok
  have hobject : (WriteArgs.updated file storageRef (cur.revision + 1)).object?
      = (s.ledger fileID).current := by
    rw [← hseen]
    apply object?_updated
    intro ref href
    rw [hseen] at href
    obtain ⟨id, rfl⟩ := hkeys.puts ref (hbalanced.current ref href).1
    refine ⟨(blobRef_ne id).1, ?_⟩
    rintro rfl
    cases storageType with
    | db9 => exact (blobRef_ne id).2 (hkeys.inline r req _ _ _ hreq hp)
    | s3 => exact (hbalanced.held r _ hheld).2.2 href
  have hswap := hbalanced.swap r
  rw [← hobject] at hswap
  rw [ledger_setPhase]
  have heq : ((s.setDb db).setBlob file.fileID storageType finalData).ledger fileID
      = { s.ledger fileID with current := (s.ledger fileID).held r } := by
    rw [hheld]
    unfold ledger
    rw [hcurrent']
    cases storageType
    all_goals rfl
  rw [heq]
  exact hswap

theorem balanced_moved (hbalanced : (s.ledger fileID).Balanced) (hkeys : s.KeysMade)
    (hok : s.replacesUnseen fileID label = false) (h : Moved cfg fileID s cur label s')
    : (s'.ledger fileID).Balanced := by
  cases h with
  | @started r args hnew =>
    have hheld : (s.ledger fileID).held r = none := by
      unfold ledger
      dsimp only
      rw [hnew]
      rfl
    change ((s.setPhase r ⟨args, .stat⟩ .stat).ledger fileID).Balanced
    rw [ledger_kept hheld]
    exact hbalanced
  | read hreq hp | replace hreq hp hpart | loaded hreq hp hread =>
    rw [ledger_kept (by rw [held_of_request hreq, hp]; rfl)]
    exact hbalanced
  | failed hreq hp err =>
    rw [ledger_kept]
    . exact hbalanced
    . rw [held_of_request hreq]
      obtain hp | ⟨file, hp⟩ := hp
      . rw [hp]
        rfl
      . rw [hp]
        rfl
  | @put r newID nodeID req file finalData s1 storageType storageRef hreq hp hput =>
    have hheld : (s.ledger fileID).held r = none := by
      rw [held_of_request hreq, hp]
      rfl
    cases hput with
    | inline =>
      rw [ledger_kept hheld]
      exact hbalanced
    | object hfresh =>
      obtain ⟨hnew, _⟩ := of_freshID hfresh
      rw [ledger_setPhase]
      apply hbalanced.put hheld hnew
      intro ref href hgone
      change (s.objects.set _ _).get? ref = none
      rw [get?_set_ne]
      . exact hgone
      . rintro rfl
        exact hnew href
  | rolledBack hreq hp err =>
    rw [ledger_kept]
    . exact hbalanced
    . rw [held_of_request hreq, hp]
      unfold WriteArgs.rolledBack
      split
      all_goals simp_all [WritePhase.object?]
  | committed hreq hp hcurrent' hrow hnodes =>
    exact balanced_committed hbalanced hkeys hreq hp hcurrent' hok
  | @deletedBlob r newID nodeID req storageRef err hreq hp =>
    have hheld : (s.ledger fileID).held r = some storageRef := by
      rw [held_of_request hreq, hp]
      rfl
    change ({ (s.setPhase r req (.failed err)).ledger fileID with
      gone := fun ref => (s.objects.del storageRef).get? ref = none } : Ledger Str Nat).Balanced
    rw [ledger_setPhase]
    apply hbalanced.delete hheld
    . rw [get?_del, if_pos rfl]
    . intro ref hgone
      rw [get?_del]
      split
      . rfl
      . exact hgone
  | @enqueued r newID nodeID req storageRef revision hreq hp =>
    have hheld : (s.ledger fileID).held r = some storageRef := by
      rw [held_of_request hreq, hp]
      rfl
    change ({ (s.setPhase r req (.committed revision)).ledger fileID with
      candidates := storageRef :: s.candidates } : Ledger Str Nat).Balanced
    rw [ledger_setPhase]
    exact hbalanced.enqueue hheld

theorem KeysMade.set (hs : s.KeysMade)
    (hputs : ∀ ref ∈ s'.puts, ref ∈ s.puts ∨ ∃ id, ref = blobRef id)
    (hrequests : s'.requests = s.requests.set r req)
    (hreq : ∀ file finalData storageRef, req.phase = .updateTx file finalData .db9 storageRef → storageRef = inlineRef)
    : s'.KeysMade := by
  constructor
  . intro ref href
    cases hputs ref href with
    | inl h => exact hs.puts ref h
    | inr h => exact h
  . intro r' req' file finalData storageRef hget hp
    rw [hrequests, get?_set] at hget
    split at hget
    . cases hget
      exact hreq file finalData storageRef hp
    . exact hs.inline r' req' file finalData storageRef hget hp

theorem KeysMade.moved (hs : s.KeysMade) (h : Moved cfg fileID s cur label s') : s'.KeysMade := by
  cases h with
  | put hreq hp hput =>
    cases hput with
    | inline =>
      refine hs.set (fun ref => .inl) rfl ?_
      rintro _ _ _ ⟨⟩
      rfl
    | object hfresh =>
      refine hs.set ?_ rfl ?_
      . intro ref href
        cases mem_cons.mp href with
        | inl heq => exact .inr ⟨_, heq⟩
        | inr h => exact .inl h
      . rintro _ _ _ ⟨⟩
  | rolledBack hreq hp err =>
    refine hs.set (fun ref => .inl) rfl ?_
    intro file finalData storageRef hc
    have hfailing := congrArg WritePhase.failing hc
    rw [WritePhase.failing_rolledBack] at hfailing
    cases hfailing
  | committed hreq hp hcurrent' hrow hnodes =>
    refine hs.set (fun ref => .inl) rfl ?_
    intro file finalData storageRef hc
    have hsucceeded := congrArg WritePhase.succeeded hc
    rw [WritePhase.succeeded_updated] at hsucceeded
    cases hsucceeded
  | _ =>
    refine hs.set (fun ref => .inl) rfl ?_
    rintro _ _ _ ⟨⟩

structure AtRest (fileID : ID) (s : WriteSystem) : Prop where
  file : s.OneFile fileID
  returned : ∀ r req, s.requests.get? r = some req → req.phase.returned = true
  made : ∀ ref ∈ s.puts, ∃ id, ref = blobRef id
  balanced : (s.ledger fileID).Balanced

-- In a run of writes to one file, each of which updates the file when it has the object that it had
-- at the write's `Stat`, no object is lost and the current one is never enqueued.
theorem overwrites_leak_no_object (cfg : WriteConfig) (dirID : Str → ID) (fileID : ID)
    (s s' : WriteSystem) (labels : List WriteLabel) (hs : s.AtRest fileID)
    (hok : Lts.Along (step cfg dirID)
      (fun s label => s.writesTo fileID label = true ∧ s.replacesUnseen fileID label = false) s labels)
    (hexec : Lts.exec (step cfg dirID) s labels = some s')
    : (s'.store.db.row fileID).map Prod.fst = some .confirmed
      ∧ (∀ cur ref, s'.current? fileID = some cur → cur.object? = some ref → ref ∉ s'.candidates)
      ∧ ((∀ r req, s'.requests.get? r = some req → req.phase.returned = true)
        → ∀ ref ∈ s'.puts, (∃ cur, s'.current? fileID = some cur ∧ cur.object? = some ref)
          ∨ s'.objects.get? ref = none ∨ ref ∈ s'.candidates) := by
  have hinv : s'.OneFile fileID ∧ s'.KeysMade ∧ (s'.ledger fileID).Balanced := by
    refine Lts.exec_invariant _ (fun s => s.OneFile fileID ∧ s.KeysMade ∧ (s.ledger fileID).Balanced) ?_ ?_ hok hexec
    . rintro s1 label s2 ⟨hfile, hkeys, hbalanced⟩ ⟨hlabel, hseen⟩ hstep
      obtain ⟨cur, hcurrent⟩ := Option.isSome_iff_exists.mp hfile.current
      have hmoved := moved_of_step hfile hcurrent hlabel hstep
      exact ⟨hfile.moved hcurrent hlabel hmoved, hkeys.moved hmoved,
        balanced_moved hbalanced hkeys hseen hmoved⟩
    . refine ⟨hs.file, ⟨hs.made, ?_⟩, hs.balanced⟩
      intro r req file finalData storageRef hget hp
      have hreturned := hs.returned r req hget
      rw [hp] at hreturned
      contradiction
  obtain ⟨hfile, hkeys, hbalanced⟩ := hinv
  refine ⟨hfile.confirmed, ?_, ?_⟩
  . intro cur ref hcurrent href
    refine (hbalanced.current ref ?_).2
    unfold ledger
    rw [hcurrent]
    exact href
  . intro hreturned ref href
    obtain hcur | hgone | hcand | ⟨r, hheld⟩ := hbalanced.accounted ref href
    . exact .inl (Option.bind_eq_some_iff.mp hcur)
    . exact .inr (.inl hgone)
    . exact .inr (.inr hcand)
    . obtain ⟨req, hreq, hobject⟩ := Option.bind_eq_some_iff.mp hheld
      have hphase := hreturned r req hreq
      unfold WritePhase.returned at hphase
      split at hphase
      . next hp =>
        rw [hp] at hobject
        contradiction
      . next hp =>
        rw [hp] at hobject
        contradiction
      . contradiction

def oneObject : WriteSystem where
  store :=
    { FileStore.empty false with
      db :=
        { (FileStore.empty false).db with
          fileNodes := [fileNode ['n'] ['/', 'f'] (some ['a'])]
          inodes := FMap.empty.set ['a'] ⟨1, 1, .confirmed⟩
          contents := FMap.empty.set ['a'] ⟨.s3, blobRef ['a']⟩ } }
  blobs := .empty
  objects := FMap.empty.set (blobRef ['a']) [0]
  puts := [blobRef ['a']]
  candidates := []
  requests := .empty

def inS3 : WriteConfig := ⟨false, 0, 0⟩

theorem atRest_oneObject : oneObject.AtRest ['a'] := by
  have hnone : ∀ r, oneObject.requests.get? r = none := fun r => get?_empty r
  have hledger : oneObject.ledger ['a'] = ⟨[blobRef ['a']], [], fun ref => oneObject.objects.get? ref = none,
      some (blobRef ['a']), fun _ => none⟩ := rfl
  refine ⟨⟨by decide, by decide, by decide, by decide, ?_⟩, ?_, ?_, ?_⟩
  . intro r req hreq
    rw [hnone] at hreq
    contradiction
  . intro r req hreq
    rw [hnone] at hreq
    contradiction
  . intro ref href
    exact ⟨['a'], mem_singleton.mp href⟩
  . rw [hledger]
    constructor
    . rintro k ⟨⟩
      exact ⟨mem_singleton_self _, not_mem_nil⟩
    . intro k hk
      contradiction
    . intro r k hk
      contradiction
    . intro r r' k hk
      contradiction
    . intro k hk
      rw [mem_singleton.mp hk]
      exact .inl rfl

def writesInTurn : List WriteLabel :=
  [.start 1 ⟨['/', 'f'], [1], 0, false, true, false, false, -1⟩, .run 1 [] [], .run 1 ['x'] [], .run 1 [] [],
    .run 1 [] [],
    .start 2 ⟨['/', 'f'], [2], 0, false, true, false, false, 2⟩, .run 2 [] [], .run 2 ['y'] [], .run 2 [] [],
    .run 2 [] []]

theorem overwrites_leak_no_object_in_turn
    : ∃ s', Lts.exec (step inS3 id) oneObject writesInTurn = some s'
      ∧ s'.puts = [blobRef ['y'], blobRef ['x'], blobRef ['a']]
      ∧ s'.candidates = [blobRef ['x'], blobRef ['a']]
      ∧ (s'.store.db.row ['a']).map Prod.fst = some .confirmed := by
  refine Lts.exists_of_any (fun s' => _ ∧ _) (by decide +kernel)
    fun s' hexec ⟨hputs, hcandidates⟩ => ⟨hputs, hcandidates, ?_⟩
  have hok : Lts.Along (step inS3 id)
      (fun s label => s.writesTo ['a'] label = true ∧ s.replacesUnseen ['a'] label = false) oneObject writesInTurn := by
    decide +kernel
  exact (overwrites_leak_no_object inS3 id ['a'] oneObject s' writesInTurn atRest_oneObject hok hexec).1

def writesAtOnce : List WriteLabel :=
  [.start 1 ⟨['/', 'f'], [1], 0, false, true, false, false, -1⟩, .run 1 [] [],
    .start 2 ⟨['/', 'f'], [2], 0, false, true, false, false, -1⟩, .run 2 [] [],
    .run 1 ['x'] [], .run 1 [] [], .run 1 [] [], .run 2 ['y'] [], .run 2 [] [], .run 2 [] []]

-- The object of the first write is neither current nor deleted nor a candidate, and the first
-- object is enqueued twice.
theorem concurrent_overwrites_leak_object
    : ∃ s', Lts.exec (step inS3 id) oneObject writesAtOnce = some s'
      ∧ (s'.requests.get? 1).map (·.phase) = some (.committed 2)
      ∧ (s'.requests.get? 2).map (·.phase) = some (.committed 3)
      ∧ blobRef ['x'] ∈ s'.puts ∧ (s'.current? ['a']).bind StatFile.object? = some (blobRef ['y'])
      ∧ s'.objects.get? (blobRef ['x']) = some [1]
      ∧ s'.candidates = [blobRef ['a'], blobRef ['a']] := by
  exact Lts.exists_of_any _ (by decide +kernel) fun _ _ h => h

end WriteSystem
