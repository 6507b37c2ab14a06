import Drive9.Backend.Write.OneFile

/-!
This module contains append and offset writes to one file.
-/

open Datastore Backend Transaction List FMap

def StatFile.read (objects : FMap Str Bytes) (file : StatFile) : Option Bytes :=
  if file.storageType = .s3 then objects.get? file.storageRef else some file.contentBlob

namespace WritePhase

def own? (p : WritePhase) : Option Str :=
  match p with
  | .updateTx _ _ .s3 storageRef => some storageRef
  | .deleteBlob storageRef _ => some storageRef
  | _ => none

def data? (p : WritePhase) : Option (StatFile × Bytes) :=
  match p with
  | .put file finalData => some (file, finalData)
  | .updateTx file finalData _ _ => some (file, finalData)
  | _ => none

end WritePhase

def WriteLabel.startsPartial (label : WriteLabel) : Bool :=
  match label with
  | .start _ args => args.partialWrite && args.expectedRevision < 0
  | _ => true

namespace WriteSystem

def commitsUnseen (fileID : ID) (s : WriteSystem) (label : WriteLabel) : Bool :=
  match label with
  | .run r _ _ =>
    match s.requests.get? r with
    | some ⟨_, .updateTx file _ _ _⟩ => (s.current? fileID).map (·.revision) ≠ some file.revision
    | _ => false
  | _ => false

def content? (s : WriteSystem) (fileID : ID) : Option Bytes :=
  (s.current? fileID).bind (StatFile.read s.objects)

structure Seen (puts : List Str) (objects : FMap Str Bytes) (cur : StatFile)
    (req : WriteRequest) : Prop where
  isPartial : req.args.partialWrite = true
  own : ∀ ref, req.phase.own? = some ref
    → ref ∈ puts ∧ (cur.storageType = .s3 → cur.storageRef ≠ ref)
  stored : ∀ file finalData ref, req.phase = .updateTx file finalData .s3 ref
    → objects.get? ref = some finalData
  file : ∀ file, req.phase.file? = some file → file.revision ≤ cur.revision
    ∧ (file.revision = cur.revision → file = cur)
  data : ∀ file finalData, req.phase.data? = some (file, finalData) → file.revision = cur.revision
    → (cur.read objects).map req.args.finalData = some finalData

structure Serial (fileID : ID) (start : Bytes) (cur : StatFile) (writes : List (Nat × WriteArgs))
    (s : WriteSystem)
    : Prop where
  current : s.current? fileID = some cur
  seen : ∀ r req, s.requests.get? r = some req → Seen s.puts s.objects cur req
  unique : ∀ r r' req req' ref, s.requests.get? r = some req → s.requests.get? r' = some req'
    → req.phase.own? = some ref → req'.phase.own? = some ref → r = r'
  content : cur.read s.objects = some (writes.foldl (fun data w => w.2.finalData data) start)
  nodup : (writes.map Prod.fst).Nodup
  mem : ∀ r args, (r, args) ∈ writes ↔ ∃ phase, s.requests.get? r = some ⟨args, phase⟩
    ∧ phase.succeeded = true

variable {cfg : WriteConfig} {dirID : Str → ID} {fileID : ID} {start : Bytes} {cur : StatFile}
  {writes : List (Nat × WriteArgs)} {s s' : WriteSystem}

variable {puts : List Str} {objects : FMap Str Bytes} {req : WriteRequest}

theorem Seen.mono (h : Seen puts objects cur req) (hputs : ∀ ref ∈ puts, ref ∈ puts')
    (hown : ∀ ref, req.phase.own? = some ref → objects'.get? ref = objects.get? ref)
    (hread : cur.read objects' = cur.read objects)
    : Seen puts' objects' cur req := by
  refine ⟨h.isPartial, ?_, ?_, h.file, ?_⟩
  . intro ref href
    obtain ⟨hput, hcur⟩ := h.own ref href
    exact ⟨hputs ref hput, hcur⟩
  . intro file finalData ref hp
    rw [hown ref (by rw [hp]; rfl)]
    exact h.stored file finalData ref hp
  . intro file finalData hdata hrev
    rw [hread]
    exact h.data file finalData hdata hrev

variable {r : Nat}

theorem Serial.set (hs : s.Serial fileID start cur writes)
    (hcurrent : s'.current? fileID = s.current? fileID)
    (hrequests : s'.requests = s.requests.set r req) (hputs : ∀ ref ∈ s.puts, ref ∈ s'.puts)
    (hread : cur.read s'.objects = cur.read s.objects)
    (hothers : ∀ r' req' ref, r' ≠ r → s.requests.get? r' = some req' → req'.phase.own? = some ref
      → s'.objects.get? ref = s.objects.get? ref ∧ req.phase.own? ≠ some ref)
    (hseen : Seen s'.puts s'.objects cur req)
    (hsucceeded : ∀ args, (∃ phase, s.requests.get? r = some ⟨args, phase⟩ ∧ phase.succeeded = true)
      ↔ req.args = args ∧ req.phase.succeeded = true)
    : s'.Serial fileID start cur writes := by
  constructor
  . rw [hcurrent]
    exact hs.current
  . intro r' req' h
    rw [hrequests] at h
    obtain ⟨rfl, rfl⟩ | ⟨hne, h⟩ := of_get?_set h
    . exact hseen
    . exact (hs.seen r' req' h).mono hputs (fun ref href => (hothers r' req' ref hne h href).1) hread
  . intro r1 r2 req1 req2 ref h1 h2 href1 href2
    rw [hrequests] at h1 h2
    obtain ⟨rfl, rfl⟩ | ⟨hne1, hold1⟩ := of_get?_set h1
    . obtain ⟨rfl, rfl⟩ | ⟨hne2, hold2⟩ := of_get?_set h2
      . rfl
      . exact absurd href1 (hothers r2 req2 ref hne2 hold2 href2).2
    . obtain ⟨rfl, rfl⟩ | ⟨hne2, hold2⟩ := of_get?_set h2
      . exact absurd href2 (hothers r1 req1 ref hne1 hold1 href1).2
      . exact hs.unique r1 r2 req1 req2 ref hold1 hold2 href1 href2
  . rw [hread]
    exact hs.content
  . exact hs.nodup
  . intro r' args
    rw [hs.mem r' args, hrequests]
    by_cases heq : r' = r
    . rw [heq, hsucceeded args, get?_set_self]
      constructor
      . rintro ⟨rfl, hphase⟩
        exact ⟨req.phase, rfl, hphase⟩
      . rintro ⟨phase, hreq, hphase⟩
        cases hreq
        exact ⟨rfl, hphase⟩
    . rw [get?_set_ne _ _ heq]

theorem Serial.succeeded_iff (hreq : s.requests.get? r = some req) {phase : WritePhase}
    (hphase : phase.succeeded = req.phase.succeeded) (args)
    : (∃ phase, s.requests.get? r = some ⟨args, phase⟩ ∧ phase.succeeded = true)
      ↔ req.args = args ∧ phase.succeeded = true := by
  rw [hphase, hreq]
  constructor
  . rintro ⟨phase, hget, hsucceeded⟩
    cases hget
    exact ⟨rfl, hsucceeded⟩
  . rintro ⟨rfl, hsucceeded⟩
    exact ⟨req.phase, rfl, hsucceeded⟩

theorem Serial.setPhase (hs : s.Serial fileID start cur writes)
    (hreq : s.requests.get? r = some req)
    (hown : phase.own? = req.phase.own?) (hphase : phase.succeeded = req.phase.succeeded)
    (hseen : Seen s.puts s.objects cur { req with phase := phase })
    : (s.setPhase r req phase).Serial fileID start cur writes := by
  refine hs.set rfl rfl (fun _ h => h) rfl ?_ hseen (succeeded_iff hreq hphase)
  intro r' req' ref hne hreq' href
  refine ⟨rfl, ?_⟩
  intro hc
  rw [hown] at hc
  exact hne (hs.unique r' r req' req ref hreq' hreq href hc)

theorem Seen.of_none (h : req.args.partialWrite = true) (hown : req.phase.own? = none)
    (hfile : req.phase.file? = none) (hdata : req.phase.data? = none)
    : Seen puts objects cur req := by
  refine ⟨h, ?_, ?_, ?_, ?_⟩
  . intro ref hc
    rw [hown] at hc
    contradiction
  . intro file finalData ref hc
    rw [hc] at hown
    contradiction
  . intro file hc
    rw [hfile] at hc
    contradiction
  . intro file finalData hc
    rw [hdata] at hc
    contradiction

theorem own?_rolledBack (storageType) (storageRef) (err) (file) (finalData)
    : (WriteArgs.rolledBack storageType storageRef err).own?
        =
      (WritePhase.updateTx file finalData storageType storageRef).own? := by
  cases storageType
  all_goals rfl

variable {file : StatFile} {finalData : Bytes} {storageType : StorageType} {storageRef : Str}

theorem Seen.rolledBack (h : Seen puts objects cur req)
    (hp : req.phase = .updateTx file finalData storageType storageRef) (err)
    : Seen puts objects cur { req with phase := WriteArgs.rolledBack storageType storageRef err } := by
  have hown := h.own
  rw [hp, ← own?_rolledBack storageType storageRef err] at hown
  refine ⟨h.isPartial, hown, ?_, ?_, ?_⟩
  . intro file finalData ref hc
    have hfailing := congrArg WritePhase.failing hc
    rw [WritePhase.failing_rolledBack] at hfailing
    cases hfailing
  . intro file hc
    rw [WritePhase.file?_of_failing (WritePhase.failing_rolledBack _ _ _)] at hc
    contradiction
  . intro file finalData hc
    unfold WriteArgs.rolledBack at hc
    split at hc
    all_goals contradiction

theorem Serial.object_isSome (hs : s.Serial fileID start cur writes) (h : cur.storageType = .s3)
    : (s.objects.get? cur.storageRef).isSome := by
  have hcontent := hs.content
  unfold StatFile.read at hcontent
  rw [if_pos h] at hcontent
  exact Option.isSome_of_eq_some hcontent

theorem read_congr (h : cur.storageType = .s3 → objects'.get? cur.storageRef = objects.get? cur.storageRef)
    : cur.read objects' = cur.read objects := by
  unfold StatFile.read
  split
  . next hs3 => exact h hs3
  . rfl

section

variable (hs : s.Serial fileID start cur writes) (hreq : s.requests.get? r = some req)

include hs hreq

theorem Serial.put
    (hp : req.phase = .put file finalData)
    (hput : Put cfg s newID finalData s1 storageType storageRef)
    : (s1.setPhase r req (.updateTx file finalData storageType storageRef)).Serial fileID start cur writes := by
  have hseen := hs.seen r req hreq
  have hfile := hseen.file
  have hdata := hseen.data
  rw [hp] at hfile hdata
  cases hput with
  | inline =>
    refine hs.setPhase hreq (by rw [hp]; rfl) (by rw [hp]; rfl)
      ⟨hseen.isPartial, ?_, ?_, hfile, hdata⟩
    . intro ref hc
      contradiction
    . rintro _ _ _ ⟨⟩
  | object hfresh =>
    obtain ⟨hnew, hnone⟩ := of_freshID hfresh
    have hcur : cur.storageType = .s3 → cur.storageRef ≠ blobRef newID := by
      intro hs3 heq
      have hsome := hs.object_isSome hs3
      rw [heq, hnone] at hsome
      contradiction
    have hread : cur.read (s.objects.set (blobRef newID) finalData) = cur.read s.objects :=
      read_congr fun hs3 => get?_set_ne _ _ (hcur hs3)
    refine hs.set rfl rfl (fun _ h => mem_cons_of_mem _ h) hread ?_ ?_
      (succeeded_iff hreq (by rw [hp]; rfl))
    . intro r' req' ref hne hreq' href
      have hput' := ((hs.seen r' req' hreq').own ref href).1
      refine ⟨get?_set_ne _ _ ?_, ?_⟩
      . rintro rfl
        exact hnew hput'
      . rintro ⟨⟩
        exact hnew hput'
    . refine ⟨hseen.isPartial, ?_, ?_, hfile, ?_⟩
      . rintro ref ⟨⟩
        exact ⟨mem_cons_self, hcur⟩
      . rintro _ _ _ ⟨⟩
        exact get?_set_self _ _ _
      . intro file' finalData' hd hrev
        exact (congrArg (Option.map req.args.finalData) hread).trans
          (hdata file' finalData' hd hrev)

theorem Serial.deletedBlob
    (hp : req.phase = .deleteBlob storageRef err)
    : ({ s.setPhase r req (.failed err) with objects := s.objects.del storageRef } : WriteSystem).Serial
        fileID start cur writes := by
  have hseen := hs.seen r req hreq
  have hown : req.phase.own? = some storageRef := by
    rw [hp]
    rfl
  have hread : cur.read (s.objects.del storageRef) = cur.read s.objects := by
    apply read_congr
    intro hs3
    rw [get?_del, if_neg ((hseen.own storageRef hown).2 hs3)]
  refine hs.set rfl rfl (fun _ h => h) hread ?_ (.of_none hseen.isPartial rfl rfl rfl)
    (succeeded_iff hreq (by rw [hp]; rfl))
  intro r' req' ref hne hreq' href
  refine ⟨?_, fun hc => by contradiction⟩
  rw [get?_del, if_neg]
  rintro rfl
  exact hne (hs.unique r' r req' req ref hreq' hreq href hown)

end

theorem file?_of_data? {p : WritePhase} (h : p.data? = some (file, finalData))
    : p.file? = some file := by
  unfold WritePhase.data? at h
  split at h
  . cases h
    rfl
  . cases h
    rfl
  . contradiction

theorem Seen.committed (h : Seen puts objects cur req)
    (hown : storageType = .s3 → req.phase.own? ≠ some storageRef)
    : Seen puts objects ⟨fileID, cur.revision + 1, storageType, storageRef, blob⟩ req := by
  refine ⟨h.isPartial, ?_, h.stored, ?_, ?_⟩
  . intro ref href
    refine ⟨(h.own ref href).1, ?_⟩
    rintro hs3 rfl
    exact hown hs3 href
  . intro file hfile
    obtain ⟨hle, _⟩ := h.file file hfile
    dsimp only
    exact ⟨by omega, fun heq => by omega⟩
  . intro file finalData hdata hrev
    obtain ⟨hle, _⟩ := h.file file (file?_of_data? hdata)
    dsimp only at hrev
    omega

theorem Serial.committed (hs : s.Serial fileID start cur writes)
    (hreq : s.requests.get? r = some req)
    (hp : req.phase = .updateTx file finalData storageType storageRef)
    (hcurrent : ((s.setDb db).setBlob file.fileID storageType finalData).current? fileID
      = some ⟨fileID, cur.revision + 1, storageType, storageRef, if storageType = .db9 then finalData else []⟩)
    (hok : s.commitsUnseen fileID (.run r newID nodeID) = false)
    : (((s.setDb db).setBlob file.fileID storageType finalData).setPhase r req
        (WriteArgs.updated file storageRef (cur.revision + 1))).Serial fileID start
        ⟨fileID, cur.revision + 1, storageType, storageRef, if storageType = .db9 then finalData else []⟩
        (writes ++ [(r, req.args)]) := by
  have hseen := hs.seen r req hreq
  have hrev : file.revision = cur.revision := by
    obtain ⟨args, phase⟩ := req
    cases hp
    unfold commitsUnseen at hok
    dsimp only at hok
    rw [hreq, hs.current] at hok
    symm
    simpa using hok
  have hdata := hseen.data file finalData (by rw [hp]; rfl) hrev
  rw [hs.content, Option.map_some] at hdata
  have hnot : req.phase.succeeded = false := by
    rw [hp]
    rfl
  have hnew : r ∉ writes.map Prod.fst := by
    intro hc
    obtain ⟨⟨r', args⟩, hw, rfl⟩ := mem_map.mp hc
    obtain ⟨phase, hget, hsucceeded⟩ := (hs.mem r' args).mp hw
    rw [hreq] at hget
    cases hget
    rw [hnot] at hsucceeded
    contradiction
  have hown : ∀ r' req', r' ≠ r → s.requests.get? r' = some req' → storageType = .s3
      → req'.phase.own? ≠ some storageRef := by
    rintro r' req' hne hreq' rfl hc
    exact hne (hs.unique r' r req' req storageRef hreq' hreq hc (by rw [hp]; rfl))
  have hlast : ∀ revision, (WriteArgs.updated file storageRef revision).own? = none
      ∧ (WriteArgs.updated file storageRef revision).file? = none
      ∧ (WriteArgs.updated file storageRef revision).data? = none := by
    intro revision
    unfold WriteArgs.updated
    split
    all_goals exact ⟨rfl, rfl, rfl⟩
  obtain ⟨hlast1, hlast2, hlast3⟩ := hlast (cur.revision + 1)
  constructor
  . exact hcurrent
  . intro r' req' h
    obtain ⟨rfl, rfl⟩ | ⟨hne, h⟩ := of_get?_set h
    . exact .of_none hseen.isPartial hlast1 hlast2 hlast3
    . exact (hs.seen r' req' h).committed (hown r' req' hne h)
  . intro r1 r2 req1 req2 ref h1 h2 href1 href2
    obtain ⟨rfl, rfl⟩ | ⟨hne1, h1⟩ := of_get?_set h1
    . rw [hlast1] at href1
      contradiction
    . obtain ⟨rfl, rfl⟩ | ⟨hne2, h2⟩ := of_get?_set h2
      . rw [hlast1] at href2
        contradiction
      . exact hs.unique r1 r2 req1 req2 ref h1 h2 href1 href2
  . rw [foldl_append, foldl_cons, foldl_nil, hdata]
    cases storageType with
    | db9 => rfl
    | s3 => exact hseen.stored file finalData storageRef hp
  . rw [map_append, map_singleton, ← concat_eq_append]
    exact hs.nodup.concat hnew
  . intro r' args
    rw [mem_append, mem_singleton, hs.mem r' args, requests_setPhase]
    by_cases heq : r' = r
    . rw [heq, get?_set_self]
      constructor
      . rintro (⟨phase, hphase, hsucceeded⟩ | hc)
        . rw [hreq] at hphase
          cases hphase
          rw [hnot] at hsucceeded
          contradiction
        . cases hc
          exact ⟨_, rfl, WritePhase.succeeded_updated _ _ _⟩
      . rintro ⟨phase, hphase, _⟩
        cases hphase
        exact .inr rfl
    . rw [get?_set_ne _ _ heq]
      constructor
      . rintro (h | hc)
        . exact h
        . cases hc
          contradiction
      . exact .inl

theorem Serial.moved (hs : s.Serial fileID start cur writes) (hlabel : label.startsPartial = true)
    (hok : s.commitsUnseen fileID label = false) (h : Moved cfg fileID s cur label s')
    : ∃ cur' writes', s'.Serial fileID start cur' writes' := by
  cases h with
  | started hnew =>
    have hpart := (Bool.and_eq_true _ _).mp hlabel
    refine ⟨cur, writes, hs.set rfl rfl (fun _ h => h) rfl ?_ (.of_none hpart.1 rfl rfl rfl) ?_⟩
    . intro r' req' ref hne hreq' href
      exact ⟨rfl, fun hc => by contradiction⟩
    . intro args
      rw [hnew]
      constructor
      . rintro ⟨phase, hc, _⟩
        contradiction
      . rintro ⟨_, hc⟩
        contradiction
  | read hreq hp =>
    have hseen := hs.seen _ _ hreq
    refine ⟨cur, writes, hs.setPhase hreq (by rw [hp]; rfl) (by rw [hp]; rfl) ⟨hseen.isPartial, ?_, ?_, ?_, ?_⟩⟩
    . intro ref hc
      contradiction
    . rintro _ _ _ ⟨⟩
    . rintro file ⟨⟩
      exact ⟨le_refl _, fun _ => rfl⟩
    . intro file finalData hc
      contradiction
  | replace hreq hp hpart =>
    rw [(hs.seen _ _ hreq).isPartial] at hpart
    contradiction
  | @failed r newID nodeID req hreq hp err =>
    have hplain : req.phase.own? = none ∧ req.phase.succeeded = false := by
      obtain hp | ⟨file, hp⟩ := hp
      all_goals exact hp ▸ ⟨rfl, rfl⟩
    exact ⟨cur, writes, hs.setPhase hreq hplain.1.symm hplain.2.symm
      (.of_none (hs.seen _ _ hreq).isPartial rfl rfl rfl)⟩
  | @loaded r newID nodeID req file existing hreq hp hread =>
    have hseen := hs.seen _ _ hreq
    have hfile := hseen.file
    rw [hp] at hfile
    refine ⟨cur, writes, hs.setPhase hreq (by rw [hp]; rfl) (by rw [hp]; rfl) ⟨hseen.isPartial, ?_, ?_, hfile, ?_⟩⟩
    . intro ref hc
      contradiction
    . rintro _ _ _ ⟨⟩
    . rintro file' finalData ⟨⟩ hrev
      rw [← (hfile file rfl).2 hrev]
      exact congrArg (Option.map req.args.finalData) hread
  | put hreq hp hput => exact ⟨cur, writes, hs.put hreq hp hput⟩
  | rolledBack hreq hp err =>
    refine ⟨cur, writes, hs.setPhase hreq ?_ ?_ ((hs.seen _ _ hreq).rolledBack hp err)⟩
    . rw [hp, own?_rolledBack]
    . rw [hp, WritePhase.not_succeeded_of_failing (WritePhase.failing_rolledBack _ _ _)]
      rfl
  | committed hreq hp hcurrent hrow hnodes => exact ⟨_, _, hs.committed hreq hp hcurrent hok⟩
  | deletedBlob hreq hp => exact ⟨cur, writes, hs.deletedBlob hreq hp⟩
  | @enqueued r newID nodeID req storageRef revision hreq hp =>
    have hnext : (s.setPhase r req (.committed revision)).Serial fileID start cur writes :=
      hs.setPhase hreq (by rw [hp]; rfl) (by rw [hp]; rfl) (.of_none (hs.seen _ _ hreq).isPartial rfl rfl rfl)
    exact ⟨cur, writes, hnext.current, hnext.seen, hnext.unique, hnext.content, hnext.nodup,
      hnext.mem⟩

-- In a run of append and offset writes to one file, each of which commits over the revision that it
-- has seen, the content is what the writes that succeeded give one after another.
theorem partial_writes_serialize (cfg : WriteConfig) (dirID : Str → ID) (fileID : ID)
    (s s' : WriteSystem) (labels : List WriteLabel) (start : Bytes) (hfile : s.OneFile fileID)
    (hidle : ∀ r, s.requests.get? r = none) (hstart : s.content? fileID = some start)
    (hok : Lts.Along (step cfg dirID)
      (fun s label => s.writesTo fileID label = true ∧ label.startsPartial = true
        ∧ s.commitsUnseen fileID label = false) s labels)
    (hexec : Lts.exec (step cfg dirID) s labels = some s')
    : ∃ writes : List (Nat × WriteArgs), (writes.map Prod.fst).Nodup
      ∧ (∀ r args, (r, args) ∈ writes
        ↔ ∃ phase, s'.requests.get? r = some ⟨args, phase⟩ ∧ phase.succeeded = true)
      ∧ s'.content? fileID = some (writes.foldl (fun data w => w.2.finalData data) start) := by
  have hinv : s'.OneFile fileID ∧ ∃ cur writes, s'.Serial fileID start cur writes := by
    refine Lts.exec_invariant _ (fun s => s.OneFile fileID ∧ ∃ cur writes,
      s.Serial fileID start cur writes)
      ?_ ?_ hok hexec
    . rintro s1 label s2 ⟨hfile, cur, writes, hserial⟩ ⟨hlabel, hstarts, hseen⟩ hstep
      have hmoved := moved_of_step hfile hserial.current hlabel hstep
      exact ⟨hfile.moved hserial.current hlabel hmoved, hserial.moved hstarts hseen hmoved⟩
    . obtain ⟨cur, hcurrent, hread⟩ := Option.bind_eq_some_iff.mp hstart
      refine ⟨hfile, cur, [], hcurrent, ?_, ?_, hread, .nil, ?_⟩
      . intro r req hreq
        rw [hidle] at hreq
        contradiction
      . intro r r' req req' ref hreq
        rw [hidle] at hreq
        contradiction
      . intro r args
        rw [hidle]
        simp
  obtain ⟨_, cur, writes, hserial⟩ := hinv
  refine ⟨writes, hserial.nodup, hserial.mem, ?_⟩
  unfold content?
  rw [hserial.current]
  exact hserial.content

def oneInline : WriteSystem where
  store :=
    { FileStore.empty false with
      db :=
        { (FileStore.empty false).db with
          fileNodes := [fileNode ['n'] ['/', 'f'] (some ['a'])]
          inodes := FMap.empty.set ['a'] ⟨1, 1, .confirmed⟩
          contents := FMap.empty.set ['a'] ⟨.db9, inlineRef⟩ } }
  blobs := FMap.empty.set ['a'] [0]
  objects := .empty
  puts := []
  candidates := []
  requests := .empty

def appendOf (data : Bytes) : WriteArgs := ⟨['/', 'f'], data, 0, true, false, false, false, -1⟩

def writeAt (offset : Int) (data : Bytes) : WriteArgs :=
  ⟨['/', 'f'], data, offset, false, false, false, false, -1⟩

def appendThenOffset : List WriteLabel :=
  [.start 1 (appendOf [1]), .run 1 [] [], .run 1 [] [], .start 2 (writeAt 3 [9]), .run 1 ['x'] [], .run 1 [] [],
    .run 2 [] [], .run 2 [] [], .run 2 ['y'] [], .run 2 [] []]

theorem partial_writes_serialize_append_then_offset
    : ∃ s', Lts.exec (step ⟨true, 2, 0⟩ id) oneInline appendThenOffset = some s'
      ∧ s'.content? ['a'] = some [0, 1, 0, 9]
      ∧ ∃ writes : List (Nat × WriteArgs), (writes.map Prod.fst).Nodup ∧ (1, appendOf [1]) ∈ writes
        ∧ s'.content? ['a'] = some (writes.foldl (fun data w => w.2.finalData data) [0]) := by
  apply Lts.exists_of_any
    (fun s' => s'.content? ['a'] = some [0, 1, 0, 9]
      ∧ s'.requests.get? 1 = some ⟨appendOf [1], .committed 2⟩) (by decide +kernel)
  intro s' hexec ⟨hcontent, hfirst⟩
  have hidle : ∀ r, oneInline.requests.get? r = none := fun r => get?_empty r
  have hfile : oneInline.OneFile ['a'] := by
    refine ⟨by decide, by decide, by decide, by decide, ?_⟩
    intro r req hreq
    rw [hidle] at hreq
    contradiction
  have hok : Lts.Along (step ⟨true, 2, 0⟩ id)
      (fun s label => s.writesTo ['a'] label = true ∧ label.startsPartial = true
        ∧ s.commitsUnseen ['a'] label = false) oneInline appendThenOffset := by
    decide +kernel
  obtain ⟨writes, hnodup, hmem, hwrites⟩ :=
    partial_writes_serialize ⟨true, 2, 0⟩ id ['a'] oneInline s' appendThenOffset [0] hfile hidle (by decide) hok hexec
  exact ⟨hcontent, writes, hnodup, (hmem 1 _).mpr ⟨_, hfirst, rfl⟩, hwrites⟩

def appendsAtOnce : List WriteLabel :=
  [.start 1 (appendOf [1]), .run 1 [] [], .run 1 [] [], .start 2 (appendOf [2]), .run 2 [] [], .run 2 [] [],
    .run 1 [] [], .run 1 [] [], .run 2 [] [], .run 2 [] []]

-- Both succeed, and the content is that of neither order: the first append is lost.
theorem concurrent_appends_lose_one
    : ∃ s', Lts.exec (step ⟨true, 100, 0⟩ id) oneInline appendsAtOnce = some s'
      ∧ s'.requests.get? 1 = some ⟨appendOf [1], .committed 2⟩
      ∧ s'.requests.get? 2 = some ⟨appendOf [2], .committed 3⟩
      ∧ s'.content? ['a'] = some [0, 2]
      ∧ ∀ order ∈ [[appendOf [1], appendOf [2]], [appendOf [2], appendOf [1]]],
        s'.content? ['a'] ≠ some (order.foldl (fun data args => args.finalData data) [0]) := by
  exact Lts.exists_of_any _ (by decide +kernel) fun _ _ h => h

end WriteSystem
