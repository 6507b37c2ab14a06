import Drive9.Backend.Quota.Reservations
import Drive9.Lib.Int64

/-!
This module contains the quota side of starting an upload, with server quota on and both databases
reachable.
-/

namespace Quota

open Transaction

structure Databases where
  server : QuotaState
  confirmedFileSizes : FMap Str Int
  uploads : FMap UploadID (Str × Int)

def reserveUploadOnServer (s : QuotaState) (tenantID : TenantID) (uploadID : UploadID)
    (targetPath : Str)
    (totalSize expiresAt : Int) : Except QuotaError Bool × QuotaState :=
  match atomicReserveAndInsertUpload tenantID uploadID totalSize targetPath expiresAt s with
  | .ok (_, s') => (.ok true, s')
  | .error .storageQuotaExceeded => (.error .storageQuotaExceeded, s)
  | .error .reservationAlreadyExists => (.ok true, s)
  | .error _ => (.ok false, s)

def abortUploadReservation (s : QuotaState) (tenantID : TenantID) (uploadID : UploadID)
    : QuotaState :=
  match s.reservations.get? (tenantID, uploadID) with
  | none => s
  | some r =>
    if r.status ≠ .active then
      s
    else
      match abortTx ⟨tenantID, uploadID, r.reservedBytes⟩ s with
      | .ok (_, s') => s'
      | .error _ => s

def ensureStorageQuotaServer (s : QuotaState) (tenantID : TenantID) (deltaBytes : Int)
    : Except QuotaError Unit :=
  let usage := s.getQuotaUsage tenantID
  if deltaBytes ≤ 0 ∨ s.storageLimit tenantID ≤ 0 then
    .ok ()
  else if i64 (usage.storageBytes + usage.reservedBytes + deltaBytes) > s.storageLimit tenantID then
    .error .storageQuotaExceeded
  else
    .ok ()

namespace Databases

def confirmedFileSizeByPath (b : Databases) (path : Str) : Int :=
  (b.confirmedFileSizes.get? path).getD 0

def ensureStorageQuota (b : Databases) (tenantID : TenantID) (path : Str) (newSize : Int)
    : Except QuotaError Unit :=
  let deltaBytes := i64 (newSize - b.confirmedFileSizeByPath path)
  if deltaBytes ≤ 0 then .ok () else ensureStorageQuotaServer b.server tenantID deltaBytes

-- The check inside the transaction of the tenant database is the only difference of the two
-- requests.
def initiateWith (check : Databases → Except QuotaError Unit) (b : Databases) (tenantID : TenantID)
    (uploadID : UploadID) (path : Str) (totalSize expiresAt : Int)
    : Except QuotaError Unit × Databases :=
  match reserveUploadOnServer b.server tenantID uploadID path totalSize expiresAt with
  | (.error err, server) => (.error err, { b with server := server })
  | (.ok reserved, server) =>
    match check { b with server := server } with
    | .ok () =>
      (.ok (), { b with server := server, uploads := b.uploads.set uploadID (path, totalSize) })
    | .error err =>
      (.error err, { b with server := if reserved then abortUploadReservation server tenantID uploadID else server })

def initiateUpload (b : Databases) (tenantID : TenantID) (uploadID : UploadID) (path : Str)
    (totalSize expiresAt : Int) : Except QuotaError Unit × Databases :=
  b.initiateWith (fun _ => .ok ()) tenantID uploadID path totalSize expiresAt

def initiatePatchUpload (b : Databases) (tenantID : TenantID) (uploadID : UploadID) (path : Str)
    (newSize expiresAt : Int) : Except QuotaError Unit × Databases :=
  b.initiateWith (fun b => b.ensureStorageQuota tenantID path newSize) tenantID uploadID path newSize expiresAt

end Databases

/--
What fits the quota still fits it after the reservation, when the growth of the file is counted once
more.
-/
def FitsTwice (limit storageBytes reservedBytes currentSize newSize : Int) : Prop :=
  storageBytes + reservedBytes + newSize ≤ limit →
    newSize ≠ 0 ∧ (i64 (newSize - currentSize) ≤ 0 ∨ limit ≤ 0 ∨
      i64 (storageBytes + (reservedBytes + newSize) + i64 (newSize - currentSize)) ≤ limit)

instance decidableFitsTwice (limit storageBytes reservedBytes currentSize newSize : Int)
    : Decidable (FitsTwice limit storageBytes reservedBytes currentSize newSize) :=
  inferInstanceAs (Decidable (_ → _))

section

variable {b : Databases} {s : QuotaState} {u : QuotaUsage} (hu : s.usage.get? tenantID = some u)
  (hfresh : s.reservations.get? (tenantID, uploadID) = none)

include hu hfresh

theorem reserveUploadOnServer_of_fits
    (hfits : u.storageBytes + u.reservedBytes + size ≤ s.storageLimit tenantID) (hsize : size ≠ 0)
    : ∃ s', reserveUploadOnServer s tenantID uploadID path size expiresAt = (.ok true, s')
        ∧ s'.getQuotaUsage tenantID = { u with reservedBytes := u.reservedBytes + size }
        ∧ s'.storageLimit tenantID = s.storageLimit tenantID := by
  have hnone := Option.isNone_iff_eq_none.mpr hfresh
  have htx : ∃ s', atomicReserveAndInsertUpload tenantID uploadID size path expiresAt s = .ok ((), s')
      ∧ s'.usage = s.usage.set tenantID { u with reservedBytes := u.reservedBytes + size }
      ∧ s'.maxStorageBytes = s.maxStorageBytes := by
    unfold atomicReserveAndInsertUpload
    rw [bind_of_ok rfl, hu]
    dsimp only
    rw [bind_of_ok (require_of ⟨hfits, hsize⟩ _ s), bind_of_ok rfl,
      bind_of_ok (require_of hnone _ _)]
    exact ⟨_, rfl, rfl, rfl⟩
  obtain ⟨s', htx, husage, hmax⟩ := htx
  refine ⟨s', ?_, ?_, ?_⟩
  . unfold reserveUploadOnServer
    rw [htx]
  . unfold QuotaState.getQuotaUsage
    rw [husage, FMap.get?_set_self]
    rfl
  . unfold QuotaState.storageLimit
    rw [hmax]

omit hfresh in
theorem reserveUploadOnServer_of_not_fits
    (h : ¬ (u.storageBytes + u.reservedBytes + size ≤ s.storageLimit tenantID ∧ size ≠ 0))
    : reserveUploadOnServer s tenantID uploadID path size expiresAt
      = (.error .storageQuotaExceeded, s) := by
  have htx : atomicReserveAndInsertUpload tenantID uploadID size path expiresAt s
      = .error .storageQuotaExceeded := by
    unfold atomicReserveAndInsertUpload require
    rw [bind_of_ok rfl, hu]
    simp only [h, if_false]
    rfl
  unfold reserveUploadOnServer
  rw [htx]

theorem initiateWith_isOk (hb : b.server = s) (check : Databases → Except QuotaError Unit)
    (hcheck : ∀ server, server.getQuotaUsage tenantID = { u with reservedBytes := u.reservedBytes + size }
      → server.storageLimit tenantID = s.storageLimit tenantID
      → ((check { b with server := server }).isOk = true ↔ passes))
    : (b.initiateWith check tenantID uploadID path size expiresAt).1.isOk = true
        ↔ u.storageBytes + u.reservedBytes + size ≤ s.storageLimit tenantID ∧ size ≠ 0
          ∧ passes := by
  subst hb
  unfold Databases.initiateWith
  by_cases hfits : u.storageBytes + u.reservedBytes + size ≤ b.server.storageLimit tenantID ∧ size ≠ 0
  . obtain ⟨server, hreserve, husage, hlimit⟩ :=
      reserveUploadOnServer_of_fits hu hfresh hfits.1 hfits.2
    rw [hreserve]
    dsimp only
    rw [← hcheck server husage hlimit]
    cases check { b with server := server } with
    | ok _ => simp [Except.isOk, Except.toBool, hfits]
    | error _ => simp [Except.isOk, Except.toBool]
  . rw [reserveUploadOnServer_of_not_fits hu hfits]
    simp only [Except.isOk, Except.toBool]
    grind

end

theorem ensureStorageQuota_isOk (b : Databases) (tenantID : TenantID) (path : Str) (newSize : Int)
    : (b.ensureStorageQuota tenantID path newSize).isOk = true
        ↔ i64 (newSize - b.confirmedFileSizeByPath path) ≤ 0 ∨ b.server.storageLimit tenantID ≤ 0
          ∨ i64 ((b.server.getQuotaUsage tenantID).storageBytes + (b.server.getQuotaUsage tenantID).reservedBytes
              + i64 (newSize - b.confirmedFileSizeByPath path)) ≤ b.server.storageLimit tenantID := by
  unfold Databases.ensureStorageQuota ensureStorageQuotaServer
  dsimp only
  split
  . next hdelta => simp [Except.isOk, Except.toBool, hdelta]
  . next hdelta =>
    split
    . next h => simp [Except.isOk, Except.toBool, hdelta, h.resolve_left hdelta]
    . next h =>
      split
      . next hover =>
        simp only [Except.isOk, Except.toBool, Bool.false_eq_true, false_iff]
        omega
      . next hover =>
        simp only [Except.isOk, Except.toBool, true_iff]
        omega

theorem patch_quota_eq_upload_quota (b : Databases) (tenantID : TenantID) (uploadID : UploadID)
    (hu : b.server.usage.get? tenantID = some u)
    (hfresh : b.server.reservations.get? (tenantID, uploadID) = none) (path : Str)
    (newSize expiresAt : Int)
    : (((b.initiatePatchUpload tenantID uploadID path newSize expiresAt).1.isOk = true
          ↔ u.storageBytes + u.reservedBytes + newSize ≤ b.server.storageLimit tenantID)
        ∧ ((b.initiatePatchUpload tenantID uploadID path newSize expiresAt).1.isOk = true
          ↔ (b.initiateUpload tenantID uploadID path newSize expiresAt).1.isOk = true))
      ↔ FitsTwice (b.server.storageLimit tenantID) u.storageBytes u.reservedBytes (b.confirmedFileSizeByPath path)
          newSize := by
  have hupload : (b.initiateUpload tenantID uploadID path newSize expiresAt).1.isOk = true
      ↔ u.storageBytes + u.reservedBytes + newSize ≤ b.server.storageLimit tenantID ∧ newSize ≠ 0
        ∧ True := by
    apply initiateWith_isOk hu hfresh rfl
    simp [Except.isOk, Except.toBool]
  have hpatch : (b.initiatePatchUpload tenantID uploadID path newSize expiresAt).1.isOk = true
      ↔ u.storageBytes + u.reservedBytes + newSize ≤ b.server.storageLimit tenantID ∧ newSize ≠ 0
        ∧ (i64 (newSize - b.confirmedFileSizeByPath path) ≤ 0 ∨ b.server.storageLimit tenantID ≤ 0
          ∨ i64 (u.storageBytes + (u.reservedBytes + newSize) + i64 (newSize - b.confirmedFileSizeByPath path))
            ≤ b.server.storageLimit tenantID) := by
    apply initiateWith_isOk hu hfresh rfl
    intro server husage hlimit
    rw [ensureStorageQuota_isOk]
    rw [husage, hlimit]
    rfl
  rw [hupload, hpatch]
  constructor
  . intro h hfits
    exact (h.1.mpr hfits).2
  . intro h
    refine ⟨⟨fun hpatch => hpatch.1, fun hfits => ⟨hfits, h hfits⟩⟩, ?_⟩
    constructor
    . intro hpatch
      exact ⟨hpatch.1, hpatch.2.1, trivial⟩
    . intro hupload
      exact ⟨hupload.1, h hupload.1⟩

-- A file of 60 bytes grows to 90 under a limit of `limit` bytes.
def growing (limit : Int) : Databases where
  server := { QuotaState.empty with
    usage := FMap.empty.set [] ⟨60, 0, 0⟩, maxStorageBytes := FMap.empty.set [] limit }
  confirmedFileSizes := FMap.empty.set [] 60
  uploads := .empty

theorem patch_quota_eq_upload_quota_roomy
    : ((growing 200).initiatePatchUpload [] [] [] 90 0).1.isOk = true := by
  have hrow : (growing 200).server.usage.get? [] = some ⟨60, 0, 0⟩ := by rfl
  have hsame := (patch_quota_eq_upload_quota (growing 200) [] [] hrow rfl [] 90 0).mpr (by decide)
  exact hsame.1.mpr (by decide)

theorem patch_rejected_where_upload_accepted
    : ((growing 160).initiateUpload [] [] [] 90 0).1.isOk = true
      ∧ ((growing 160).initiatePatchUpload [] [] [] 90 0).1.isOk = false := by
  decide

end Quota
