import Drive9.Backend.Quota.Impl

/-!
This module contains what the transaction of a mutation does to the reservations when it goes
through.
-/

namespace Quota

open Transaction

structure Charged (tenantID : TenantID) (reserved : Int) (s s' : QuotaState) : Prop where
  reserved : ∀ t, (s'.getQuotaUsage t).reservedBytes
    = (s.getQuotaUsage t).reservedBytes + if t = tenantID then reserved else 0
  reservations : s'.reservations = s.reservations

namespace Charged

variable {tenantID : TenantID} {s s1 s' : QuotaState}

theorem refl (tenantID) (s) : Charged tenantID 0 s s := ⟨by simp, rfl⟩

theorem trans (h : Charged tenantID a s s1) (h' : Charged tenantID b s1 s')
    : Charged tenantID (a + b) s s' where
  reserved := by
    intro t
    rw [h'.reserved, h.reserved]
    split
    . omega
    . omega
  reservations := h'.reservations.trans h.reservations

end Charged

section

variable {tenantID : TenantID} {s s' : QuotaState} {a : Unit} {delta : Int}

theorem of_updateUsageTx (h : updateUsageTx tenantID g s = .ok (a, s'))
    : ∃ u, s.usage.get? tenantID = some u
      ∧ s' = { s with usage := s.usage.set tenantID (g u) } := by
  obtain ⟨s0, s1, hget, h⟩ := of_bind h
  cases hget
  cases hu : s.usage.get? tenantID with
  | none =>
    rw [hu] at h
    contradiction
  | some u =>
    rw [hu] at h
    obtain ⟨_, s2, hreq, h⟩ := of_bind h
    obtain ⟨_, rfl⟩ := of_require hreq
    cases h
    exact ⟨u, rfl, rfl⟩

theorem getQuotaUsage_set (s : QuotaState) (tenantID t : TenantID) (u : QuotaUsage)
    : QuotaState.getQuotaUsage { s with usage := s.usage.set tenantID u } t
      = if t = tenantID then u else s.getQuotaUsage t := by
  unfold QuotaState.getQuotaUsage
  rw [FMap.get?_set]
  split
  . rfl
  . rfl

theorem getQuotaUsage_of_get? (h : s.usage.get? tenantID = some u)
    : s.getQuotaUsage tenantID = u := by
  unfold QuotaState.getQuotaUsage
  rw [h]
  rfl

theorem Charged.of_update (hg : ∀ u, (g u).reservedBytes = u.reservedBytes + delta)
    (h : updateUsageTx tenantID g s = .ok (a, s'))
    : Charged tenantID delta s s' := by
  obtain ⟨u, hu, rfl⟩ := of_updateUsageTx h
  refine ⟨?_, rfl⟩
  intro t
  rw [getQuotaUsage_set]
  split
  . next heq => rw [heq, getQuotaUsage_of_get? hu, hg]
  . rw [Int.add_zero]

theorem Charged.of_incrStorageBytesTx (h : incrStorageBytesTx tenantID delta s = .ok (a, s'))
    : Charged tenantID 0 s s' :=
  of_update (fun u => by simp) h

theorem Charged.of_incrReservedBytesTx (h : incrReservedBytesTx tenantID delta s = .ok (a, s'))
    : Charged tenantID delta s s' :=
  of_update (fun u => by simp) h

theorem Charged.of_incrMediaFileCountTx (h : incrMediaFileCountTx tenantID delta s = .ok (a, s'))
    : Charged tenantID 0 s s' :=
  of_update (fun u => by simp) h

theorem Charged.of_whenTx (hx : ∀ a s', x s = .ok (a, s') → Charged tenantID 0 s s')
    (h : whenTx c x s = .ok (a, s'))
    : Charged tenantID 0 s s' := by
  cases c with
  | true => exact hx a s' h
  | false =>
    cases h
    exact .refl tenantID s

theorem Charged.of_whenStorage (h : whenTx c (incrStorageBytesTx tenantID delta) s = .ok (a, s'))
    : Charged tenantID 0 s s' :=
  of_whenTx (fun _ _ => of_incrStorageBytesTx) h

theorem Charged.of_whenMedia (h : whenTx c (incrMediaFileCountTx tenantID delta) s = .ok (a, s'))
    : Charged tenantID 0 s s' :=
  of_whenTx (fun _ _ => of_incrMediaFileCountTx) h

end

def Mutation.released (m : Mutation) (settled : Bool) : Int :=
  match m with
  | .uploadComplete data => if settled then data.reservedBytes else 0
  | _ => 0

def QuotaState.hasActive (s : QuotaState) (tenantID : TenantID) (uploadID : UploadID) : Bool :=
  (s.reservations.get? (tenantID, uploadID)).any (·.status = .active)

def QuotaState.settles (s : QuotaState) (tenantID : TenantID) (m : Mutation) : Bool :=
  match m with
  | .uploadComplete data => s.hasActive tenantID data.uploadID
  | _ => false

structure Applied (tenantID : TenantID) (m : Mutation) (s s' : QuotaState) : Prop where
  reserved : ∀ t, (s'.getQuotaUsage t).reservedBytes = (s.getQuotaUsage t).reservedBytes
    + if t = tenantID then -m.released (s.settles tenantID m) else 0
  reservations : s'.reservations =
    match m with
    | .uploadComplete data => s.reservations.modify (tenantID, data.uploadID) (.settle .completed)
    | _ => s.reservations

section

variable {tenantID : TenantID} {s s' : QuotaState} {a : Unit}

theorem Applied.of_fileCreate
    (h : syncCentralFileCreateTx tenantID data.fileID data.sizeBytes data.isMedia s = .ok (a, s'))
    : Applied tenantID (.fileCreate data) s s' := by
  obtain ⟨_, s1, hmeta, h⟩ := of_bind h
  cases hmeta
  obtain ⟨_, s2, hstorage, hmedia⟩ := of_bind h
  have hcharged := (Charged.of_whenStorage hstorage).trans (Charged.of_whenMedia hmedia)
  exact ⟨hcharged.reserved, hcharged.reservations⟩

theorem Applied.of_fileOverwrite
    (h : syncCentralFileOverwriteTx tenantID data.fileID data.oldSizeBytes data.oldIsMedia data.newSizeBytes
      data.newIsMedia s = .ok (a, s'))
    : Applied tenantID (.fileOverwrite data) s s' := by
  obtain ⟨_, s1, hmeta, h⟩ := of_bind h
  cases hmeta
  obtain ⟨_, s2, hstorage, hmedia⟩ := of_bind h
  have hcharged := (Charged.of_whenStorage hstorage).trans (Charged.of_whenMedia hmedia)
  exact ⟨hcharged.reserved, hcharged.reservations⟩

theorem of_ite_bind {c : Bool} {x y : QuotaTx α} (h : (if c then x >>= k else y >>= k) s = .ok r)
    : ((if c then x else y) >>= k) s = .ok r := by
  cases c with
  | true | false => exact h

theorem Charged.of_settled
    (h : (if settled then transferReservedToConfirmedTx tenantID (-data.reservedBytes) data.reservedBytes
      else whenTx (data.newSizeBytes ≠ 0) (incrStorageBytesTx tenantID data.newSizeBytes)) s = .ok (a, s'))
    : Charged tenantID (-Mutation.released (.uploadComplete data) settled) s s' := by
  cases settled with
  | true => exact of_update (fun u => by simp [Mutation.released]) h
  | false => exact of_whenStorage h

theorem Applied.of_uploadComplete (h : applyUploadCompleteTx tenantID data s = .ok (a, s'))
    : Applied tenantID (.uploadComplete data) s s' := by
  obtain ⟨settled, s1, hsettle, h⟩ := of_bind h
  cases hsettle
  obtain ⟨_, s2, hsettled, h⟩ := of_bind (of_ite_bind h)
  obtain ⟨_, s3, hold, h⟩ := of_bind h
  obtain ⟨_, s4, hmeta, hmedia⟩ := of_bind h
  cases hmeta
  have hbytes := (Charged.of_settled hsettled).trans (Charged.of_whenStorage hold)
  have hmedia := Charged.of_whenMedia hmedia
  -- the row is written between the counters
  have hrow : ∀ t, QuotaState.getQuotaUsage
      { s3 with fileMeta := s3.fileMeta.set (tenantID, data.fileID) ⟨data.newSizeBytes, data.newIsMedia⟩ } t
        = s3.getQuotaUsage t :=
    fun _ => rfl
  refine ⟨?_, ?_⟩
  . intro t
    rw [hmedia.reserved, hrow, hbytes.reserved]
    simp [QuotaState.settles, QuotaState.hasActive]
    rfl
  . rw [hmedia.reservations]
    rw [hbytes.reservations]

theorem Applied.of_llmCostRecord
    (h : syncCentralLLMCostRecordTx tenantID month data.taskType data.taskID data.costMillicents data.rawUnits
      data.rawUnitType s = .ok (a, s'))
    : Applied tenantID (.llmCostRecord data) s s' := by
  obtain ⟨_, s1, hrecord, hcost⟩ := of_bind h
  cases hrecord
  cases hcost
  have hcharged := Charged.refl tenantID s
  exact ⟨hcharged.reserved, hcharged.reservations⟩

theorem Applied.of_inlineTx (h : inlineTx tenantID month m s = .ok (a, s'))
    : Applied tenantID m s s' := by
  cases m with
  | fileCreate data => exact of_fileCreate h
  | fileOverwrite data => exact of_fileOverwrite h
  | uploadComplete data => exact of_uploadComplete h
  | llmCostRecord data => exact of_llmCostRecord h

end

end Quota
