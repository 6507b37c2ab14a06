import Drive9.Backend.Quota.Effects
import Drive9.Backend.Quota.Lemmas
import Mathlib.Data.List.Dedup

/-!
This module contains the reservations of uploads in `pkg/backend/upload_reservation.go` together
with the mutations that complete them.
-/

open List Option FMap

namespace Quota

open Transaction

structure AbortCall where
  tenantID : TenantID
  uploadID : UploadID
  reservedBytes : Int

def abortTx (call : AbortCall) : QuotaTx Unit := do
  incrReservedBytesTx call.tenantID (-call.reservedBytes)
  updateUploadReservationStatusTx call.tenantID call.uploadID .aborted

structure ReservationSystem (J : Type) where
  quota : QuotaSystem J
  aborts : FMap Nat AbortCall

inductive ReservationLabel where
  | ensureQuotaUsageRow (tenantID : TenantID)
  | setQuotaConfig (tenantID : TenantID) (maxStorageBytes : Int)
  | reserveUploadOnServer (tenantID : TenantID) (uploadID : UploadID) (targetPath : Str) (expiresAt : Int)
  | lookup (a : Nat) (tenantID : TenantID) (uploadID : UploadID)
  | abort (a : Nat)
  | abortFail (a : Nat)
  | completeUploadReservation (r : Nat) (tenantID : TenantID) (uploadID : UploadID) (fileID : FileID)
      (oldSizeBytes : Int) (oldIsMedia newIsMedia : Bool) (now : Int)
  | expireActiveReservations (now : Int)
  | abortActiveUploadReservations (tenantID : TenantID)
  -- everything else that happens to mutations
  | quota (l : QuotaLabel)

def QuotaLabel.completes (l : QuotaLabel) : Bool :=
  match l with
  | .log _ _ (.uploadComplete _) _ => true
  | _ => false

namespace ReservationSystem

variable {J : Type}

def init : ReservationSystem J := ⟨.init .empty, .empty⟩

def state (s : ReservationSystem J) : QuotaState := s.quota.store.state

def setState (s : ReservationSystem J) (state : QuotaState) : ReservationSystem J :=
  { s with quota := { s.quota with store := { s.quota.store with state := state } } }

def runTx (s : ReservationSystem J) (x : QuotaTx Unit) : ReservationSystem J :=
  match x s.state with
  | .error _ => s
  | .ok (_, state) => s.setState state

def lookup (s : ReservationSystem J) (a : Nat) (tenantID : TenantID) (uploadID : UploadID)
    : ReservationSystem J :=
  match s.state.reservations.get? (tenantID, uploadID) with
  | none => s
  | some r =>
    if r.status ≠ .active then s else { s with aborts := s.aborts.set a ⟨tenantID, uploadID, r.reservedBytes⟩ }

def step (codec : MutationCodec J) (totalSize : TenantID → UploadID → Int) (s : ReservationSystem J)
    (l : ReservationLabel) : Option (ReservationSystem J) :=
  match l with
  | .ensureQuotaUsageRow tenantID => some (s.setState (s.state.ensureQuotaUsageRow tenantID))
  | .setQuotaConfig tenantID maxStorageBytes =>
    some (s.setState { s.state with maxStorageBytes := s.state.maxStorageBytes.set tenantID maxStorageBytes })
  | .reserveUploadOnServer tenantID uploadID targetPath expiresAt =>
    some (s.runTx (atomicReserveAndInsertUpload tenantID uploadID (totalSize tenantID uploadID) targetPath expiresAt))
  | .lookup a tenantID uploadID =>
    if (s.aborts.get? a).isNone then some (s.lookup a tenantID uploadID) else none
  | .abort a =>
    (s.aborts.get? a).map fun call => { s.runTx (abortTx call) with aborts := s.aborts.del a }
  | .abortFail a => (s.aborts.get? a).map fun _ => { s with aborts := s.aborts.del a }
  | .completeUploadReservation r tenantID uploadID fileID oldSizeBytes oldIsMedia newIsMedia now =>
    (s.quota.step codec (.log r tenantID
      (.uploadComplete ⟨uploadID, fileID, totalSize tenantID uploadID, oldSizeBytes, oldIsMedia,
        totalSize tenantID uploadID, newIsMedia⟩) now)).map fun quota => { s with quota := quota }
  | .expireActiveReservations now => some (s.runTx (Quota.expireActiveReservations now))
  | .abortActiveUploadReservations tenantID =>
    some (s.runTx (Quota.abortActiveUploadReservations tenantID))
  | .quota l =>
    if l.completes then none else (s.quota.step codec l).map fun quota => { s with quota := quota }

-- The reservation that an abort has looked up is still active when its transaction runs.
def abortsActive (s : ReservationSystem J) (l : ReservationLabel) : Prop :=
  match l with
  | .abort a =>
    (s.aborts.get? a).all (fun call => s.state.hasActive call.tenantID call.uploadID) = true
  | _ => True

instance decidableAbortsActive (s : ReservationSystem J) (l : ReservationLabel)
    : Decidable (s.abortsActive l) := by
  unfold abortsActive
  cases l with
  | abort a => exact instDecidableEqBool _ _
  | _ => exact .isTrue trivial

end ReservationSystem

namespace QuotaState

def activeSum (s : QuotaState) (tenantID : TenantID) : Int :=
  s.reservedSum tenantID (·.status = .active)

structure Balanced (totalSize : TenantID → UploadID → Int) (s : QuotaState) : Prop where
  reserved : ∀ t, (s.getQuotaUsage t).reservedBytes = s.activeSum t
  rows : ∀ t u r, s.reservations.get? (t, u) = some r → r.reservedBytes = totalSize t u

end QuotaState

structure Balances (totalSize : TenantID → UploadID → Int) (s s' : QuotaState) : Prop where
  balanced : s'.Balanced totalSize
  kept : ∀ key r, s.reservations.get? key = some r → r.status ≠ .active
    → s'.reservations.get? key = some r

section

variable {totalSize : TenantID → UploadID → Int} {s s' : QuotaState}

theorem Balances.of_eq (h : s.Balanced totalSize) (hreservations : s'.reservations = s.reservations)
    (hreserved : ∀ t, (s'.getQuotaUsage t).reservedBytes = (s.getQuotaUsage t).reservedBytes)
    : Balances totalSize s s' where
  balanced := by
    constructor
    . intro t
      rw [hreserved t, h.reserved t]
      unfold QuotaState.activeSum QuotaState.reservedSum
      rw [hreservations]
    . intro t u r hr
      rw [hreservations] at hr
      exact h.rows t u r hr
  kept := by
    intro key r hr _
    rw [hreservations]
    exact hr

variable {status : ReservationStatus}

theorem reservedBytes_settle (status) (r : UploadReservation)
    : (r.settle status).reservedBytes = r.reservedBytes := by
  unfold UploadReservation.settle
  split
  . rfl
  . rfl

theorem status_settle (hstatus : status ≠ .active) (r : UploadReservation)
    : (r.settle status).status ≠ .active := by
  unfold UploadReservation.settle
  split
  . exact hstatus
  . next h => exact h

variable {tenantID : TenantID} {uploadID : UploadID}

theorem activeSum_settle
    (hrows : ∀ t u r, s.reservations.get? (t, u) = some r → r.reservedBytes = totalSize t u)
    (hstatus : status ≠ .active)
    (hreservations : s'.reservations = s.reservations.modify (tenantID, uploadID) (.settle status)) (t)
    : s'.activeSum t
      = s.activeSum t
        - if t = tenantID then if s.hasActive tenantID uploadID then totalSize tenantID uploadID else 0 else 0 := by
  unfold QuotaState.activeSum QuotaState.reservedSum QuotaState.hasActive
  rw [hreservations, sumOn_modify]
  cases hget : s.reservations.get? (tenantID, uploadID) with
  | none => simp
  | some r =>
    have hsize := hrows tenantID uploadID r hget
    have hsettled := status_settle hstatus r
    by_cases ht : t = tenantID
    . subst ht
      by_cases hactive : r.status = .active
      . simp [hactive, hsettled, hsize]
      . simp [hactive, hsettled]
    . have hne : tenantID ≠ t := fun heq => ht heq.symm
      simp [ht, hne]

theorem Balances.of_settle (h : s.Balanced totalSize) (hstatus : status ≠ .active)
    (hreservations : s'.reservations = s.reservations.modify (tenantID, uploadID) (.settle status))
    (hreserved : ∀ t, (s'.getQuotaUsage t).reservedBytes = (s.getQuotaUsage t).reservedBytes
      - if t = tenantID then if s.hasActive tenantID uploadID then totalSize tenantID uploadID else 0 else 0)
    : Balances totalSize s s' where
  balanced := by
    constructor
    . intro t
      rw [hreserved t, h.reserved t, activeSum_settle h.rows hstatus hreservations t]
    . intro t u r hr
      rw [hreservations, get?_modify] at hr
      split at hr
      . next heq =>
        obtain ⟨r0, hr0, rfl⟩ := map_eq_some_iff.mp hr
        rw [reservedBytes_settle]
        rw [← heq] at hr0
        exact h.rows t u r0 hr0
      . exact h.rows t u r hr
  kept := by
    intro key r hr hsettled
    rw [hreservations, get?_modify]
    split
    . next heq =>
      rw [← heq, hr, map_some, UploadReservation.settle, if_neg hsettled]
    . exact hr

variable {a : Unit}

section

variable (h : s.Balanced totalSize)

include h

theorem Balances.of_abortTx
    (hcall : call.reservedBytes = totalSize call.tenantID call.uploadID)
    (hactive : s.hasActive call.tenantID call.uploadID = true) (htx : abortTx call s = .ok (a, s'))
    : Balances totalSize s s' := by
  obtain ⟨_, s1, hincr, hupdate⟩ := of_bind htx
  have hcharged := Charged.of_incrReservedBytesTx hincr
  cases hupdate
  have haborted : ReservationStatus.aborted ≠ .active := by decide
  apply of_settle h haborted
  . dsimp only
    rw [hcharged.reservations]
  . intro t
    rw [hactive, ← hcall]
    change (s1.getQuotaUsage t).reservedBytes = _
    rw [hcharged.reserved t]
    split
    . simp
      omega
    . simp

theorem Balances.of_applied
    (hm : ∀ data, m = .uploadComplete data → data.reservedBytes = totalSize tenantID data.uploadID)
    (happlied : Applied tenantID m s s')
    : Balances totalSize s s' := by
  have hreservations := happlied.reservations
  have hreserved := happlied.reserved
  cases m with
  | uploadComplete data =>
    have hcompleted : ReservationStatus.completed ≠ .active := by decide
    apply of_settle h hcompleted hreservations
    intro t
    rw [hreserved t, ← hm data rfl]
    dsimp only [Mutation.released, QuotaState.settles]
    split
    . omega
    . rfl
  | _ =>
    apply of_eq h hreservations
    intro t
    rw [hreserved t]
    simp [Mutation.released]

theorem Balances.of_reserve
    (htx : atomicReserveAndInsertUpload tenantID uploadID (totalSize tenantID uploadID) targetPath expiresAt s
      = .ok (a, s'))
    : Balances totalSize s s' := by
  obtain ⟨s0, s1, hget, htx⟩ := of_bind htx
  cases hget
  cases hu : s.usage.get? tenantID with
  | none =>
    rw [hu] at htx
    contradiction
  | some u =>
    rw [hu] at htx
    obtain ⟨_, s2, hreq, htx⟩ := of_bind htx
    obtain ⟨_, rfl⟩ := of_require hreq
    obtain ⟨_, s3, husage, htx⟩ := of_bind htx
    cases husage
    obtain ⟨_, s4, hinsert, htx⟩ := of_bind htx
    obtain ⟨hfresh, rfl⟩ := of_require hinsert
    cases htx
    have hnone := isNone_iff_eq_none.mp hfresh
    have hold := getQuotaUsage_of_get? hu
    refine ⟨⟨?_, ?_⟩, ?_⟩
    . intro t
      have hreserved := h.reserved t
      unfold QuotaState.activeSum QuotaState.reservedSum at hreserved ⊢
      rw [sumOn_set, hnone, ← hreserved]
      change (QuotaState.getQuotaUsage { s with usage := s.usage.set tenantID _ } t).reservedBytes = _
      rw [getQuotaUsage_set]
      by_cases ht : t = tenantID
      . subst ht
        simp [hold]
      . have hne : tenantID ≠ t := fun heq => ht heq.symm
        simp [ht, hne]
    . intro t u' r hr
      rcases of_get?_set hr with ⟨heq, rfl⟩ | ⟨_, hold⟩
      . cases heq
        rfl
      . exact h.rows t u' r hold
    . intro key r hr _
      rw [get?_set_ne]
      . exact hr
      . rintro rfl
        rw [hnone] at hr
        contradiction

end

theorem activeSum_settleAll (hp : ∀ t r, p t r = true → r.status = .active) (s : QuotaState) (t)
    : (s.settleAll p).activeSum t = s.activeSum t - s.reservedSum t (p t) := by
  unfold QuotaState.activeSum QuotaState.reservedSum QuotaState.settleAll
  rw [sumOn_mapValues, ← sumOn_sub]
  apply sumOn_congr
  intro key r _
  by_cases ht : key.1 = t
  . subst ht
    by_cases hr : p key.1 r = true
    . simp [hr, hp _ _ hr]
    . simp [hr]
  . simp [ht]

theorem Balances.of_settleAll (h : s.Balanced totalSize)
    (hp : ∀ t r, p t r = true → r.status = .active)
    {s1 : QuotaState} (hs' : s' = s1.settleAll p) (hreservations : s1.reservations = s.reservations)
    (hreserved : ∀ t, (s1.getQuotaUsage t).reservedBytes = (s.getQuotaUsage t).reservedBytes - s.reservedSum t (p t))
    : Balances totalSize s s' where
  balanced := by
    rw [hs']
    constructor
    . intro t
      rw [activeSum_settleAll hp]
      have hsum : s1.activeSum t = s.activeSum t
          ∧ s1.reservedSum t (p t) = s.reservedSum t (p t) := by
        unfold QuotaState.activeSum QuotaState.reservedSum
        rw [hreservations]
        exact ⟨rfl, rfl⟩
      rw [hsum.1, hsum.2, ← h.reserved t]
      exact hreserved t
    . intro t u r hr
      unfold QuotaState.settleAll at hr
      rw [get?_mapValues, hreservations] at hr
      obtain ⟨r0, hr0, rfl⟩ := map_eq_some_iff.mp hr
      rw [← h.rows t u r0 hr0]
      split
      . rfl
      . rfl
  kept := by
    intro key r hr hsettled
    rw [hs']
    unfold QuotaState.settleAll
    rw [get?_mapValues, hreservations, hr, map_some, if_neg]
    intro hpr
    exact hsettled (hp _ _ hpr)

theorem Balances.of_abortActive (h : s.Balanced totalSize)
    (htx : abortActiveUploadReservations tenantID s = .ok (a, s'))
    : Balances totalSize s s' := by
  obtain ⟨s0, s1, hget, htx⟩ := of_bind htx
  cases hget
  have hp : ∀ t r, (decide (t = tenantID) && decide (UploadReservation.status r = .active)) = true →
      r.status = .active := by
    intro t r hr
    simp at hr
    exact hr.2
  have hsum : ∀ t, s.reservedSum t (fun r => decide (t = tenantID) && decide (r.status = .active))
      = if t = tenantID then s.activeSum tenantID else 0 := by
    intro t
    split
    . next ht =>
      subst ht
      unfold QuotaState.activeSum
      simp
    . next ht =>
      apply sumOn_eq_zero
      intro key r _
      simp [ht]
  dsimp only at htx
  split at htx
  . obtain ⟨_, s2, hupdate, hsettle⟩ := of_bind htx
    obtain ⟨u, hu, rfl⟩ := of_updateUsageTx hupdate
    cases hsettle
    apply of_settleAll h hp (by rfl) (by rfl)
    intro t
    have hold := getQuotaUsage_of_get? hu
    have hreserved := h.reserved tenantID
    rw [hold] at hreserved
    unfold QuotaState.activeSum at hreserved
    rw [hsum t, getQuotaUsage_set]
    split
    . next ht =>
      -- the counter is the sum that is taken off, so the bound at zero is not reached
      unfold QuotaState.activeSum
      rw [ht, hold, hreserved]
      dsimp only
      omega
    . rw [Int.sub_zero]
  . next hzero =>
    cases htx
    apply of_settleAll h hp (by rfl) (by rfl)
    intro t
    rw [hsum t]
    unfold QuotaState.activeSum
    rw [Decidable.not_not.mp hzero]
    simp

theorem of_releaseExpiredTx (hnodup : tenants.Nodup)
    (htx : releaseExpiredTx now tenants s = .ok (a, s'))
    : s'.reservations = s.reservations
      ∧ (∀ t ∈ tenants, (s'.getQuotaUsage t).reservedBytes
          = (s.getQuotaUsage t).reservedBytes - s.reservedSum t (·.expired now))
      ∧ ∀ t, t ∉ tenants → (s'.getQuotaUsage t).reservedBytes
        = (s.getQuotaUsage t).reservedBytes := by
  induction tenants generalizing s with
  | nil =>
    cases htx
    exact ⟨rfl, fun t ht => absurd ht not_mem_nil, fun _ _ => rfl⟩
  | cons tenantID tenants ih =>
    rw [nodup_cons] at hnodup
    obtain ⟨s0, s1, hget, htx⟩ := of_bind htx
    cases hget
    obtain ⟨_, s2, hincr, htx⟩ := of_bind htx
    have hcharged := Charged.of_incrReservedBytesTx hincr
    obtain ⟨hreservations, hin, hout⟩ := ih hnodup.2 htx
    refine ⟨hreservations.trans hcharged.reservations, ?_, ?_⟩
    . intro t ht
      rcases mem_cons.mp ht with rfl | hlater
      . rw [hout t hnodup.1, hcharged.reserved, if_pos rfl]
        omega
      . have hne : t ≠ tenantID := by
          rintro rfl
          exact hnodup.1 hlater
        rw [hin t hlater, hcharged.reserved, if_neg hne, Int.add_zero]
        unfold QuotaState.reservedSum
        rw [hcharged.reservations]
    . intro t ht
      rw [mem_cons, not_or] at ht
      rw [hout t ht.2, hcharged.reserved, if_neg ht.1, Int.add_zero]

theorem Balances.of_expire (h : s.Balanced totalSize)
    (htx : expireActiveReservations now s = .ok (a, s'))
    : Balances totalSize s s' := by
  obtain ⟨s0, s1, hget, htx⟩ := of_bind htx
  cases hget
  obtain ⟨_, s2, hrelease, hsettle⟩ := of_bind htx
  cases hsettle
  obtain ⟨hreservations, hin, hout⟩ := of_releaseExpiredTx (List.nodup_dedup _) hrelease
  have hp : ∀ (t : TenantID) (r : UploadReservation), r.expired now = true
      → r.status = .active := by
    intro t r hr
    unfold UploadReservation.expired at hr
    simp at hr
    exact hr.1
  apply of_settleAll h hp (by rfl) hreservations
  intro t
  by_cases ht : t ∈ ((s.reservations.keys.filter fun key =>
      (s.reservations.get? key).any (·.expired now)).map Prod.fst).dedup
  . exact hin t ht
  . -- a tenant that is not listed has nothing that has expired
    rw [hout t ht]
    have hzero : s.reservedSum t (·.expired now) = 0 := by
      apply FMap.sumOn_eq_zero
      intro key r hr
      rw [if_neg]
      rintro ⟨rfl, hexpired⟩
      apply ht
      rw [List.mem_dedup]
      apply List.mem_map_of_mem
      rw [List.mem_filter, FMap.mem_keys, hr]
      exact ⟨rfl, hexpired⟩
    rw [hzero, Int.sub_zero]

end

namespace ReservationSystem

variable {J : Type} {codec : MutationCodec J} {totalSize : TenantID → UploadID → Int}

structure Ok (codec : MutationCodec J) (totalSize : TenantID → UploadID → Int)
    (s : ReservationSystem J) : Prop where
  quota : s.quota.Ok codec
  balanced : s.state.Balanced totalSize
  aborts : ∀ a call, s.aborts.get? a = some call
    → call.reservedBytes = totalSize call.tenantID call.uploadID
  log : ∀ (id : Nat) (e : MutationLogEntry J), s.quota.store.mutationLog[id]? = some e →
    ∃ m, e.Holds codec e.tenantID m
      ∧ ∀ data, m = .uploadComplete data → data.reservedBytes = totalSize e.tenantID data.uploadID

theorem ok_init : Ok codec totalSize (.init : ReservationSystem J) where
  quota := QuotaSystem.ok_init _
  balanced := by
    constructor
    . intro t
      rfl
    . intro t u r hr
      contradiction
  aborts := by
    intro a call hget
    contradiction
  log := by
    intro id e hget
    contradiction

variable {s s' : ReservationSystem J}

def Kept (s s' : ReservationSystem J) : Prop :=
  ∀ key r, s.state.reservations.get? key = some r → r.status ≠ .active → s'.state.reservations.get? key = some r

theorem Kept.refl (s : ReservationSystem J) : Kept s s := fun _ _ hr _ => hr

section

variable (h : Ok codec totalSize s)

include h

theorem Ok.setState {state : QuotaState} (hbalances : Balances totalSize s.state state)
    : Ok codec totalSize (s.setState state) ∧ Kept s (s.setState state) := by
  refine ⟨⟨⟨h.quota.inlines, h.quota.workers⟩, hbalances.balanced, h.aborts, h.log⟩, ?_⟩
  exact hbalances.kept

theorem Ok.runTx
    (hx : ∀ a state, x s.state = .ok (a, state) → Balances totalSize s.state state)
    : Ok codec totalSize (s.runTx x) ∧ Kept s (s.runTx x) := by
  unfold ReservationSystem.runTx
  cases hrun : x s.state with
  | error err => exact ⟨h, .refl s⟩
  | ok p => exact h.setState (hx p.1 p.2 hrun)

theorem Ok.delAbort (a : Nat) : Ok codec totalSize { s with aborts := s.aborts.del a } := by
  refine ⟨h.quota, h.balanced, ?_, h.log⟩
  intro a' call hget
  exact h.aborts a' call (of_get?_del hget).2

end

theorem runTx_aborts (s : ReservationSystem J) (x : QuotaTx Unit)
    : (s.runTx x).aborts = s.aborts := by
  unfold runTx
  split
  . rfl
  . rfl

section

variable (h : Ok codec totalSize s)

include h

theorem Ok.lookup (a : Nat) (tenantID : TenantID) (uploadID : UploadID)
    : Ok codec totalSize (s.lookup a tenantID uploadID)
      ∧ Kept s (s.lookup a tenantID uploadID) := by
  unfold ReservationSystem.lookup
  cases hget : s.state.reservations.get? (tenantID, uploadID) with
  | none => exact ⟨h, .refl s⟩
  | some r =>
    dsimp only
    split
    . exact ⟨h, .refl s⟩
    . refine ⟨⟨h.quota, h.balanced, ?_, h.log⟩, .refl s⟩
      exact forall_set h.aborts (h.balanced.rows tenantID uploadID r hget)

theorem Ok.quotaStep {quota : QuotaSystem J} (hstep : s.quota.step codec l = some quota)
    (hlog : ∀ r tenantID data now, l = .log r tenantID (.uploadComplete data) now →
      data.reservedBytes = totalSize tenantID data.uploadID)
    : Ok codec totalSize { s with quota := quota } ∧ Kept s { s with quota := quota } := by
  obtain ⟨hstore, hok⟩ := h.quota.step hstep
  have hentries : ∀ (id : Nat) (e : MutationLogEntry J), quota.store.mutationLog[id]? = some e →
      ∃ m, e.Holds codec e.tenantID m
        ∧ ∀ data, m = .uploadComplete data → data.reservedBytes = totalSize e.tenantID data.uploadID := by
    intro id e hget
    rcases h.quota.entry_of_step hstep hget with ⟨e0, he0, hsame⟩ | ⟨r, tenantID, m, now, rfl, hholds⟩
    . obtain ⟨m, hm, hsize⟩ := h.log id e0 he0
      rw [hsame.tenantID]
      exact ⟨m, hsame.holds hm, hsize⟩
    . rw [hholds.tenantID]
      refine ⟨m, hholds, ?_⟩
      rintro data rfl
      exact hlog r tenantID data now rfl
  have hbalances : Balances totalSize s.state quota.store.state := by
    cases hcommit : s.quota.commit? codec l with
    | none =>
      rw [hcommit] at hstore
      rw [hstore.state_eq]
      exact .of_eq h.balanced rfl fun _ => rfl
    | some p =>
      rw [hcommit] at hstore
      obtain ⟨e, hget, _, happly, _⟩ := StoreStep.of_commit hstore
      obtain ⟨m, hm, hsize⟩ := h.log _ e hget
      rw [applyMutation_of_holds hm] at happly
      exact .of_applied h.balanced hsize (.of_inlineTx happly)
  exact ⟨⟨hok, hbalances.balanced, h.aborts, hentries⟩, hbalances.kept⟩

theorem Ok.step {l : ReservationLabel} (hl : s.abortsActive l)
    (hstep : s.step codec totalSize l = some s')
    : Ok codec totalSize s' ∧ Kept s s' := by
  unfold ReservationSystem.step at hstep
  cases l with
  | ensureQuotaUsageRow tenantID =>
    cases hstep
    apply h.setState
    unfold QuotaState.ensureQuotaUsageRow
    split
    . exact .of_eq h.balanced rfl fun _ => rfl
    . next hnone =>
      refine .of_eq h.balanced rfl ?_
      intro t
      rw [getQuotaUsage_set]
      split
      . next ht =>
        rw [ht]
        unfold QuotaState.getQuotaUsage
        rw [not_isSome_iff_eq_none.mp hnone]
        rfl
      . rfl
  | setQuotaConfig tenantID maxStorageBytes =>
    cases hstep
    exact h.setState (.of_eq h.balanced rfl fun _ => rfl)
  | reserveUploadOnServer tenantID uploadID targetPath expiresAt =>
    cases hstep
    exact h.runTx fun a state htx => .of_reserve h.balanced htx
  | lookup a tenantID uploadID =>
    obtain ⟨_, rfl⟩ := Lts.of_guard hstep
    exact h.lookup a tenantID uploadID
  | abort a =>
    obtain ⟨call, hget, rfl⟩ := map_eq_some_iff.mp hstep
    unfold abortsActive at hl
    dsimp only at hl
    rw [hget, all_some] at hl
    obtain ⟨hok, hkept⟩ :=
      h.runTx fun u state htx => .of_abortTx h.balanced (h.aborts a call hget) hl htx
    have hdel := hok.delAbort a
    rw [runTx_aborts] at hdel
    exact ⟨hdel, hkept⟩
  | abortFail a =>
    obtain ⟨call, hget, rfl⟩ := map_eq_some_iff.mp hstep
    exact ⟨h.delAbort a, .refl s⟩
  | completeUploadReservation r tenantID uploadID fileID oldSizeBytes oldIsMedia newIsMedia now =>
    obtain ⟨quota, hquota, rfl⟩ := map_eq_some_iff.mp hstep
    apply h.quotaStep hquota
    intro r' tenantID' data now' heq
    cases heq
    rfl
  | expireActiveReservations now =>
    cases hstep
    exact h.runTx fun a state htx => .of_expire h.balanced htx
  | abortActiveUploadReservations tenantID =>
    cases hstep
    exact h.runTx fun a state htx => .of_abortActive h.balanced htx
  | quota l =>
    dsimp only at hstep
    split at hstep
    . contradiction
    . next hnot =>
      obtain ⟨quota, hquota, rfl⟩ := map_eq_some_iff.mp hstep
      apply h.quotaStep hquota
      rintro r tenantID data now rfl
      exact absurd rfl hnot

theorem Ok.run (hok : Lts.Along (ReservationSystem.step codec totalSize) abortsActive s labels)
    (hexec : Lts.exec (ReservationSystem.step codec totalSize) s labels = some s')
    : Ok codec totalSize s' ∧ Kept s s' := by
  induction labels generalizing s with
  | nil =>
    cases hexec
    exact ⟨h, .refl _⟩
  | cons l ls ih =>
    obtain ⟨s1, hstep, hexec1⟩ := Lts.of_exec_cons hexec
    obtain ⟨hl, hls⟩ := hok
    rw [hstep] at hls
    obtain ⟨h1, hkept1⟩ := h.step hl hstep
    obtain ⟨h', hkept'⟩ := ih h1 hls hexec1
    refine ⟨h', ?_⟩
    intro key r hr hsettled
    exact hkept' key r (hkept1 key r hr hsettled) hsettled

end

/--
In every run in which aborts find their reservations active, `reserved_bytes` of every tenant is the
sum over its active reservations, and a reservation that has left the active status keeps its row.
-/
theorem reserved_bytes_are_active_reservations (codec : MutationCodec J)
    (totalSize : TenantID → UploadID → Int)
    {before after : List ReservationLabel} {s1 s : ReservationSystem J}
    (hok : Lts.Along (step codec totalSize) abortsActive .init (before ++ after))
    (hbefore : Lts.exec (step codec totalSize) .init before = some s1)
    (hafter : Lts.exec (step codec totalSize) s1 after = some s)
    : (∀ t, (s.state.getQuotaUsage t).reservedBytes = s.state.reservedSum t (·.status = .active))
      ∧ ∀ key r, s1.state.reservations.get? key = some r → r.status ≠ .active →
          s.state.reservations.get? key = some r := by
  obtain ⟨hok1, hok2⟩ := Lts.along_append hok hbefore
  obtain ⟨h1, _⟩ := ok_init.run hok1 hbefore
  obtain ⟨h, hkept⟩ := h1.run hok2 hafter
  exact ⟨h.balanced.reserved, hkept⟩

def settledInTurn : List ReservationLabel :=
  [.ensureQuotaUsageRow ['t'], .reserveUploadOnServer ['t'] ['u'] ['/', 'a'] 9,
    .reserveUploadOnServer ['t'] ['v'] ['/', 'b'] 9, .reserveUploadOnServer ['t'] ['w'] ['/', 'c'] 1,
    .lookup 0 ['t'] ['u'], .completeUploadReservation 0 ['t'] ['v'] ['f'] 0 false false 0, .quota (.inlineFail 0),
    .abort 0]

def settledLater : List ReservationLabel :=
  [.quota (.list 0 9), .quota (.replay 0 1), .expireActiveReservations 5]

theorem reserved_bytes_are_active_reservations_settled
    : ∃ s1 s, Lts.exec (step plainCodec fun _ _ => 5) .init settledInTurn = some s1
      ∧ Lts.exec (step plainCodec fun _ _ => 5) s1 settledLater = some s
      ∧ (s1.state.getQuotaUsage ['t']).reservedBytes = 10
      ∧ (s.state.getQuotaUsage ['t']).reservedBytes = 0
      ∧ (s.state.getQuotaUsage ['t']).reservedBytes = s.state.reservedSum ['t'] (·.status = .active)
      ∧ s.state.reservations.get? (['t'], ['u']) = some ⟨5, ['/', 'a'], .aborted, 9⟩ := by
  have hok : Lts.Along (step plainCodec fun _ _ => 5) abortsActive .init (settledInTurn ++ settledLater) := by
    decide +kernel
  apply Lts.exists₂_of_any (fun s1 s => (s1.state.getQuotaUsage ['t']).reservedBytes = 10
    ∧ s1.state.reservations.get? (['t'], ['u']) = some ⟨5, ['/', 'a'], .aborted, 9⟩
    ∧ (s.state.getQuotaUsage ['t']).reservedBytes = 0) (by decide +kernel)
  intro s1 s hexec1 hexec ⟨hten, haborted, hzero⟩
  obtain ⟨hreserved, hkept⟩ :=
    reserved_bytes_are_active_reservations plainCodec (fun _ _ => 5) hok hexec1 hexec
  have hnot : ReservationStatus.aborted ≠ .active := by decide
  exact ⟨hten, hzero, hreserved ['t'], hkept _ _ haborted hnot⟩

def abortedTwice : List ReservationLabel :=
  [.ensureQuotaUsageRow ['t'], .reserveUploadOnServer ['t'] ['u'] ['/', 'a'] 9, .lookup 0 ['t'] ['u'],
    .lookup 1 ['t'] ['u'], .abort 0, .abort 1]

theorem racing_aborts_release_twice
    : ∃ s : ReservationSystem PlainData, Lts.exec (step plainCodec fun _ _ => 5) .init abortedTwice = some s
      ∧ (s.state.getQuotaUsage ['t']).reservedBytes = -5
      ∧ s.state.reservedSum ['t'] (·.status = .active) = 0 := by
  exact Lts.exists_of_any _ (by decide +kernel) fun _ _ h => h

end ReservationSystem

end Quota
