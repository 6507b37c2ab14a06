import Drive9.Backend.Quota.Impl

/-!
This module contains what the steps of requests and replay workers can do to the server database.
-/

open List Option

namespace Quota

variable {J : Type} {codec : MutationCodec J}

structure MutationLogEntry.Holds (codec : MutationCodec J) (e : MutationLogEntry J)
    (tenantID : TenantID) (m : Mutation)
    : Prop where
  tenantID : e.tenantID = tenantID
  mutationType : e.mutationType = m.mutationType
  mutationData : e.mutationData = m.marshal codec

variable {tenantID : TenantID} {m : Mutation}

theorem applyMutation_of_holds (h : e.Holds codec tenantID m) (month)
    : applyMutation codec month e = inlineTx tenantID month m := by
  unfold applyMutation
  rw [h.mutationType, h.mutationData, h.tenantID]
  cases m with
  | fileCreate data | fileOverwrite data | uploadComplete data | llmCostRecord data =>
    dsimp only [Mutation.mutationType, Mutation.marshal, unmarshalTx]
    rw [Codec.unmarshal_marshal]
    rfl

structure SameEntry (e e' : MutationLogEntry J) : Prop where
  tenantID : e'.tenantID = e.tenantID
  mutationType : e'.mutationType = e.mutationType
  mutationData : e'.mutationData = e.mutationData

namespace SameEntry

variable {e e' e'' : MutationLogEntry J}

theorem refl (e : MutationLogEntry J) : SameEntry e e := ⟨rfl, rfl, rfl⟩

theorem trans (h : SameEntry e e') (h' : SameEntry e' e'') : SameEntry e e'' :=
  ⟨h'.tenantID.trans h.tenantID, h'.mutationType.trans h.mutationType, h'.mutationData.trans h.mutationData⟩

theorem applyMutation (h : SameEntry e e') (month)
    : applyMutation codec month e' = applyMutation codec month e := by
  unfold Quota.applyMutation
  rw [h.tenantID, h.mutationType, h.mutationData]

theorem holds (h : SameEntry e e') (hm : e.Holds codec tenantID m) : e'.Holds codec tenantID m :=
  ⟨h.tenantID.trans hm.tenantID, h.mutationType.trans hm.mutationType, h.mutationData.trans hm.mutationData⟩

end SameEntry

inductive StoreStep (codec : MutationCodec J)
    (s : QuotaStore J) : Option (Nat × Int) → QuotaStore J → Prop where
  | same : StoreStep codec s none s
  | logged (tenantID : TenantID) (m : Mutation) (now : Int)
      : StoreStep codec s none (s.insertMutationLog tenantID m.mutationType (m.marshal codec) now)
  | retried (id : Nat) (maxRetries : Int) : StoreStep codec s none (s.incrMutationRetry id maxRetries)
  | committed {id : Nat} {month : Int} {e : MutationLogEntry J} {state : QuotaState}
      (hget : s.mutationLog[id]? = some e) (hpending : e.status = .pending)
      (happly : applyMutation codec month e s.state = .ok ((), state))
      : StoreStep codec s (some (id, month)) ({ s with state := state }.setStatus id .applied)

variable {id r : Nat}

theorem getElem?_modify_same {log : List (MutationLogEntry J)} {id' : Nat}
    (hf : ∀ e, SameEntry e (f e)) (h : log[id']? = some e)
    : ∃ e', (log.modify id f)[id']? = some e' ∧ SameEntry e e' := by
  rw [List.getElem?_modify, h]
  dsimp only [Option.map_eq_map, Option.map_some]
  split
  . exact ⟨f e, rfl, hf e⟩
  . exact ⟨e, rfl, .refl e⟩

theorem incrMutationRetry_same (maxRetries : Int) (e : MutationLogEntry J)
    : SameEntry e (if e.status = .pending then
        { e with
          retryCount := e.retryCount + 1
          status := if e.retryCount + 1 ≥ maxRetries then .failed else .pending }
      else e) := by
  split
  . exact ⟨rfl, rfl, rfl⟩
  . exact .refl e

namespace StoreStep

variable {s s' : QuotaStore J} {commit : Option (Nat × Int)}

theorem same_entry (h : StoreStep codec s commit s') (hget : s.mutationLog[id]? = some e)
    : ∃ e', s'.mutationLog[id]? = some e' ∧ SameEntry e e' := by
  cases h with
  | same => exact ⟨e, hget, .refl e⟩
  | logged tenantID m now =>
    refine ⟨e, ?_, .refl e⟩
    obtain ⟨hlt, _⟩ := List.getElem?_eq_some_iff.mp hget
    rw [← hget]
    exact List.getElem?_append_left hlt
  | retried id' maxRetries => exact getElem?_modify_same (incrMutationRetry_same maxRetries) hget
  | committed _ _ _ =>
    apply getElem?_modify_same _ hget
    intro e
    exact ⟨rfl, rfl, rfl⟩

theorem of_commit (h : StoreStep codec s (some (id, month)) s')
    : ∃ e, s.mutationLog[id]? = some e ∧ e.status = .pending
      ∧ applyMutation codec month e s.state = .ok ((), s'.state)
      ∧ s' = { s with state := s'.state }.setStatus id .applied := by
  cases h with
  | committed hget hpending happly => exact ⟨_, hget, hpending, happly, rfl⟩

theorem state_eq (h : StoreStep codec s none s') : s'.state = s.state := by
  cases h with
  | same | logged | retried => rfl

end StoreStep

theorem QuotaStore.of_applied {s s' : QuotaStore J} (h : s.applied id x = .ok s')
    : ∃ e state, s.mutationLog[id]? = some e ∧ e.status = .pending ∧ x s.state = .ok ((), state)
      ∧ s' = { s with state := state }.setStatus id .applied := by
  unfold QuotaStore.applied at h
  cases hx : x s.state with
  | error err =>
    rw [hx] at h
    contradiction
  | ok p =>
    rw [hx] at h
    dsimp only at h
    split at h
    . next hpending =>
      cases h
      obtain ⟨e, hget, hstatus⟩ := (any_eq_true _ _).mp hpending
      exact ⟨e, p.2, hget, of_decide_eq_true hstatus, rfl, rfl⟩
    . contradiction

theorem QuotaStore.mem_listPendingMutations {s : QuotaStore J}
    (h : e ∈ s.listPendingMutations cutoff limit)
    : s.mutationLog[e.1]? = some e.2 := by
  have hmem := mem_of_mem_take h
  rw [mem_insertionSort] at hmem
  obtain ⟨hzip, _⟩ := mem_filter.mp hmem
  obtain ⟨p, hp, rfl⟩ := mem_map.mp hzip
  exact mem_zipIdx_iff_getElem?.mp hp

theorem Worker.mem_dropSkipped {w : Worker J} (h : e ∈ w.dropSkipped) : e ∈ w.entries :=
  (dropWhile_sublist _).subset (mem_of_mem_tail h)

theorem Worker.mem_of_next? {w : Worker J} (h : w.next? = some e) : e ∈ w.entries := by
  unfold Worker.next? at h
  split at h
  . contradiction
  . exact mem_of_find?_eq_some h

namespace QuotaSystem

def commit? (codec : MutationCodec J) (s : QuotaSystem J) (l : QuotaLabel) : Option (Nat × Int) :=
  match l with
  | .inline r month =>
    (s.inlines.get? r).bind fun i =>
      match s.store.applied i.id (inlineTx i.tenantID month i.mutation) with
      | .error _ => none
      | .ok _ => some (i.id, month)
  | .replay w month =>
    (s.worker w).next?.bind fun e =>
      match s.store.applied e.1 (applyMutation codec month e.2) with
      | .error _ => none
      | .ok _ => some (e.1, month)
  | _ => none

structure Ok (codec : MutationCodec J) (s : QuotaSystem J) : Prop where
  inlines : ∀ r i, s.inlines.get? r = some i → ∃ e, s.store.mutationLog[i.id]? = some e
    ∧ e.Holds codec i.tenantID i.mutation
  workers : ∀ w, ∀ e ∈ (s.worker w).entries, ∃ e', s.store.mutationLog[e.1]? = some e'
    ∧ SameEntry e.2 e'

theorem ok_init (store) : Ok codec (.init store) where
  inlines := by
    intro r i h
    contradiction
  workers := by
    intro w e he
    contradiction

theorem worker_setWorker (s : QuotaSystem J) (w w') (wk)
    : (s.setWorker w wk).worker w' = if w' = w then wk else s.worker w' := by
  unfold worker setWorker
  rw [FMap.get?_set]
  split
  . rfl
  . rfl

variable {s s' : QuotaSystem J}

theorem Ok.next (h : Ok codec s) (hstep : StoreStep codec s.store commit s'.store)
    (hinlines : ∀ r i, s'.inlines.get? r = some i → s.inlines.get? r = some i)
    (hworkers : ∀ w, ∀ e ∈ (s'.worker w).entries, e ∈ (s.worker w).entries)
    : Ok codec s' where
  inlines := by
    intro r i hget
    obtain ⟨e, he, hholds⟩ := h.inlines r i (hinlines r i hget)
    obtain ⟨e', he', hsame⟩ := hstep.same_entry he
    exact ⟨e', he', hsame.holds hholds⟩
  workers := by
    intro w e hmem
    obtain ⟨e1, he1, hsame1⟩ := h.workers w e (hworkers w e hmem)
    obtain ⟨e', he', hsame⟩ := hstep.same_entry he1
    exact ⟨e', he', hsame1.trans hsame⟩

theorem entries_of_setWorker (h : ∀ e ∈ wk.entries, e ∈ (s.worker w).entries)
    : ∀ e ∈ ((s.setWorker w wk).worker w').entries, e ∈ (s.worker w').entries := by
  intro e he
  rw [worker_setWorker] at he
  split at he
  . next heq =>
    rw [heq]
    exact h e he
  . exact he

theorem Ok.logMutation (h : Ok codec s) (hstep : s.logMutation codec r tenantID m now = some s')
    : StoreStep codec s.store none s'.store ∧ Ok codec s' := by
  unfold QuotaSystem.logMutation at hstep
  obtain ⟨_, rfl⟩ := Lts.of_guard hstep
  have hstore : StoreStep codec s.store none
      (s.store.insertMutationLog tenantID m.mutationType (m.marshal codec) now) :=
    .logged tenantID m now
  refine ⟨hstore, ?_, ?_⟩
  . intro r' i hget
    rcases FMap.of_get?_set hget with ⟨rfl, rfl⟩ | ⟨_, hold⟩
    . refine ⟨_, getElem?_concat_length, ?_⟩
      exact ⟨rfl, rfl, rfl⟩
    . obtain ⟨e, he, hholds⟩ := h.inlines r' i hold
      obtain ⟨e', he', hsame⟩ := hstore.same_entry he
      exact ⟨e', he', hsame.holds hholds⟩
  . intro w e hmem
    obtain ⟨e1, he1, hsame1⟩ := h.workers w e hmem
    obtain ⟨e', he', hsame⟩ := hstore.same_entry he1
    exact ⟨e', he', hsame1.trans hsame⟩

theorem Ok.inline (h : Ok codec s) (hget : s.inlines.get? r = some i) (month)
    : StoreStep codec s.store (s.commit? codec (.inline r month)) (s.runInline r i month).store
      ∧ Ok codec (s.runInline r i month) := by
  unfold QuotaSystem.commit? QuotaSystem.runInline
  dsimp only
  rw [hget, bind_some]
  cases happlied : s.store.applied i.id (inlineTx i.tenantID month i.mutation) with
  | error err =>
    exact ⟨.same, h.next .same (fun _ _ hold => (FMap.of_get?_del hold).2) (fun _ _ he => he)⟩
  | ok store =>
    obtain ⟨e, state, hlog, hpending, hx, rfl⟩ := QuotaStore.of_applied happlied
    obtain ⟨e', he', hholds⟩ := h.inlines r i hget
    rw [hlog] at he'
    cases he'
    have hstore : StoreStep codec s.store (some (i.id, month))
        ({ s.store with state := state }.setStatus i.id .applied) := by
      apply StoreStep.committed hlog hpending
      rw [applyMutation_of_holds hholds]
      exact hx
    exact ⟨hstore, h.next hstore (fun _ _ hold => (FMap.of_get?_del hold).2) (fun _ _ he => he)⟩

theorem Ok.replay (h : Ok codec s) {w : Nat} (hnext : (s.worker w).next? = some e) (month)
    : StoreStep codec s.store (s.commit? codec (.replay w month)) (s.replayOne codec w e month).store
      ∧ Ok codec (s.replayOne codec w e month) := by
  unfold QuotaSystem.commit? QuotaSystem.replayOne
  dsimp only
  rw [hnext, bind_some]
  cases happlied : s.store.applied e.1 (applyMutation codec month e.2) with
  | error err =>
    refine ⟨.same, h.next .same (fun _ _ hi => hi) (fun w' => ?_)⟩
    exact entries_of_setWorker fun _ he => Worker.mem_dropSkipped he
  | ok store =>
    obtain ⟨e1, state, hlog, hpending, hx, rfl⟩ := QuotaStore.of_applied happlied
    obtain ⟨e', he', hsame⟩ := h.workers w e (Worker.mem_of_next? hnext)
    rw [hlog] at he'
    cases he'
    have hstore : StoreStep codec s.store (some (e.1, month))
        ({ s.store with state := state }.setStatus e.1 .applied) := by
      apply StoreStep.committed hlog hpending
      rw [hsame.applyMutation]
      exact hx
    refine ⟨hstore, h.next hstore (fun _ _ hi => hi) (fun w' => ?_)⟩
    exact entries_of_setWorker fun _ he => Worker.mem_dropSkipped he

theorem Ok.list (h : Ok codec s) (w : Nat) (cutoff : Int) (limit : Nat)
    : Ok codec (s.setWorker w ⟨s.store.listPendingMutations cutoff limit, [], none⟩) where
  inlines := h.inlines
  workers := by
    intro w' e he
    rw [worker_setWorker] at he
    split at he
    . exact ⟨e.2, QuotaStore.mem_listPendingMutations he, .refl e.2⟩
    . exact h.workers w' e he

variable {l : QuotaLabel}

theorem Ok.step (h : Ok codec s) (hstep : s.step codec l = some s')
    : StoreStep codec s.store (s.commit? codec l) s'.store ∧ Ok codec s' := by
  unfold QuotaSystem.step at hstep
  cases l with
  | log r tenantID m now => exact h.logMutation hstep
  | inline r month =>
    obtain ⟨i, hget, rfl⟩ := map_eq_some_iff.mp hstep
    exact h.inline hget month
  | inlineFail r =>
    obtain ⟨i, hget, rfl⟩ := map_eq_some_iff.mp hstep
    exact ⟨.same, h.next .same (fun _ _ hold => (FMap.of_get?_del hold).2) (fun _ _ he => he)⟩
  | list w now =>
    obtain ⟨_, rfl⟩ := Lts.of_guard hstep
    exact ⟨.same, h.list w _ _⟩
  | replay w month =>
    obtain ⟨e, hnext, rfl⟩ := map_eq_some_iff.mp hstep
    exact h.replay hnext month
  | replayFail w =>
    obtain ⟨e, hnext, rfl⟩ := map_eq_some_iff.mp hstep
    refine ⟨.same, h.next .same (fun _ _ hi => hi) (fun w' => ?_)⟩
    exact entries_of_setWorker fun _ he => Worker.mem_dropSkipped he
  | retry w =>
    obtain ⟨id, hid, rfl⟩ := map_eq_some_iff.mp hstep
    have hstore : StoreStep codec s.store none (s.store.incrMutationRetry id replayMaxRetries) :=
      .retried id replayMaxRetries
    refine ⟨hstore, h.next hstore (fun _ _ hi => hi) (fun w' => ?_)⟩
    exact entries_of_setWorker fun _ he => he
  | retryFail w =>
    obtain ⟨id, hid, rfl⟩ := map_eq_some_iff.mp hstep
    refine ⟨.same, h.next .same (fun _ _ hi => hi) (fun w' => ?_)⟩
    exact entries_of_setWorker fun _ he => he
  | incrRetry id maxRetries =>
    cases hstep
    have hstore : StoreStep codec s.store none (s.store.incrMutationRetry id maxRetries) :=
      .retried id maxRetries
    exact ⟨hstore, h.next hstore (fun _ _ hi => hi) (fun _ _ he => he)⟩

theorem length_step (hstep : s.step codec l = some s')
    (hl : ∀ r tenantID m now, l ≠ .log r tenantID m now)
    : s'.store.mutationLog.length = s.store.mutationLog.length := by
  unfold QuotaSystem.step at hstep
  cases l with
  | log r tenantID m now => exact absurd rfl (hl r tenantID m now)
  | inline r month =>
    obtain ⟨i, _, rfl⟩ := map_eq_some_iff.mp hstep
    unfold runInline
    cases happlied : s.store.applied i.id (inlineTx i.tenantID month i.mutation) with
    | error err => rfl
    | ok store =>
      obtain ⟨_, state, _, _, _, rfl⟩ := QuotaStore.of_applied happlied
      exact length_modify ..
  | inlineFail r =>
    obtain ⟨i, _, rfl⟩ := map_eq_some_iff.mp hstep
    rfl
  | list w now =>
    obtain ⟨_, rfl⟩ := Lts.of_guard hstep
    rfl
  | replay w month =>
    obtain ⟨e, _, rfl⟩ := map_eq_some_iff.mp hstep
    unfold replayOne
    cases happlied : s.store.applied e.1 (applyMutation codec month e.2) with
    | error err => rfl
    | ok store =>
      obtain ⟨_, state, _, _, _, rfl⟩ := QuotaStore.of_applied happlied
      exact length_modify ..
  | replayFail w =>
    obtain ⟨e, _, rfl⟩ := map_eq_some_iff.mp hstep
    rfl
  | retry w =>
    obtain ⟨id, _, rfl⟩ := map_eq_some_iff.mp hstep
    exact length_modify ..
  | retryFail w =>
    obtain ⟨id, _, rfl⟩ := map_eq_some_iff.mp hstep
    rfl
  | incrRetry id maxRetries =>
    cases hstep
    exact length_modify ..

theorem Ok.entry_of_step (h : Ok codec s) (hstep : s.step codec l = some s')
    (hget : s'.store.mutationLog[id]? = some e')
    : (∃ e, s.store.mutationLog[id]? = some e ∧ SameEntry e e')
      ∨ ∃ r tenantID m now, l = .log r tenantID m now ∧ e'.Holds codec tenantID m := by
  obtain ⟨hstore, _⟩ := h.step hstep
  cases hold : s.store.mutationLog[id]? with
  | some e =>
    obtain ⟨e1, he1, hsame⟩ := hstore.same_entry hold
    rw [hget] at he1
    cases he1
    exact .inl ⟨e, rfl, hsame⟩
  | none =>
    right
    have hlt := (List.getElem?_eq_some_iff.mp hget).1
    have hge := List.getElem?_eq_none_iff.mp hold
    by_cases hl : ∀ r tenantID m now, l ≠ .log r tenantID m now
    . rw [length_step hstep hl] at hlt
      omega
    . simp only [ne_eq, Classical.not_forall, Decidable.not_not] at hl
      obtain ⟨r, tenantID, m, now, rfl⟩ := hl
      refine ⟨r, tenantID, m, now, rfl, ?_⟩
      unfold QuotaSystem.step QuotaSystem.logMutation at hstep
      obtain ⟨_, rfl⟩ := Lts.of_guard hstep
      unfold QuotaStore.insertMutationLog at hget
      rw [List.getElem?_append_right hge, List.getElem?_singleton] at hget
      split at hget
      . cases hget
        exact ⟨rfl, rfl, rfl⟩
      . contradiction

end QuotaSystem

end Quota
