import Drive9.Backend.Quota.Lemmas

/-!
This module contains that every entry of the mutation log takes effect at most once, whoever applies
it.
-/

open List

namespace Quota

variable {J : Type} {codec : MutationCodec J}

namespace QuotaSystem

def commits (codec : MutationCodec J) (s : QuotaSystem J) (labels : List QuotaLabel)
    : List (Nat × Int) :=
  match labels with
  | [] => []
  | l :: ls =>
    match s.step codec l with
    | none => []
    | some s' => (s.commit? codec l).toList ++ commits codec s' ls

end QuotaSystem

def applyEntries (codec : MutationCodec J) (log : List (MutationLogEntry J))
    (entries : List (Nat × Int))
    (state : QuotaState) : Except QuotaError QuotaState :=
  match entries with
  | [] => .ok state
  | (id, month) :: rest =>
    match log[id]? with
    | none => .error .notPending
    | some e =>
      match applyMutation codec month e state with
      | .error err => .error err
      | .ok (_, state) => applyEntries codec log rest state

def QuotaStore.isApplied (s : QuotaStore J) (id : Nat) : Bool :=
  (s.mutationLog[id]?).any (·.status = .applied)

def QuotaStore.isFailed (s : QuotaStore J) (id : Nat) : Bool :=
  (s.mutationLog[id]?).any (·.status = .failed)

variable {id : Nat}

theorem any_status_modify {log : List (MutationLogEntry J)} {id' : Nat}
    : ((log.modify id f)[id']?).any (·.status = status)
      = (log[id']?).any fun e => if id = id' then (f e).status = status else e.status = status := by
  rw [getElem?_modify]
  cases log[id']? with
  | none => rfl
  | some e =>
    dsimp only [Option.map_eq_map, Option.map_some, Option.any_some]
    split
    . rfl
    . rfl

namespace StoreStep

variable {s s' : QuotaStore J} {commit : Option (Nat × Int)}

theorem isApplied_iff (h : StoreStep codec s commit s') (id)
    : s'.isApplied id = true ↔ s.isApplied id = true ∨ commit.any (·.1 = id) = true := by
  unfold QuotaStore.isApplied
  cases h with
  | same => simp
  | logged tenantID m now =>
    unfold QuotaStore.insertMutationLog
    rw [getElem?_append]
    split
    . simp
    . next hge =>
      rw [getElem?_eq_none (Nat.le_of_not_lt hge)]
      cases id - s.mutationLog.length with
      | zero | succ n => simp
  | retried id' maxRetries =>
    unfold QuotaStore.incrMutationRetry
    rw [any_status_modify]
    cases s.mutationLog[id]? with
    | none => simp
    | some e =>
      simp only [Option.any_some, decide_eq_true_eq, Option.any_none, Bool.false_eq_true, or_false]
      split
      . split
        . next hpending =>
          rw [hpending]
          split
          all_goals simp
        . simp
      . simp
  | @committed id' month e state hget hpending happly =>
    unfold QuotaStore.setStatus
    rw [any_status_modify]
    by_cases heq : id' = id
    . subst heq
      rw [hget]
      simp
    . cases s.mutationLog[id]? with
      | none | some e' => simp [heq]

theorem isFailed_mono (h : StoreStep codec s commit s') (hfailed : s.isFailed id = true)
    : s'.isFailed id = true := by
  unfold QuotaStore.isFailed at hfailed ⊢
  obtain ⟨e, he, hstatus⟩ := (Option.any_eq_true _ _).mp hfailed
  have hstatus := of_decide_eq_true hstatus
  cases h with
  | same => exact hfailed
  | logged tenantID m now =>
    obtain ⟨hlt, _⟩ := List.getElem?_eq_some_iff.mp he
    unfold QuotaStore.insertMutationLog
    rw [List.getElem?_append_left hlt]
    exact hfailed
  | retried id' maxRetries =>
    unfold QuotaStore.incrMutationRetry
    rw [any_status_modify, he]
    simp [hstatus]
  | @committed id' month e' state hget hpending happly =>
    unfold QuotaStore.setStatus
    rw [any_status_modify, he]
    by_cases heq : id' = id
    . subst heq
      rw [hget] at he
      cases he
      rw [hpending] at hstatus
      contradiction
    . simp [heq, hstatus]

theorem not_applied_of_commit (h : StoreStep codec s (some (id, month)) s')
    : s.isApplied id = false ∧ s.isFailed id = false := by
  cases h with
  | committed hget hpending happly =>
    unfold QuotaStore.isApplied QuotaStore.isFailed
    rw [hget]
    simp [hpending]

end StoreStep

structure Ran (codec : MutationCodec J) (s s' : QuotaStore J)
    (commits : List (Nat × Int)) : Prop where
  same : ∀ (id : Nat) (e : MutationLogEntry J), s.mutationLog[id]? = some e →
    ∃ e', s'.mutationLog[id]? = some e' ∧ SameEntry e e'
  nodup : (commits.map Prod.fst).Nodup
  applied : ∀ id, s'.isApplied id = true ↔ s.isApplied id = true ∨ id ∈ commits.map Prod.fst
  fresh : ∀ id ∈ commits.map Prod.fst, s.isApplied id = false ∧ s.isFailed id = false
  failed : ∀ id, s.isFailed id = true → s'.isFailed id = true
  state : applyEntries codec s'.mutationLog commits s.state = .ok s'.state

namespace Ran

variable {s s1 s' : QuotaStore J}

theorem refl (s) : Ran codec s s [] where
  same := fun _ e h => ⟨e, h, .refl e⟩
  nodup := .nil
  applied := by simp
  fresh := by simp
  failed := fun _ h => h
  state := rfl

theorem cons (hstep : StoreStep codec s commit s1) (h : Ran codec s1 s' commits)
    : Ran codec s s' (commit.toList ++ commits) where
  same := by
    intro id e he
    obtain ⟨e1, he1, hsame1⟩ := hstep.same_entry he
    obtain ⟨e', he', hsame⟩ := h.same id e1 he1
    exact ⟨e', he', hsame1.trans hsame⟩
  nodup := by
    cases commit with
    | none => exact h.nodup
    | some p =>
      rw [Option.toList_some, singleton_append, map_cons, nodup_cons]
      refine ⟨?_, h.nodup⟩
      intro hmem
      have happlied := (hstep.isApplied_iff p.1).mpr (.inr (by simp))
      rw [(h.fresh p.1 hmem).1] at happlied
      contradiction
  applied := by
    intro id
    rw [h.applied id, hstep.isApplied_iff id, map_append, mem_append, or_assoc]
    cases commit with
    | none => simp
    | some p =>
      simp only [Option.any_some, decide_eq_true_eq, Option.toList_some, map_singleton,
        mem_singleton]
      rw [@eq_comm _ p.1 id]
  fresh := by
    intro id hmem
    rw [map_append, mem_append] at hmem
    rcases hmem with hfirst | hlater
    . cases commit with
      | none => contradiction
      | some p =>
        rw [Option.toList_some, map_singleton, mem_singleton] at hfirst
        rw [hfirst]
        exact StoreStep.not_applied_of_commit hstep
    . obtain ⟨hnot, hnotfailed⟩ := h.fresh id hlater
      rw [← Bool.not_eq_true] at hnot hnotfailed ⊢
      rw [← Bool.not_eq_true]
      exact ⟨fun ha => hnot ((hstep.isApplied_iff id).mpr (.inl ha)),
        fun hf => hnotfailed (hstep.isFailed_mono hf)⟩
  failed := fun id hf => h.failed id (hstep.isFailed_mono hf)
  state := by
    cases hstep with
    | same | logged | retried => exact h.state
    | @committed id month e state hget hpending happly =>
      -- the entry that is applied first is still in the log at the end
      obtain ⟨e1, he1, hsame1⟩ :=
        (StoreStep.committed hget hpending happly : StoreStep codec s (some (id, month)) _).same_entry hget
      obtain ⟨e', he', hsame⟩ := h.same id e1 he1
      rw [Option.toList_some, singleton_append, applyEntries, he']
      dsimp only
      rw [(hsame1.trans hsame).applyMutation, happly]
      exact h.state

end Ran

namespace QuotaSystem

theorem Ok.ran (h : Ok codec s) (hexec : Lts.exec (QuotaSystem.step codec) s labels = some s')
    : Ran codec s.store s'.store (commits codec s labels) := by
  induction labels generalizing s with
  | nil =>
    cases hexec
    exact .refl _
  | cons l ls ih =>
    obtain ⟨s1, hstep, hexec1⟩ := Lts.of_exec_cons hexec
    obtain ⟨hstore, hok⟩ := h.step hstep
    rw [commits, hstep]
    exact .cons hstore (ih hok hexec1)

-- The month is that of the clock when the cost is added.
theorem inlineTx_eq_iff (tenantID month month') (m : Mutation)
    : (∀ state, inlineTx tenantID month' m state = inlineTx tenantID month m state)
        ↔
      month' = month ∨ m.mutationType ≠ .llmCostRecord := by
  cases m with
  | fileCreate data | fileOverwrite data | uploadComplete data =>
    exact ⟨fun _ => .inr (by simp [Mutation.mutationType]), fun _ _ => rfl⟩
  | llmCostRecord data =>
    constructor
    . intro h
      left
      by_contra hne
      have hrows := congrArg (fun r => r.toOption.map fun r => r.2.monthlyLLMCost.get? (tenantID, month')) (h .empty)
      change some ((FMap.empty.set (tenantID, month') _).get? _)
        = some ((FMap.empty.set (tenantID, month) _).get? _) at hrows
      rw [FMap.get?_set_self, FMap.get?_set, if_neg (by simp [hne]), FMap.get?_empty] at hrows
      cases hrows
    . rintro (rfl | hother)
      . exact fun _ => rfl
      . exact absurd rfl hother

/--
The effect of every log entry is committed at most once in any interleaving, an entry is marked
applied exactly if it was, and one that failed had no effect; the tables are what the committed
effects make of them. Inline and replay do the same with a mutation just if they run in one month or
no cost is recorded.
-/
theorem mutations_take_effect_once (codec : MutationCodec J) (store : QuotaStore J)
    {labels : List QuotaLabel}
    {s : QuotaSystem J} (hexec : Lts.exec (step codec) (.init store) labels = some s)
    : ((commits codec (.init store) labels).map Prod.fst).Nodup
      ∧ (∀ id, store.isApplied id = false →
          (s.store.isApplied id = true ↔ id ∈ (commits codec (.init store) labels).map Prod.fst))
      ∧ (∀ id, s.store.isFailed id = true → id ∉ (commits codec (.init store) labels).map Prod.fst)
      ∧ applyEntries codec s.store.mutationLog (commits codec (.init store) labels) store.state
        = .ok s.store.state
      ∧ ∀ tenantID m month month' status retryCount createdAt,
          (∀ state,
            applyMutation codec month' ⟨tenantID, m.mutationType, m.marshal codec, status, retryCount, createdAt⟩ state
              = inlineTx tenantID month m state)
            ↔
          month' = month ∨ m.mutationType ≠ .llmCostRecord := by
  have hran := (ok_init store).ran hexec
  refine ⟨hran.nodup, ?_, ?_, hran.state, ?_⟩
  . intro id hnot
    have happlied := hran.applied id
    change s.store.isApplied id = true ↔ store.isApplied id = true ∨ _ at happlied
    rw [happlied, hnot]
    simp
  . intro id hfailed hmem
    have happlied := (hran.applied id).mpr (.inr hmem)
    unfold QuotaStore.isApplied at happlied
    obtain ⟨e, he, hstatus⟩ := (Option.any_eq_true _ _).mp hfailed
    rw [he, Option.any_some, of_decide_eq_true hstatus] at happlied
    contradiction
  . intro tenantID m month month' status retryCount createdAt
    rw [applyMutation_of_holds ⟨rfl, rfl, rfl⟩]
    exact inlineTx_eq_iff tenantID month month' m

def raced : List QuotaLabel :=
  [.log 0 ['t'] (.fileCreate ⟨['f'], 5, true⟩) 0, .list 0 9, .inline 0 1, .replay 0 1, .retry 0]

theorem mutations_take_effect_once_raced
    : ∃ s, Lts.exec (step plainCodec) (.init ⟨QuotaState.empty.ensureQuotaUsageRow ['t'], []⟩) raced = some s
      ∧ s.store.isApplied 0 = true
      ∧ s.store.state.getQuotaUsage ['t'] = ⟨5, 0, 1⟩
      ∧ 0 ∈ (commits plainCodec (.init ⟨QuotaState.empty.ensureQuotaUsageRow ['t'], []⟩) raced).map Prod.fst := by
  refine Lts.exists_of_any (fun s => _ ∧ _) (by decide +kernel)
    fun s hexec ⟨happlied, husage⟩ => ⟨happlied, husage, ?_⟩
  obtain ⟨_, hiff, _⟩ := mutations_take_effect_once plainCodec _ hexec
  exact (hiff 0 rfl).mp happlied

def costRecord : Mutation := .llmCostRecord ⟨['e'], ['i'], 7, 1, ['u']⟩

-- The cost is recorded in month 1, its inline transaction fails, and the entry is replayed in month
-- 2.
theorem replay_charges_next_month
    : (Lts.exec (step plainCodec) (.init ⟨.empty, []⟩)
        [.log 0 ['t'] costRecord 0, .inlineFail 0, .list 0 9, .replay 0 2]).any (fun s => s.store.isApplied 0
          ∧ s.store.state.monthlyLLMCost.get? (['t'], 1) = none
          ∧ s.store.state.monthlyLLMCost.get? (['t'], 2) = some 7)
      ∧ ((inlineTx ['t'] 1 costRecord .empty).toOption.map fun r => r.2.monthlyLLMCost.get? (['t'], 1))
        = some (some 7) := by
  decide +kernel

end QuotaSystem

end Quota
