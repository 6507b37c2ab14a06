import Drive9.Lib.Ledger
import Drive9.Tenant.Pool.Lemmas

/-!
This module contains the invariant of the pool and what the parts of a locked section do to it.
-/

open List Option FMap

namespace TenantPool

open Meta

namespace PoolSystem

def users (handles : List Handle) (b : BackendID) : Nat :=
  handles.countP fun h => h.backend = b && !h.released

def held (s : PoolSystem) (b : BackendID) : Nat := users s.handles b

def gone (s : PoolSystem) : List BackendID := s.closing ++ s.closed

def flying? (s : PoolSystem) (call : Nat) : Option BackendID :=
  (s.calls.get? call).bind fun c =>
    match c with
    | .created _ _ b => some b
    | _ => none

-- A call that has created a backend holds it until the pool knows it or it is to be closed.
def ledger (s : PoolSystem) : Ledger BackendID Nat where
  puts := range s.created
  candidates := s.gone ++ s.pool.entries.keys
  gone := fun _ => False
  current := none
  held := s.flying?

theorem mem_candidates : b ∈ (ledger s).candidates ↔ b ∈ s.gone ∨
    (s.pool.entries.get? b).isSome := by
  unfold ledger
  rw [mem_append, FMap.mem_keys]

structure Owned (s : PoolSystem) : Prop where
  refs : ∀ b e, s.pool.entries.get? b = some e → e.refs = s.held b
  handled : ∀ h ∈ s.handles, ∃ e, s.pool.entries.get? h.backend = some e ∧ e.tenantID = h.tenantID
  disposed : ∀ b e, s.pool.entries.get? b = some e → (b ∈ s.gone ↔ e.retired = true ∧ e.refs = 0)
  once : s.gone.Nodup
  balanced : s.ledger.Balanced

structure Sound (s : PoolSystem) : Prop where
  linked : s.pool.Linked
  owned : Owned s

variable {s : PoolSystem} {b : BackendID} {e : Entry} {t : TenantID}

theorem perm_gone_commit (s : PoolSystem) (r : Pool × List BackendID)
    : (s.commit r).gone.Perm (r.2 ++ s.gone) := by
  unfold gone commit
  rw [← append_assoc]
  exact perm_append_comm.append_right _

section

variable (h : Owned s)

include h

theorem Owned.flying (hfly : s.flying? c = some b) : s.pool.entries.get? b = none ∧ b ∉ s.gone := by
  have hnot := (h.balanced.held c b hfly).2.1
  rw [mem_candidates, not_or, Bool.not_eq_true, isSome_eq_false_iff, isNone_iff_eq_none] at hnot
  exact hnot.symm

theorem Owned.held_eq_zero (hnone : s.pool.entries.get? b = none) : s.held b = 0 := by
  unfold held users
  rw [countP_eq_zero]
  intro hd hmem
  simp only [Bool.and_eq_true, decide_eq_true_eq, not_and]
  intro heq
  obtain ⟨e, hget, -⟩ := h.handled hd hmem
  rw [heq, hnone] at hget
  contradiction

section

variable (hget : s.pool.entries.get? b = some e)

include hget

theorem Owned.update (hnot : b ∉ s.gone)
    (hentries : ∀ b', s'.pool.entries.get? b' = if b' = b then some e' else s.pool.entries.get? b')
    (ht : e'.tenantID = e.tenantID) (hrefs : e'.refs = s'.held b)
    (hheld : ∀ b', b' ≠ b → s'.held b' = s.held b')
    (hhandles : ∀ hd ∈ s'.handles, hd.backend = b ∧ hd.tenantID = e.tenantID ∨ hd ∈ s.handles)
    (hgone : s'.gone.Perm ((if e'.refs = 0 && e'.retired then [b] else []) ++ s.gone))
    (hfly : ∀ c, s'.flying? c = s.flying? c) (hcreated : s'.created = s.created)
    : Owned s' := by
  have hmem : ∀ b', b' ∈ s'.gone ↔ (b' = b ∧ e'.retired = true ∧ e'.refs = 0) ∨ b' ∈ s.gone := by
    intro b'
    rw [hgone.mem_iff, mem_append]
    split
    . next hdone =>
      simp at hdone
      simp [hdone]
    . next hdone =>
      simp at hdone
      simp
      intro _ hret hzero
      simp [hdone hzero] at hret
  constructor
  . intro b' e1 hget'
    rw [hentries] at hget'
    split at hget'
    . next heq =>
      cases hget'
      rw [heq]
      exact hrefs
    . next hne =>
      rw [hheld b' hne]
      exact h.refs b' e1 hget'
  . intro hd hmemd
    rw [hentries]
    cases hhandles hd hmemd with
    | inl hnew =>
      rw [if_pos hnew.1]
      exact ⟨e', rfl, ht.trans hnew.2.symm⟩
    | inr hold =>
      obtain ⟨e1, hget', ht'⟩ := h.handled hd hold
      split
      . next heq =>
        rw [heq, hget] at hget'
        cases hget'
        exact ⟨e', rfl, ht.trans ht'⟩
      . exact ⟨e1, hget', ht'⟩
  . intro b' e1 hget'
    rw [hmem]
    rw [hentries] at hget'
    split at hget'
    . next heq =>
      cases hget'
      simp [heq, hnot]
    . next hne =>
      rw [h.disposed b' e1 hget']
      simp [hne]
  . rw [hgone.nodup_iff]
    split
    . exact nodup_cons.mpr ⟨hnot, h.once⟩
    . exact h.once
  . refine h.balanced.congr ?_ ?_ rfl rfl (funext hfly)
    . intro b'
      unfold ledger
      rw [hcreated]
    . intro b'
      rw [mem_candidates, mem_candidates, hmem, hentries]
      by_cases heq : b' = b
      . simp [heq, hget]
      . simp [heq]

theorem Owned.not_gone (hin : e.retired = false) : b ∉ s.gone := by
  rw [h.disposed b e hget, hin]
  simp

theorem Owned.retire (hin : e.retired = false) : Owned (s.commit (s.pool.removeLocked b)) := by
  rw [Pool.removeLocked_of_get? hget]
  apply h.update hget (h.not_gone hget hin) (fun b' => get?_set _ _ b' _)
  . rfl
  . exact h.refs b e hget
  . intro b' _
    rfl
  . intro hd hmem
    exact .inr hmem
  . simpa using perm_gone_commit s (_, if e.refs = 0 then [b] else [])
  . intro c
    rfl
  . rfl

end

theorem Owned.congr (hentries : s'.pool.entries = s.pool.entries)
    (hhandles : s'.handles = s.handles)
    (hgone : s'.gone.Perm s.gone) (hfly : ∀ c, s'.flying? c = s.flying? c)
    (hcreated : s'.created = s.created)
    : Owned s' := by
  constructor
  . unfold held
    rw [hentries, hhandles]
    exact h.refs
  . rw [hentries, hhandles]
    exact h.handled
  . intro b e
    rw [hentries, hgone.mem_iff]
    exact h.disposed b e
  . rw [hgone.nodup_iff]
    exact h.once
  . refine h.balanced.congr ?_ ?_ rfl rfl (funext hfly)
    . intro b
      unfold ledger
      rw [hcreated]
    . intro b
      rw [mem_candidates, mem_candidates, hgone.mem_iff, hentries]

end

theorem users_append (handles : List Handle) (t) (b b')
    : users (handles ++ [⟨t, b, false⟩]) b' = users handles b' + if b' = b then 1 else 0 := by
  unfold users
  rw [countP_append]
  by_cases heq : b' = b
  . simp [heq]
  . simp [heq, Ne.symm heq]

theorem Owned.pin (h : Owned s) (hget : s.pool.entries.get? b = some e) (hin : e.retired = false)
    (ht : e.tenantID = t)
    : Owned { s with pool := s.pool.pin b, handles := s.handles ++ [⟨t, b, false⟩] } := by
  apply h.update hget (h.not_gone hget hin)
  . intro b'
    unfold Pool.pin
    rw [get?_modify, hget, map_some]
  . rfl
  . unfold held
    rw [users_append, if_pos rfl]
    exact congrArg (· + 1) (h.refs b e hget)
  . intro b' hne
    unfold held
    rw [users_append, if_neg hne, Nat.add_zero]
  . intro hd hmem
    cases mem_append.mp hmem with
    | inl hold => exact .inr hold
    | inr hnew =>
      rw [mem_singleton.mp hnew]
      exact .inl ⟨rfl, ht.symm⟩
  . exact List.Perm.refl _
  . intro c
    rfl
  . rfl

variable {c' : Nat} {kind : CallKind}

theorem flying?_del (s : PoolSystem) (c c')
    : ({ s with calls := s.calls.del c } : PoolSystem).flying? c'
      = if c' = c then none else s.flying? c' := by
  unfold flying?
  rw [get?_del]
  split <;> rfl

theorem flying?_set (s : PoolSystem) (c) (call) (c')
    : ({ s with calls := s.calls.set c call } : PoolSystem).flying? c'
      = if c' = c then (match call with | .created _ _ b => some b | _ => none) else s.flying? c' := by
  unfold flying?
  rw [get?_set]
  split <;> rfl

theorem Owned.drop (h : Owned s) (hfly : s.flying? c = some b)
    (hfly' : ∀ c', s'.flying? c' = if c' = c then none else s.flying? c')
    (hentries : s'.pool.entries = s.pool.entries) (hhandles : s'.handles = s.handles)
    (hgone : s'.gone.Perm (b :: s.gone)) (hcreated : s'.created = s.created)
    : Owned s' := by
  obtain ⟨hnone, hnot⟩ := h.flying hfly
  constructor
  . unfold held
    rw [hentries, hhandles]
    exact h.refs
  . rw [hentries, hhandles]
    exact h.handled
  . intro b' e' hget'
    rw [hentries] at hget'
    rw [hgone.mem_iff, mem_cons, ← h.disposed b' e' hget']
    apply or_iff_right
    intro heq
    rw [heq, hnone] at hget'
    contradiction
  . rw [hgone.nodup_iff]
    exact nodup_cons.mpr ⟨hnot, h.once⟩
  . refine (h.balanced.enqueue hfly).congr ?_ ?_ rfl rfl (funext fun c' => ?_)
    . intro b'
      unfold ledger
      rw [hcreated]
    . intro b'
      rw [mem_candidates, mem_cons, mem_candidates, hgone.mem_iff, mem_cons, hentries]
      exact or_assoc
    . exact (hfly' c').trans (Function.update_apply ..).symm

theorem Owned.fly (h : Owned s) (hfree : s.flying? c = none) (kind) (t)
    : Owned { s with calls := s.calls.set c (.created kind t s.created), created := s.created + 1 } := by
  have hnew : s.created ∉ s.ledger.puts := not_mem_range_self
  refine { h with balanced := ?_ }
  refine (h.balanced.put hfree hnew fun _ _ hg => hg).congr ?_ (fun _ => Iff.rfl) rfl rfl (funext fun c' => ?_)
  . intro b'
    unfold ledger
    rw [mem_range, mem_cons, mem_range]
    exact Nat.lt_succ_iff_lt_or_eq.trans or_comm
  . exact (flying?_set s c (.created kind t s.created) c').trans (Function.update_apply ..).symm

theorem Owned.land {t : Tenant} (h : Owned s) (hfly : s.flying? c = some b)
    (hs' : { s with pool := s.pool.pushFront t b kind.refs, calls := s.calls.del c }.hand kind t.id b
      = s')
    : Owned s' := by
  obtain ⟨hnone, hnot⟩ := h.flying hfly
  have hentries : ∀ b', (s.pool.pushFront t b kind.refs).entries.get? b' = if b' = b
      then some ⟨t.id, t.storageNamespaceID, t.s3EncryptionPolicy, kind.refs, false⟩
      else s.pool.entries.get? b' :=
    fun b' => get?_set _ _ b' _
  have hheld : ∀ b', s'.held b' = s.held b' + if b' = b then kind.refs else 0 := by
    intro b'
    rw [← hs']
    cases kind with
    | get => simp [CallKind.refs, hand, held]
    | acquire => exact users_append s.handles t.id b b'
  have hhandles : ∀ hd ∈ s'.handles, hd ∈ s.handles ∨ hd.backend = b ∧ hd.tenantID = t.id := by
    intro hd hmem
    rw [← hs'] at hmem
    cases kind with
    | get => exact .inl hmem
    | acquire =>
      cases mem_append.mp hmem with
      | inl hold => exact .inl hold
      | inr hnew =>
        rw [mem_singleton.mp hnew]
        exact .inr ⟨rfl, rfl⟩
  have hpool : s'.pool = s.pool.pushFront t b kind.refs := by cases kind <;> rw [← hs'] <;> rfl
  have hgone : s'.gone = s.gone := by cases kind <;> rw [← hs'] <;> rfl
  have hcreated : s'.created = s.created := by cases kind <;> rw [← hs'] <;> rfl
  have hfly' : ∀ c', s'.flying? c' = if c' = c then none else s.flying? c' := by
    intro c'
    rw [← flying?_del s c c', ← hs']
    cases kind <;> rfl
  constructor
  . intro b' e' hget'
    rw [hpool, hentries] at hget'
    rw [hheld]
    split at hget'
    . next heq =>
      cases hget'
      rw [heq, if_pos rfl, h.held_eq_zero hnone, Nat.zero_add]
    . next hne =>
      rw [if_neg hne]
      exact h.refs b' e' hget'
  . intro hd hmem
    rw [hpool, hentries]
    cases hhandles hd hmem with
    | inl hold =>
      obtain ⟨e', hget', ht'⟩ := h.handled hd hold
      rw [if_neg]
      . exact ⟨e', hget', ht'⟩
      . intro heq
        rw [heq, hnone] at hget'
        contradiction
    | inr hnew =>
      rw [if_pos hnew.1]
      exact ⟨_, rfl, hnew.2.symm⟩
  . intro b' e' hget'
    rw [hpool, hentries] at hget'
    rw [hgone]
    split at hget'
    . next heq =>
      cases hget'
      simp [heq, hnot]
    . exact h.disposed b' e' hget'
  . rw [hgone]
    exact h.once
  . refine (h.balanced.enqueue hfly).congr ?_ ?_ rfl rfl (funext fun c' => ?_)
    . intro b'
      unfold ledger
      rw [hcreated]
    . intro b'
      rw [mem_candidates, mem_cons, mem_candidates, hgone, hpool, hentries]
      by_cases heq : b' = b
      . simp [heq]
      . simp [heq]
    . exact (hfly' c').trans (Function.update_apply ..).symm

theorem users_release {handles : List Handle} (hi : handles[i]? = some hd)
    (hd' : hd.released = false) (b')
    : users (handles.set i { hd with released := true }) b'
      = users handles b' - if b' = hd.backend then 1 else 0 := by
  obtain ⟨hlt, hget⟩ := List.getElem?_eq_some_iff.mp hi
  unfold users
  rw [List.countP_set hlt, hget]
  by_cases heq : b' = hd.backend
  . simp [heq, hd']
  . simp [heq, Ne.symm heq]

theorem Owned.release (h : Owned s) (hi : s.handles[i]? = some hd) (hd' : hd.released = false)
    : Owned { s.commit (s.pool.releaseEntry hd.backend) with
        handles := s.handles.set i { hd with released := true } } := by
  obtain ⟨e, hget, ht⟩ := h.handled hd (mem_of_getElem? hi)
  have hpos : 0 < e.refs := by
    rw [h.refs _ e hget]
    unfold held users
    rw [countP_pos_iff]
    exact ⟨hd, mem_of_getElem? hi, by simp [hd']⟩
  have hnot : hd.backend ∉ s.gone := by
    rw [h.disposed _ e hget]
    omega
  unfold Pool.releaseEntry
  rw [hget]
  apply h.update hget hnot (fun b' => get?_set _ _ b' _)
  . rfl
  . have husers := users_release hi hd' hd.backend
    rw [if_pos rfl] at husers
    exact (congrArg (· - 1) (h.refs _ e hget)).trans husers.symm
  . intro b' hne
    have husers := users_release hi hd' b'
    rw [if_neg hne] at husers
    exact husers
  . intro hd1 hmem
    cases mem_or_eq_of_mem_set hmem with
    | inl hold => exact .inr hold
    | inr heq =>
      rw [heq]
      exact .inl ⟨rfl, ht.symm⟩
  . exact perm_gone_commit s _
  . intro c
    rfl
  . rfl

namespace Sound

theorem retire (h : Sound s) (hget : s.pool.entries.get? b = some e) (hin : e.retired = false)
    : Sound (s.commit (s.pool.removeLocked b)) :=
  ⟨h.linked.removeLocked hget hin, h.owned.retire hget hin⟩

theorem invalidate (h : Sound s) (t) : Sound (s.commit (s.pool.invalidate t)) := by
  unfold Pool.invalidate
  split
  . unfold commit
    rw [append_nil]
    exact h
  . next hentry =>
    obtain ⟨hget, hin, -⟩ := h.linked.entry? hentry
    exact h.retire hget hin

theorem shrink (bound fuel) (h : Sound (s.commit (p, toClose)))
    : Sound (s.commit (p.shrink bound fuel toClose)) := by
  induction fuel generalizing p toClose with
  | zero => exact h
  | succ fuel ih =>
    unfold Pool.shrink
    split
    . split
      . exact h
      . next oldest hlast =>
        obtain ⟨e, hget, hin⟩ := h.linked.entry_of_mem (mem_of_getLast? hlast)
        apply ih
        have hretire := h.retire hget hin
        unfold commit at hretire ⊢
        rw [← append_assoc]
        exact hretire
    . exact h

theorem hit (h : Sound s) (kind) (hentry : s.pool.entry? t = some (b, e))
    : Sound (s.hit kind t b) := by
  obtain ⟨hget, hin, ht, hmem⟩ := h.linked.entry? hentry
  cases kind with
  | get =>
    exact ⟨h.linked.moveToFront hmem, h.owned.congr rfl rfl (List.Perm.refl _) (fun _ => rfl) rfl⟩
  | acquire =>
    refine ⟨(h.linked.pin b).moveToFront hmem, ?_⟩
    exact (h.owned.pin hget hin ht).congr rfl rfl (List.Perm.refl _) (fun _ => rfl) rfl

theorem of_calls (h : Sound s) {calls : FMap Nat Call} {drained : List (TenantID × Nat)}
    (hfly : ∀ c, ({ s with calls } : PoolSystem).flying? c = s.flying? c)
    : Sound { s with calls, drained } :=
  ⟨h.linked, h.owned.congr rfl rfl (List.Perm.refl _) hfly rfl⟩

theorem flying?_set_other (hfree : s.flying? c = none)
    (hcall : ∀ kind t b, call ≠ .created kind t b) (c')
    : ({ s with calls := s.calls.set c call } : PoolSystem).flying? c' = s.flying? c' := by
  rw [flying?_set]
  split
  . next heq =>
    rw [heq, hfree]
    cases call with
    | created kind t b => exact absurd rfl (hcall kind t b)
    | creating | draining | idling => rfl
  . rfl

theorem flying?_del_other (hfree : s.flying? c = none) (c')
    : ({ s with calls := s.calls.del c } : PoolSystem).flying? c' = s.flying? c' := by
  rw [flying?_del]
  split
  . next heq => rw [heq, hfree]
  . rfl

theorem flying?_of_free (hfree : s.free c = true) : s.flying? c = none := by
  unfold flying?
  rw [isNone_iff_eq_none.mp hfree]
  rfl

theorem lookup (h : Sound s) (hfree : s.free c = true) (kind) (t) : Sound (s.lookup c kind t) := by
  unfold PoolSystem.lookup
  have hfly := flying?_of_free hfree
  split
  . split
    . apply h.of_calls
      exact flying?_set_other hfly (fun _ _ _ => Call.noConfusion)
    . next b e hentry =>
      split
      . exact h.hit kind hentry
      . obtain ⟨hget, hin, -⟩ := h.linked.entry? hentry
        apply (h.retire hget hin).of_calls
        exact flying?_set_other hfly (fun _ _ _ => Call.noConfusion)
  . exact h.invalidate t.id

theorem drop (h : Sound s) (hfly : s.flying? c = some b) {closing closed : List BackendID}
    (hperm : (closing ++ closed).Perm (b :: s.gone))
    : Sound { s with calls := s.calls.del c, closing, closed } :=
  ⟨h.linked, h.owned.drop hfly (flying?_del s c) rfl rfl hperm rfl⟩

theorem add (h : Sound s) (kind : CallKind) {t : Tenant} (hfly : s.flying? c = some b)
    (hfree : s.pool.items.get? t.id = none)
    : Sound ({ s with pool := s.pool.pushFront t b kind.refs, calls := s.calls.del c }.hand kind t.id b) := by
  refine ⟨?_, h.owned.land hfly rfl⟩
  cases kind with
  | get | acquire => exact h.linked.pushFront (h.owned.flying hfly).1 hfree _

end Sound

end PoolSystem

end TenantPool
