import Drive9.Tenant.Pool.Closing

/-!
This module shows when a wait for the users of a tenant really waits for all of them.
-/

open List Option FMap

namespace TenantPool

open Meta

namespace PoolSystem

def settled (s : PoolSystem) (t : TenantID) : Bool :=
  s.pool.entries.toList.all fun row => row.2.tenantID ≠ t || !row.2.retired || row.2.refs = 0

def removes (s : PoolSystem) (label : PoolLabel) : List BackendID :=
  match step s label with
  | none => []
  | some s' => s.pool.order.filter fun b => s'.pool.order.all (· ≠ b)

def awaited (s : PoolSystem) (t : TenantID) : Bool :=
  s.calls.toList.any fun row =>
    match row.2 with
    | .idling t' _ => t' = t
    | _ => false

/--
A wait starts when no entry of its tenant that has left the pool is in use. While somebody waits for
a tenant to be idle, no entry of it that is in use leaves the pool.
-/
def undisturbed (s : PoolSystem) (label : PoolLabel) : Bool :=
  (match label with
    | .invalidateAndWait _ t => s.settled t
    | .waitTenantIdle _ t => s.settled t
    | _ => true)
  && (s.removes label).all fun b => (s.pool.entries.get? b).all fun e => e.refs = 0 || !s.awaited e.tenantID

def usersBefore (s : PoolSystem) (t : TenantID) (n : Nat) (hd : Handle) : Prop :=
  hd ∈ s.handles.take n ∧ hd.tenantID = t ∧ hd.released = false

structure Waits (s : PoolSystem) : Prop where
  draining : ∀ c t b n, s.calls.get? c = some (.draining t b n)
    → n ≤ s.handles.length ∧ ∀ hd, s.usersBefore t n hd → hd.backend = b
  idling : ∀ c t n, s.calls.get? c = some (.idling t n)
    → n ≤ s.handles.length ∧ ∀ hd, s.usersBefore t n hd → hd.backend ∈ s.pool.order
  drained : ∀ t n, (t, n) ∈ s.drained → n ≤ s.handles.length ∧ ∀ hd, ¬s.usersBefore t n hd

structure Kept (handles handles' : List Handle) : Prop where
  grows : handles.length ≤ handles'.length
  users : ∀ n ≤ handles.length, ∀ hd ∈ handles'.take n, hd.released = false → hd ∈ handles.take n

theorem Kept.refl (handles : List Handle) : Kept handles handles :=
  ⟨Nat.le_refl _, fun _ _ _ h _ => h⟩

theorem Kept.append (handles : List Handle) (hd : Handle) : Kept handles (handles ++ [hd]) := by
  constructor
  . simp
  . intro n hn hd' hmem _
    rw [take_append_of_le_length hn] at hmem
    exact hmem

theorem Kept.set {handles : List Handle} (i : Nat) (hd : Handle)
    : Kept handles (handles.set i { hd with released := true }) := by
  constructor
  . simp
  . intro n _ hd' hmem hrel
    rw [take_set] at hmem
    cases mem_or_eq_of_mem_set hmem with
    | inl hold => exact hold
    | inr heq =>
      rw [heq] at hrel
      contradiction

variable {s s' : PoolSystem} {label : PoolLabel} {t : TenantID} {n : Nat}

theorem usersBefore_of_kept (hkept : Kept s.handles s'.handles) (hn : n ≤ s.handles.length)
    (h : s'.usersBefore t n hd)
    : s.usersBefore t n hd :=
  ⟨hkept.users n hn hd h.1 h.2.2, h.2⟩

structure Quiet (s s' : PoolSystem) : Prop where
  kept : Kept s.handles s'.handles
  draining : ∀ c t b n, s'.calls.get? c = some (.draining t b n)
    → s.calls.get? c = some (.draining t b n)
  idling : ∀ c t n, s'.calls.get? c = some (.idling t n) → s.calls.get? c = some (.idling t n)
  drained : s'.drained = s.drained

def Stays (s s' : PoolSystem) : Prop :=
  ∀ c t n, s.calls.get? c = some (.idling t n) → ∀ hd ∈ s.handles, hd.tenantID = t → hd.released = false
    → hd.backend ∈ s.pool.order → hd.backend ∈ s'.pool.order

theorem Waits.quiet (h : Waits s) (hquiet : Quiet s s') (hstays : Stays s s') : Waits s' := by
  constructor
  . intro c t b n hget
    obtain ⟨hn, husers⟩ := h.draining c t b n (hquiet.draining c t b n hget)
    refine ⟨Nat.le_trans hn hquiet.kept.grows, ?_⟩
    intro hd hhd
    exact husers hd (usersBefore_of_kept hquiet.kept hn hhd)
  . intro c t n hget
    have hget' := hquiet.idling c t n hget
    obtain ⟨hn, husers⟩ := h.idling c t n hget'
    refine ⟨Nat.le_trans hn hquiet.kept.grows, ?_⟩
    intro hd hhd
    have hold := usersBefore_of_kept hquiet.kept hn hhd
    exact hstays c t n hget' hd (mem_of_mem_take hold.1) hold.2.1 hold.2.2 (husers hd hold)
  . intro t n hmem
    rw [hquiet.drained] at hmem
    obtain ⟨hn, hnone⟩ := h.drained t n hmem
    refine ⟨Nat.le_trans hn hquiet.kept.grows, ?_⟩
    intro hd hhd
    exact hnone hd (usersBefore_of_kept hquiet.kept hn hhd)

namespace Quiet

theorem refl (s)
    : Quiet s s := ⟨.refl _, fun _ _ _ _ h => h, fun _ _ _ h => h, rfl⟩

theorem of_same (hhandles : s'.handles = s.handles) (hcalls : s'.calls = s.calls)
    (hdrained : s'.drained = s.drained)
    : Quiet s s' := by
  constructor
  . rw [hhandles]
    exact .refl _
  . rw [hcalls]
    exact fun _ _ _ _ h => h
  . rw [hcalls]
    exact fun _ _ _ h => h
  . exact hdrained

theorem of_set (hhandles : s'.handles = s.handles) (hcalls : s'.calls = s.calls.set c call)
    (hdrained : s'.drained = s.drained) (hdraining : ∀ t b n, call ≠ .draining t b n)
    (hidling : ∀ t n, call ≠ .idling t n)
    : Quiet s s' := by
  constructor
  . rw [hhandles]
    exact .refl _
  . intro c' t b n hget
    rw [hcalls] at hget
    cases of_get?_set hget with
    | inl heq => exact absurd heq.2.symm (hdraining t b n)
    | inr hne => exact hne.2
  . intro c' t n hget
    rw [hcalls] at hget
    cases of_get?_set hget with
    | inl heq => exact absurd heq.2.symm (hidling t n)
    | inr hne => exact hne.2
  . exact hdrained

theorem of_del (hkept : Kept s.handles s'.handles) (hcalls : s'.calls = s.calls.del c)
    (hdrained : s'.drained = s.drained)
    : Quiet s s' := by
  constructor
  . exact hkept
  . intro c' t b n hget
    rw [hcalls] at hget
    exact (of_get?_del hget).2
  . intro c' t n hget
    rw [hcalls] at hget
    exact (of_get?_del hget).2
  . exact hdrained

variable {kind : CallKind} {b : BackendID} {c : Nat} {t : Tenant}

theorem hit (s) (kind) (t) (b) : Quiet s (s.hit kind t b) := by
  cases kind with
  | get => exact of_same rfl rfl rfl
  | acquire => exact ⟨.append _ _, fun _ _ _ _ h => h, fun _ _ _ h => h, rfl⟩

theorem lookup (s) (c) (kind) (t) : Quiet s (s.lookup c kind t) := by
  unfold PoolSystem.lookup
  split
  . split
    . exact of_set rfl rfl rfl (fun _ _ _ => Call.noConfusion) (fun _ _ => Call.noConfusion)
    . split
      . apply hit
      . exact of_set rfl rfl rfl (fun _ _ _ => Call.noConfusion) (fun _ _ => Call.noConfusion)
  . exact of_same rfl rfl rfl

theorem insert (s) (c) (kind) (t) (b) : Quiet s (s.insert c kind t b) := by
  unfold PoolSystem.insert
  dsimp only
  split
  all_goals
    cases kind with
    | get => exact of_del (.refl _) rfl rfl
    | acquire => exact of_del (.append _ _) rfl rfl

theorem release (h : s.release i = some s') : Quiet s s' := by
  unfold PoolSystem.release at h
  split at h
  . contradiction
  . split at h
    . cases h
      exact refl s
    . next hd hi hrel =>
      cases h
      exact ⟨.set i hd, fun _ _ _ _ h => h, fun _ _ _ h => h, rfl⟩

end Quiet

theorem mem_awaited (hget : s.calls.get? c = some (.idling t n)) : s.awaited t = true := by
  unfold awaited
  rw [List.any_eq_true]
  exact ⟨(c, .idling t n), mem_toList.mpr hget, decide_eq_true rfl⟩

theorem Sound.refs_pos (h : Sound s) (hmem : hd ∈ s.handles) (hrel : hd.released = false)
    : ∃ e, s.pool.entries.get? hd.backend = some e ∧ e.tenantID = hd.tenantID ∧ 0 < e.refs := by
  obtain ⟨e, hget, ht⟩ := h.owned.handled hd hmem
  refine ⟨e, hget, ht, ?_⟩
  rw [h.owned.refs _ e hget]
  unfold held users
  rw [countP_pos_iff]
  exact ⟨hd, hmem, by simp [hrel]⟩

theorem stays_of_undisturbed (hsound : Sound s) (hstep : step s label = some s')
    (h : s.undisturbed label = true)
    : Stays s s' := by
  intro c t n hget hd hmem ht hrel hlisted
  apply Classical.byContradiction
  intro hnot
  have hremoved : hd.backend ∈ s.removes label := by
    unfold removes
    rw [hstep]
    rw [List.mem_filter]
    refine ⟨hlisted, ?_⟩
    rw [List.all_eq_true]
    intro b hb
    apply decide_eq_true
    intro heq
    rw [heq] at hb
    contradiction
  obtain ⟨e, hentry, htid, hpos⟩ := hsound.refs_pos hmem hrel
  unfold undisturbed at h
  rw [Bool.and_eq_true, List.all_eq_true] at h
  have hquiet := h.2 hd.backend hremoved
  rw [hentry, Option.all_some, htid, ht, mem_awaited hget] at hquiet
  simp at hquiet
  omega

theorem users_listed (hsound : Sound s) (h : s.settled t = true) (hmem : hd ∈ s.handles)
    (ht : hd.tenantID = t) (hrel : hd.released = false)
    : hd.backend ∈ s.pool.order ∧ s.pool.items.get? t = some hd.backend := by
  obtain ⟨e, hget, htid, hpos⟩ := hsound.refs_pos hmem hrel
  unfold settled at h
  rw [List.all_eq_true] at h
  have hin := h (hd.backend, e) (mem_toList.mpr hget)
  rw [htid, ht] at hin
  simp at hin
  have hret : e.retired = false := by
    cases hin with
    | inl hret => exact hret
    | inr hzero => omega
  have hslot : s.pool.slot? hd.backend = some (t, false) := by
    rw [Pool.slot?_of_get? hget, htid, ht, hret]
  exact ⟨(hsound.linked.listed _).mpr ⟨t, hslot⟩, (hsound.linked.items t _).mpr hslot⟩

namespace Waits

section

variable (h : Waits s)

include h

theorem finish (hn : n ≤ s.handles.length) (hnone : ∀ hd, ¬s.usersBefore t n hd)
    : Waits { s with drained := (t, n) :: s.drained } := by
  constructor
  . exact h.draining
  . exact h.idling
  . intro t' n' hmem
    cases mem_cons.mp hmem with
    | inl heq =>
      cases heq
      exact ⟨hn, hnone⟩
    | inr hold => exact h.drained t' n' hold

theorem setCall (c : Nat) (hdraining : ∀ t b n, call = .draining t b n → n = s.handles.length
      ∧ ∀ hd ∈ s.handles, hd.tenantID = t → hd.released = false → hd.backend = b)
    (hidling : ∀ t n, call = .idling t n → n = s.handles.length
      ∧ ∀ hd ∈ s.handles, hd.tenantID = t → hd.released = false → hd.backend ∈ s.pool.order)
    : Waits { s with calls := s.calls.set c call } := by
  constructor
  . intro c' t' b' n hget
    cases of_get?_set hget with
    | inl heq =>
      obtain ⟨rfl, husers⟩ := hdraining t' b' n heq.2.symm
      exact ⟨Nat.le_refl _, fun hd hhd => husers hd (mem_of_mem_take hhd.1) hhd.2.1 hhd.2.2⟩
    | inr hne => exact h.draining c' t' b' n hne.2
  . intro c' t' n hget
    cases of_get?_set hget with
    | inl heq =>
      obtain ⟨rfl, husers⟩ := hidling t' n heq.2.symm
      exact ⟨Nat.le_refl _, fun hd hhd => husers hd (mem_of_mem_take hhd.1) hhd.2.1 hhd.2.2⟩
    | inr hne => exact h.idling c' t' n hne.2
  . exact h.drained

theorem invalidateAndWait (hsound : Sound s) (hsettled : s.settled t = true)
    (hstays : Stays s (s.invalidateAndWait c t))
    : Waits (s.invalidateAndWait c t) := by
  unfold PoolSystem.invalidateAndWait at hstays ⊢
  dsimp only at hstays ⊢
  split
  . next hentry =>
    apply h.finish (Nat.le_refl _)
    intro hd hhd
    have hitem := (users_listed hsound hsettled (mem_of_mem_take hhd.1) hhd.2.1 hhd.2.2).2
    rw [hsound.linked.items_of_entry? hentry] at hitem
    contradiction
  . next b e hentry =>
    have husers : ∀ hd ∈ s.handles, hd.tenantID = t → hd.released = false → hd.backend = b := by
      intro hd hmem ht hrel
      have hitem := (users_listed hsound hsettled hmem ht hrel).2
      obtain ⟨b', hitem', hmap⟩ := bind_eq_some_iff.mp hentry
      obtain ⟨e', -, heq⟩ := map_eq_some_iff.mp hmap
      cases heq
      rw [hitem] at hitem'
      exact Option.some.inj hitem'
    have hcommit : Waits (s.commit (s.pool.invalidate t)) := by
      refine h.quiet (.of_same ?_ ?_ ?_) ?_
      . rfl
      . rfl
      . rfl
      rw [hentry] at hstays
      dsimp only at hstays
      split at hstays
      . exact hstays
      . exact hstays
    split
    . apply hcommit.setCall c
      . rintro _ _ _ ⟨⟩
        exact ⟨rfl, husers⟩
      . rintro _ _ ⟨⟩
    . next htoClose =>
      apply hcommit.finish (Nat.le_refl _)
      intro hd hhd
      have hmem : hd ∈ s.handles := mem_of_mem_take hhd.1
      obtain ⟨e', hget', -, hpos⟩ := hsound.refs_pos hmem hhd.2.2
      obtain ⟨hget, -⟩ := hsound.linked.entry? hentry
      rw [husers hd hmem hhd.2.1 hhd.2.2, hget] at hget'
      cases hget'
      apply htoClose
      unfold Pool.invalidate
      rw [hentry]
      dsimp only
      rw [Pool.removeLocked_of_get? hget, if_neg (Nat.ne_of_gt hpos)]
      rfl

theorem poll (hsound : Sound s) (hpoll : s.poll c = some s') : Waits s' := by
  have hdel : Waits { s with calls := s.calls.del c } :=
    h.quiet (.of_del (.refl _) rfl rfl) (fun _ _ _ _ _ _ _ _ h => h)
  unfold PoolSystem.poll at hpoll
  split at hpoll
  . next t b n hget =>
    obtain ⟨hn, husers⟩ := h.draining c t b n hget
    split at hpoll
    . next hidle =>
      cases hpoll
      apply hdel.finish hn
      intro hd hhd
      obtain ⟨e, hentry, -, hpos⟩ := hsound.refs_pos (mem_of_mem_take hhd.1) hhd.2.2
      rw [← husers hd hhd, hentry] at hidle
      simp at hidle
      omega
    . cases hpoll
      exact h
  . next t n hget =>
    obtain ⟨hn, husers⟩ := h.idling c t n hget
    split at hpoll
    . next hidle =>
      cases hpoll
      apply hdel.finish hn
      intro hd hhd
      obtain ⟨e, hentry, htid, hpos⟩ := hsound.refs_pos (mem_of_mem_take hhd.1) hhd.2.2
      obtain ⟨t', hslot⟩ := (hsound.linked.listed _).mp (husers hd hhd)
      have hitem := (hsound.linked.items t' _).mpr hslot
      rw [Pool.slot?_of_get? hentry] at hslot
      simp only [Option.some.injEq, Prod.mk.injEq] at hslot
      rw [← hslot.1, htid, hhd.2.1] at hitem
      unfold Pool.entry? at hidle
      rw [hitem, bind_some, hentry] at hidle
      simp at hidle
      omega
    . cases hpoll
      exact h
  . contradiction

theorem step (hsound : Sound s) (hstep : PoolSystem.step s label = some s')
    (hundisturbed : s.undisturbed label = true)
    : Waits s' := by
  have hstays := stays_of_undisturbed hsound hstep hundisturbed
  unfold undisturbed at hundisturbed
  rw [Bool.and_eq_true] at hundisturbed
  unfold PoolSystem.step at hstep
  cases label with
  | lookup c kind t =>
    obtain ⟨_, rfl⟩ := Lts.of_guard hstep
    exact h.quiet (.lookup s c kind t) hstays
  | createBackend c ns =>
    dsimp only at hstep
    split at hstep
    . split at hstep
      . cases hstep
        exact h.quiet (.of_del (.refl _) rfl rfl) hstays
      . cases hstep
        exact h.quiet (.of_set rfl rfl rfl (fun _ _ _ => Call.noConfusion) (fun _ _ => Call.noConfusion)) hstays
    . contradiction
  | insert c =>
    dsimp only at hstep
    split at hstep
    . next kind t b hget =>
      cases hstep
      exact h.quiet (.insert s c kind t b) hstays
    . contradiction
  | release i => exact h.quiet (.release hstep) hstays
  | invalidate t | closeAll =>
    cases hstep
    exact h.quiet (.of_same rfl rfl rfl) hstays
  | invalidateAndWait c t =>
    obtain ⟨_, rfl⟩ := Lts.of_guard hstep
    exact h.invalidateAndWait hsound hundisturbed.1 hstays
  | waitTenantIdle c t =>
    obtain ⟨_, rfl⟩ := Lts.of_guard hstep
    apply h.setCall c
    . rintro _ _ _ ⟨⟩
    . rintro _ _ ⟨⟩
      exact ⟨rfl, fun hd hmem ht hrel => (users_listed hsound hundisturbed.1 hmem ht hrel).1⟩
  | poll c => exact h.poll hsound hstep
  | giveUp c =>
    dsimp only at hstep
    split at hstep
    . cases hstep
      exact h.quiet (.of_del (.refl _) rfl rfl) hstays
    . cases hstep
      exact h.quiet (.of_del (.refl _) rfl rfl) hstays
    . contradiction
  | closeEntry b =>
    obtain ⟨_, rfl⟩ := Lts.of_guard hstep
    exact h.quiet (.of_same rfl rfl rfl) hstays

end

end Waits

theorem draining_waits_for_all_users {maxSize : Nat} {labels : List PoolLabel}
    (hexec : Lts.exec step (init maxSize) labels = some s)
    (hundisturbed : Lts.Along step (fun s label => s.undisturbed label = true) (init maxSize) labels)
    (hdrained : (t, n) ∈ s.drained)
    : ∀ hd ∈ s.handles.take n, hd.tenantID = t → hd.released = true := by
  have hinit : Sound (init maxSize) ∧ Waits (init maxSize) := by
    refine ⟨Sound.init maxSize, ?_⟩
    constructor <;> simp [init]
  have hinv : Sound s ∧ Waits s := by
    apply Lts.exec_invariant _ (fun s => Sound s ∧ Waits s) _ hinit hundisturbed hexec
    intro s1 label s2 h hok hstep
    exact ⟨h.1.step hstep, h.2.step h.1 hstep hok⟩
  intro hd hmem ht
  apply Classical.byContradiction
  intro hrel
  exact (hinv.2.drained t n hdrained).2 hd ⟨hmem, ht, Bool.not_eq_true _ ▸ hrel⟩

theorem draining_waits_for_all_users_released
    : let labels := evictLabels ++ [.release 0, .invalidateAndWait 2 ['a'],
        .invalidateAndWait 2 ['b'], .release 1, .poll 2]
      ∃ s, Lts.exec step (init 1) labels = some s ∧ s.drained = [(['b'], 2), (['a'], 2)]
        ∧ ∀ hd ∈ s.handles.take 2, hd.tenantID = ['b'] → hd.released = true := by
  intro labels
  apply Lts.exists_of_any (·.drained = [(['b'], 2), (['a'], 2)]) (by decide +kernel)
  intro s hexec hlist
  refine ⟨hlist, ?_⟩
  apply draining_waits_for_all_users hexec (by decide +kernel)
  rw [hlist]
  exact mem_cons_self

theorem evicted_user_not_awaited
    : ∃ s, Lts.exec step (init 1) (evictLabels ++ [.invalidateAndWait 2 ['a']]) = some s
      ∧ (['a'], 2) ∈ s.drained
        ∧ ⟨['a'], 0, false⟩ ∈ s.handles.take 2 := by
  exact Lts.exists_of_any _ (by decide +kernel) fun _ _ h => h

end PoolSystem

end TenantPool
