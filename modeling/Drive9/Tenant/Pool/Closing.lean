import Drive9.Tenant.Pool.Owned

/-!
This module shows that the backends of the pool are closed exactly when they should be.
-/

open List Option

namespace TenantPool

open Meta

namespace PoolSystem

variable {s s' : PoolSystem} {label : PoolLabel}

variable {kind : CallKind} {t : TenantID} {b : BackendID}

theorem hand_commit (s : PoolSystem) (r) (kind) (t) (b)
    : (s.commit r).hand kind t b = (s.hand kind t b).commit r := by
  cases kind <;> rfl

namespace Sound

section

variable (h : Sound s)

include h

theorem insert (kind) (t) (hfly : s.flying? c = some b) : Sound (s.insert c kind t b) := by
  unfold PoolSystem.insert
  dsimp only
  split
  . next cached e hentry =>
    have hcached : s.pool.entry? t.id = some (cached, e) := (filter_eq_some_iff.mp hentry).1
    cases kind with
    | get =>
      refine Sound.hit ?_ .get hcached
      exact h.drop hfly perm_middle
    | acquire =>
      refine Sound.hit ?_ .acquire hcached
      apply h.drop hfly
      rw [append_assoc]
      exact perm_middle
  . -- The entry that was there is removed, then the new one is pushed, then the pool shrinks.
    have hadd := (h.invalidate t.id).add kind (t := t) hfly (h.linked.items_invalidate t.id)
    rw [hand_commit]
    apply Sound.shrink
    rw [← hand_commit]
    exact hadd

theorem release (hrel : s.release i = some s') : Sound s' := by
  unfold PoolSystem.release at hrel
  split at hrel
  . contradiction
  . next hd hi =>
    split at hrel
    . cases hrel
      exact h
    . next hnot =>
      cases hrel
      exact ⟨h.linked.releaseEntry hd.backend, h.owned.release hi (Bool.not_eq_true _ ▸ hnot)⟩

theorem invalidateAndWait (hfree : s.free c = true) (t) : Sound (s.invalidateAndWait c t) := by
  unfold PoolSystem.invalidateAndWait
  dsimp only
  split
  . exact h.of_calls (fun _ => rfl)
  . split
    . apply (h.invalidate t).of_calls
      exact flying?_set_other (flying?_of_free hfree) (fun _ _ _ => Call.noConfusion)
    . exact (h.invalidate t).of_calls (fun _ => rfl)

theorem done (hget : s.calls.get? c = some call) (hcall : ∀ kind t b, call ≠ .created kind t b)
    (drained)
    : Sound { s with calls := s.calls.del c, drained } := by
  apply h.of_calls
  apply flying?_del_other
  unfold flying?
  rw [hget]
  cases call with
  | created kind t b => exact absurd rfl (hcall kind t b)
  | creating | draining | idling => rfl

theorem poll (hpoll : s.poll c = some s') : Sound s' := by
  unfold PoolSystem.poll at hpoll
  split at hpoll
  . next hget =>
    split at hpoll
    . cases hpoll
      exact h.done hget (fun _ _ _ => Call.noConfusion) _
    . cases hpoll
      exact h
  . next hget =>
    split at hpoll
    . cases hpoll
      exact h.done hget (fun _ _ _ => Call.noConfusion) _
    . cases hpoll
      exact h
  . contradiction

theorem closeEntry (hmem : b ∈ s.closing)
    : Sound { s with closing := s.closing.erase b, closed := b :: s.closed } := by
  refine ⟨h.linked, h.owned.congr rfl rfl ?_ (fun _ => rfl) rfl⟩
  apply perm_middle.trans
  rw [← cons_append]
  exact (perm_cons_erase hmem).symm.append_right _

theorem step (hstep : PoolSystem.step s label = some s') : Sound s' := by
  unfold PoolSystem.step at hstep
  cases label with
  | lookup c kind t =>
    obtain ⟨hfree, rfl⟩ := Lts.of_guard hstep
    exact h.lookup hfree kind t
  | createBackend c ns =>
    dsimp only at hstep
    split at hstep
    . next kind t hget =>
      split at hstep
      . cases hstep
        exact h.done hget (fun _ _ _ => Call.noConfusion) _
      . cases hstep
        refine ⟨h.linked, h.owned.fly ?_ kind _⟩
        unfold flying?
        rw [hget]
        rfl
    . contradiction
  | insert c =>
    dsimp only at hstep
    split at hstep
    . next kind t b hget =>
      cases hstep
      apply h.insert kind t
      unfold flying?
      rw [hget]
      rfl
    . contradiction
  | release i => exact h.release hstep
  | invalidate t =>
    cases hstep
    exact h.invalidate t
  | invalidateAndWait c t =>
    obtain ⟨hfree, rfl⟩ := Lts.of_guard hstep
    exact h.invalidateAndWait hfree t
  | waitTenantIdle c t =>
    obtain ⟨hfree, rfl⟩ := Lts.of_guard hstep
    apply h.of_calls
    exact flying?_set_other (flying?_of_free hfree) (fun _ _ _ => Call.noConfusion)
  | poll c => exact h.poll hstep
  | giveUp c =>
    dsimp only at hstep
    split at hstep
    . next hget =>
      cases hstep
      exact h.done hget (fun _ _ _ => Call.noConfusion) _
    . next hget =>
      cases hstep
      exact h.done hget (fun _ _ _ => Call.noConfusion) _
    . contradiction
  | closeAll =>
    cases hstep
    apply Sound.shrink
    unfold commit
    rw [append_nil]
    exact h
  | closeEntry b =>
    obtain ⟨hany, rfl⟩ := Lts.of_guard hstep
    apply h.closeEntry
    simpa using hany

end

theorem init (maxSize) : Sound (init maxSize) := by
  refine ⟨⟨nodup_nil, ?_, ?_⟩, ?_⟩
  . intro b
    simp [PoolSystem.init, Pool.slot?]
  . intro t b
    simp [PoolSystem.init, Pool.slot?]
  . constructor
    case balanced => constructor <;> simp [PoolSystem.init, ledger, gone, flying?, FMap.mem_keys]
    all_goals simp [PoolSystem.init, gone]

end Sound

structure Bounded (maxSize : Nat) (p : Pool) : Prop where
  limit : p.maxSize = maxSize
  length : p.order.length ≤ maxSize

namespace Bounded

variable {maxSize : Nat} {p : Pool}

section

variable (h : Bounded maxSize p)

include h

theorem removeLocked (b) : Bounded maxSize (p.removeLocked b).1 where
  limit := (p.maxSize_removeLocked b).trans h.limit
  length := Nat.le_trans (p.length_removeLocked_le b) h.length

theorem invalidate (t) : Bounded maxSize (p.invalidate t).1 where
  limit := (p.maxSize_invalidate t).trans h.limit
  length := Nat.le_trans (p.length_invalidate_le t) h.length

theorem shrink (bound fuel) (toClose) : Bounded maxSize (p.shrink bound fuel toClose).1 where
  limit := (p.maxSize_shrink bound fuel toClose).trans h.limit
  length := Nat.le_trans (p.length_shrink_le bound fuel toClose) h.length

theorem releaseEntry (b) : Bounded maxSize (p.releaseEntry b).1 := by
  unfold Pool.releaseEntry
  split
  . exact h
  . exact ⟨h.limit, h.length⟩

end

section

variable (h : Bounded maxSize s.pool)

include h

theorem hit (kind) (t) (hmem : b ∈ s.pool.order) : Bounded maxSize (s.hit kind t b).pool := by
  have hlen : (s.pool.moveToFront b).order.length ≤ maxSize := by
    rw [Pool.length_moveToFront hmem]
    exact h.length
  cases kind with
  | get | acquire => exact ⟨h.limit, hlen⟩

theorem insert (hsound : Sound s) (kind) (t) (hfly : s.flying? c = some b)
    : Bounded maxSize (s.insert c kind t b).pool := by
  unfold PoolSystem.insert
  dsimp only
  split
  . next cached e hentry =>
    have hcached : s.pool.entry? t.id = some (cached, e) := (filter_eq_some_iff.mp hentry).1
    have hmem := (hsound.linked.entry? hcached).2.2.2
    cases kind with
    | get => exact Bounded.hit h .get t.id hmem
    | acquire => exact Bounded.hit h .acquire t.id hmem
  . have hnew := (hsound.owned.flying hfly).1
    have hins : Bounded maxSize (s.pool.insert t b kind.refs).1 := by
      constructor
      . exact (s.pool.maxSize_insert t b kind.refs).trans h.limit
      . rw [← h.limit]
        exact Pool.length_insert hsound.linked hnew kind.refs
    rw [hand_commit]
    exact hins

theorem step (hsound : Sound s) (hstep : PoolSystem.step s label = some s')
    : Bounded maxSize s'.pool := by
  unfold PoolSystem.step at hstep
  cases label with
  | lookup c kind t =>
    obtain ⟨_, rfl⟩ := Lts.of_guard hstep
    unfold PoolSystem.lookup
    split
    . split
      . exact h
      . next hentry =>
        split
        . exact h.hit kind t.id (hsound.linked.entry? hentry).2.2.2
        . exact h.removeLocked _
    . exact h.invalidate t.id
  | createBackend c ns =>
    dsimp only at hstep
    split at hstep
    . split at hstep
      all_goals
        cases hstep
        exact h
    . contradiction
  | insert c =>
    dsimp only at hstep
    split at hstep
    . next kind t b hget =>
      cases hstep
      apply h.insert hsound kind t
      unfold flying?
      rw [hget]
      rfl
    . contradiction
  | release i =>
    unfold PoolSystem.release at hstep
    dsimp only at hstep
    split at hstep
    . contradiction
    . split at hstep
      . cases hstep
        exact h
      . cases hstep
        exact h.releaseEntry _
  | invalidate t =>
    cases hstep
    exact h.invalidate t
  | invalidateAndWait c t =>
    obtain ⟨_, rfl⟩ := Lts.of_guard hstep
    unfold PoolSystem.invalidateAndWait
    dsimp only
    split
    . exact h
    . split
      all_goals exact h.invalidate t
  | waitTenantIdle c t | closeEntry b =>
    obtain ⟨_, rfl⟩ := Lts.of_guard hstep
    exact h
  | poll c =>
    unfold PoolSystem.poll at hstep
    dsimp only at hstep
    split at hstep
    . split at hstep
      all_goals
        cases hstep
        exact h
    . split at hstep
      all_goals
        cases hstep
        exact h
    . contradiction
  | giveUp c =>
    dsimp only at hstep
    split at hstep
    . cases hstep
      exact h
    . cases hstep
      exact h
    . contradiction
  | closeAll =>
    cases hstep
    exact h.shrink 0 _ _

end

end Bounded

theorem sound_of_exec (hsound : Sound s) (hbounded : Bounded maxSize s.pool)
    (hexec : Lts.exec step s labels = some s')
    : Sound s' ∧ Bounded maxSize s'.pool := by
  induction labels generalizing s with
  | nil =>
    cases hexec
    exact ⟨hsound, hbounded⟩
  | cons label labels ih =>
    obtain ⟨s1, hstep, hrest⟩ := Lts.of_exec_cons hexec
    exact ih (hsound.step hstep) (hbounded.step hsound hstep) hrest

theorem Sound.released (h : Sound s) (hmem : b ∈ s.gone) (hhd : hd ∈ s.handles)
    (hb : hd.backend = b)
    : hd.released = true := by
  obtain ⟨e, hget, -⟩ := h.owned.handled hd hhd
  rw [hb] at hget
  have hzero := ((h.owned.disposed b e hget).mp hmem).2
  rw [h.owned.refs b e hget] at hzero
  unfold held users at hzero
  rw [countP_eq_zero] at hzero
  have hnot := hzero hd hhd
  simpa [hb] using hnot

theorem Sound.held_or_gone (h : Sound s) (hget : s.pool.entries.get? b = some e)
    : b ∈ s.pool.order ∨ b ∈ s.gone ∨ ∃ hd ∈ s.handles, hd.backend = b ∧ hd.released = false := by
  cases hret : e.retired with
  | false =>
    left
    rw [h.linked.listed, Pool.slot?_of_get? hget, hret]
    exact ⟨_, rfl⟩
  | true =>
    right
    by_cases hzero : e.refs = 0
    . left
      exact (h.owned.disposed b e hget).mpr ⟨hret, hzero⟩
    . right
      rw [h.owned.refs b e hget] at hzero
      have hpos := Nat.pos_of_ne_zero hzero
      unfold held users at hpos
      rw [countP_pos_iff] at hpos
      obtain ⟨hd, hmem, hp⟩ := hpos
      simp at hp
      exact ⟨hd, hmem, hp⟩

theorem backends_closed_when_unused {maxSize : Nat} {labels : List PoolLabel}
    (hexec : Lts.exec step (init maxSize) labels = some s)
    : (∀ b ∈ s.closing ++ s.closed, ∀ hd ∈ s.handles, hd.backend = b → hd.released = true)
      ∧ (s.closing ++ s.closed).Nodup
      ∧ (∀ b < s.created, b ∈ s.pool.order ∨ (∃ hd ∈ s.handles, hd.backend = b ∧ hd.released = false)
          ∨ (∃ c kind t, s.calls.get? c = some (.created kind t b)) ∨ b ∈ s.closing ∨ b ∈ s.closed)
      ∧ s.pool.order.Nodup ∧ (∀ b, b ∈ s.pool.order ↔ ∃ t, s.pool.items.get? t = some b)
      ∧ (∀ t b, s.pool.items.get? t = some b → (s.pool.entries.get? b).any (·.tenantID = t))
      ∧ s.pool.order.length ≤ maxSize := by
  obtain ⟨h, hbounded⟩ := sound_of_exec (Sound.init maxSize) ⟨rfl, Nat.zero_le _⟩ hexec
  refine ⟨?_, h.owned.once, ?_, h.linked.nodup, ?_, ?_, hbounded.length⟩
  . intro b hmem hd hhd hb
    exact h.released hmem hhd hb
  . intro b hlt
    have hgone : b ∈ s.gone → b ∈ s.closing ∨ b ∈ s.closed := mem_append.mp
    obtain hc | hc | hcand | ⟨c, hc⟩ := h.owned.balanced.accounted b (mem_range.mpr hlt)
    . contradiction
    . contradiction
    . cases mem_candidates.mp hcand with
      | inl hin => exact .inr (.inr (.inr (hgone hin)))
      | inr hsome =>
        obtain ⟨e, hget⟩ := isSome_iff_exists.mp hsome
        cases h.held_or_gone hget with
        | inl hlisted => exact .inl hlisted
        | inr hrest =>
          cases hrest with
          | inl hin => exact .inr (.inr (.inr (hgone hin)))
          | inr hheld => exact .inr (.inl hheld)
    . obtain ⟨call, hget, hcall⟩ := bind_eq_some_iff.mp hc
      refine .inr (.inr (.inl ⟨c, ?_⟩))
      split at hcall
      . next kind t b' =>
        cases hcall
        exact ⟨kind, t, hget⟩
      . contradiction
  . intro b
    rw [h.linked.listed]
    simp only [h.linked.items]
  . intro t b hitem
    obtain ⟨e, hget, ht, -⟩ := Pool.of_slot? ((h.linked.items t b).mp hitem)
    rw [hget, any_some, ht]
    exact decide_eq_true rfl

section Eviction

def someTenant (id : TenantID) : Tenant := ⟨id, .active, ⟨[], [], false⟩, []⟩

def evictLabels : List PoolLabel :=
  [.lookup 0 .acquire (someTenant ['a']), .createBackend 0 (some ['n']), .insert 0,
    .lookup 1 .acquire (someTenant ['b']), .createBackend 1 (some ['m']), .insert 1]

theorem backends_closed_when_unused_evicted
    : ∃ s, Lts.exec step (init 1) (evictLabels ++ [.release 0, .release 0, .closeEntry 0]) = some s
      ∧ s.closed = [0]
        ∧ s.pool.order.length ≤ 1 := by
  apply Lts.exists_of_any (·.closed = [0]) (by decide +kernel)
  intro s hexec hclosed
  exact ⟨hclosed, (backends_closed_when_unused hexec).2.2.2.2.2.2⟩

end Eviction

end PoolSystem

end TenantPool
