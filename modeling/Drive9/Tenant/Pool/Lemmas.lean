import Drive9.Tenant.Pool.Impl

/-!
This module contains what the locked sections do to the pool itself: the map and the list hold the
same entries, and the list is as long as it may be.
-/

open List Option FMap

namespace TenantPool

open Meta

namespace Pool

def slot? (p : Pool) (b : BackendID) : Option (TenantID × Bool) :=
  (p.entries.get? b).map fun e => (e.tenantID, e.retired)

structure Linked (p : Pool) : Prop where
  nodup : p.order.Nodup
  listed : ∀ b, b ∈ p.order ↔ ∃ t, p.slot? b = some (t, false)
  items : ∀ t b, p.items.get? t = some b ↔ p.slot? b = some (t, false)

variable {p : Pool} {b : BackendID} {t : TenantID} {e : Entry}

theorem slot?_of_get? (h : p.entries.get? b = some e)
    : p.slot? b = some (e.tenantID, e.retired) := by
  unfold slot?
  rw [h, map_some]

theorem of_slot? (h : p.slot? b = some (t, r))
    : ∃ e, p.entries.get? b = some e ∧ e.tenantID = t ∧ e.retired = r := by
  obtain ⟨e, hget, heq⟩ := map_eq_some_iff.mp h
  cases heq
  exact ⟨e, hget, rfl, rfl⟩

theorem removeLocked_of_get? (h : p.entries.get? b = some e)
    : p.removeLocked b =
      ({ p with
        order := p.order.erase b, items := p.items.del e.tenantID,
        entries := p.entries.set b { e with retired := true } }, if e.refs = 0 then [b] else []) := by
  unfold removeLocked
  rw [h]

theorem slot?_removeLocked (h : p.entries.get? b = some e) (b')
    : (p.removeLocked b).1.slot? b' = if b' = b then some (e.tenantID, true) else p.slot? b' := by
  rw [removeLocked_of_get? h]
  unfold slot?
  rw [get?_set]
  split
  . rw [map_some]
  . rfl

theorem slot?_pin (p : Pool) (b b') : (p.pin b).slot? b' = p.slot? b' := by
  unfold slot? pin
  rw [get?_modify]
  split
  . next h =>
    rw [h, Option.map_map]
    rfl
  . rfl

variable {refs : Nat} {toClose : List BackendID}

theorem slot?_pushFront (p : Pool) (t : Tenant) (b) (refs) (b')
    : (p.pushFront t b refs).slot? b' = if b' = b then some (t.id, false) else p.slot? b' := by
  unfold slot? pushFront
  rw [get?_set]
  split
  . rw [map_some]
  . rfl

theorem slot?_releaseEntry (p : Pool) (b b') : (p.releaseEntry b).1.slot? b' = p.slot? b' := by
  unfold releaseEntry
  split
  . rfl
  . next e hget =>
    unfold slot?
    rw [get?_set]
    split
    . next h =>
      rw [h, hget, map_some, map_some]
    . rfl

namespace Linked

section

variable (h : Linked p)

include h

theorem removeLocked (hget : p.entries.get? b = some e) (hin : e.retired = false)
    : Linked (p.removeLocked b).1 := by
  have hslot : p.slot? b = some (e.tenantID, false) := by rw [slot?_of_get? hget, hin]
  constructor
  . rw [removeLocked_of_get? hget]
    exact h.nodup.erase b
  . intro b'
    rw [slot?_removeLocked hget, removeLocked_of_get? hget]
    rw [h.nodup.mem_erase_iff, h.listed]
    split
    . next heq => simp [heq]
    . next hne => simp [hne]
  . intro t b'
    rw [slot?_removeLocked hget, removeLocked_of_get? hget]
    rw [get?_del]
    by_cases ht : t = e.tenantID
    . rw [if_pos ht]
      split
      . simp
      . next hne =>
        apply iff_of_false
        . simp
        . intro hslot'
          apply hne
          rw [← h.items] at hslot hslot'
          rw [ht, hslot] at hslot'
          cases hslot'
          rfl
    . rw [if_neg ht, h.items]
      split
      . next heq => simp [heq, hslot, Ne.symm ht]
      . rfl

theorem moveToFront (hmem : b ∈ p.order) : Linked (p.moveToFront b) := by
  constructor
  . apply nodup_cons.mpr
    apply And.intro
    . exact h.nodup.not_mem_erase
    . exact h.nodup.erase b
  . intro b'
    change b' ∈ b :: p.order.erase b ↔ ∃ t, p.slot? b' = some (t, false)
    rw [← h.listed, mem_cons, h.nodup.mem_erase_iff]
    by_cases heq : b' = b
    . simp [heq, hmem]
    . simp [heq]
  . exact h.items

theorem of_slot? (horder : p'.order = p.order) (hitems : p'.items = p.items)
    (hslot : ∀ b, p'.slot? b = p.slot? b)
    : Linked p' := by
  constructor
  . rw [horder]
    exact h.nodup
  . intro b
    rw [horder, hslot]
    exact h.listed b
  . intro t b
    rw [hitems, hslot]
    exact h.items t b

theorem pin (b)
    : Linked (p.pin b) := h.of_slot? rfl rfl (slot?_pin p b)

theorem releaseEntry (b) : Linked (p.releaseEntry b).1 := by
  apply h.of_slot? _ _ (slot?_releaseEntry p b)
  all_goals
    unfold Pool.releaseEntry
    split <;> rfl

theorem pushFront {t : Tenant} (hnew : p.entries.get? b = none) (hfree : p.items.get? t.id = none)
    (refs)
    : Linked (p.pushFront t b refs) := by
  have hslot : p.slot? b = none := by
    unfold slot?
    rw [hnew, map_none]
  have hnot : b ∉ p.order := by
    rw [h.listed, hslot]
    simp
  constructor
  . exact nodup_cons.mpr ⟨hnot, h.nodup⟩
  . intro b'
    rw [slot?_pushFront]
    change b' ∈ b :: p.order ↔ _
    rw [mem_cons, h.listed]
    split
    . next heq => simp [heq]
    . next hne => simp [hne]
  . intro t' b'
    rw [slot?_pushFront]
    change (p.items.set t.id b).get? t' = some b' ↔ _
    rw [get?_set]
    by_cases ht : t' = t.id
    . rw [if_pos ht]
      split
      . next heq => simp [heq, ht]
      . next hne =>
        apply iff_of_false
        . intro heq
          cases heq
          contradiction
        . rw [← h.items, ht, hfree]
          simp
    . rw [if_neg ht, h.items]
      split
      . next heq => simp [heq, hslot, Ne.symm ht]
      . rfl

theorem entry? (hentry : p.entry? t = some (b, e))
    : p.entries.get? b = some e ∧ e.retired = false ∧ e.tenantID = t ∧ b ∈ p.order := by
  obtain ⟨b', hitem, hmap⟩ := bind_eq_some_iff.mp hentry
  obtain ⟨e', hget, heq⟩ := map_eq_some_iff.mp hmap
  cases heq
  have hslot := (h.items t b).mp hitem
  have hlisted := (h.listed b).mpr ⟨t, hslot⟩
  rw [slot?_of_get? hget] at hslot
  simp only [Option.some.injEq, Prod.mk.injEq] at hslot
  exact ⟨hget, hslot.2, hslot.1, hlisted⟩

theorem items_of_entry? (hentry : p.entry? t = none) : p.items.get? t = none := by
  cases hitem : p.items.get? t with
  | none => rfl
  | some b =>
    obtain ⟨e, hget, -⟩ := Pool.of_slot? ((h.items t b).mp hitem)
    unfold Pool.entry? at hentry
    rw [hitem, bind_some, hget, map_some] at hentry
    contradiction

theorem entry_of_mem (hmem : b ∈ p.order) : ∃ e, p.entries.get? b = some e ∧ e.retired = false := by
  obtain ⟨t, hslot⟩ := (h.listed b).mp hmem
  obtain ⟨e, hget, -, hin⟩ := Pool.of_slot? hslot
  exact ⟨e, hget, hin⟩

theorem items_invalidate (t) : (p.invalidate t).1.items.get? t = none := by
  unfold Pool.invalidate
  split
  . next hentry => exact h.items_of_entry? hentry
  . next b e hentry =>
    obtain ⟨hget, -, ht, -⟩ := h.entry? hentry
    rw [removeLocked_of_get? hget, ht]
    rw [get?_del, if_pos rfl]

theorem removeLocked_of_mem (hmem : b ∈ p.order) : Linked (p.removeLocked b).1 := by
  obtain ⟨e, hget, hin⟩ := h.entry_of_mem hmem
  exact h.removeLocked hget hin

theorem invalidate (t) : Linked (p.invalidate t).1 := by
  unfold Pool.invalidate
  split
  . exact h
  . next hentry => exact h.removeLocked_of_mem (h.entry? hentry).2.2.2

end

end Linked

theorem maxSize_removeLocked (p : Pool) (b) : (p.removeLocked b).1.maxSize = p.maxSize := by
  unfold removeLocked
  split <;> rfl

theorem maxSize_shrink (bound fuel) (p : Pool) (toClose)
    : (p.shrink bound fuel toClose).1.maxSize = p.maxSize := by
  induction fuel generalizing p toClose with
  | zero => rfl
  | succ fuel ih =>
    unfold shrink
    split
    . split
      . rfl
      . rw [ih, maxSize_removeLocked]
    . rfl

theorem maxSize_invalidate (p : Pool) (t) : (p.invalidate t).1.maxSize = p.maxSize := by
  unfold invalidate
  split
  . rfl
  . apply maxSize_removeLocked

theorem maxSize_insert (p : Pool) (t) (b) (refs) : (p.insert t b refs).1.maxSize = p.maxSize := by
  unfold insert
  rw [maxSize_shrink]
  exact maxSize_invalidate p t.id

theorem length_removeLocked_le (p : Pool) (b)
    : (p.removeLocked b).1.order.length ≤ p.order.length := by
  unfold removeLocked
  split
  . exact Nat.le_refl _
  . apply length_erase_le

theorem length_invalidate_le (p : Pool) (t) : (p.invalidate t).1.order.length ≤ p.order.length := by
  unfold invalidate
  split
  . exact Nat.le_refl _
  . apply length_removeLocked_le

theorem length_shrink (h : Linked p) (bound fuel) (hfuel : p.order.length ≤ bound + fuel) (toClose)
    : (p.shrink bound fuel toClose).1.order.length ≤ bound := by
  induction fuel generalizing p toClose with
  | zero => exact hfuel
  | succ fuel ih =>
    unfold shrink
    split
    . split
      . next hnone =>
        rw [getLast?_eq_none_iff] at hnone
        rw [hnone]
        exact Nat.zero_le _
      . next oldest hlast =>
        have hmem := mem_of_getLast? hlast
        obtain ⟨e, hget, -⟩ := h.entry_of_mem hmem
        apply ih (h.removeLocked_of_mem hmem)
        rw [removeLocked_of_get? hget]
        rw [length_erase_of_mem hmem]
        omega
    . next hle => exact Nat.not_lt.mp hle

theorem length_insert (h : Linked p) {t : Tenant} (hnew : p.entries.get? b = none) (refs)
    : (p.insert t b refs).1.order.length ≤ p.maxSize := by
  have hlinked : Linked ((p.invalidate t.id).1.pushFront t b refs) := by
    apply (h.invalidate t.id).pushFront _ (h.items_invalidate t.id)
    unfold invalidate
    split
    . exact hnew
    . next b' e' hentry =>
      obtain ⟨hget, -⟩ := h.entry? hentry
      rw [removeLocked_of_get? hget]
      rw [get?_set_ne, hnew]
      intro heq
      rw [heq, hget] at hnew
      contradiction
  apply Nat.le_trans (length_shrink hlinked _ _ (Nat.le_add_left _ _) _)
  exact Nat.le_of_eq (maxSize_invalidate p t.id)

theorem length_moveToFront (hmem : b ∈ p.order)
    : (p.moveToFront b).order.length = p.order.length := by
  unfold moveToFront
  rw [length_cons, length_erase_of_mem hmem]
  have hpos := length_pos_of_mem hmem
  omega

theorem length_shrink_le (bound fuel) (p : Pool) (toClose)
    : (p.shrink bound fuel toClose).1.order.length ≤ p.order.length := by
  induction fuel generalizing p toClose with
  | zero => exact Nat.le_refl _
  | succ fuel ih =>
    unfold shrink
    split
    . split
      . exact Nat.le_refl _
      . exact Nat.le_trans (ih _ _) (length_removeLocked_le p _)
    . exact Nat.le_refl _

end Pool

end TenantPool
