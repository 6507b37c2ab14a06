import Drive9.Datastore.FilesLemmas
import Drive9.Datastore.Subtree

/-!
This module contains the rows that a rename leaves: of a file, which may replace the one at its
target, and of a directory.
-/

namespace Datastore

open Transaction NodeUpdate

theorem mem_replacedNodes
    : n' ∈ replacedNodes nodes dst u
      ↔ ∃ n ∈ nodes, (∀ d, dst = some d → d.nodeID ≠ n.nodeID) ∧ u.apply n = n' := by
  unfold replacedNodes
  rw [List.mem_map]
  constructor
  . rintro ⟨n, hn, happly⟩
    obtain ⟨hn, hkeep⟩ := List.mem_filter.mp hn
    refine ⟨n, hn, ?_, happly⟩
    rintro d rfl
    simpa using hkeep
  . rintro ⟨n, hn, hkeep, happly⟩
    refine ⟨n, List.mem_filter.mpr ⟨hn, ?_⟩, happly⟩
    cases dst with
    | none => rfl
    | some d => simpa using hkeep d rfl

theorem KeysOk.update (hkeys : KeysOk nodes) {u : NodeUpdate}
    (hfree : ∀ m ∈ nodes, m.path = u.newPath → m.nodeID = u.nodeID)
    : KeysOk (nodes.map u.apply) := by
  constructor
  . rw [List.map_map]
    simpa only [Function.comp_def, nodeID_apply] using hkeys.nodeIDs
  . rw [List.map_map]
    apply List.Nodup.map_on _ (List.Nodup.of_map _ hkeys.nodeIDs)
    intro m hm n hn hpath
    dsimp only [Function.comp] at hpath
    unfold NodeUpdate.apply at hpath
    split at hpath
    . next hmu =>
      split at hpath
      . next hnu => exact hkeys.eq_of_nodeID hm hn (hmu.trans hnu.symm)
      . next hnu => exact absurd (hfree n hn hpath.symm) hnu
    . next hmu =>
      split at hpath
      . exact absurd (hfree m hm hpath) hmu
      . exact hkeys.eq_of_path hm hn hpath

theorem KeysOk.replaced (hkeys : KeysOk nodes)
    (hfree : ∀ m ∈ nodes.filter fun n => !dst.any (·.nodeID = n.nodeID), m.path = u.newPath → m.nodeID = u.nodeID)
    : KeysOk (replacedNodes nodes dst u) :=
  (hkeys.filter _).update hfree

theorem KeysOk.updates (hkeys : KeysOk db.fileNodes) (h : updateNodesTx us db = .ok (a, db'))
    : KeysOk db'.fileNodes := by
  induction us generalizing db with
  | nil =>
    cases h
    exact hkeys
  | cons u us ih =>
    obtain ⟨_, db1, h1, h2⟩ := of_bind h
    apply ih _ h2
    have hrest := of_get h1
    obtain ⟨hfree, hmodify⟩ := of_require_bind hrest
    cases hmodify
    exact hkeys.update hfree

end Datastore
