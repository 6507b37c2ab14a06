import Drive9.Fuse.Commit.Impl.Local
import Drive9.Lib.Lts
import Mathlib.Algebra.Ring.Nat

/-!
This module contains the write-back uploader for one path: `Put` into the cache, `uploadOne` of the
workers and `UploadSync`, each cache method and each upload as one step.
-/

namespace WriteBack

variable {α : Type}

structure Entry (α : Type) where
  generation : Nat
  kind : PendingKind
  baseRev : Int
  data : α
  deriving DecidableEq

inductive Phase (α : Type) where
  | acquirePath
  | waitPath (done : Nat)
  | getMeta
  | getView (cached : Entry α)
  | upload (gen : Nat) (view : Entry α) (attempt : Nat)
  | check (gen : Nat)
  | remove

structure Run (α : Type) where
  sync : Bool
  held : Option Nat
  phase : Phase α

-- The upload in flight is known by a number, which stands for its channel `done`.
structure Uploader (α : Type) where
  entry : Option (Entry α)
  nextGen : Nat
  inflight : Option Nat
  nextDone : Nat
  runs : FMap Nat (Run α)
  -- the entry of the last `Put`, and the entries that were uploaded
  latest : Option (Entry α)
  uploaded : List (Entry α)

inductive Outcome where
  | ok
  | conflict
  | failed

inductive Label (α : Type) where
  | put (kind : PendingKind) (baseRev : Int) (data : α)
  -- a `Put` of another path
  | putOther
  | start (i : Nat) (sync : Bool)
  | next (i : Nat) (outcome : Outcome)

def uploadMaxRetries : Nat := 3

def expectedRevisionForWriteBack (cached : Entry α) : Option Int :=
  if cached.kind = .new then some 0 else if cached.baseRev ≤ 0 then none else some cached.baseRev

-- `UploadSync` writes a legacy overwrite unconditionally.
def expectedRevision (sync : Bool) (cached : Entry α) : Option Int :=
  (expectedRevisionForWriteBack cached).or (if sync ∧ cached.kind = .overwrite then some (-1) else none)

namespace Uploader

def goto (s : Uploader α) (i : Nat) (run : Run α) (phase : Phase α) : Uploader α :=
  { s with runs := s.runs.set i { run with phase } }

def finish (s : Uploader α) (i : Nat) (run : Run α) : Uploader α :=
  { s with runs := s.runs.del i, inflight := if s.inflight = run.held then none else s.inflight }

def next (s : Uploader α) (i : Nat) (run : Run α) (outcome : Outcome) : Option (Uploader α) :=
  match run.phase with
  | .acquirePath =>
    match s.inflight with
    | some done => some (s.goto i run (.waitPath done))
    | none =>
      if run.sync then
        some (s.goto i run .getMeta)
      else
        some ({ s with inflight := some s.nextDone, nextDone := s.nextDone + 1 }.goto i
          { run with held := some s.nextDone } .getMeta)
  | .waitPath done =>
    if s.inflight = some done then none else some (s.goto i run (if run.sync then .getMeta else .acquirePath))
  | .getMeta =>
    match s.entry with
    | none => some (s.finish i run)
    | some cached => some (s.goto i run (.getView cached))
  | .getView cached =>
    match s.entry, expectedRevision run.sync cached with
    | some view, some _ => some (s.goto i run (.upload cached.generation view 0))
    | _, _ => some (s.finish i run)
  | .upload gen view attempt =>
    match outcome with
    | .ok => some ({ s with uploaded := view :: s.uploaded }.goto i run (.check gen))
    | .conflict => some (s.finish i run)
    | .failed =>
      if run.sync ∨ uploadMaxRetries ≤ attempt then
        some (s.finish i run)
      else
        some (s.goto i run (.upload gen view (attempt + 1)))
  | .check gen =>
    some (if s.entry.any (·.generation = gen) then s.goto i run .remove else s.finish i run)
  | .remove => some ({ s with entry := none }.finish i run)

def step (s : Uploader α) (label : Label α) : Option (Uploader α) :=
  match label with
  | .put kind baseRev data =>
    let entry := some ⟨(s.nextGen + 1) % 2 ^ 64, kind, baseRev, data⟩
    some { s with entry, nextGen := (s.nextGen + 1) % 2 ^ 64, latest := entry }
  | .putOther => some { s with nextGen := (s.nextGen + 1) % 2 ^ 64 }
  | .start i sync =>
    if (s.runs.get? i).isSome then none else some (s.goto i ⟨sync, none, .acquirePath⟩ .acquirePath)
  | .next i outcome => (s.runs.get? i).bind fun run => s.next i run outcome

-- The cache that `NewWriteBackCache` opens, which may have an entry of the path from a previous
-- session.
def init (entry : Option (Entry α)) (nextGen : Nat) : Uploader α :=
  ⟨entry, nextGen, none, 0, .empty, entry, []⟩

end Uploader

def Phase.removes : Phase α → Bool
  | .remove => true
  | _ => false

def Uploader.safe (s : Uploader α) : Label α → Bool
  | .put .. => s.nextGen + 1 < 2 ^ 64 && s.runs.toList.all fun run => !run.2.phase.removes
  | .putOther => s.nextGen + 1 < 2 ^ 64
  | _ => true

variable {s s' : Uploader α} {latest : Option (Entry α)} {uploaded : List (Entry α)} {run : Run α}
  {i : Nat}
    {phase : Phase α}

-- An entry that the path has, or had before a later `Put`.
def Before (latest : Option (Entry α)) (e : Entry α) : Prop :=
  ∃ l, latest = some l ∧ (e = l ∨ e.generation < l.generation)

def Phase.Ok (latest : Option (Entry α)) (uploaded : List (Entry α)) : Phase α → Prop
  | .getView cached => Before latest cached
  | .upload gen view _ => Before latest view ∧ gen ≤ view.generation
  | .check gen => ∃ view ∈ uploaded, Before latest view ∧ gen ≤ view.generation
  | .remove => ∀ l, latest = some l → l ∈ uploaded
  | _ => True

structure Ok (s : Uploader α) : Prop where
  nextGen : ∀ l, s.latest = some l → l.generation ≤ s.nextGen
  entry : ∀ e, s.entry = some e → s.latest = some e
  kept : ∀ l, s.latest = some l → s.entry = some l ∨ l ∈ s.uploaded
  runs : ∀ i run, s.runs.get? i = some run → run.phase.Ok s.latest s.uploaded

theorem before_entry (h : Ok s) (hentry : s.entry = some e) : Before s.latest e :=
  ⟨e, h.entry e hentry, .inl rfl⟩

theorem Before.generation_le (h : Before latest e) (hlatest : latest = some l)
    : e.generation ≤ l.generation := by
  obtain ⟨_, hl, heq | hlt⟩ := h
  . rw [heq, Option.some.inj (hl.symm.trans hlatest)]
  . rw [← Option.some.inj (hl.symm.trans hlatest)]
    exact Nat.le_of_lt hlt

theorem Before.put (h : Before latest e)
    (hnew : ∀ l, latest = some l → l.generation < new.generation)
    : Before (some new) e := by
  obtain ⟨l, hl, _⟩ := id h
  exact ⟨new, rfl, .inr (Nat.lt_of_le_of_lt (h.generation_le hl) (hnew l hl))⟩

theorem Phase.Ok.put (h : phase.Ok latest uploaded) (hphase : phase.removes = false)
    (hnew : ∀ l, latest = some l → l.generation < new.generation)
    : phase.Ok (some new) uploaded := by
  cases phase with
  | getView => exact Before.put h hnew
  | upload => exact ⟨h.1.put hnew, h.2⟩
  | check =>
    obtain ⟨view, hmem, hbefore, hle⟩ := h
    exact ⟨view, hmem, hbefore.put hnew, hle⟩
  | remove => contradiction
  | _ => trivial

theorem Phase.Ok.cons (h : phase.Ok latest uploaded) (e) : phase.Ok latest (e :: uploaded) := by
  cases phase with
  | check =>
    obtain ⟨view, hmem, hview⟩ := h
    exact ⟨view, List.mem_cons_of_mem e hmem, hview⟩
  | remove => exact fun l hl => List.mem_cons_of_mem e (h l hl)
  | _ => exact h

namespace Ok

section

variable (h : Ok s)

include h

theorem goto (run) (hphase : phase.Ok s.latest s.uploaded) : Ok (s.goto i run phase) := by
  refine { h with runs := ?_ }
  exact FMap.forall_set h.runs hphase

theorem finish : Ok (s.finish i run) := by
  refine { h with runs := ?_ }
  intro i' run' hget
  exact h.runs i' run' (FMap.of_get?_del hget).2

theorem upload (view) : Ok { s with uploaded := view :: s.uploaded } :=
  { h with
    kept := fun l hl => (h.kept l hl).imp_right (List.mem_cons_of_mem view)
    runs := fun i run hget => (h.runs i run hget).cons view }

theorem remove (hlatest : ∀ l, s.latest = some l → l ∈ s.uploaded)
    : Ok { s with entry := none } := by
  refine { h with entry := ?_, kept := fun l hl => .inr (hlatest l hl) }
  intro e he
  contradiction

theorem put (kind) (baseRev) (data) (hsafe : s.safe (.put kind baseRev data) = true)
    (hstep : s.step (.put kind baseRev data) = some s')
    : Ok s' := by
  cases hstep
  unfold Uploader.safe at hsafe
  rw [Bool.and_eq_true, decide_eq_true_eq, List.all_eq_true] at hsafe
  rw [Nat.mod_eq_of_lt hsafe.1]
  constructor
  . intro l hl
    cases hl
    exact Nat.le_refl _
  . exact fun e he => he
  . exact fun l hl => .inl hl
  . intro i run hget
    apply (h.runs i run hget).put
    . simpa using hsafe.2 (i, run) (FMap.mem_toList.mpr hget)
    . exact fun l hl => Nat.lt_succ_of_le (h.nextGen l hl)

-- The entry has the generation that was read first, so no `Put` came before the data was read, nor
-- since.
theorem uploaded_of_check (hphase : (Phase.check gen).Ok s.latest s.uploaded)
    (hcheck : s.entry.any (·.generation = gen) = true)
    : (Phase.remove).Ok s.latest s.uploaded := by
  intro l hl
  obtain ⟨view, hmem, ⟨l', hl', hview⟩, hle⟩ := hphase
  obtain ⟨e, hentry, hgen⟩ := (Option.any_eq_true _ _).mp hcheck
  have hlatest := h.entry e hentry
  rw [hl] at hlatest hl'
  cases hlatest
  cases hl'
  cases hview with
  | inl heq => exact heq ▸ hmem
  | inr hlt =>
    have := of_decide_eq_true hgen
    omega

theorem next (hget : s.runs.get? i = some run) (hstep : s.next i run outcome = some s')
    : Ok s' := by
  have hrun := h.runs i run hget
  unfold Uploader.next at hstep
  split at hstep
  . split at hstep
    . cases hstep
      exact h.goto run trivial
    . split at hstep
      . cases hstep
        exact h.goto run trivial
      . cases hstep
        apply Ok.goto
        . exact { h with }
        . trivial
  . split at hstep
    . contradiction
    . cases hstep
      apply h.goto
      split
      all_goals trivial
  . split at hstep
    . cases hstep
      exact h.finish
    . next cached hentry =>
      cases hstep
      exact h.goto run (before_entry h hentry)
  . next cached hphase =>
    rw [hphase] at hrun
    split at hstep
    . next view _ hentry _ =>
      cases hstep
      exact h.goto run ⟨before_entry h hentry, hrun.generation_le (h.entry view hentry)⟩
    . cases hstep
      exact h.finish
  . next gen view attempt hphase =>
    rw [hphase] at hrun
    split at hstep
    . cases hstep
      exact (h.upload view).goto run ⟨view, List.mem_cons_self, hrun⟩
    . cases hstep
      exact h.finish
    . split at hstep
      . cases hstep
        exact h.finish
      . cases hstep
        exact h.goto run hrun
  . next gen hphase =>
    rw [hphase] at hrun
    cases hstep
    split
    . next hcheck => exact h.goto run (h.uploaded_of_check hrun hcheck)
    . exact h.finish
  . next hphase =>
    rw [hphase] at hrun
    cases hstep
    exact (h.remove hrun).finish

theorem step (hsafe : s.safe label = true) (hstep : s.step label = some s') : Ok s' := by
  cases label with
  | put kind baseRev data => exact h.put kind baseRev data hsafe hstep
  | putOther =>
    cases hstep
    have hlt : s.nextGen + 1 < 2 ^ 64 := of_decide_eq_true hsafe
    refine { h with nextGen := fun l hl => ?_ }
    rw [Nat.mod_eq_of_lt hlt]
    exact Nat.le_succ_of_le (h.nextGen l hl)
  | start i sync =>
    unfold Uploader.step at hstep
    dsimp only at hstep
    split at hstep
    . contradiction
    . cases hstep
      exact h.goto _ trivial
  | next i outcome =>
    obtain ⟨run, hget, hstep⟩ := Option.bind_eq_some_iff.mp hstep
    exact h.next hget hstep

end

end Ok

theorem latest_put_is_kept (entry : Option (Entry α)) (nextGen : Nat)
    (hgen : ∀ e, entry = some e → e.generation ≤ nextGen) (labels : List (Label α))
    (hsafe : Lts.Along Uploader.step (fun s label => s.safe label = true) (.init entry nextGen) labels)
    (s : Uploader α) (hexec : Lts.exec Uploader.step (.init entry nextGen) labels = some s)
    : ∀ l, s.latest = some l → s.entry = some l ∨ l ∈ s.uploaded := by
  have hinit : Ok (.init entry nextGen) := by
    refine ⟨hgen, fun e he => he, fun l hl => .inl hl, ?_⟩
    intro i run hget
    unfold Uploader.init at hget
    rw [FMap.get?_empty] at hget
    contradiction
  exact (Lts.exec_invariant _ Ok (fun _ _ _ h hsafe hstep => h.step hsafe hstep) hinit hsafe hexec).kept

def checked : List (Label Nat) := [.put .new 0 5, .start 0 false] ++ List.replicate 4 (.next 0 .ok)

theorem latest_put_is_kept_replaced
    : ∃ s, Lts.exec Uploader.step (.init none 0) (checked ++ [.put .new 0 6, .next 0 .ok]) = some s
        ∧ s.latest = some ⟨2, .new, 0, 6⟩ ∧ (s.entry = some ⟨2, .new, 0, 6⟩ ∨ ⟨2, .new, 0, 6⟩ ∈ s.uploaded) := by
  refine Lts.exists_of_any (fun s => _) (by decide +kernel) fun s hexec hlatest => ⟨hlatest, ?_⟩
  exact latest_put_is_kept none 0 (by simp) _ (by decide +kernel) s hexec _ hlatest

-- The new data is put after the generation was compared and is removed with the old entry.
theorem put_before_remove_is_lost
    : ∃ s, Lts.exec Uploader.step (.init none 0) (checked ++ [.next 0 .ok, .put .new 0 6, .next 0 .ok]) = some s
        ∧ s.latest = some ⟨2, .new, 0, 6⟩ ∧ s.entry = none ∧ ⟨2, .new, 0, 6⟩ ∉ s.uploaded :=
  Lts.exists_of_any _ (by decide +kernel) fun _ _ h => h

end WriteBack
