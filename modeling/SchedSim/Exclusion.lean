import SchedSim.Protocols

/-!
# Critical sections under the priority ceiling

`pcp_acquire` lifts a new owner to `MAX_PRIO`.  When no process arrives at `MAX_PRIO` and
every process holds one resource at a time, an owner is then the one process in the
system at `MAX_PRIO`, and the skeleton of `pcp_schedule` never preempts a current process
that may continue and stands strictly above everything in the readyqueue and on the stacks
(`prioFamilySchedule_keeps_top`): whatever an empty-list read yields, the call either keeps
it outright or parks it, picks, finds the pick below it and picks it back.

So an owner runs until it releases, blocks or ends; it is never moved back into the
scheduler's lists while it holds a resource, and since it only takes a resource while it is
the current process, no process in the readyqueue, a stack or a waitqueue ever owns one
(`Exclusive`).  A critical section is never interleaved with another: every owner is the
running process or has left the system (`pcp_owner_never_preempted`).

## Main definitions

* `CeilingRuns`: arrivals below `MAX_PRIO` at their original priority, one resource at a time
* `Exclusive`: the invariant

## Main results

* `prioFamilySchedule_keeps_top`: a strictly highest current process is kept
* `exclusive_of_reachable`: every reachable state keeps the invariant
* `pcp_owner_never_preempted`: under PCP no owner is in a list, and a `pcp_schedule` call
  returns an owner that may continue
-/

namespace SchedSim

open scoped List

variable {nr : Nat}

/-! ## A strictly highest current process is kept -/

/-- What two lists that differ in one last entry share: the other's entries. -/
theorem mem_of_perm_append_singleton {α : Type} {l₁ l₂ : List α} {a b : α}
    (h : l₁ ++ [a] ~ l₂ ++ [b]) (hab : a ≠ b) : a ∈ l₂ := by
  rcases List.mem_append.mp (h.subset (List.mem_append_right _ (List.mem_singleton_self a))) with
    h | h
  · exact h
  · exact absurd (List.mem_singleton.mp h) hab

section Skeleton

variable (v : PrioVariant) {s t u : State nr}

/-- The refill leaves the stack empty or as it was. -/
theorem prioRefill_stack (t : State nr) :
    (prioRefill v t).stack v.stack = [] ∨ (prioRefill v t).stack v.stack = t.stack v.stack := by
  unfold prioRefill
  split_ifs
  · exact .inl (by simp)
  · exact .inr rfl
  · exact .inr rfl

/-- A preempted current process that was in no list is on the stack only as its top. -/
theorem Preempt.head_of_mem {c : Pid} (hm : Preempt v s c u) (hcp : c ∉ s.pool)
    (h : c ∈ u.stack v.stack) : (u.stack v.stack).head? = some c := by
  have hs : c ∉ s.stack v.stack := fun h' =>
    hcp (List.mem_append_right _ (List.mem_flatMap.mpr ⟨v.stack, StackId.mem_all _, h'⟩))
  cases hm with
  | push => simp
  | ready => exact absurd h hs
  | readyTail => exact absurd h hs

/-- After a preempted current process that was in no list, `pick_next` of a variant that
flushes its own stack leaves that process on the stack only as its top. -/
theorem prioPickNext_head_of_mem (hflush : v.flush = v.stack) {c m : Pid}
    (hm : Preempt v s c u) (hcp : c ∉ s.pool) (hu : prioPickNext v u = some (t, some m))
    (h : c ∈ t.stack v.stack) : (t.stack v.stack).head? = some c := by
  have hne : t.stack v.stack ≠ [] := List.ne_nil_of_mem h
  -- the stack was flushed, which empties it, or is as the refill left it
  have ht : t.stack v.stack = u.stack v.stack := by
    rcases (prioPickNext_some v hflush hu).2 with e | e
    · exact absurd e hne
    · rcases prioRefill_stack v u with e' | e'
      · exact absurd (e.trans e') hne
      · exact e.trans e'
  rw [ht] at h ⊢
  exact Preempt.head_of_mem v hm hcp h

/-- **A strictly highest current process is kept.**  For a variant that flushes its own
stack, when the current process may continue, is in no list, and has a priority strictly
above every process in the readyqueue and on the stacks, a call of the skeleton returns it,
whatever an empty-list read yields. -/
theorem prioFamilySchedule_keeps_top (hflush : v.flush = v.stack) {sentinel : Option Nat}
    {c : Pid} {n : Option Pid} (hc : s.continuing = some c) (hcp : c ∉ s.pool)
    (hk : ∀ k, some v.stack ≠ some k → s.stack k = [])
    (htop : ∀ y ∈ s.pool, (s.procs y).prio < (s.procs c).prio)
    (h : prioFamilySchedule v sentinel s = some (t, n)) : n = some c := by
  have hspec : SchedSpec (some v.stack) s t n := prioFamilySchedule_spec v h
  have hprocs := prioFamilySchedule_procs v h
  rcases prioFamilySchedule_cases v h with
    ⟨hc', -⟩ | ⟨c', hc', -, -, he⟩ | ⟨c', u, hc', hm, hu⟩
  · simp [hc] at hc'
  · cases he
    exact hc'.symm.trans hc
  rw [Option.some.inj (hc'.symm.trans hc)] at hm
  cases n with
  | none => exact absurd (prioPickNext_none v hu).2 (Preempt.spec v hm).2.2
  | some m =>
    by_contra hmc
    have hmc' : m ≠ c := fun e => hmc (e ▸ rfl)
    have hpick := (prioPickNext_some v hflush hu).1
    have hperm := hspec.perm
    rw [runnable_eq_some hc] at hperm
    -- the pick was in a list, and `c` is left in one
    have hms : m ∈ s.pool := mem_of_perm_append_singleton hperm.symm hmc'
    have hct : c ∈ t.pool := mem_of_perm_append_singleton hperm (Ne.symm hmc')
    have hlt : (t.procs m).prio < (t.procs c).prio := by
      rw [hprocs]
      exact htop m hms
    rcases List.mem_append.mp hct with hr | hst
    · -- in the readyqueue, `c` would beat the pick
      exact absurd (hpick.ready c hr) (not_le.mpr hlt)
    · obtain ⟨k, -, hk'⟩ := List.mem_flatMap.mp hst
      by_cases ek : k = v.stack
      · -- on the stack, `c` is its top, which has the pick's priority
        subst ek
        exact absurd (hpick.top c (prioPickNext_head_of_mem v hflush hm hcp hu hk'))
          (ne_of_gt hlt)
      · have hnil := hspec.stack_nil k (fun e => ek (Option.some.inj e).symm)
          (hk k fun e => ek (Option.some.inj e).symm)
        simp [hnil] at hk'

end Skeleton

/-! ## The invariant of PCP -/

/-- The discipline: every process arrives at its original priority, below `MAX_PRIO`, and a
process calls acquire only while it owns no resource. -/
def CeilingRuns (maxPrio : Nat) (s : State nr) (a : Action nr) : Prop :=
  ArrivesWith (fun p => p.prio = p.prioOrig ∧ p.prioOrig < maxPrio) s a ∧ OneAtATime s a

instance (maxPrio : Nat) (s : State nr) (a : Action nr) : Decidable (CeilingRuns maxPrio s a) := by
  unfold CeilingRuns
  infer_instance

theorem CeilingRuns.arrivesWith {maxPrio : Nat} {s : State nr} {a : Action nr}
    (h : CeilingRuns maxPrio s a) : ArrivesWith (fun p => p.prio = p.prioOrig) s a := by
  cases a
  case arrive p proc => exact h.1.1
  all_goals trivial

theorem State.PrioOnly.queued_eq {s t : State nr} (h : s.PrioOnly t) : t.queued = s.queued := by
  simp only [State.queued, h.pool_eq, State.waiting, h.resources]

/-- The ceiling and the original priorities hold, every original priority is below
`MAX_PRIO`, and no owner is in a list. -/
structure Exclusive (maxPrio : Nat) (s : State nr) : Prop where
  ceiling : Ceiling maxPrio s
  orig : OrigUnlessOwner s
  below : ∀ p, (s.procs p).prioOrig < maxPrio
  owner : ∀ r o, (s.resources r).owner = some o → o ∉ s.queued

namespace Exclusive

variable {maxPrio : Nat} {s t : State nr}

/-- A process in the scheduler's lists runs below `MAX_PRIO`. -/
theorem prio_lt_of_mem (h : Exclusive maxPrio s) {p : Pid} (hp : p ∈ s.pool) :
    (s.procs p).prio < maxPrio := by
  have hown : OwnsNone s p := fun r e => h.owner r p e (List.mem_append_left _ hp)
  rw [h.orig p hown]
  exact h.below p

/-- Under PCP a current owner that may continue is returned by every call. -/
theorem schedule_keeps_owner (h : Exclusive maxPrio s) (hP : Partition .pcp s) {r : Fin nr}
    {c : Pid} (hr : (s.resources r).owner = some c) (hc : s.continuing = some c)
    {sentinel : Option Nat} {t : State nr} {n : Option Pid}
    (hs : pcpSchedule sentinel s = some (t, n)) : n = some c := by
  refine prioFamilySchedule_keeps_top pcpVariant rfl hc
    (hP.current c ((s.continuing_eq_some).mp hc).1).1 hP.stack (fun y hy => ?_) hs
  rw [h.ceiling.prio r c hr]
  exact h.prio_lt_of_mem hy

/-- No owner is moved into a list by a `pcp_schedule` call. -/
theorem owner_schedule (h : Exclusive maxPrio s) (hP : Partition .pcp s) {sentinel : Option Nat}
    {t : State nr} {n : Option Pid} (hs : pcpSchedule sentinel s = some (t, n)) :
    ∀ r o, (t.resources r).owner = some o → o ∉ t.queued := by
  have hspec : SchedSpec (some pcpVariant.stack) s t n := prioFamilySchedule_spec pcpVariant hs
  intro r o hr hq
  rw [hspec.resources] at hr
  have hos := h.owner r o hr
  have hw : t.waiting = s.waiting := by simp only [State.waiting, hspec.resources]
  rcases List.mem_append.mp hq with hq | hq
  · rcases List.mem_append.mp (hspec.perm.symm.subset (List.mem_append_left _ hq)) with
      hq' | hq'
    · exact hos (List.mem_append_left _ hq')
    · -- the owner may continue, so it is kept, and the lists are left as they were
      have hc : s.continuing = some o := Option.mem_toList.mp hq'
      have hn := h.schedule_keeps_owner hP hr hc hs
      have hperm := hspec.perm
      rw [runnable_eq_some hc, hn, Option.toList_some] at hperm
      exact hos (List.mem_append_left _ ((List.perm_append_right_iff _).mp hperm |>.symm.subset
        hq))
  · exact hos (List.mem_append_right _ (hw ▸ hq))

/-- A move that keeps the ceiling and the original priorities, makes no new owner and
puts no new process in a list keeps the invariant. -/
theorem of_subset (h : Exclusive maxPrio s) (hC : Ceiling maxPrio t) (hO : OrigUnlessOwner t)
    (hb : ∀ p, (t.procs p).prioOrig = (s.procs p).prioOrig)
    (ho : ∀ r o, (t.resources r).owner = some o → ∃ r', (s.resources r').owner = some o)
    (hq : ∀ p ∈ t.queued, p ∈ s.queued) : Exclusive maxPrio t where
  ceiling := hC
  orig := hO
  below p := hb p ▸ h.below p
  owner r o hr hq' := by
    obtain ⟨r', hr'⟩ := ho r o hr
    exact h.owner r' o hr' (hq o hq')

/-- Every move of the driver under PCP keeps the invariant, under the discipline. -/
theorem exec (hP : Partition .pcp s) {a : Action nr} (ha : CeilingRuns maxPrio s a)
    (h : Exclusive maxPrio s) (he : SchedSim.exec maxPrio .pcp a s = some t) :
    Exclusive maxPrio t := by
  have hC := h.ceiling.exec ha.2 he
  have hO := h.orig.exec (.inl rfl) ha.arrivesWith he
  cases a with
  | arrive p proc =>
    simp only [SchedSim.exec] at he
    split_ifs at he with hm
    cases he
    refine ⟨hC, hO, fun q => ?_, fun r o hr hq => ?_⟩
    · by_cases e : q = p
      · simpa [e] using ha.1.2
      · simpa [e] using h.below q
    · have hop : o ≠ p := fun e => hm (.inr (.inr ((s.mem_owners).mpr ⟨r, e ▸ hr⟩)))
      rcases List.mem_cons.mp ((s.arrive_queued p proc).subset hq) with e | hq
      · exact hop e
      · exact h.owner r o hr hq
  | acquire r =>
    obtain ⟨c, hc, rfl⟩ := Option.map_eq_some'.mp he
    have hcq := hP.caller_not_mem hc
    rcases Policy.acquire_cases maxPrio .pcp c r s with ⟨-, hpo⟩ | ⟨-, -, hpo⟩
    · -- `c` takes `r`, and it is in no list
      refine ⟨hC, hO, fun q => by rw [hpo.prioOrig]; exact h.below q, fun r' o hr hq => ?_⟩
      rw [hpo.queued_eq, State.setOwner_queued] at hq
      rw [hpo.resources, State.setOwner_owner] at hr
      split_ifs at hr
      · exact hcq (Option.some.inj hr ▸ hq)
      · exact h.owner r' o hr hq
    · -- `c` blocks, and it owns nothing
      have hcn : c ∉ s.owners := ha.2 c ((s.caller_eq_some).mp hc).1
      refine ⟨hC, hO, fun q => by rw [hpo.prioOrig, State.block_prioOrig]; exact h.below q,
        fun r' o hr hq => ?_⟩
      rw [hpo.resources, State.block_owner] at hr
      rw [hpo.queued_eq] at hq
      rcases List.mem_cons.mp ((s.block_queued c r).subset hq) with rfl | hq
      · exact hcn ((s.mem_owners).mpr ⟨r', hr⟩)
      · exact h.owner r' o hr hq
  | release r =>
    obtain ⟨c, -, he⟩ := Option.bind_eq_some.mp he
    obtain ⟨-, ht⟩ := releaseWith_cases picksWaiter_getHighestPrioWait he
    have hpo := prioOnly_restorePrio true c s
    -- giving `r` up makes no new owner, and keeps the lists and the original priorities
    have ho : ∀ r' o, (((restorePrio true c s).setOwner r none).resources r').owner = some o →
        (s.resources r').owner = some o := fun r' o hr => by
      rw [State.setOwner_owner, hpo.resources] at hr
      split_ifs at hr
      exact hr
    have hq : ((restorePrio true c s).setOwner r none).queued = s.queued := by
      rw [State.setOwner_queued, hpo.queued_eq]
    rcases ht with rfl | ⟨w, hw, -, rfl⟩
    · refine h.of_subset hC hO (fun p => hpo.prioOrig p) (fun r' o hr => ⟨r', ho r' o hr⟩)
        fun p hp => hq ▸ hp
    · have hw' : w ∈ (((restorePrio true c s).setOwner r none).resources r).waitqueue := by
        rwa [setOwner_waitqueue, hpo.resources]
      refine h.of_subset hC hO (fun p => by rw [State.wake_prioOrig]; exact hpo.prioOrig p)
        (fun r' o hr => ⟨r', ho r' o (by rwa [State.wake_owner] at hr)⟩)
        fun p hp => hq ▸ (State.wake_queued _ hw').subset hp
  | schedule x =>
    obtain ⟨⟨u, n⟩, hr, rfl⟩ := Option.map_eq_some'.mp he
    refine ⟨hC, hO, fun q => ?_,
      (h.owner_schedule hP hr : ∀ r o, (u.resources r).owner = some o → o ∉ u.queued)⟩
    rw [prioFamilySchedule_procs _ hr]
    exact h.below q
  | tick =>
    obtain ⟨c, -, rfl⟩ := Option.map_eq_some'.mp he
    exact ⟨hC, hO, fun q => by rw [State.age_prioOrig]; exact h.below q, h.owner⟩

end Exclusive

theorem exclusive_of_reachable {maxPrio : Nat} (hmax : 0 < maxPrio) {s : State nr}
    (hs : Reachable maxPrio .pcp (CeilingRuns maxPrio) s) : Exclusive maxPrio s := by
  induction hs with
  | init =>
    exact ⟨⟨fun _ _ h => (by cases h), fun _ _ _ h => (by cases h)⟩, fun _ _ => rfl,
      fun _ => hmax, fun _ _ h => (by cases h)⟩
  | step hs ha he ih => exact ih.exec (partition_of_reachable hs) ha he

/-- **Under PCP an owner is never preempted.**  When every process arrives at its original
priority below `MAX_PRIO` and holds one resource at a time, in every reachable state no
process in the readyqueue, a stack or a waitqueue owns a resource, so every owner is the
current process or has left the system; and a `pcp_schedule` call made while an owner may
continue returns it, whatever an empty-list read yields. -/
theorem pcp_owner_never_preempted {maxPrio : Nat} (hmax : 0 < maxPrio) {s : State nr}
    (hs : Reachable maxPrio .pcp (CeilingRuns maxPrio) s) :
    (∀ r o, (s.resources r).owner = some o → o ∉ s.queued) ∧
      ∀ r c, (s.resources r).owner = some c → s.continuing = some c →
        ∀ x, ∃ t, pcpSchedule (some x) s = some (t, some c) := by
  have h := exclusive_of_reachable hmax hs
  refine ⟨h.owner, fun r c hr hc x => ?_⟩
  obtain ⟨⟨t, n⟩, ht⟩ :=
    Option.isSome_iff_exists.mp (Policy.schedule_isSome maxPrio .pcp x s)
  have hn : n = some c := h.schedule_keeps_owner (partition_of_reachable hs) hr hc ht
  exact ⟨t, hn ▸ ht⟩

/-- With `MAX_PRIO` 10, process 1 arrives at priority 3 and process 2 at priority 5; 2 runs
and takes `r0`, and process 3 arrives at priority 9: 2 owns `r0` and may go on. -/
theorem pcp_owner_never_preempted_after_arrival :
    ∃ s : State 1, Reachable 10 .pcp (CeilingRuns 10) s ∧ (s.resources 0).owner = some 2 ∧
      s.continuing = some 2 ∧
      ((∀ r o, (s.resources r).owner = some o → o ∉ s.queued) ∧
        ∀ r c, (s.resources r).owner = some c → s.continuing = some c →
          ∀ x, ∃ t, pcpSchedule (some x) s = some (t, some c)) := by
  obtain ⟨s, hs, ho, hc⟩ : ∃ s : State 1, Reachable 10 .pcp (CeilingRuns 10) s ∧
      (s.resources 0).owner = some 2 ∧ s.continuing = some 2 :=
    exists_reachable_of_run [.arrive 1 ⟨.ready, 0, 5, 3, 3⟩, .arrive 2 ⟨.ready, 0, 5, 5, 5⟩,
      .schedule 0, .acquire 0, .arrive 3 ⟨.ready, 0, 5, 9, 9⟩] (by decide)
  exact ⟨s, hs, ho, hc, pcp_owner_never_preempted (by decide) hs⟩

end SchedSim
