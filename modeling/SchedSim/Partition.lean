import SchedSim.Driver

/-!
# Queue partition and conservation of processes

The spec's *queue partition* (§3, §8): under every policy and along every run, a process
is linked into at most one of the readyqueue, the policy's stack and the waitqueues, the
running process into none, and a waitqueue holds only blocked processes, which is what
the `assert`s of the release functions check.  Every `schedule()` call but one of round
robin conserves the processes: what was held, with the current process when it may
continue, is what is held afterwards with the returned process.  `rr_schedule` keeps a
process that may continue only when its `remain_time`, an `int`, is positive, which fails
from `2^31` ticks to go on; it then drops that process, which is linked nowhere while it
may still run (`rr_schedule_loses_current`), against the spec's "never zero while READY".

`Partition` is the invariant.  Each move of the driver keeps it (`Partition.exec`), so
every reachable state satisfies it (`partition_of_reachable`), round robin's drop
included.  The step for `schedule()` is the contract `Conserves` with what the policy keeps
(`Policy.kept`), proved once per schedule function; the steps for acquire and release are
`Policy.acquire_cases` and `Policy.release_eq`.

## Main definitions

* `Partition`: the invariant

## Main results

* `partition_of_reachable`: every reachable state satisfies it
* `queue_partition`: the spec's queue partition and conservation, for every policy
* `rr_schedule_loses_current`: a run on which round robin drops a process that may continue
-/

namespace SchedSim

open scoped List

variable {nr : Nat}

/-- The queue partition of a state under policy `pol`: nothing is linked twice, the current
process is in no list of the scheduler and, unless it is blocked, in no waitqueue; every
waiter is blocked; and only the policy's own stack is ever used. -/
structure Partition (pol : Policy) (s : State nr) : Prop where
  nodup : s.queued.Nodup
  current : ∀ c, s.current = some c →
    c ∉ s.pool ∧ ((s.procs c).status ≠ .blocked → c ∉ s.waiting)
  blocked : ∀ p ∈ s.waiting, (s.procs p).status = .blocked
  stack : ∀ k, pol.stack ≠ some k → s.stack k = []

namespace Partition

variable {pol : Policy} {s t : State nr}

theorem init : Partition pol (State.init : State nr) where
  nodup := by simp [State.init_queued]
  current _ h := by cases h
  blocked _ h := by simp [State.waiting, State.init] at h
  stack _ _ := rfl

theorem caller_not_mem (hP : Partition pol s) {c : Pid} (hc : s.caller = some c) :
    c ∉ s.queued := by
  obtain ⟨hcur, hst⟩ := (s.caller_eq_some).mp hc
  obtain ⟨h₁, h₂⟩ := hP.current c hcur
  simpa [State.queued, h₁] using h₂ hst

theorem prioOnly (hP : Partition pol s) (h : s.PrioOnly t) : Partition pol t := by
  have hw : t.waiting = s.waiting := by simp only [State.waiting, h.resources]
  have hp : t.pool = s.pool := h.pool_eq
  refine ⟨by rw [State.queued, hp, hw]; exact hP.nodup, fun c hc => ?_, fun p hp' => ?_,
    fun k hk => by rw [h.stack]; exact hP.stack k hk⟩
  · rw [hp, hw, h.status]
    exact hP.current c (h.current ▸ hc)
  · rw [h.status]
    exact hP.blocked p (hw ▸ hp')

theorem setOwner (hP : Partition pol s) (r : Fin nr) (o : Option Pid) :
    Partition pol (s.setOwner r o) := by
  have hw : (s.setOwner r o).waiting = s.waiting := by
    simp only [State.waiting, setOwner_waitqueue]
  exact ⟨(s.setOwner_queued r o).symm ▸ hP.nodup, fun c hc => by
      rw [hw]
      exact hP.current c hc,
    fun p hp => hP.blocked p (hw ▸ hp), hP.stack⟩

theorem arrive (hP : Partition pol s) {p : Pid} (hm : ¬s.Mentions p) (proc : Proc) :
    Partition pol (s.arrive p proc) := by
  simp only [State.Mentions, not_or] at hm
  obtain ⟨hq, hcur, -⟩ := hm
  have hw : (s.arrive p proc).waiting = s.waiting := rfl
  have hp : (s.arrive p proc).pool = s.readyqueue ++ [p] ++ s.stackList := rfl
  refine ⟨(s.arrive_queued p proc).nodup_iff.mpr (List.nodup_cons.mpr ⟨hq, hP.nodup⟩),
    fun c hc => ?_, fun q hq' => ?_, hP.stack⟩
  · have hcp : c ≠ p := by rintro rfl; exact hcur hc
    have h := hP.current c hc
    simp only [hp, hw, State.arrive_procs, if_neg hcp]
    simpa [State.pool, hcp] using h
  · have hqp : q ≠ p := by
      rintro rfl
      exact hq (List.mem_append_right _ (hw ▸ hq'))
    simpa [hqp] using hP.blocked q hq'

theorem block (hP : Partition pol s) {c : Pid} (hc : s.caller = some c) (r : Fin nr) :
    Partition pol (s.block c r) := by
  have hnot := hP.caller_not_mem hc
  have hcur := ((s.caller_eq_some).mp hc).1
  refine ⟨(s.block_queued c r).nodup_iff.mpr (List.nodup_cons.mpr ⟨hnot, hP.nodup⟩),
    fun c' hc' => ?_, fun q hq => ?_, hP.stack⟩
  · obtain rfl : c' = c := Option.some_injective _ (hc'.symm.trans hcur)
    exact ⟨fun h => hnot (List.mem_append_left _ h), fun h => absurd (by simp) h⟩
  · rcases s.mem_waiting_block hq with rfl | hq
    · simp
    · have hqc : q ≠ c := fun e => hnot (e ▸ List.mem_append_right _ hq)
      simpa [hqc] using hP.blocked q hq

theorem wake (hP : Partition pol s) {c w : Pid} (hc : s.caller = some c) {r : Fin nr}
    (hw : w ∈ (s.resources r).waitqueue) : Partition pol (s.wake w r) := by
  have hw' : w ∈ s.waiting := (s.mem_waiting).mpr ⟨r, hw⟩
  have hcur := (s.caller_eq_some).mp hc
  have hwc : w ≠ c := fun e => hcur.2 (e ▸ hP.blocked w hw')
  have hnodup := (s.wake_queued hw).nodup_iff.mpr hP.nodup
  have hp : (s.wake w r).pool = s.readyqueue ++ [w] ++ s.stackList := rfl
  have hwp : w ∈ (s.wake w r).pool := by simp [hp]
  refine ⟨hnodup, fun c' hc' => ?_, fun q hq => ?_, hP.stack⟩
  · obtain rfl : c' = c := Option.some_injective _ (hc'.symm.trans hcur.1)
    have h := hP.current c' hcur.1
    refine ⟨?_, fun _ h' => h.2 hcur.2 (s.mem_waiting_wake h')⟩
    rw [hp]
    simpa [State.pool, Ne.symm hwc] using h.1
  · have hqw : q ≠ w := by
      rintro rfl
      exact List.disjoint_of_nodup_append hnodup hwp hq
    simpa [hqw] using hP.blocked q (s.mem_waiting_wake hq)

theorem schedule (hP : Partition pol s) {kept : List Pid} {n : Option Pid}
    (hspec : Conserves pol.stack s t kept n) (hk : kept.Sublist s.runnable) :
    Partition pol { t with current := n } := by
  have hw : t.waiting = s.waiting := by simp only [State.waiting, hspec.resources]
  have hX : (s.pool ++ s.runnable ++ s.waiting).Nodup := by
    unfold State.runnable
    cases hcont : s.continuing with
    | none => simpa using hP.nodup
    | some c =>
      obtain ⟨hcur, hst, -⟩ := (s.continuing_eq_some).mp hcont
      obtain ⟨h₁, h₂⟩ := hP.current c hcur
      have hperm : s.pool ++ [c] ++ s.waiting ~ c :: s.queued := by
        simp [State.queued, List.append_assoc]
      exact hperm.nodup_iff.mpr (List.nodup_cons.mpr ⟨by simp [State.queued, h₁, h₂ hst],
        hP.nodup⟩)
  have hY : (t.pool ++ t.waiting ++ n.toList).Nodup := by
    refine ((hspec.perm.append_right s.waiting).trans ?_).nodup_iff.mp
      (hX.sublist ((hk.append_left s.pool).append_right s.waiting))
    rw [hw, List.append_assoc, List.append_assoc]
    exact (List.perm_append_comm.append_left _)
  refine ⟨(List.nodup_append.mp hY).1, fun c hc => ?_, fun q hq => ?_, fun k hk => ?_⟩
  · have hmem : c ∈ n.toList := by simp [show n = some c from hc]
    have hdis := (List.nodup_append.mp hY).2.2
    exact ⟨fun h => hdis (List.mem_append_left _ h) hmem,
      fun _ h => hdis (List.mem_append_right _ h) hmem⟩
  · rw [hspec.status]
    exact hP.blocked q (hw ▸ hq)
  · exact hspec.stack_nil k hk (hP.stack k hk)

theorem age (hP : Partition pol s) (c : Pid) : Partition pol (s.age c) := by
  have hq : (s.age c).queued = s.queued := rfl
  have hst : ∀ p, ((s.age c).procs p).status = (s.procs p).status := fun p => by
    by_cases h : p = c <;> simp [State.age, h]
  exact ⟨hq ▸ hP.nodup, fun c' hc' => by rw [hst]; exact hP.current c' hc',
    fun p hp => by rw [hst]; exact hP.blocked p hp, hP.stack⟩

/-- Every move of the driver keeps the partition. -/
theorem exec {maxPrio : Nat} (hP : Partition pol s) {a : Action nr}
    (h : SchedSim.exec maxPrio pol a s = some t) : Partition pol t := by
  cases a with
  | arrive p proc =>
    simp only [SchedSim.exec] at h
    split_ifs at h with hm
    cases h
    exact hP.arrive hm proc
  | acquire r =>
    simp only [SchedSim.exec, Option.map_eq_some'] at h
    obtain ⟨c, hc, rfl⟩ := h
    rcases Policy.acquire_cases maxPrio pol c r s with ⟨-, hpo⟩ | ⟨-, -, hpo⟩
    · exact (hP.setOwner r _).prioOnly hpo
    · exact (hP.block hc r).prioOnly hpo
  | release r =>
    simp only [SchedSim.exec, Option.bind_eq_some] at h
    obtain ⟨c, hc, h⟩ := h
    obtain ⟨pick, restore, hpick, heq⟩ := Policy.release_eq maxPrio pol c r s
    rw [heq] at h
    have hu := (hP.prioOnly (prioOnly_restorePrio restore c s)).setOwner r none
    have hcu : ((restorePrio restore c s).setOwner r none).caller = some c := by
      have hpo := prioOnly_restorePrio restore c s
      simp only [State.caller_eq_some, State.setOwner, State.modifyResource_current,
        State.modifyResource_procs, hpo.current, hpo.status] at hc ⊢
      exact hc
    rcases (releaseWith_cases hpick h).2 with rfl | ⟨w, hw, -, rfl⟩
    · exact hu
    · refine hu.wake hcu ?_
      rw [setOwner_waitqueue, (prioOnly_restorePrio restore c s).resources]
      exact hw
  | schedule x =>
    simp only [SchedSim.exec, Option.map_eq_some'] at h
    obtain ⟨r, hr, rfl⟩ := h
    exact hP.schedule (Policy.schedule_conserves maxPrio pol hr) (pol.kept_sublist s)
  | tick =>
    simp only [SchedSim.exec, Option.map_eq_some'] at h
    obtain ⟨c, -, rfl⟩ := h
    exact hP.age c

end Partition

theorem partition_of_reachable {maxPrio : Nat} {pol : Policy}
    {adm : State nr → Action nr → Prop} {s : State nr} (hs : Reachable maxPrio pol adm s) :
    Partition pol s := by
  induction hs with
  | init => exact .init
  | step _ _ he ih => exact ih.exec he

theorem Partition.stackList_eq {pol : Policy} {s : State nr} (hP : Partition pol s) :
    s.stackList = pol.aux s := by
  have h := hP.stack
  cases pol <;> simp_all [State.stackList, StackId.all, Policy.aux, Policy.stack]

/-- **Queue partition and conservation** (spec §3, §8), for every policy and every reachable
state: the readyqueue, the policy's stack and the waitqueues (concatenated in `waiting`)
are duplicate-free and pairwise disjoint; the running process is in none of them; every
waiter is blocked, so a release by the owner passes its `assert`s; and every `schedule()`
call, whatever an empty-list read yields, returns, conserves the processes with what it
keeps of the one that may continue (`Policy.kept`: all of it, but under round robin only
while its `remain_time` is positive), and returns NULL only when it had none. -/
theorem queue_partition {maxPrio : Nat} {pol : Policy} {s : State nr}
    (hs : Reachable maxPrio pol (fun _ _ => True) s) :
    (s.readyqueue ++ pol.aux s ++ s.waiting).Nodup ∧
    (∀ c, s.current = some c → (s.procs c).status ≠ .blocked →
      c ∉ s.readyqueue ++ pol.aux s ++ s.waiting) ∧
    (∀ r, ∀ p ∈ (s.resources r).waitqueue, (s.procs p).status = .blocked) ∧
    (∀ c r, s.current = some c → (s.resources r).owner = some c →
      ((pol.scheduler maxPrio).release c r s).isSome) ∧
    ∀ x : Nat, ∃ t n, (pol.scheduler maxPrio).schedule (some x) s = some (t, n) ∧
      s.readyqueue ++ pol.aux s ++ pol.kept s ~ t.readyqueue ++ pol.aux t ++ n.toList ∧
      (n = none → s.readyqueue ++ pol.aux s ++ pol.kept s = []) := by
  have hP := partition_of_reachable hs
  have hpool : s.pool = s.readyqueue ++ pol.aux s := by rw [State.pool, hP.stackList_eq]
  refine ⟨hpool ▸ hP.nodup, fun c hc hst => ?_, fun r p hp => ?_, fun c r _ ho => ?_,
    fun x => ?_⟩
  · rw [← hpool]
    have h := hP.current c hc
    simpa [h.1] using h.2 hst
  · exact hP.blocked p ((s.mem_waiting).mpr ⟨r, hp⟩)
  · obtain ⟨pick, restore, hpick, heq⟩ := Policy.release_eq maxPrio pol c r s
    rw [heq]
    exact releaseWith_isSome hpick ho fun p hp => hP.blocked p ((s.mem_waiting).mpr ⟨r, hp⟩)
  · obtain ⟨⟨t, n⟩, hr⟩ :=
      Option.isSome_iff_exists.mp (Policy.schedule_isSome maxPrio pol x s)
    have hspec := Policy.schedule_conserves maxPrio pol hr
    have hP' := hP.schedule hspec (pol.kept_sublist s)
    have hpool' : t.pool = t.readyqueue ++ pol.aux t := by
      rw [State.pool, show t.stackList = pol.aux t from hP'.stackList_eq]
    refine ⟨t, n, hr, ?_, fun hn => ?_⟩
    · rw [← hpool, ← hpool']
      exact hspec.perm
    · obtain ⟨h₁, h₂, h₃⟩ := hspec.eq_none hn
      have : pol.aux s = [] := by
        unfold Policy.aux
        split
        · exact h₃ _ ‹_›
        · rfl
      simp [h₁, h₂, this]

/-- Under round robin with one resource, processes 1, 2 and 3 arrive; 1 runs and takes `r0`;
2 runs, with 1 parked on `rr_stack`, and blocks on `r0`; and 3 runs. -/
theorem queue_partition_after_block :
    ∃ s : State 1, Reachable 0 .rr (fun _ _ => True) s ∧ s.current = some 3 ∧
      s.stack .rr = [1] ∧ (s.resources 0).waitqueue = [2] ∧
      (s.readyqueue ++ Policy.rr.aux s ++ s.waiting).Nodup ∧
      (∀ c, s.current = some c → (s.procs c).status ≠ .blocked →
        c ∉ s.readyqueue ++ Policy.rr.aux s ++ s.waiting) ∧
      (∀ r, ∀ p ∈ (s.resources r).waitqueue, (s.procs p).status = .blocked) ∧
      (∀ c r, s.current = some c → (s.resources r).owner = some c →
        ((Policy.rr.scheduler 0).release c r s).isSome) ∧
      ∀ x : Nat, ∃ t n, (Policy.rr.scheduler 0).schedule (some x) s = some (t, n) ∧
        s.readyqueue ++ Policy.rr.aux s ++ Policy.rr.kept s ~
          t.readyqueue ++ Policy.rr.aux t ++ n.toList ∧
        (n = none → s.readyqueue ++ Policy.rr.aux s ++ Policy.rr.kept s = []) := by
  obtain ⟨s, hs, h⟩ : ∃ s : State 1, Reachable 0 .rr (fun _ _ => True) s ∧
      s.current = some 3 ∧ s.stack .rr = [1] ∧ (s.resources 0).waitqueue = [2] :=
    exists_reachable_of_run [.arrive 1 ⟨.ready, 0, 5, 1, 1⟩, .arrive 2 ⟨.ready, 0, 5, 1, 1⟩,
      .arrive 3 ⟨.ready, 0, 5, 1, 1⟩, .schedule 0, .acquire 0, .schedule 0, .acquire 0,
      .schedule 0] (by decide)
  exact ⟨s, hs, h.1, h.2.1, h.2.2, queue_partition hs⟩

/-- **Round robin loses a process that may continue.**  Process 1 arrives with a lifespan
of `2^31` ticks and runs.  At the next call it may continue, but `remain_time` returns the
`int` of the unsigned `2^31`, which is `-2^31`: `rr_schedule` does not park it, finds the
readyqueue and `rr_stack` empty, and returns NULL, and process 1 is linked nowhere. -/
theorem rr_schedule_loses_current :
    ∃ s : State 0, Reachable 0 .rr (fun _ _ => True) s ∧
      s.readyqueue ++ Policy.rr.aux s ++ s.runnable = [1] ∧
      (rrSchedule s).2 = none ∧ (rrSchedule s).1.queued = [] :=
  exists_reachable_of_run [.arrive 1 ⟨.ready, 0, 2147483648, 1, 1⟩, .schedule 0] (by decide)

/-! ## Reads of an empty list -/

/-- **The priority family reads the head of an empty readyqueue.**  One process arrives and
is scheduled, under any policy; it then runs alone, and the next call of each of
`prio_schedule`, `pa_schedule`, `pcp_schedule` and `pip_schedule` evaluates
`get_highest_prio()->prio` on the empty readyqueue. -/
theorem priority_family_reads_empty_readyqueue :
    ∃ s : State 0, (∀ pol, Reachable 10 pol (fun _ _ => True) s) ∧
      prioSchedule none s = none ∧ paSchedule 10 none s = none ∧ pcpSchedule none s = none ∧
        pipSchedule none s = none := by
  let s : State 0 :=
    { (State.init : State 0).arrive 1 ⟨.ready, 0, 10, 1, 1⟩ with
      readyqueue := [], current := some 1 }
  have hs : ∀ pol, Reachable 10 pol (fun _ _ => True) s := fun pol => by
    refine Reachable.init.run (show run 10 pol (fun _ _ => True)
      [.arrive 1 ⟨.ready, 0, 10, 1, 1⟩, .schedule 0] State.init = some s from ?_)
    cases pol <;> rfl
  exact ⟨s, hs, prioFamilySchedule_none_of_readyqueue_nil _ rfl rfl,
    prioFamilySchedule_none_of_readyqueue_nil _ rfl rfl,
    prioFamilySchedule_none_of_readyqueue_nil _ rfl rfl,
    prioFamilySchedule_none_of_readyqueue_nil _ rfl rfl⟩

end SchedSim
