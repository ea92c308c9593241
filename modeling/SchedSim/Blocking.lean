import SchedSim.Partition

/-!
# Blocked exactly when waiting

None of the eight `schedule()` functions looks at a process's status before it hands the
CPU to a process from the readyqueue or a stack: `get_highest_prio`, `get_shortest` and the
head of the readyqueue are taken as they are.  That no blocked process is ever dispatched is
a property of whole runs: a process is blocked only by a failed acquire, which links the
caller into a waitqueue, and leaves the waitqueue only by a release, which marks it ready as
it moves it to the readyqueue's tail; and `schedule()` moves a process into the scheduler's
lists only when it may continue.

So, when every process arrives unblocked, in every reachable state under every policy no
process in the readyqueue or a stack is blocked, and a blocked current process waits in a
waitqueue (`Blocking`); with the partition this says that a process the state holds is
blocked exactly when it waits for a resource (`blocked_iff_waiting`), and no call of any
`schedule()` returns a blocked process (`schedule_never_returns_blocked`).

A process that holds one resource at a time calls acquire only while it owns none, so it
never blocks while it owns one; and a successful acquire is made by the current process,
which waits for nothing.  So under every policy no owner ever waits in a waitqueue
(`owner_never_waits`): a blocked process waits for a process that is not itself waiting,
and the processes that wait for each other form no cycle.

## Main definitions

* `Blocking`: the invariant
* `OwnersFree`: no owner waits

## Main results

* `blocking_of_reachable`: every reachable state keeps the invariant
* `blocked_iff_waiting`: blocked exactly when in a waitqueue
* `schedule_never_returns_blocked`: no policy dispatches a blocked process
* `owner_never_waits`: under one resource at a time, no owner waits
-/

namespace SchedSim

variable {nr : Nat}

/-- No process in the scheduler's lists is blocked, and a blocked current process is in a
waitqueue. -/
structure Blocking (s : State nr) : Prop where
  pool : ∀ p ∈ s.pool, (s.procs p).status ≠ .blocked
  current : ∀ c, s.current = some c → (s.procs c).status = .blocked → c ∈ s.waiting

namespace Blocking

variable {s t : State nr}

theorem init : Blocking (State.init : State nr) where
  pool p hp := by simp [State.pool, State.stackList, State.init] at hp
  current _ h := by cases h

/-- What a `schedule()` call may move into its lists, or return, is not blocked. -/
theorem not_blocked_of_mem (h : Blocking s) {p : Pid} (hp : p ∈ s.pool ++ s.runnable) :
    (s.procs p).status ≠ .blocked := by
  rcases List.mem_append.mp hp with hp | hp
  · exact h.pool p hp
  · obtain ⟨-, hst, -⟩ := (s.continuing_eq_some).mp (Option.mem_toList.mp hp)
    exact hst

theorem prioOnly (h : Blocking s) (hpo : s.PrioOnly t) : Blocking t := by
  have hw : t.waiting = s.waiting := by simp only [State.waiting, hpo.resources]
  refine ⟨fun p hp => ?_, fun c hc hb => ?_⟩
  · rw [hpo.status]
    exact h.pool p (hpo.pool_eq ▸ hp)
  · rw [hpo.status] at hb
    exact hw ▸ h.current c (hpo.current ▸ hc) hb

theorem setOwner (h : Blocking s) (r : Fin nr) (o : Option Pid) : Blocking (s.setOwner r o) :=
  ⟨h.pool, fun c hc hb => (setOwner_waiting s r o).symm ▸ h.current c hc hb⟩

/-- An arrival that is not blocked keeps the invariant. -/
theorem arrive (h : Blocking s) {p : Pid} (hm : ¬s.Mentions p) {proc : Proc}
    (hok : proc.status ≠ .blocked) : Blocking (s.arrive p proc) := by
  simp only [State.Mentions, not_or] at hm
  obtain ⟨hq, hcur, -⟩ := hm
  refine ⟨fun q hq' => ?_, fun c hc hb => ?_⟩
  · have hp : (s.arrive p proc).pool = s.readyqueue ++ [p] ++ s.stackList := rfl
    by_cases e : q = p
    · simpa [e] using hok
    · rw [hp] at hq'
      have hq' : q ∈ s.pool := by simpa [State.pool, e] using hq'
      simpa [e] using h.pool q hq'
  · have hcp : c ≠ p := by rintro rfl; exact hcur hc
    simp only [State.arrive_procs, if_neg hcp] at hb
    exact h.current c hc hb

/-- A failed acquire blocks the caller, which is in none of the scheduler's lists, and links
it into the waitqueue. -/
theorem block {pol : Policy} (h : Blocking s) (hP : Partition pol s) {c : Pid}
    (hc : s.caller = some c) (r : Fin nr) : Blocking (s.block c r) := by
  have hcur := ((s.caller_eq_some).mp hc).1
  have hcp : c ∉ s.pool := (hP.current c hcur).1
  refine ⟨fun q hq => ?_, fun c' hc' _ => ?_⟩
  · have hqc : q ≠ c := by rintro rfl; exact hcp hq
    simpa [hqc] using h.pool q hq
  · rw [Option.some.inj (hc'.symm.trans hcur)]
    exact (s.block c r).mem_waiting.mpr ⟨r, by simp⟩

/-- A wake-up marks the waiter ready as it links it at the readyqueue's tail; the caller is
not blocked before or after. -/
theorem wake (h : Blocking s) {c : Pid} (hc : s.caller = some c) (w : Pid) (r : Fin nr) :
    Blocking (s.wake w r) := by
  obtain ⟨hcur, hst⟩ := (s.caller_eq_some).mp hc
  refine ⟨fun q hq => ?_, fun c' hc' hb => ?_⟩
  · have hp : (s.wake w r).pool = s.readyqueue ++ [w] ++ s.stackList := rfl
    by_cases e : q = w
    · simp [e]
    · rw [hp] at hq
      have hq' : q ∈ s.pool := by simpa [State.pool, e] using hq
      simpa [e] using h.pool q hq'
  · obtain rfl : c' = c := Option.some.inj (hc'.symm.trans hcur)
    by_cases e : c' = w
    · simp [e] at hb
    · simp [e, hst] at hb

/-- A `schedule()` call moves only the process that may continue into its lists, and
returns one that was in them or may continue. -/
theorem schedule {own : Option StackId} (h : Blocking s) {kept : List Pid} {n : Option Pid}
    (hspec : Conserves own s t kept n) (hk : kept.Sublist s.runnable) :
    Blocking { t with current := n } := by
  have hmem : ∀ p ∈ t.pool ++ n.toList, (t.procs p).status ≠ .blocked := fun p hp => by
    rw [hspec.status]
    exact h.not_blocked_of_mem (hspec.subset hk hp)
  refine ⟨fun p hp => hmem p (List.mem_append_left _ hp), fun c hc hb => ?_⟩
  exact absurd hb (hmem c (List.mem_append_right _ (Option.mem_toList.mpr hc)))

theorem age (h : Blocking s) (c : Pid) : Blocking (s.age c) := by
  have hst : ∀ p, ((s.age c).procs p).status = (s.procs p).status := fun p => by
    by_cases e : p = c <;> simp [State.age, e]
  exact ⟨fun p hp => by rw [hst]; exact h.pool p hp,
    fun c' hc' hb => h.current c' hc' (by rwa [hst] at hb)⟩

/-- Every move of the driver keeps the invariant, when an arriving process is not
blocked. -/
theorem exec {maxPrio : Nat} {pol : Policy} {a : Action nr} (hP : Partition pol s)
    (ha : ArrivesWith (fun p => p.status ≠ .blocked) s a) (h : Blocking s)
    (he : SchedSim.exec maxPrio pol a s = some t) : Blocking t := by
  cases a with
  | arrive p proc =>
    simp only [SchedSim.exec] at he
    split_ifs at he with hm
    cases he
    exact h.arrive hm ha
  | acquire r =>
    obtain ⟨c, hc, rfl⟩ := Option.map_eq_some'.mp he
    rcases Policy.acquire_cases maxPrio pol c r s with ⟨-, hpo⟩ | ⟨-, -, hpo⟩
    · exact (h.setOwner r _).prioOnly hpo
    · exact (h.block hP hc r).prioOnly hpo
  | release r =>
    obtain ⟨c, hc, he⟩ := Option.bind_eq_some.mp he
    obtain ⟨pick, restore, hpick, heq⟩ := Policy.release_eq maxPrio pol c r s
    rw [heq] at he
    have hpo := prioOnly_restorePrio restore c s
    have hu := (h.prioOnly hpo).setOwner r none
    rcases (releaseWith_cases hpick he).2 with rfl | ⟨w, -, -, rfl⟩
    · exact hu
    · have hcu : ((restorePrio restore c s).setOwner r none).caller = some c := by
        simp only [State.caller_eq_some, State.setOwner, State.modifyResource_current,
          State.modifyResource_procs, hpo.current, hpo.status] at hc ⊢
        exact hc
      exact hu.wake hcu w r
  | schedule x =>
    obtain ⟨r, hr, rfl⟩ := Option.map_eq_some'.mp he
    exact h.schedule (Policy.schedule_conserves maxPrio pol hr) (pol.kept_sublist s)
  | tick =>
    obtain ⟨c, -, rfl⟩ := Option.map_eq_some'.mp he
    exact h.age c

end Blocking

/-- Every state reachable with unblocked arrivals keeps the invariant. -/
theorem blocking_of_reachable {maxPrio : Nat} {pol : Policy} {s : State nr}
    (hs : Reachable maxPrio pol (ArrivesWith fun p => p.status ≠ .blocked) s) : Blocking s := by
  induction hs with
  | init => exact .init
  | step hs ha he ih => exact ih.exec (partition_of_reachable hs) ha he

/-- **Blocked exactly when waiting.**  Under every policy, when every process arrives
unblocked, in every reachable state a process in one of the scheduler's lists or a
waitqueue, or the current one, is blocked exactly when it waits in a waitqueue. -/
theorem blocked_iff_waiting {maxPrio : Nat} {pol : Policy} {s : State nr}
    (hs : Reachable maxPrio pol (ArrivesWith fun p => p.status ≠ .blocked) s) {p : Pid}
    (hp : p ∈ s.queued ∨ s.current = some p) :
    (s.procs p).status = .blocked ↔ p ∈ s.waiting := by
  have hB := blocking_of_reachable hs
  refine ⟨fun hb => ?_, (partition_of_reachable hs).blocked p⟩
  rcases hp with hp | hp
  · rcases List.mem_append.mp hp with hp | hp
    · exact absurd hb (hB.pool p hp)
    · exact hp
  · exact hB.current p hp hb

/-- Under round robin, process 1 takes `r0` and is parked; process 2 runs and blocks on
`r0`: the current process is blocked, and so in a waitqueue. -/
theorem blocked_iff_waiting_after_block :
    ∃ s : State 1, Reachable 0 .rr (ArrivesWith fun p => p.status ≠ .blocked) s ∧
      s.current = some 2 ∧ (s.procs 2).status = .blocked ∧ 2 ∈ s.waiting := by
  obtain ⟨s, hs, hc, hb⟩ : ∃ s : State 1,
      Reachable 0 .rr (ArrivesWith fun p => p.status ≠ .blocked) s ∧
        s.current = some 2 ∧ (s.procs 2).status = .blocked :=
    exists_reachable_of_run [.arrive 1 ⟨.ready, 0, 5, 1, 1⟩, .arrive 2 ⟨.ready, 0, 5, 1, 1⟩,
      .schedule 0, .acquire 0, .schedule 0, .acquire 0] (by decide)
  exact ⟨s, hs, hc, hb, (blocked_iff_waiting hs (.inr hc)).mp hb⟩

/-- **No policy dispatches a blocked process.**  Under every policy, when every process
arrives unblocked, from every reachable state a `schedule()` call, whatever an empty-list
read yields, returns NULL or a process that is not blocked. -/
theorem schedule_never_returns_blocked {maxPrio : Nat} {pol : Policy} {s : State nr}
    (hs : Reachable maxPrio pol (ArrivesWith fun p => p.status ≠ .blocked) s)
    {sentinel : Option Nat} {t : State nr} {n : Pid}
    (h : (pol.scheduler maxPrio).schedule sentinel s = some (t, some n)) :
    (t.procs n).status ≠ .blocked := by
  have hspec := Policy.schedule_conserves maxPrio pol h
  rw [hspec.status]
  exact (blocking_of_reachable hs).not_blocked_of_mem
    (hspec.subset (pol.kept_sublist s) (List.mem_append_right _ (List.mem_singleton_self n)))

/-- From the state above, where the current process 2 is blocked, `rr_schedule` returns
process 1, which is not. -/
theorem schedule_never_returns_blocked_after_block :
    ∃ (s t : State 1), Reachable 0 .rr (ArrivesWith fun p => p.status ≠ .blocked) s ∧
      (Policy.rr.scheduler 0).schedule (some 0) s = some (t, some 1) ∧
      (t.procs 1).status ≠ .blocked := by
  obtain ⟨s, hs, h⟩ : ∃ s : State 1,
      Reachable 0 .rr (ArrivesWith fun p => p.status ≠ .blocked) s ∧
        (rrSchedule s).2 = some 1 :=
    exists_reachable_of_run [.arrive 1 ⟨.ready, 0, 5, 1, 1⟩, .arrive 2 ⟨.ready, 0, 5, 1, 1⟩,
      .schedule 0, .acquire 0, .schedule 0, .acquire 0] (by decide)
  have ht : (Policy.rr.scheduler 0).schedule (some 0) s = some ((rrSchedule s).1, some 1) := by
    rw [← h]
    rfl
  exact ⟨s, _, hs, ht, schedule_never_returns_blocked hs ht⟩

/-! ## Owners never wait -/

/-- No owner of a resource waits in a waitqueue. -/
def OwnersFree (s : State nr) : Prop :=
  ∀ r o, (s.resources r).owner = some o → o ∉ s.waiting

namespace OwnersFree

variable {s t : State nr}

/-- A move that makes no new owner and links no new waiter keeps the invariant. -/
theorem of_subset (h : OwnersFree s)
    (ho : ∀ r o, (t.resources r).owner = some o → ∃ r', (s.resources r').owner = some o)
    (hw : ∀ p ∈ t.waiting, p ∈ s.waiting) : OwnersFree t := fun r o hr hq => by
  obtain ⟨r', hr'⟩ := ho r o hr
  exact h r' o hr' (hw o hq)

/-- Every move of the driver keeps the invariant, when a process calls acquire only while
it owns nothing. -/
theorem exec {maxPrio : Nat} {pol : Policy} {a : Action nr} (hP : Partition pol s)
    (ha : OneAtATime s a) (h : OwnersFree s) (he : SchedSim.exec maxPrio pol a s = some t) :
    OwnersFree t := by
  cases a with
  | arrive p proc =>
    simp only [SchedSim.exec] at he
    split_ifs at he
    cases he
    exact h
  | acquire r =>
    obtain ⟨c, hc, rfl⟩ := Option.map_eq_some'.mp he
    have hcw : c ∉ s.waiting := fun h' => hP.caller_not_mem hc (List.mem_append_right _ h')
    rcases Policy.acquire_cases maxPrio pol c r s with ⟨-, hpo⟩ | ⟨-, -, hpo⟩
    · -- the caller, which waits for nothing, takes `r`
      intro r' o hr hq
      rw [hpo.resources, State.setOwner_owner] at hr
      rw [State.waiting, hpo.resources, ← State.waiting, setOwner_waiting] at hq
      split_ifs at hr
      · exact hcw (Option.some.inj hr ▸ hq)
      · exact h r' o hr hq
    · -- the caller, which owns nothing, waits
      have hcn : c ∉ s.owners := ha c ((s.caller_eq_some).mp hc).1
      intro r' o hr hq
      rw [hpo.resources, State.block_owner] at hr
      rw [State.waiting, hpo.resources, ← State.waiting] at hq
      rcases s.mem_waiting_block hq with rfl | hq
      · exact hcn ((s.mem_owners).mpr ⟨r', hr⟩)
      · exact h r' o hr hq
  | release r =>
    obtain ⟨c, -, he⟩ := Option.bind_eq_some.mp he
    obtain ⟨pick, restore, hpick, heq⟩ := Policy.release_eq maxPrio pol c r s
    rw [heq] at he
    have hpo := prioOnly_restorePrio restore c s
    have ho : ∀ r' o, (((restorePrio restore c s).setOwner r none).resources r').owner =
        some o → ∃ r', (s.resources r').owner = some o := fun r' o hr => by
      rw [State.setOwner_owner, hpo.resources] at hr
      split_ifs at hr
      exact ⟨r', hr⟩
    have hw : ((restorePrio restore c s).setOwner r none).waiting = s.waiting := by
      rw [setOwner_waiting, State.waiting, hpo.resources, ← State.waiting]
    rcases (releaseWith_cases hpick he).2 with rfl | ⟨w, -, -, rfl⟩
    · exact h.of_subset ho fun p hp => hw ▸ hp
    · exact h.of_subset (fun r' o hr => ho r' o (by rwa [State.wake_owner] at hr))
        fun p hp => hw ▸ State.mem_waiting_wake _ hp
  | schedule x =>
    obtain ⟨⟨u, n⟩, hr, rfl⟩ := Option.map_eq_some'.mp he
    have hres : u.resources = s.resources := (Policy.schedule_conserves maxPrio pol hr).resources
    exact h.of_subset (fun r o ho => ⟨r, hres ▸ ho⟩) fun p hp => by
      rwa [State.waiting, show ({ u with current := n } : State nr).resources = s.resources
        from hres, ← State.waiting] at hp
  | tick =>
    obtain ⟨c, -, rfl⟩ := Option.map_eq_some'.mp he
    exact h

end OwnersFree

/-- **No owner waits.**  Under every policy, when a process calls acquire only while it
owns no resource, in every reachable state no owner of a resource is in a waitqueue: every
blocked process waits for a process that does not wait. -/
theorem owner_never_waits {maxPrio : Nat} {pol : Policy} {s : State nr}
    (hs : Reachable maxPrio pol OneAtATime s) :
    ∀ r o, (s.resources r).owner = some o → o ∉ s.waiting := by
  induction hs with
  | init => exact fun _ _ h => (by cases h)
  | step hs ha he ih => exact OwnersFree.exec (partition_of_reachable hs) ha ih he

/-- Under round robin, process 1 takes `r0` and process 2 blocks on it: 2 waits, and 1,
the owner, does not. -/
theorem owner_never_waits_after_block :
    ∃ s : State 1, Reachable 0 .rr OneAtATime s ∧ (s.resources 0).owner = some 1 ∧
      2 ∈ s.waiting ∧ 1 ∉ s.waiting := by
  obtain ⟨s, hs, ho, hw⟩ : ∃ s : State 1, Reachable 0 .rr OneAtATime s ∧
      (s.resources 0).owner = some 1 ∧ 2 ∈ s.waiting :=
    exists_reachable_of_run [.arrive 1 ⟨.ready, 0, 5, 1, 1⟩, .arrive 2 ⟨.ready, 0, 5, 1, 1⟩,
      .schedule 0, .acquire 0, .schedule 0, .acquire 0] (by decide)
  exact ⟨s, hs, ho, hw, owner_never_waits hs 0 1 ho⟩

end SchedSim
