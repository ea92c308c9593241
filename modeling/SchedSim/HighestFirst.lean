import SchedSim.Partition

/-!
# Highest priority first

The priority family takes the first process of greatest priority in the readyqueue, but it
never scans the processes parked on its stack: `pick_next` compares only the stack's top
with its pick, and flushes the stack when they differ.  So a call returns a process of
greatest priority in the readyqueue whose priority the stack's top shares, whenever the
variant flushes its own stack (`prioFamilySchedule_picksOverTop`).  That covers the whole
stack when every entry of it has one priority, the priority of the process that was running
when they were parked (`StackLevel`), and a call keeps the stack level
(`prioFamilySchedule_level`).

Under `prio_scheduler` no priority changes between two calls, so every reachable state is
level (`stackLevel_of_reachable`) and `prio_schedule` is highest-priority-first, whatever an
empty-list read yields (`prio_schedule_highest_first`).  The other three policies each break
the argument at one point, and for each a run shows a process of higher priority left on
the stack:

* `pip_schedule` flushes `pcp_stack`, which is always empty under PIP, instead of its own;
* `pa_schedule` ages the parked processes but resets the last runner, so the entries of
  `pa_stack` drift apart;
* under PCP the running process's priority moves between `MAX_PRIO` and its original one
  after it has parked others at its level.

## Main definitions

* `StackLevel`: every entry of a stack has the priority of a given process
* `PicksOverTop`: what a call of the skeleton guarantees about its pick from any state

## Main results

* `prioFamilySchedule_picksOverTop`, `prioFamilySchedule_level`: one call of the skeleton
* `stackLevel_of_reachable`: under `prio_scheduler` the stack is always level
* `prio_schedule_highest_first`: `prio_schedule` is highest-priority-first
* `pa_schedule_picks_over_ready_and_top`, `pcp_schedule_picks_over_ready_and_top`: what
  Priority+Aging and PCP guarantee
* `pip_schedule_strands_stack_entry`, `pa_schedule_strands_stack_entry`,
  `pcp_schedule_strands_stack_entry`: runs on which the other three leave a process of
  higher priority on the stack
-/

namespace SchedSim

variable {nr : Nat}

/-- Every entry of stack `k` has the priority of `c`; there is no entry when `c` is
`none`. -/
def StackLevel (k : StackId) (s : State nr) (c : Option Pid) : Prop :=
  ∀ y ∈ s.stack k, ∃ n, c = some n ∧ (s.procs y).prio = (s.procs n).prio

/-- What a call of the skeleton that leaves `t` and returns `n` guarantees from any state:
`n` has the greatest priority in the readyqueue, and the top of stack `k`, if any, has
`n`'s priority. -/
structure PicksOverTop (k : StackId) (t : State nr) (n : Pid) : Prop where
  ready : ∀ y ∈ t.readyqueue, (t.procs y).prio ≤ (t.procs n).prio
  top : ∀ top, (t.stack k).head? = some top → (t.procs top).prio = (t.procs n).prio

section Level

variable {k : StackId} {s t : State nr} {c : Option Pid}

theorem StackLevel.prio_eq (h : StackLevel k s c) {y z : Pid} (hy : y ∈ s.stack k)
    (hz : z ∈ s.stack k) : (s.procs y).prio = (s.procs z).prio := by
  obtain ⟨n, hn, ey⟩ := h y hy
  obtain ⟨n', hn', ez⟩ := h z hz
  obtain rfl : n = n' := Option.some.inj (hn.symm.trans hn')
  rw [ey, ez]

/-- A level stack stays level under moves that keep it and the priorities of its entries
and of `c`. -/
theorem StackLevel.congr (h : StackLevel k s c) (hk : t.stack k = s.stack k)
    (hp : ∀ p, p ∈ s.stack k ∨ c = some p → (t.procs p).prio = (s.procs p).prio) :
    StackLevel k t c := by
  intro y hy
  rw [hk] at hy
  obtain ⟨n, hn, e⟩ := h y hy
  exact ⟨n, hn, by rw [hp y (.inl hy), hp n (.inr hn), e]⟩

/-- From a level stack, a pick over the readyqueue is a pick over the stack too. -/
theorem PicksOverTop.le {n : Pid} (h : PicksOverTop k t n) (hl : StackLevel k t (some n)) :
    ∀ y ∈ t.readyqueue ++ t.stack k, (t.procs y).prio ≤ (t.procs n).prio := by
  intro y hy
  rcases List.mem_append.mp hy with hy | hy
  · exact h.ready y hy
  · obtain ⟨m, hm, e⟩ := hl y hy
    obtain rfl : n = m := Option.some.inj hm
    exact e.le

end Level

/-! ## One call of the skeleton -/

section Skeleton

variable (v : PrioVariant) {s t t' : State nr}

theorem StackLevel.prioRefill {c : Option Pid} (h : StackLevel v.stack t c) :
    StackLevel v.stack (prioRefill v t) c := by
  unfold SchedSim.prioRefill
  split_ifs
  · intro y hy
    simp at hy
  · exact h
  · exact h

theorem prioPickNext_none (h : prioPickNext v t = some (t', none)) :
    t' = t ∧ t.readyqueue = [] ∧ t.stack v.stack = [] := by
  unfold prioPickNext at h
  split_ifs at h with h₀
  · cases h
    exact ⟨rfl, h₀⟩
  obtain ⟨m, hm⟩ := getHighestPrio_of_ne_nil (prioRefill_ne_nil v h₀)
  rw [hm, Option.some_bind] at h
  rcases prioCorrect_cases v h with ⟨he, -⟩ | ⟨n', -, he⟩ <;> cases he

/-- `pick_next` of a variant that flushes its own stack returns a process of greatest
priority in the readyqueue, and leaves the stack either empty (it flushed and picked again)
or as the refill left it, with its top at the pick's priority. -/
theorem prioPickNext_some (hflush : v.flush = v.stack) {n : Pid}
    (h : prioPickNext v t = some (t', some n)) :
    PicksOverTop v.stack t' n ∧
      (t'.stack v.stack = [] ∨ t'.stack v.stack = (prioRefill v t).stack v.stack) := by
  unfold prioPickNext at h
  split_ifs at h with h₀
  · cases h
  obtain ⟨m, hm⟩ := getHighestPrio_of_ne_nil (prioRefill_ne_nil v h₀)
  rw [hm, Option.some_bind] at h
  rcases prioCorrect_cases v h with ⟨he, htop⟩ | ⟨n', hn', he⟩
  · -- the pick stands, and the stack's top has its priority
    cases he
    exact ⟨⟨fun y hy => highestPrio_le hm y (List.mem_of_mem_erase hy), htop⟩, .inr rfl⟩
  · -- flushed and picked again: the stack is empty
    cases he
    have hk : (((((prioRefill v t).delReady m).drain v.drainTail v.flush).addReady m).delReady
        n).stack v.stack = [] := by simp [hflush]
    exact ⟨⟨fun y hy => highestPrio_le hn' y (List.mem_of_mem_erase hy),
      fun _ h => by simp [hk] at h⟩, .inl hk⟩

/-- From a level stack, `pick_next` of a variant that flushes its own stack leaves the stack
level at its pick. -/
theorem prioPickNext_level (hflush : v.flush = v.stack) {c : Option Pid}
    (hl : StackLevel v.stack t c) {n : Option Pid} (h : prioPickNext v t = some (t', n)) :
    StackLevel v.stack t' n := by
  cases n with
  | none =>
    obtain ⟨rfl, -, hk⟩ := prioPickNext_none v h
    exact fun y hy => by simp [hk] at hy
  | some n =>
    obtain ⟨hpick, hk | hk⟩ := prioPickNext_some v hflush h
    · exact fun y hy => by simp [hk] at hy
    · intro y hy
      obtain ⟨top, rest, hst⟩ := List.exists_cons_of_ne_nil (List.ne_nil_of_mem hy)
      have hmem : top ∈ (prioRefill v t).stack v.stack := by simp [← hk, hst]
      refine ⟨n, rfl, ?_⟩
      rw [hk] at hy
      have e := (hl.prioRefill v).prio_eq hy hmem
      rw [prioRefill_procs] at e
      rw [← hpick.top top (by simp [hst]), prioPickNext_procs v h, e]

/-- A preempted current process `c` is parked at its own priority: the stack stays level
at `c`. -/
theorem Preempt.stackLevel {c : Pid} {u : State nr} (hm : Preempt v s c u)
    (hl : StackLevel v.stack s (some c)) : StackLevel v.stack u (some c) := by
  cases hm with
  | push =>
    intro y hy
    simp only [State.push_stack, if_pos, List.mem_cons] at hy
    rcases hy with rfl | hy
    · exact ⟨y, rfl, rfl⟩
    · exact hl y hy
  | ready => exact hl
  | readyTail => exact hl

/-- **The skeleton picks over the readyqueue and the stack's top.**  For a variant that
flushes its own stack, from any state, a returned process has the greatest priority in the
readyqueue, and the stack's top, if any, has its priority. -/
theorem prioFamilySchedule_picksOverTop (hflush : v.flush = v.stack) {sentinel : Option Nat}
    {n : Pid} (h : prioFamilySchedule v sentinel s = some (t, some n)) :
    PicksOverTop v.stack t n := by
  rcases prioFamilySchedule_cases v h with
    ⟨-, h⟩ | ⟨c, -, hrq, hk, he⟩ | ⟨c, u, -, -, h⟩
  · exact (prioPickNext_some v hflush h).1
  · cases he
    exact ⟨fun y hy => by simp [hrq] at hy, fun _ h => by simp [hk] at h⟩
  · exact (prioPickNext_some v hflush h).1

/-- **The skeleton keeps the stack level.**  For a variant that flushes its own stack, a
call that starts with the stack level at the current process leaves it level at the process
it returns. -/
theorem prioFamilySchedule_level (hflush : v.flush = v.stack) {sentinel : Option Nat}
    {n : Option Pid} (hl : StackLevel v.stack s s.current)
    (h : prioFamilySchedule v sentinel s = some (t, n)) : StackLevel v.stack t n := by
  rcases prioFamilySchedule_cases v h with
    ⟨-, h⟩ | ⟨c, -, -, hk, he⟩ | ⟨c, u, hc, hm, h⟩
  · exact prioPickNext_level v hflush hl h
  · cases he
    exact fun y hy => by simp [hk] at hy
  · have hcur : s.current = some c := ((s.continuing_eq_some).mp hc).1
    exact prioPickNext_level v hflush (hm.stackLevel v (hcur ▸ hl)) h

end Skeleton

/-! ## `prio_scheduler` keeps the stack level -/

section Prio

variable {maxPrio : Nat} {s t : State nr}

/-- Every move of the driver under `prio_scheduler` keeps `prio_stack` level at the current
process: arrivals, acquires, releases and ticks change no priority that matters, and a
`schedule()` call returns the process the stack is level at. -/
theorem StackLevel.exec {a : Action nr} (h : StackLevel .prio s s.current)
    (he : SchedSim.exec maxPrio .prio a s = some t) : StackLevel .prio t t.current := by
  cases a with
  | arrive p proc =>
    simp only [SchedSim.exec] at he
    split_ifs at he with hm
    cases he
    simp only [State.Mentions, not_or] at hm
    refine h.congr rfl fun q hq => ?_
    have hqp : q ≠ p := by
      rintro rfl
      rcases hq with hq | hq
      · exact hm.1 (s.mem_queued_of_mem_stack hq)
      · exact hm.2.1 hq
    simp [hqp]
  | acquire r =>
    obtain ⟨c, -, rfl⟩ := Option.map_eq_some'.mp he
    change StackLevel .prio (prioAcquire c r s).1 (prioAcquire c r s).1.current
    unfold prioAcquire acquireWith
    split
    · exact h.congr rfl fun _ _ => rfl
    · exact h.congr rfl fun q _ => s.block_prio c r q
  | release r =>
    obtain ⟨c, -, he⟩ := Option.bind_eq_some.mp he
    change prioRelease c r s = some t at he
    rcases (releaseWith_cases picksWaiter_getHighestPrioWait he).2 with rfl | ⟨w, -, -, rfl⟩
    · exact h.congr rfl fun _ _ => rfl
    · exact h.congr rfl fun q _ => State.wake_prio _ w r q
  | schedule x =>
    obtain ⟨⟨u, n⟩, hr, rfl⟩ := Option.map_eq_some'.mp he
    have hl := prioFamilySchedule_level prioVariant rfl h hr
    exact hl
  | tick =>
    obtain ⟨c, -, rfl⟩ := Option.map_eq_some'.mp he
    exact h.congr rfl fun q _ => s.age_prio c q

theorem stackLevel_of_reachable {adm : State nr → Action nr → Prop}
    (hs : Reachable maxPrio .prio adm s) : StackLevel .prio s s.current := by
  induction hs with
  | init => exact fun y hy => by simp [State.init] at hy
  | step _ _ he ih => exact ih.exec he

/-- **Highest priority first under `prio_scheduler`** (spec §4.6): in every reachable state,
whatever a read of `list_first_entry(...)->prio` on an empty list yields, a process that
`prio_schedule` returns has the greatest priority among the processes left in the
readyqueue and on `prio_stack`. -/
theorem prio_schedule_highest_first (hs : Reachable maxPrio .prio (fun _ _ => True) s)
    {sentinel : Option Nat} {n : Pid} (h : prioSchedule sentinel s = some (t, some n)) :
    ∀ y ∈ t.readyqueue ++ t.stack .prio, (t.procs y).prio ≤ (t.procs n).prio :=
  (prioFamilySchedule_picksOverTop prioVariant rfl h).le
    (prioFamilySchedule_level prioVariant rfl (stackLevel_of_reachable hs) h)

/-- Two processes arrive, at priorities 1 and 3; the first call returns the second. -/
theorem prio_schedule_highest_first_of_arrivals :
    ∃ s t, run 0 .prio (fun _ _ => True)
        [.arrive 1 ⟨.ready, 0, 5, 1, 1⟩, .arrive 2 ⟨.ready, 0, 5, 3, 3⟩]
        (State.init : State 1) = some s ∧ prioSchedule none s = some (t, some 2) ∧
      ∀ y ∈ t.readyqueue ++ t.stack .prio, (t.procs y).prio ≤ (t.procs 2).prio := by
  refine ⟨_, _, rfl, rfl, ?_⟩
  exact prio_schedule_highest_first (Reachable.init.run
    (show run 0 .prio (fun _ _ => True)
      [.arrive 1 ⟨.ready, 0, 5, 1, 1⟩, .arrive 2 ⟨.ready, 0, 5, 3, 3⟩]
      (State.init : State 1) = some _ from rfl)) (show prioSchedule none _ = _ from rfl)

end Prio

/-! ## The other three policies

On each of the runs below a call returns a process while one of strictly higher priority
stays parked on the policy's stack; the call reads no empty list, as it returns with the
faulting sentinel. -/

section Stranded

/-- The call with result `r` returns `n` while `y`, of strictly higher priority, stays on
stack `k`. -/
def Strands (k : StackId) (n y : Pid) (r : Option (State nr × Option Pid)) : Prop :=
  ∃ t, r = some (t, some n) ∧ y ∈ t.stack k ∧ (t.procs n).prio < (t.procs y).prio

instance (k : StackId) (n y : Pid) :
    ∀ r : Option (State nr × Option Pid), Decidable (Strands k n y r)
  | some (t, some m) =>
    if h : m = n ∧ y ∈ t.stack k ∧ (t.procs n).prio < (t.procs y).prio then
      isTrue ⟨t, by rw [h.1], h.2⟩
    else isFalse fun ⟨_, e, h'⟩ => h (by cases e; exact ⟨rfl, h'⟩)
  | some (_, none) | none => isFalse fun ⟨_, e, _⟩ => by cases e

/-- **`pip_schedule` can leave a process of higher priority on `pip_stack`.**  Processes 1
and 2 arrive at priority 5 and process 3 at priority 1.  Process 1 runs and takes `r0` and
`r1`; at the next call it ties with 2 and is parked on `pip_stack`, and 2 runs and blocks
on `r0`.  The next call picks 3 from the readyqueue, sees that the top of `pip_stack` (1, at
priority 5) differs from it, and flushes `pcp_stack`, which is empty: 3 is returned and 1
stays parked. -/
theorem pip_schedule_strands_stack_entry :
    ∃ s : State 2, Reachable 10 .pip (fun _ _ => True) s ∧
      Strands .pip 3 1 (pipSchedule none s) :=
  exists_reachable_of_run [.arrive 1 ⟨.ready, 0, 10, 5, 5⟩, .arrive 2 ⟨.ready, 0, 10, 5, 5⟩,
    .arrive 3 ⟨.ready, 0, 10, 1, 1⟩, .schedule 0, .acquire 0, .acquire 1, .schedule 0,
    .acquire 0] (by decide)

/-- **`pa_schedule` picks over the readyqueue and the stack's top** (spec §4.6, step 4): from
any state, a process it returns has, at the priorities its aging step leaves, the greatest
priority in the readyqueue, and the top of `pa_stack`, if any, has its priority. -/
theorem pa_schedule_picks_over_ready_and_top {maxPrio : Nat} {sentinel : Option Nat}
    {s t : State nr} {n : Pid} (h : paSchedule maxPrio sentinel s = some (t, some n)) :
    (∀ y ∈ t.readyqueue, (t.procs y).prio ≤ (t.procs n).prio) ∧
      ∀ top, (t.stack .pa).head? = some top → (t.procs top).prio = (t.procs n).prio :=
  have h' := prioFamilySchedule_picksOverTop paVariant rfl h
  ⟨h'.ready, h'.top⟩

/-- Processes 1 and 2 arrive at priorities 3 and 2, and 1 runs.  At the next call aging
lifts 2 to 3; 1, reset to 3, ties with it and is parked on `pa_stack`, and 2 is returned. -/
theorem pa_schedule_picks_over_ready_and_top_of_two :
    ∃ s t, run 10 .pa (fun _ _ => True)
        [.arrive 1 ⟨.ready, 0, 5, 3, 3⟩, .arrive 2 ⟨.ready, 0, 5, 2, 2⟩, .schedule 0]
        (State.init : State 1) = some s ∧
      paSchedule 10 none s = some (t, some 2) ∧ t.stack .pa = [1] ∧
      (∀ y ∈ t.readyqueue, (t.procs y).prio ≤ (t.procs 2).prio) ∧
      ∀ top, (t.stack .pa).head? = some top → (t.procs top).prio = (t.procs 2).prio := by
  obtain ⟨s, t, hs, ht, hk⟩ : ∃ s t, run 10 .pa (fun _ _ => True)
        [.arrive 1 ⟨.ready, 0, 5, 3, 3⟩, .arrive 2 ⟨.ready, 0, 5, 2, 2⟩, .schedule 0]
        (State.init : State 1) = some s ∧
      paSchedule 10 none s = some (t, some 2) ∧ t.stack .pa = [1] := ⟨_, _, rfl, rfl, rfl⟩
  exact ⟨s, t, hs, ht, hk, pa_schedule_picks_over_ready_and_top ht⟩

/-- **`pa_schedule` can leave a process of higher priority on `pa_stack`.**  With `MAX_PRIO`
10, process 1 arrives at priority 2 and process 2 at priority 1.  The first call returns 1.
At the second, aging lifts 2 to 2; 1, reset to 2, ties with it and is parked on `pa_stack`,
and 2 runs.  Process 3 arrives at priority 0.  At the third call 2 is reset to 1, 3 is aged
to 1 and 1, on the stack, to 3; 2 ties with 3 and is pushed above 1; 3 is picked, and the
top, 2, has its priority, so nothing is flushed: 3 is returned at priority 1 while 1 waits
at priority 3. -/
theorem pa_schedule_strands_stack_entry :
    ∃ s : State 1, Reachable 10 .pa (fun _ _ => True) s ∧
      Strands .pa 3 1 (paSchedule 10 none s) :=
  exists_reachable_of_run [.arrive 1 ⟨.ready, 0, 10, 2, 2⟩, .arrive 2 ⟨.ready, 0, 10, 1, 1⟩,
    .schedule 0, .schedule 0, .arrive 3 ⟨.ready, 0, 10, 0, 0⟩] (by decide)

/-- **`pcp_schedule` picks over the readyqueue and the stack's top** (spec §4.6, step 4):
from any state, a process it returns has the greatest priority in the readyqueue, and the
top of `pcp_stack`, if any, has its priority. -/
theorem pcp_schedule_picks_over_ready_and_top {sentinel : Option Nat} {s t : State nr}
    {n : Pid} (h : pcpSchedule sentinel s = some (t, some n)) :
    (∀ y ∈ t.readyqueue, (t.procs y).prio ≤ (t.procs n).prio) ∧
      ∀ top, (t.stack .pcp).head? = some top → (t.procs top).prio = (t.procs n).prio :=
  have h' := prioFamilySchedule_picksOverTop pcpVariant rfl h
  ⟨h'.ready, h'.top⟩

/-- Processes 1 and 2 arrive at priority 2, and 1 runs.  At the next call 1 ties with 2
and is parked on `pcp_stack`, and 2 is returned. -/
theorem pcp_schedule_picks_over_ready_and_top_of_two :
    ∃ s t, run 10 .pcp (fun _ _ => True)
        [.arrive 1 ⟨.ready, 0, 5, 2, 2⟩, .arrive 2 ⟨.ready, 0, 5, 2, 2⟩, .schedule 0]
        (State.init : State 1) = some s ∧
      pcpSchedule none s = some (t, some 2) ∧ t.stack .pcp = [1] ∧
      (∀ y ∈ t.readyqueue, (t.procs y).prio ≤ (t.procs 2).prio) ∧
      ∀ top, (t.stack .pcp).head? = some top → (t.procs top).prio = (t.procs 2).prio := by
  obtain ⟨s, t, hs, ht, hk⟩ : ∃ s t, run 10 .pcp (fun _ _ => True)
        [.arrive 1 ⟨.ready, 0, 5, 2, 2⟩, .arrive 2 ⟨.ready, 0, 5, 2, 2⟩, .schedule 0]
        (State.init : State 1) = some s ∧
      pcpSchedule none s = some (t, some 2) ∧ t.stack .pcp = [1] := ⟨_, _, rfl, rfl, rfl⟩
  exact ⟨s, t, hs, ht, hk, pcp_schedule_picks_over_ready_and_top ht⟩

/-- **`pcp_schedule` can leave a process of higher priority on `pcp_stack`.**  With
`MAX_PRIO` 10, processes 1 and 3 arrive at priority 1.  Process 1 runs and takes `r0`,
rising to 10, and process 2 arrives at priority 10.  At the next call 1 ties with 2 and is
parked on `pcp_stack`; 2 runs and takes `r1`.  At the next call 2 ties with the stack's top
and is pushed, 3 is picked, the top differs, the stack is flushed and 1 is picked.  1
blocks on `r1`; 2 runs and releases `r1`, which wakes 1; at the next call 2 ties with 1 and
is parked, and 1 runs.  1 releases `r0` and falls back to priority 1.  At the last call 1
ties with 3 and is pushed above 2; 3 is picked, and the top, 1, has its priority: 3 is
returned at priority 1 while 2 waits at priority 10. -/
theorem pcp_schedule_strands_stack_entry :
    ∃ s : State 2, Reachable 10 .pcp (fun _ _ => True) s ∧
      Strands .pcp 3 2 (pcpSchedule none s) :=
  exists_reachable_of_run [.arrive 1 ⟨.ready, 0, 10, 1, 1⟩, .arrive 3 ⟨.ready, 0, 10, 1, 1⟩,
    .schedule 0, .acquire 0, .arrive 2 ⟨.ready, 0, 10, 10, 10⟩, .schedule 0, .acquire 1,
    .schedule 0, .acquire 1, .schedule 0, .release 1, .schedule 0, .release 0] (by decide)

end Stranded

end SchedSim
