import SchedSim.Protocols

/-!
# Aging

Before its skeleton, `pa_schedule` resets the process that last ran to its original
priority and raises every process in the readyqueue and on `pa_stack` by one
(`prio_boost`).  The increment is `tmp->prio++` on an `unsigned int`, so `UINT_MAX` is
raised to 0.  The clamp that follows it, `if (tmp->prio == MAX_PRIO) tmp->prio = MAX_PRIO`,
assigns the value the priority already has, so every boost adds one modulo `2^32`
(`boostOne_prio`), and a process that waits at `MAX_PRIO` is raised past it
(`pa_boost_exceeds_max_prio`).

The two loops of `prio_boost` walk the readyqueue and `pa_stack`; a process linked twice
would be raised twice.  No process is: the lists are duplicate-free and disjoint in every
reachable state, so each call made while a process is current resets it and raises every
waiting process by exactly one modulo `2^32`, and a call with no current process ages
nobody (`pa_schedule_ages_waiting`).

Aging takes no priority below the original one as long as no boost wraps: when every call
finds the processes it may raise below `UINT_MAX` (`NoPrioWrap`), every priority stays at
least at the original one (`prioOrig_le_prio_of_reachable`).  A process that waits at
`UINT_MAX` is raised to 0, below its original priority (`pa_boost_wraps_below_orig`).

## Main definitions

* `NoPrioWrap`: no `schedule()` call raises a priority at `UINT_MAX`
* `PrioAboveOrig`: every process runs at least at its original priority

## Main results

* `boostOne_prio`: the clamp of `prio_boost` never changes a priority
* `Partition.paAge_prio`: the aging step resets the current process and raises each
  waiting one once
* `pa_schedule_ages_waiting`: every call ages each waiting process exactly once
* `prioOrig_le_prio_of_reachable`: under Priority+Aging, without a wrapping boost,
  priorities never fall below the original ones
* `pa_boost_exceeds_max_prio`, `pa_boost_wraps_below_orig`: runs on which a priority passes
  `MAX_PRIO`, and on which one wraps below the original priority
-/

namespace SchedSim

variable {nr : Nat}

/-- The clamp of `prio_boost` never changes the incremented priority: a boost adds one,
modulo `2^32`. -/
theorem boostOne_prio (maxPrio : Nat) (s : State nr) (p x : Pid) :
    ((boostOne maxPrio s p).procs x).prio =
      if x = p then ((s.procs p).prio + 1) % 4294967296 else (s.procs x).prio := by
  unfold boostOne
  by_cases hx : x = p
  · subst hx
    simp only [State.setPrio_procs, if_true]
    split_ifs with h
    · exact h.symm
    · rfl
  · simp [hx]

/-! ## Each call ages every waiting process once -/

/-- The loop of `prio_boost` over a duplicate-free list raises each of its processes by one,
modulo `2^32`, and no other. -/
theorem foldl_boostOne_prio (maxPrio : Nat) : ∀ {l : List Pid} (s : State nr), l.Nodup → ∀ x,
    ((l.foldl (boostOne maxPrio) s).procs x).prio =
      if x ∈ l then ((s.procs x).prio + 1) % 4294967296 else (s.procs x).prio
  | [], s, _, x => by simp
  | p :: l, s, hnd, x => by
    obtain ⟨hp, hnd⟩ := List.nodup_cons.mp hnd
    rw [List.foldl_cons, foldl_boostOne_prio maxPrio _ hnd, boostOne_prio]
    by_cases e : x = p
    · subst e
      simp [hp]
    · simp [e]

/-- The aging step of `pa_schedule`, with a current process `c`, in a state with the queue
partition: `c` is reset, and every process in the readyqueue or on `pa_stack` is raised by
one, modulo `2^32`. -/
theorem Partition.paAge_prio {s : State nr} (hP : Partition .pa s) (maxPrio : Nat) {c : Pid}
    (hc : s.current = some c) (x : Pid) :
    ((paAge maxPrio s).procs x).prio =
      if x = c then (s.procs c).prioOrig
      else if x ∈ s.pool then ((s.procs x).prio + 1) % 4294967296 else (s.procs x).prio := by
  have hpool : s.pool = s.readyqueue ++ s.stack .pa := by
    rw [State.pool, hP.stackList_eq]
    rfl
  have hcp : c ∉ s.readyqueue ++ s.stack .pa := hpool ▸ (hP.current c hc).1
  obtain ⟨hrq, hst, hdis⟩ := List.nodup_append.mp (hpool ▸ (List.nodup_append.mp hP.nodup).1)
  simp only [paAge, hc, prioBoost]
  rw [show (prioReset c s).readyqueue = s.readyqueue from rfl,
    show (prioReset c s).stack = s.stack from rfl, foldl_boostOne_prio maxPrio _ hst,
    foldl_boostOne_prio maxPrio _ hrq, hpool]
  by_cases e : x = c
  · subst e
    simp_all [prioReset]
  · have hx : ¬(x ∈ s.readyqueue ∧ x ∈ s.stack .pa) := fun h => hdis h.1 h.2
    simp only [prioReset, State.setPrio_procs, if_neg e, List.mem_append]
    split_ifs <;> simp_all

/-- **Aging is exact.**  Under Priority+Aging, from every reachable state, a `pa_schedule`
call that returns, whatever an empty-list read yields, ages nobody when no process is
current; otherwise it resets the current process to its original priority, raises every
process in the readyqueue or on `pa_stack` by exactly one, modulo `2^32`, and leaves every
other priority alone. -/
theorem pa_schedule_ages_waiting {maxPrio : Nat} {adm : State nr → Action nr → Prop}
    {s : State nr} (hs : Reachable maxPrio .pa adm s) {sentinel : Option Nat} {t : State nr}
    {n : Option Pid} (h : paSchedule maxPrio sentinel s = some (t, n)) :
    (s.current = none → t.procs = s.procs) ∧
      ∀ c, s.current = some c → ∀ x, (t.procs x).prio =
        if x = c then (s.procs c).prioOrig
        else if x ∈ s.pool then ((s.procs x).prio + 1) % 4294967296 else (s.procs x).prio := by
  have hprocs : t.procs = (paAge maxPrio s).procs := prioFamilySchedule_procs paVariant h
  exact ⟨fun hc => by rw [hprocs, paAge, hc], fun c hc x => by
    rw [hprocs, (partition_of_reachable hs).paAge_prio maxPrio hc]⟩

/-- Processes 1 and 2 arrive under Priority+Aging and 1 runs; the next call resets 1 and
raises 2. -/
theorem pa_schedule_ages_waiting_of_two :
    ∃ (s t : State 1) (n : Option Pid), Reachable 10 .pa (fun _ _ => True) s ∧
      paSchedule 10 (some 0) s = some (t, n) ∧
      (s.current = none → t.procs = s.procs) ∧
      ∀ c, s.current = some c → ∀ x, (t.procs x).prio =
        if x = c then (s.procs c).prioOrig
        else if x ∈ s.pool then ((s.procs x).prio + 1) % 4294967296 else (s.procs x).prio := by
  obtain ⟨s, hs, -⟩ : ∃ s : State 1, Reachable 10 .pa (fun _ _ => True) s ∧ True :=
    exists_reachable_of_run [.arrive 1 ⟨.ready, 0, 5, 4, 4⟩, .arrive 2 ⟨.ready, 0, 5, 2, 2⟩,
      .schedule 0] (by decide)
  obtain ⟨⟨t, n⟩, h⟩ := Option.isSome_iff_exists.mp (Policy.schedule_isSome 10 .pa 0 s)
  exact ⟨s, t, n, hs, h, pa_schedule_ages_waiting hs h⟩

/-! ## The lower bound, without a wrapping boost -/

/-- Every `schedule()` call finds each process that `prio_boost` may raise, in the
readyqueue or on a stack, below `UINT_MAX`, so that no `prio++` wraps to 0. -/
def NoPrioWrap : State nr → Action nr → Prop
  | s, .schedule _ => ∀ p ∈ s.pool, (s.procs p).prio + 1 < 4294967296
  | _, .arrive _ _ | _, .acquire _ | _, .release _ | _, .tick => True

instance : ∀ (s : State nr) a, Decidable (NoPrioWrap s a)
  | s, .schedule _ => inferInstanceAs (Decidable (∀ p ∈ s.pool, (s.procs p).prio + 1 < 4294967296))
  | _, .arrive _ _ | _, .acquire _ | _, .release _ | _, .tick => instDecidableTrue

/-- Every process runs at least at its original priority. -/
def PrioAboveOrig (s : State nr) : Prop :=
  ∀ p, (s.procs p).prioOrig ≤ (s.procs p).prio

namespace PrioAboveOrig

variable {s t : State nr}

/-- A move that keeps the original priorities and raises no priority less keeps the
invariant. -/
theorem of_le (h : PrioAboveOrig s) (horig : ∀ p, (t.procs p).prioOrig = (s.procs p).prioOrig)
    (hle : ∀ p, (s.procs p).prio ≤ (t.procs p).prio) : PrioAboveOrig t :=
  fun p => horig p ▸ (h p).trans (hle p)

/-- The aging step resets the current process and, when no waiting process is at
`UINT_MAX`, raises the others without a wrap. -/
theorem paAge (h : PrioAboveOrig s) (hP : Partition .pa s)
    (hw : ∀ p ∈ s.pool, (s.procs p).prio + 1 < 4294967296) (maxPrio : Nat) :
    PrioAboveOrig (SchedSim.paAge maxPrio s) := by
  cases hc : s.current with
  | none => simpa only [SchedSim.paAge, hc] using h
  | some c =>
    intro p
    rw [(prioOnly_paAge maxPrio s).prioOrig, hP.paAge_prio maxPrio hc]
    split_ifs with e hp
    · rw [e]
    · rw [Nat.mod_eq_of_lt (hw p hp)]
      exact (h p).trans (Nat.le_succ _)
    · exact h p

/-- Every move of the driver under Priority+Aging, from a state with the queue partition,
keeps the invariant, when an arriving process starts at least at its original priority and
no boost wraps. -/
theorem exec {maxPrio : Nat} {a : Action nr} (hP : Partition .pa s)
    (ha : ArrivesWith (fun p => p.prioOrig ≤ p.prio) s a ∧ NoPrioWrap s a)
    (h : PrioAboveOrig s) (he : SchedSim.exec maxPrio .pa a s = some t) : PrioAboveOrig t := by
  cases a with
  | arrive p proc =>
    simp only [SchedSim.exec] at he
    split_ifs at he
    cases he
    intro q
    by_cases e : q = p
    · simpa [e] using ha.1
    · simpa [e] using h q
  | acquire r =>
    obtain ⟨c, -, rfl⟩ := Option.map_eq_some'.mp he
    show PrioAboveOrig (prioAcquire c r s).1
    unfold prioAcquire acquireWith
    split
    · exact h
    · exact h.of_le (fun p => s.block_prioOrig c r p) fun p => (s.block_prio c r p).ge
  | release r =>
    obtain ⟨c, -, he⟩ := Option.bind_eq_some.mp he
    change prioRelease c r s = some t at he
    rcases (releaseWith_cases picksWaiter_getHighestPrioWait he).2 with rfl | ⟨w, -, -, rfl⟩
    · exact h
    · exact h.of_le (fun p => State.wake_prioOrig _ w r p) fun p => (State.wake_prio _ w r p).ge
  | schedule x =>
    obtain ⟨⟨u, n⟩, hr, rfl⟩ := Option.map_eq_some'.mp he
    have hp : u.procs = (SchedSim.paAge maxPrio s).procs := prioFamilySchedule_procs _ hr
    intro p
    simpa only [hp] using h.paAge hP ha.2 maxPrio p
  | tick =>
    obtain ⟨c, -, rfl⟩ := Option.map_eq_some'.mp he
    exact h.of_le (fun p => s.age_prioOrig c p) fun p => (s.age_prio c p).ge

end PrioAboveOrig

theorem prioAboveOrig_of_reachable {maxPrio : Nat} {s : State nr}
    (hs : Reachable maxPrio .pa
      (fun s a => ArrivesWith (fun p => p.prioOrig ≤ p.prio) s a ∧ NoPrioWrap s a) s) :
    PrioAboveOrig s := by
  induction hs with
  | init => exact fun _ => le_rfl
  | step hs ha he ih => exact ih.exec (partition_of_reachable hs) ha he

/-- **Aging keeps the lower bound** (spec §4.6, step 1): under Priority+Aging, when every
process arrives at least at its original priority and every call finds the processes it
may raise below `UINT_MAX`, in every reachable state every process runs at least at its
original priority. -/
theorem prioOrig_le_prio_of_reachable {maxPrio : Nat} {s : State nr}
    (hs : Reachable maxPrio .pa
      (fun s a => ArrivesWith (fun p => p.prioOrig ≤ p.prio) s a ∧ NoPrioWrap s a) s)
    (p : Pid) : (s.procs p).prioOrig ≤ (s.procs p).prio :=
  prioAboveOrig_of_reachable hs p

/-- Process 1 arrives at priority 3, above its original 2, and waits while process 2 runs
twice: it stays above its original priority. -/
theorem prioOrig_le_prio_of_reachable_after_waiting :
    ∃ s : State 1, Reachable 10 .pa
        (fun s a => ArrivesWith (fun p => p.prioOrig ≤ p.prio) s a ∧ NoPrioWrap s a) s ∧
      (s.procs 1).prioOrig ≤ (s.procs 1).prio := by
  obtain ⟨s, hs, -⟩ : ∃ s : State 1, Reachable 10 .pa
      (fun s a => ArrivesWith (fun p => p.prioOrig ≤ p.prio) s a ∧ NoPrioWrap s a) s ∧ True :=
    exists_reachable_of_run [.arrive 2 ⟨.ready, 0, 10, 5, 5⟩, .schedule 0,
      .arrive 1 ⟨.ready, 0, 10, 3, 2⟩, .schedule 0, .schedule 0] (by decide)
  exact ⟨s, hs, prioOrig_le_prio_of_reachable hs 1⟩

/-! ## Runs past the bounds -/

/-- **Aging passes `MAX_PRIO`.**  With `MAX_PRIO` 10, process 1 arrives at priority 10 and
process 2 at priority 9, both at their original priorities.  1 runs and takes `r0`.  At
the next call aging lifts 2 to 10; 1, reset to 10, ties with it and is parked on
`pa_stack`, and 2 runs and blocks on `r0`.  At the next call aging raises 1, on the stack,
to 11. -/
theorem pa_boost_exceeds_max_prio :
    ∃ s : State 1,
      Reachable 10 .pa (ArrivesWith fun p => p.prio = p.prioOrig ∧ p.prioOrig ≤ 10) s ∧
        10 < (s.procs 1).prio :=
  exists_reachable_of_run
    [.arrive 1 ⟨.ready, 0, 10, 10, 10⟩, .arrive 2 ⟨.ready, 0, 10, 9, 9⟩, .schedule 0,
      .acquire 0, .schedule 0, .acquire 0, .schedule 0]
    (by decide)

/-- **Aging wraps below the original priority.**  Process 2 runs, and process 1 arrives at
priority `UINT_MAX`, above its original 5.  The next call raises 1 to 0. -/
theorem pa_boost_wraps_below_orig :
    ∃ s : State 1, Reachable 10 .pa (ArrivesWith fun p => p.prioOrig ≤ p.prio) s ∧
      (s.procs 1).prio < (s.procs 1).prioOrig :=
  exists_reachable_of_run
    [.arrive 2 ⟨.ready, 0, 10, 1, 1⟩, .schedule 0, .arrive 1 ⟨.ready, 0, 10, 4294967295, 5⟩,
      .schedule 0]
    (by decide)

end SchedSim
