import SchedSim.PrioSchedule

/-!
# The policies and the simulation driver

A policy object of `pa2.c` (`struct scheduler`) bundles an acquire, a release and a
schedule function; there are eight, and one is active for a whole run.  The driver is not
among the sources.  Following the spec (§2, §6) it is modelled as the moves it may make
between calls into the policy, in any order: a new process arrives at the readyqueue's tail;
the current process acquires or releases a resource; the current process ages by a tick;
`schedule()` is called and its result becomes `current`.  The current process makes calls
only while it is not blocked: after a failed acquire, the next call is `schedule()`, as the
comment in `fcfs_acquire` says.  A call whose `assert` fails is not a step of a run.

`initialize` and `finalize` are left out: `fifo_initialize` returns 0 and
`fifo_finalize` does nothing, and the other policies have neither.

## Main definitions

* `Scheduler`, `Policy.scheduler`: the eight policy objects
* `Action`, `exec`: the driver's moves and their effect
* `Reachable`: the states a run reaches, under a discipline `adm` on the driver's moves
* `run`: a run of a list of moves

## Main results

* `Policy.acquire_cases`, `Policy.release_eq`, `Policy.schedule_conserves`: what a call
  into any of the eight policies can do
* `Policy.schedule_isSome`: a `schedule()` call always returns
-/

namespace SchedSim

open scoped List

variable {nr : Nat}

/-- `struct scheduler`: the three functions of a policy that the simulation calls. -/
structure Scheduler (nr : Nat) where
  acquire : Pid → Fin nr → State nr → State nr × Bool
  release : Pid → Fin nr → State nr → Option (State nr)
  schedule : Option Nat → State nr → Option (State nr × Option Pid)

/-- `fifo_scheduler`. -/
def fifoScheduler : Scheduler nr := ⟨fcfsAcquire, fcfsRelease, fun _ s => some (fifoSchedule s)⟩

/-- `sjf_scheduler`. -/
def sjfScheduler : Scheduler nr := ⟨fcfsAcquire, fcfsRelease, fun _ s => some (sjfSchedule s)⟩

/-- `stcf_scheduler`. -/
def stcfScheduler : Scheduler nr :=
  ⟨fcfsAcquire, fcfsRelease, fun _ s => some (stcfSchedule s)⟩

/-- `rr_scheduler`. -/
def rrScheduler : Scheduler nr := ⟨fcfsAcquire, fcfsRelease, fun _ s => some (rrSchedule s)⟩

/-- `prio_scheduler`. -/
def prioScheduler : Scheduler nr := ⟨prioAcquire, prioRelease, prioSchedule⟩

/-- `pa_scheduler`. -/
def paScheduler (maxPrio : Nat) : Scheduler nr := ⟨prioAcquire, prioRelease, paSchedule maxPrio⟩

/-- `pcp_scheduler`. -/
def pcpScheduler (maxPrio : Nat) : Scheduler nr := ⟨pcpAcquire maxPrio, pcpRelease, pcpSchedule⟩

/-- `pip_scheduler`. -/
def pipScheduler : Scheduler nr := ⟨pipAcquire, pipRelease, pipSchedule⟩

/-- The eight policies. -/
inductive Policy
  | fifo
  | sjf
  | stcf
  | rr
  | prio
  | pa
  | pcp
  | pip
  deriving DecidableEq, Repr

namespace Policy

/-- The policy object; `MAX_PRIO` is the parameter `maxPrio`. -/
def scheduler (maxPrio : Nat) : Policy → Scheduler nr
  | fifo => fifoScheduler
  | sjf => sjfScheduler
  | stcf => stcfScheduler
  | rr => rrScheduler
  | prio => prioScheduler
  | pa => paScheduler maxPrio
  | pcp => pcpScheduler maxPrio
  | pip => pipScheduler

/-- The policy's own stack, if it has one. -/
def stack : Policy → Option StackId
  | fifo | sjf | stcf => none
  | rr => some .rr
  | prio => some .prio
  | pa => some .pa
  | pcp => some .pcp
  | pip => some .pip

/-- The policy's auxiliary collection: its stack, or nothing. -/
def aux (pol : Policy) (s : State nr) : List Pid :=
  match pol.stack with
  | some k => s.stack k
  | none => []

/-- What a `schedule()` call of the policy keeps of the process that may continue: all of
it, except under round robin (`rrKept`). -/
def kept (pol : Policy) (s : State nr) : List Pid :=
  match pol with
  | rr => rrKept s
  | fifo | sjf | stcf | prio | pa | pcp | pip => s.runnable

theorem kept_sublist (pol : Policy) (s : State nr) : (pol.kept s).Sublist s.runnable := by
  cases pol
  case rr => exact List.filter_sublist _
  all_goals exact List.Sublist.refl _

end Policy

/-! ## What a call into a policy can do -/

namespace Policy

variable (maxPrio : Nat) (pol : Policy)

theorem acquire_cases (cur : Pid) (r : Fin nr) (s : State nr) :
    ((s.resources r).owner = none ∧
        (s.setOwner r (some cur)).PrioOnly ((pol.scheduler maxPrio).acquire cur r s).1) ∨
      (∃ o, (s.resources r).owner = some o ∧
        (s.block cur r).PrioOnly ((pol.scheduler maxPrio).acquire cur r s).1) := by
  have hid : ∀ (c : Pid) (u : State nr), u.PrioOnly u := fun _ _ => .refl
  have hid' : ∀ (c : Pid) (r : Fin nr) (u : State nr), u.PrioOnly u := fun _ _ _ => .refl
  cases pol
  case pcp => exact acquireWith_cases (fun c u => u.prioOnly_setPrio c _) hid' cur r s
  case pip => exact acquireWith_cases hid prioOnly_pipInherit cur r s
  all_goals exact acquireWith_cases hid hid' cur r s

/-- Every release function is `releaseWith` with a pick among the waiters. -/
theorem release_eq (cur : Pid) (r : Fin nr) (s : State nr) :
    ∃ pickWaiter restore, PicksWaiter pickWaiter ∧
      (pol.scheduler maxPrio).release cur r s = releaseWith pickWaiter restore cur r s := by
  cases pol
  case prio | pa => exact ⟨_, false, picksWaiter_getHighestPrioWait, rfl⟩
  case pcp | pip => exact ⟨_, true, picksWaiter_getHighestPrioWait, rfl⟩
  all_goals exact ⟨_, false, picksWaiter_head, rfl⟩

theorem schedule_conserves {x : Option Nat} {s : State nr} {r : State nr × Option Pid}
    (h : (pol.scheduler maxPrio).schedule x s = some r) :
    Conserves pol.stack s r.1 (pol.kept s) r.2 := by
  cases pol
  case fifo => cases h; exact fifoSchedule_spec s
  case sjf => cases h; exact sjfSchedule_spec s
  case stcf => cases h; exact stcfSchedule_spec s
  case rr => cases h; exact rrSchedule_conserves s
  case pa => exact paSchedule_spec h
  all_goals exact prioFamilySchedule_spec _ h

theorem schedule_isSome (x : Nat) (s : State nr) :
    ((pol.scheduler maxPrio).schedule (some x) s).isSome := by
  cases pol
  case fifo | sjf | stcf | rr => rfl
  case pa => exact Option.isSome_iff_ne_none.mpr (prioFamilySchedule_ne_none _ x _)
  all_goals exact Option.isSome_iff_ne_none.mpr (prioFamilySchedule_ne_none _ x s)

end Policy

/-! ## The driver -/

/-- A move of the driver.  `schedule x` calls `schedule()` in a world where a read of
`list_first_entry(...)->prio` on an empty list yields `x`. -/
inductive Action (nr : Nat)
  | arrive (p : Pid) (proc : Proc)
  | acquire (r : Fin nr)
  | release (r : Fin nr)
  | schedule (x : Nat)
  | tick

namespace State

variable (s : State nr)

/-- The owners of the resources, in table order. -/
def owners : List Pid :=
  (List.finRange nr).filterMap fun r => (s.resources r).owner

theorem mem_owners {p : Pid} : p ∈ s.owners ↔ ∃ r, (s.resources r).owner = some p := by
  simp [owners, List.mem_finRange]

/-- A pid the state refers to: linked into a list, current, or owning a resource. -/
def Mentions (p : Pid) : Prop :=
  p ∈ s.queued ∨ s.current = some p ∨ p ∈ s.owners

instance (p : Pid) : Decidable (s.Mentions p) := by
  unfold Mentions
  infer_instance

/-- The arrival of a new process `p`: its record, linked at the readyqueue's tail. -/
def arrive (p : Pid) (proc : Proc) : State nr :=
  { s with procs := fun x => if x = p then proc else s.procs x, readyqueue := s.readyqueue ++ [p] }

/-- The current process when it may call into the policy: non-NULL and not blocked. -/
def caller : Option Pid :=
  match s.current with
  | some c => if (s.procs c).status ≠ .blocked then some c else none
  | none => none

/-- The driver's `current->age++`. -/
def age (c : Pid) : State nr :=
  s.modifyProc c fun q => { q with age := q.age + 1 }

@[simp] theorem age_prio (c x : Pid) : ((s.age c).procs x).prio = (s.procs x).prio := by
  simp only [age, modifyProc_procs]
  split_ifs with h
  · rw [h]
  · rfl

@[simp] theorem age_prioOrig (c x : Pid) :
    ((s.age c).procs x).prioOrig = (s.procs x).prioOrig := by
  simp only [age, modifyProc_procs]
  split_ifs with h
  · rw [h]
  · rfl

theorem caller_eq_some {c : Pid} :
    s.caller = some c ↔ s.current = some c ∧ (s.procs c).status ≠ .blocked := by
  unfold caller
  split
  · rename_i c' hc
    by_cases h : c = c'
    · subst h
      simp [hc]
    · simp [hc, Ne.symm h, h]
  · simp_all

theorem arrive_queued (p : Pid) (proc : Proc) : (s.arrive p proc).queued ~ p :: s.queued := by
  simp only [queued, pool, arrive, List.append_assoc]
  exact List.perm_middle

@[simp] theorem arrive_procs (p : Pid) (proc : Proc) (x : Pid) :
    (s.arrive p proc).procs x = if x = p then proc else s.procs x :=
  rfl

end State

/-- One move of the driver under a policy; `none` when the move is not possible (the pid
of an arrival is in use, there is no caller) or an `assert` fails. -/
def exec (maxPrio : Nat) (pol : Policy) : Action nr → State nr → Option (State nr)
  | .arrive p proc, s => if s.Mentions p then none else some (s.arrive p proc)
  | .acquire r, s => s.caller.map fun c => ((pol.scheduler maxPrio).acquire c r s).1
  | .release r, s => s.caller.bind fun c => (pol.scheduler maxPrio).release c r s
  | .schedule x, s =>
    ((pol.scheduler maxPrio).schedule (some x) s).map fun r => { r.1 with current := r.2 }
  | .tick, s => s.caller.map s.age

/-- The states reachable from `State.init` by moves that the discipline `adm` admits. -/
inductive Reachable (maxPrio : Nat) (pol : Policy) (adm : State nr → Action nr → Prop) :
    State nr → Prop
  | init : Reachable maxPrio pol adm State.init
  | step {s s' : State nr} {a : Action nr} : Reachable maxPrio pol adm s → adm s a →
      exec maxPrio pol a s = some s' → Reachable maxPrio pol adm s'

/-- The run of a list of moves under the discipline `adm`; `none` as soon as a move is not
admitted or not possible. -/
def run (maxPrio : Nat) (pol : Policy) (adm : State nr → Action nr → Prop)
    [∀ s a, Decidable (adm s a)] : List (Action nr) → State nr → Option (State nr)
  | [], s => some s
  | a :: as, s => if adm s a then (exec maxPrio pol a s).bind (run maxPrio pol adm as) else none

theorem Reachable.run {maxPrio : Nat} {pol : Policy} {adm : State nr → Action nr → Prop}
    [∀ s a, Decidable (adm s a)] {s s' : State nr} (hs : Reachable maxPrio pol adm s) :
    ∀ {as : List (Action nr)}, SchedSim.run maxPrio pol adm as s = some s' →
      Reachable maxPrio pol adm s'
  | [], h => by cases h; exact hs
  | a :: as, h => by
    simp only [SchedSim.run] at h
    split_ifs at h with ha
    obtain ⟨t, ht, h⟩ := Option.bind_eq_some.mp h
    exact Reachable.run (.step hs ha ht) h

/-- A run from `State.init` whose final state has a decidable property `P` reaches a state
with `P`; stated so that a concrete run is checked by evaluation. -/
theorem exists_reachable_of_run {maxPrio : Nat} {pol : Policy}
    {adm : State nr → Action nr → Prop} [∀ s a, Decidable (adm s a)] {P : State nr → Prop}
    [DecidablePred P] (as : List (Action nr))
    (h : (SchedSim.run maxPrio pol adm as State.init).map (fun s => decide (P s)) = some true) :
    ∃ s, Reachable maxPrio pol adm s ∧ P s := by
  obtain ⟨s, hs, hp⟩ := Option.map_eq_some'.mp h
  exact ⟨s, Reachable.init.run hs, of_decide_eq_true hp⟩

/-! ## Disciplines of the driver -/

/-- Every arriving process satisfies `ok`. -/
def ArrivesWith (ok : Proc → Prop) : State nr → Action nr → Prop
  | _, .arrive _ proc => ok proc
  | _, .acquire _ | _, .release _ | _, .schedule _ | _, .tick => True

instance (ok : Proc → Prop) [DecidablePred ok] :
    ∀ (s : State nr) a, Decidable (ArrivesWith ok s a)
  | _, .arrive _ proc => inferInstanceAs (Decidable (ok proc))
  | _, .acquire _ | _, .release _ | _, .schedule _ | _, .tick => instDecidableTrue

/-- A process holds at most one resource at a time: the current process calls acquire only
while it owns none. -/
def OneAtATime : State nr → Action nr → Prop
  | s, .acquire _ => ∀ c ∈ s.current, c ∉ s.owners
  | _, .arrive _ _ | _, .release _ | _, .schedule _ | _, .tick => True

instance : ∀ (s : State nr) a, Decidable (OneAtATime s a)
  | s, .acquire _ =>
    decidable_of_iff (∀ c ∈ s.current.toList, c ∉ s.owners) (by simp [OneAtATime])
  | _, .arrive _ _ | _, .release _ | _, .schedule _ | _, .tick => instDecidableTrue

/-- The current process takes a free resource only when no process waiting for it has a
higher priority. -/
def NoBarging : State nr → Action nr → Prop
  | s, .acquire r => ∀ c ∈ s.current, (s.resources r).owner = none →
      ∀ w ∈ (s.resources r).waitqueue, (s.procs w).prio ≤ (s.procs c).prio
  | _, .arrive _ _ | _, .release _ | _, .schedule _ | _, .tick => True

instance : ∀ (s : State nr) a, Decidable (NoBarging s a)
  | s, .acquire r =>
    decidable_of_iff (∀ c ∈ s.current.toList, (s.resources r).owner = none →
      ∀ w ∈ (s.resources r).waitqueue, (s.procs w).prio ≤ (s.procs c).prio)
      (by simp [NoBarging])
  | _, .arrive _ _ | _, .release _ | _, .schedule _ | _, .tick => instDecidableTrue

end SchedSim
