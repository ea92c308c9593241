import SchedSim.Driver

/-!
# Whom a release wakes

`fcfs_acquire` appends a caller that finds the resource taken to its waitqueue, and
`fcfs_release` moves the waitqueue's head to the readyqueue's tail.  A waitqueue is thus a
FIFO channel from the acquires that block to the releases: what it held at the start,
followed by the processes that blocked on it, is the processes woken from it followed by
what it holds now (`FcfsCall.trace_conserves`).  From an empty waitqueue, the processes
woken are a prefix of those that blocked, in the same order, over any interleaving of calls
by any processes on any resources, and a release by the owner while every waiter is blocked
always succeeds, so that it does make that move (`fcfs_wake_order`).

The priority protocols wake the first waiter of greatest priority instead: `prio_release`,
`pcp_release` and `pip_release` share the body `releaseWith getHighestPrioWait`, which gives
the resource up and moves that waiter, and only it, to the readyqueue's tail
(`priority_release_wakes_first_highest`).

## Main definitions

* `FcfsCall`: a call of `fcfs_acquire` or `fcfs_release` by any process
* `FcfsCall.trace`: the blocking events on a resource and the processes woken from it

## Main results

* `fcfs_wake_order`: FCFS wakes in the order the waiters blocked
* `priority_release_wakes_first_highest`: the priority protocols wake the first waiter of
  greatest priority
-/

namespace SchedSim

variable {nr : Nat}

/-! ## The default protocol -/

/-- A call into the default protocol, by any process: `fcfs_acquire` or `fcfs_release`. -/
inductive FcfsCall (nr : Nat)
  | acquire (p : Pid) (r : Fin nr)
  | release (p : Pid) (r : Fin nr)

namespace FcfsCall

/-- One call: the state it leaves, or `none` when an `assert` fails. -/
def exec : FcfsCall nr → State nr → Option (State nr)
  | .acquire p r, s => some (fcfsAcquire p r s).1
  | .release p r, s => fcfsRelease p r s

/-- The blocking event on `r` of a call made in `s`: its caller, when it is an acquire of
`r` that returns false. -/
def blocks (r : Fin nr) : FcfsCall nr → State nr → List Pid
  | .acquire p r', s => if r' = r ∧ (fcfsAcquire p r' s).2 = false then [p] else []
  | .release _ _, _ => []

/-- What a call that took `s` to `t` appended to the readyqueue, when it released `r`. -/
def wakes (r : Fin nr) : FcfsCall nr → State nr → State nr → List Pid
  | .release _ r', s, t => if r' = r then t.readyqueue.drop s.readyqueue.length else []
  | .acquire _ _, _, _ => []

/-- The blocking events on `r` and the processes woken from it over a run of calls, up to
the first failed `assert`, with the state the run leaves. -/
def trace (r : Fin nr) : List (FcfsCall nr) → State nr → List Pid × List Pid × State nr
  | [], s => ([], [], s)
  | call :: calls, s =>
    match call.exec s with
    | some t =>
      let rest := trace r calls t
      (call.blocks r s ++ rest.1, call.wakes r s t ++ rest.2.1, rest.2.2)
    | none => ([], [], s)

end FcfsCall

/-- `fcfs_acquire` appends the caller to the waitqueue it blocks on, and to no other. -/
theorem fcfsAcquire_waitqueue (p : Pid) (r r' : Fin nr) (s : State nr) :
    ((fcfsAcquire p r s).1.resources r').waitqueue =
      (s.resources r').waitqueue ++ if r = r' ∧ (fcfsAcquire p r s).2 = false then [p] else [] := by
  unfold fcfsAcquire acquireWith
  split
  · rw [setOwner_waitqueue]
    simp
  · by_cases h : r = r'
    · subst h
      simp
    · simp [Ne.symm h, h]

/-- `fcfs_release` of `r` moves the head of `r`'s waitqueue, if any, to the readyqueue's
tail, and leaves every other waitqueue alone. -/
theorem fcfsRelease_wakes_head {s t : State nr} {p : Pid} {r : Fin nr}
    (h : fcfsRelease p r s = some t) :
    t.readyqueue = s.readyqueue ++ (s.resources r).waitqueue.take 1 ∧
      (t.resources r).waitqueue = (s.resources r).waitqueue.drop 1 ∧
      ∀ r', r' ≠ r → (t.resources r').waitqueue = (s.resources r').waitqueue := by
  unfold fcfsRelease releaseWith wakeOne at h
  split_ifs at h with ho
  simp only [restorePrio, Bool.false_eq_true, if_false, setOwner_waitqueue] at h
  cases hwq : (s.resources r).waitqueue with
  | nil =>
    simp only [hwq, List.head?_nil, Option.some.injEq] at h
    subst h
    exact ⟨by rw [List.take_nil, List.append_nil]; rfl, by rw [setOwner_waitqueue, hwq]; rfl,
      fun r' _ => setOwner_waitqueue s r r' none⟩
  | cons w rest =>
    simp only [hwq, List.head?_cons] at h
    split_ifs at h
    cases h
    refine ⟨by rw [State.wake_readyqueue]; rfl, by simp [hwq], fun r' hr' => ?_⟩
    rw [State.wake_resources_of_ne _ _ hr', State.setOwner_resources_of_ne _ _ hr']

namespace FcfsCall

/-- **One call conserves the waitqueue of `r`**: what it held, with the caller if the call
blocked on `r`, is what the call woke followed by what it holds now. -/
theorem exec_conserves (r : Fin nr) {call : FcfsCall nr} {s t : State nr}
    (h : call.exec s = some t) :
    (s.resources r).waitqueue ++ call.blocks r s =
      call.wakes r s t ++ (t.resources r).waitqueue := by
  cases call with
  | acquire p r' =>
    cases h
    rw [fcfsAcquire_waitqueue]
    rfl
  | release p r' =>
    obtain ⟨hrq, hwq, hother⟩ := fcfsRelease_wakes_head h
    simp only [blocks, wakes, List.append_nil]
    split_ifs with hr
    · subst hr
      rw [hrq, List.drop_left, hwq, List.take_append_drop]
    · rw [hother r (Ne.symm hr), List.nil_append]

/-- **A run conserves the waitqueue of `r`**: what it held at the start, followed by the
processes that blocked on it, is the processes woken from it followed by what it holds at
the end. -/
theorem trace_conserves (r : Fin nr) :
    ∀ (calls : List (FcfsCall nr)) (s : State nr),
      (s.resources r).waitqueue ++ (trace r calls s).1 =
        (trace r calls s).2.1 ++ ((trace r calls s).2.2.resources r).waitqueue
  | [], s => by simp [trace]
  | call :: calls, s => by
    simp only [trace]
    split
    · rename_i t he
      rw [← List.append_assoc, exec_conserves r he, List.append_assoc, trace_conserves r calls t,
        List.append_assoc]
    · simp

end FcfsCall

/-- **FCFS wake-up order** (spec §4.1): under `fcfs_acquire`/`fcfs_release`, a release of
`r` by its owner, while every waiter is blocked, passes its `assert`s, and every release of
`r` that does moves the head of its waitqueue, if any, to the readyqueue's tail; so over any
run of calls by any processes on any resources, from a state in which `r` has no waiter,
the processes woken from `r` are a prefix of those that blocked on it, in the same order. -/
theorem fcfs_wake_order (r : Fin nr) (calls : List (FcfsCall nr)) (s : State nr)
    (hempty : (s.resources r).waitqueue = []) :
    (FcfsCall.trace r calls s).2.1 <+: (FcfsCall.trace r calls s).1 ∧
      (∀ (p : Pid) (u t : State nr), fcfsRelease p r u = some t →
        t.readyqueue = u.readyqueue ++ (u.resources r).waitqueue.take 1 ∧
          (t.resources r).waitqueue = (u.resources r).waitqueue.drop 1) ∧
      ∀ (p : Pid) (u : State nr), (u.resources r).owner = some p →
        (∀ q ∈ (u.resources r).waitqueue, (u.procs q).status = .blocked) →
          (fcfsRelease p r u).isSome := by
  refine ⟨⟨((FcfsCall.trace r calls s).2.2.resources r).waitqueue, ?_⟩,
    fun _ _ _ h => ⟨(fcfsRelease_wakes_head h).1, (fcfsRelease_wakes_head h).2.1⟩,
    fun _ _ ho hb => releaseWith_isSome picksWaiter_head ho hb⟩
  simpa [hempty] using (FcfsCall.trace_conserves r calls s).symm

/-- Process 1 takes the resource and 2 and 3 block on it; 1 releases it, which wakes 2, and
then 2, which does not own it, releases it and fails the `assert`. -/
theorem fcfs_wake_order_of_three :
    ((State.init : State 1).resources 0).waitqueue = [] ∧
      (FcfsCall.trace 0 [.acquire 1 0, .acquire 2 0, .acquire 3 0, .release 1 0, .release 2 0]
          (State.init : State 1)).2.1 <+:
        (FcfsCall.trace 0 [.acquire 1 0, .acquire 2 0, .acquire 3 0, .release 1 0, .release 2 0]
          (State.init : State 1)).1 ∧
      (∀ (p : Pid) (u t : State 1), fcfsRelease p 0 u = some t →
        t.readyqueue = u.readyqueue ++ (u.resources 0).waitqueue.take 1 ∧
          (t.resources 0).waitqueue = (u.resources 0).waitqueue.drop 1) ∧
      ∀ (p : Pid) (u : State 1), (u.resources 0).owner = some p →
        (∀ q ∈ (u.resources 0).waitqueue, (u.procs q).status = .blocked) →
          (fcfsRelease p 0 u).isSome :=
  ⟨rfl, fcfs_wake_order 0 _ State.init rfl⟩

/-- The run above wakes 2 while 2 and 3 blocked. -/
example : (FcfsCall.trace 0 [.acquire 1 0, .acquire 2 0, .acquire 3 0, .release 1 0,
    .release 2 0] (State.init : State 1)).1 = [2, 3] ∧
    (FcfsCall.trace 0 [.acquire 1 0, .acquire 2 0, .acquire 3 0, .release 1 0,
      .release 2 0] (State.init : State 1)).2.1 = [2] := by
  decide

/-! ## The priority protocols -/

/-- The restore step of PCP and PIP rewrites the caller's priority only. -/
theorem restorePrio_prio {restore : Bool} {c q : Pid} (s : State nr) (hq : q ≠ c) :
    ((restorePrio restore c s).procs q).prio = (s.procs q).prio := by
  unfold restorePrio
  split_ifs <;> simp [hq]

/-- The body shared by `prio_release`, `pcp_release` and `pip_release`, called by the owner
`c` of `r`, which is not blocked, while every waiter is: it gives `r` up, leaves every other
resource, the stacks and `current` alone, and wakes the first waiter of greatest priority,
if there is one, at the readyqueue's tail. -/
theorem releaseWith_getHighestPrioWait (restore : Bool) {s : State nr} {c : Pid} {r : Fin nr}
    (ho : (s.resources r).owner = some c) (hc : (s.procs c).status ≠ .blocked)
    (hwait : ∀ q ∈ (s.resources r).waitqueue, (s.procs q).status = .blocked) :
    ∃ t, releaseWith getHighestPrioWait restore c r s = some t ∧
      (t.resources r).owner = none ∧ t.current = s.current ∧ t.stack = s.stack ∧
      (∀ r', r' ≠ r → t.resources r' = s.resources r') ∧
      ((s.resources r).waitqueue = [] →
        t.readyqueue = s.readyqueue ∧ (t.resources r).waitqueue = []) ∧
      ((s.resources r).waitqueue ≠ [] → ∃ pre w post,
        IsFirstBest (fun x y => (s.procs x).prio > (s.procs y).prio)
          (s.resources r).waitqueue pre w post ∧
        (t.resources r).waitqueue = pre ++ post ∧ t.readyqueue = s.readyqueue ++ [w] ∧
        (t.procs w).status = .ready) := by
  have hu := prioOnly_restorePrio restore c s
  -- the caller runs, so it waits on nothing, and the scan reads the waiters' priorities
  have hcw : c ∉ (s.resources r).waitqueue := fun h => hc (hwait c h)
  have hwq : (((restorePrio restore c s).setOwner r none).resources r).waitqueue =
      (s.resources r).waitqueue := by
    rw [setOwner_waitqueue, hu.resources]
  have hother : ∀ r', r' ≠ r →
      ((restorePrio restore c s).setOwner r none).resources r' = s.resources r' := fun r' hr' =>
    (State.setOwner_resources_of_ne _ _ hr').trans (congrFun hu.resources r')
  unfold releaseWith wakeOne
  rw [if_pos ho]
  cases hpick : getHighestPrioWait ((restorePrio restore c s).setOwner r none) r with
  | none =>
    have hnil : (s.resources r).waitqueue = [] := by
      rw [← hwq]
      exact highestPrio_eq_none.mp hpick
    exact ⟨_, rfl, by simp, hu.current, hu.stack, hother,
      fun _ => ⟨hu.readyqueue, hwq.trans hnil⟩, fun h => absurd hnil h⟩
  | some w =>
    have hw : w ∈ (s.resources r).waitqueue := hwq ▸ highestPrio_mem hpick
    have hblocked : (((restorePrio restore c s).setOwner r none).procs w).status = .blocked := by
      rw [State.setOwner_procs, hu.status]
      exact hwait w hw
    dsimp only
    rw [if_pos hblocked]
    obtain ⟨pre, post, hb⟩ := scanPick_firstGreatest
      (fun q => (((restorePrio restore c s).setOwner r none).procs q).prio) hpick
    rw [hwq] at hb
    refine ⟨_, rfl, by simp, hu.current, hu.stack,
      fun r' hr' => (State.wake_resources_of_ne _ _ hr').trans (hother r' hr'),
      fun h => absurd h (List.ne_nil_of_mem hw), fun _ => ⟨pre, w, post, ?_, ?_, ?_, by simp⟩⟩
    · refine hb.congr fun x hx y hy => ?_
      simp only [State.setOwner_procs, restorePrio_prio s (ne_of_mem_of_not_mem hx hcw),
        restorePrio_prio s (ne_of_mem_of_not_mem hy hcw)]
    · rw [State.wake_waitqueue, if_pos rfl, hwq, hb.erase fun _ _ => lt_asymm]
    · exact congrArg (· ++ [w]) hu.readyqueue

/-- **Priority wake-up** (spec §4.2, §4.3, §4.4): `prio_release`, `pcp_release` and
`pip_release`, called by the owner of `r`, which is not blocked, while every waiter of `r`
is blocked, give `r` up and leave every other resource, the stacks and `current` alone; an
empty waitqueue leaves the readyqueue alone, and otherwise the first waiter of greatest
priority is taken out of the waitqueue, the others keeping their order, made READY and
appended to the readyqueue's tail. -/
theorem priority_release_wakes_first_highest
    {rel : Pid → Fin nr → State nr → Option (State nr)}
    (hrel : rel = prioRelease ∨ rel = pcpRelease ∨ rel = pipRelease) {s : State nr} {c : Pid}
    {r : Fin nr} (ho : (s.resources r).owner = some c) (hc : (s.procs c).status ≠ .blocked)
    (hwait : ∀ q ∈ (s.resources r).waitqueue, (s.procs q).status = .blocked) :
    ∃ t, rel c r s = some t ∧
      (t.resources r).owner = none ∧ t.current = s.current ∧ t.stack = s.stack ∧
      (∀ r', r' ≠ r → t.resources r' = s.resources r') ∧
      ((s.resources r).waitqueue = [] →
        t.readyqueue = s.readyqueue ∧ (t.resources r).waitqueue = []) ∧
      ((s.resources r).waitqueue ≠ [] → ∃ pre w post,
        IsFirstBest (fun x y => (s.procs x).prio > (s.procs y).prio)
          (s.resources r).waitqueue pre w post ∧
        (t.resources r).waitqueue = pre ++ post ∧ t.readyqueue = s.readyqueue ++ [w] ∧
        (t.procs w).status = .ready) := by
  rcases hrel with rfl | rfl | rfl
  · exact releaseWith_getHighestPrioWait false ho hc hwait
  · exact releaseWith_getHighestPrioWait true ho hc hwait
  · exact releaseWith_getHighestPrioWait true ho hc hwait

/-- Under `prio_scheduler`, process 1 (priority 1) takes the resource; 2 (priority 2) and
then 3 (priority 3) arrive, preempt it and block on the resource, and 1 runs again.  Its
release wakes 3. -/
theorem priority_release_wakes_first_highest_of_two :
    ∃ s, run 0 .prio (fun _ _ => True)
        [.arrive 1 ⟨.ready, 0, 9, 1, 1⟩, .schedule 0, .acquire 0, .arrive 2 ⟨.ready, 0, 9, 2, 2⟩,
          .schedule 0, .acquire 0, .schedule 0, .arrive 3 ⟨.ready, 0, 9, 3, 3⟩, .schedule 0,
          .acquire 0, .schedule 0] (State.init : State 1) = some s ∧
      (s.resources 0).owner = some 1 ∧ (s.procs 1).status ≠ .blocked ∧
      (∀ q ∈ (s.resources 0).waitqueue, (s.procs q).status = .blocked) ∧
      ∃ t, prioRelease 1 0 s = some t ∧
        (t.resources 0).owner = none ∧ t.current = s.current ∧ t.stack = s.stack ∧
        (∀ r', r' ≠ 0 → t.resources r' = s.resources r') ∧
        ((s.resources 0).waitqueue = [] →
          t.readyqueue = s.readyqueue ∧ (t.resources 0).waitqueue = []) ∧
        ((s.resources 0).waitqueue ≠ [] → ∃ pre w post,
          IsFirstBest (fun x y => (s.procs x).prio > (s.procs y).prio)
            (s.resources 0).waitqueue pre w post ∧
          (t.resources 0).waitqueue = pre ++ post ∧ t.readyqueue = s.readyqueue ++ [w] ∧
          (t.procs w).status = .ready) :=
  ⟨_, rfl, rfl, by decide, by decide,
    priority_release_wakes_first_highest (.inl rfl) rfl (by decide) (by decide)⟩

end SchedSim
