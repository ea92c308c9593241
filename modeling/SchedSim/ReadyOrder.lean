import SchedSim.Rotation
import SchedSim.Selection

/-!
# Dispatch order over runs

No call into a policy but `schedule()` ever takes a process out of the readyqueue or puts
one anywhere but at its tail: an arrival and a wake-up (`fcfs_release` and the releases of
the protocols) are `list_add_tail`, and an acquire or a tick leaves the readyqueue alone
(`exec_readyqueue_extends`).  A `schedule()` call of `rr_schedule` always takes the head:
the current process, when it may go on, is parked on `rr_stack` and not at the readyqueue's
head, and the stack is drained back only into an empty readyqueue.  `fifo_schedule` takes
the head whenever the current process cannot go on.

So under these two policies the processes in the readyqueue leave it in order and before
any process that comes after them, whatever the driver does in between: the first `k` calls
of `rr_schedule`, for `k` up to the readyqueue's length, return its first `k` processes
(`rr_dispatch_order`), and the first `k` calls of `fifo_schedule` that find the current
process unable to go on do (`fifo_take_order`).  When no process enters the readyqueue,
round robin goes on with `rr_stack` from its bottom up (`rr_serves_ready_then_stack`); a
process that arrives while others are parked on the stack is served before them, so with
arrivals the stack may wait for ever.  All three follow from one run lemma
(`runObs_take_queue`): when every move's observation followed by the new queue extends
the old queue, the observations of a run begin with the queue.

Under SJF, with no process entering the readyqueue, the processes taken from it come in
order of non-decreasing lifespan (`sjf_serves_shortest_first`).  Under STCF, a process
preempts the running one only by entering the readyqueue: the running process wins every
tie, only it grows shorter while it runs, and with no entry no `schedule()` call preempts
(`stcf_preempts_only_on_entry`), as long as every process has fewer than `2^31` ticks to
go.  At `2^31` ticks to go `remain_time` reads `-2^31`, the least `int`, and one tick later
`2^31 - 1`, the greatest, so the running process can be preempted by a tick alone.

## Main definitions

* `runObs`: what the moves of a run show, for any observation of a move
* `Action.takes`, `runTakes`: the processes that `schedule()` calls hand the CPU to when
  the current process cannot go on
* `Action.preempts`: the calls that replace a current process that may go on
* `NoEntry`: a stretch with no arrival and no release
* `ShortestRunning`: the running process has no more time to go than any ready one, and
  no process has `2^31` ticks or more to go

## Main results

* `exec_readyqueue_extends`: under every policy, every move but a `schedule()` call only
  appends to the readyqueue
* `rr_dispatch_order`: round robin serves the readyqueue in order
* `rr_serves_ready_then_stack`: with no entry, then the stack from its bottom up
* `fifo_take_order`: FIFO serves the readyqueue in order
* `sjf_serves_shortest_first`: SJF serves shortest first
* `stcf_preempts_only_on_entry`: STCF preempts only when a process enters the readyqueue
-/

namespace SchedSim

open scoped List

variable {nr : Nat}

/-! ## Runs and what they show -/

section Observe

variable (maxPrio : Nat) (pol : Policy) (adm : State nr → Action nr → Prop)
  [∀ s a, Decidable (adm s a)]

/-- What the moves of a run show, in order, up to the first move that `adm` does not admit
or that is not possible; `obs a s t` is what move `a` from `s` to `t` shows. -/
def runObs (obs : Action nr → State nr → State nr → List (Option Pid)) :
    List (Action nr) → State nr → List (Option Pid)
  | [], _ => []
  | a :: as, s =>
    if adm s a then
      match exec maxPrio pol a s with
      | some t => obs a s t ++ runObs obs as t
      | none => []
    else []

/-- The picks of a run are what it shows when every `schedule()` call shows its result. -/
theorem runPicks_eq_runObs (as : List (Action nr)) (s : State nr) :
    runPicks maxPrio pol adm as s = runObs maxPrio pol adm (fun a _ t => a.picks t) as s := by
  induction as generalizing s with
  | nil => rfl
  | cons a as ih =>
    simp only [runPicks, runObs]
    split_ifs
    · rcases exec maxPrio pol a s with _ | t
      · rfl
      · exact congrArg _ (ih t)
    · rfl

/-- What a move from `s` to `t` shows of the processes taken from the readyqueue: a
`schedule()` call that finds the current process unable to go on shows the process it
returned, any other move nothing. -/
def Action.takes : Action nr → State nr → State nr → List (Option Pid)
  | .schedule _, s, t => if s.continuing = none then [t.current] else []
  | .arrive _ _, _, _ | .acquire _, _, _ | .release _, _, _ | .tick, _, _ => []

/-- What a move from `s` to `t` shows of preemptions: a `schedule()` call that finds the
current process able to go on and returns another shows what it returned, any other move
nothing. -/
def Action.preempts : Action nr → State nr → State nr → List (Option Pid)
  | .schedule _, s, t => if s.continuing.isSome ∧ t.current ≠ s.current then [t.current] else []
  | .arrive _ _, _, _ | .acquire _, _, _ | .release _, _, _ | .tick, _, _ => []

/-- The processes that the `schedule()` calls of a run hand the CPU to when the current
process cannot go on, in order. -/
def runTakes : List (Action nr) → State nr → List (Option Pid) :=
  runObs maxPrio pol adm Action.takes

end Observe

/-- A stretch of the driver's moves in which no process enters the readyqueue: no arrival
and no release. -/
def NoEntry : State nr → Action nr → Prop
  | _, .arrive _ _ | _, .release _ => False
  | _, .acquire _ | _, .schedule _ | _, .tick => True

instance : ∀ (s : State nr) a, Decidable (NoEntry s a)
  | _, .arrive _ _ | _, .release _ => instDecidableFalse
  | _, .acquire _ | _, .schedule _ | _, .tick => instDecidableTrue

/-! ## A queue that is only appended to between takes from its head -/

/-- The step of the run lemma: when `A` is a prefix of `o ++ B`, and `R` cut at `B`'s length
is a prefix of `B`, then `o ++ R` cut at `A`'s length is a prefix of `A`. -/
theorem take_prefix_of_prefix_append {α : Type} {A B o R : List α} (hstep : A <+: o ++ B)
    (ih : R.take B.length <+: B) : (o ++ R).take A.length <+: A := by
  obtain ⟨E, hE⟩ := hstep
  rcases List.append_eq_append_iff.mp hE with ⟨a', ho, -⟩ | ⟨c', rfl, rfl⟩
  · -- `A` is all shown by `o`
    rw [ho, List.append_assoc, List.take_left' rfl]
  · -- `A` is `o` and then the first `c'.length` entries of `B`
    have hR : R.take c'.length <+: c' := by
      simpa [List.take_take, List.take_left'] using ih.take c'.length
    simpa [List.take_append_eq_append_take, List.take_of_length_le] using hR

section Run

variable {maxPrio : Nat} {pol : Policy} {adm : State nr → Action nr → Prop}
  [∀ s a, Decidable (adm s a)]

/-- **The run lemma.**  For a queue `Q` read off each state: when every admitted move from
`s` to `t` shows `o` with `Q s` a prefix of `o ++ Q t` (the queue is only appended to, and
what a move takes from it, it takes from the head and shows), a run shows the queue's
processes first, in order. -/
theorem runObs_take_queue {obs : Action nr → State nr → State nr → List (Option Pid)}
    (Q : State nr → List Pid)
    (hstep : ∀ a s t, adm s a → exec maxPrio pol a s = some t →
      (Q s).map some <+: obs a s t ++ (Q t).map some) :
    ∀ (as : List (Action nr)) (s : State nr),
      (runObs maxPrio pol adm obs as s).take (Q s).length <+: (Q s).map some
  | [], _ => by simp [runObs]
  | a :: as, s => by
    simp only [runObs]
    split_ifs with ha
    · split
      · rename_i t he
        simpa using take_prefix_of_prefix_append (hstep a s t ha he)
          (by simpa using runObs_take_queue Q hstep as t)
      · simp
    · simp

end Run

/-! ## Every move but `schedule()` only appends to the readyqueue -/

section Append

variable {maxPrio : Nat} {pol : Policy} {s t : State nr}

theorem State.PrioOnly.readyqueue_extends {s t : State nr} (h : s.PrioOnly t) :
    s.readyqueue <+: t.readyqueue :=
  h.readyqueue ▸ List.prefix_refl _

/-- **Only `schedule()` takes from the readyqueue.**  Under every policy, an arrival, an
acquire, a release and a tick leave the readyqueue as it was or append to its tail. -/
theorem exec_readyqueue_extends {a : Action nr} (ha : ∀ x, a ≠ .schedule x)
    (h : exec maxPrio pol a s = some t) : s.readyqueue <+: t.readyqueue := by
  cases a with
  | arrive p proc =>
    simp only [exec] at h
    split_ifs at h
    cases h
    exact List.prefix_append _ _
  | acquire r =>
    obtain ⟨c, -, rfl⟩ := Option.map_eq_some'.mp h
    rcases Policy.acquire_cases maxPrio pol c r s with ⟨-, hpo⟩ | ⟨-, -, hpo⟩ <;>
      exact hpo.readyqueue_extends
  | release r =>
    obtain ⟨c, -, h⟩ := Option.bind_eq_some.mp h
    obtain ⟨pick, restore, hpick, heq⟩ := Policy.release_eq maxPrio pol c r s
    rw [heq] at h
    have hu : s.readyqueue = ((restorePrio restore c s).setOwner r none).readyqueue :=
      (prioOnly_restorePrio restore c s).readyqueue.symm
    rcases (releaseWith_cases hpick h).2 with rfl | ⟨w, -, -, rfl⟩
    · exact hu ▸ List.prefix_refl _
    · rw [State.wake_readyqueue, ← hu]
      exact List.prefix_append _ _
  | schedule x => exact absurd rfl (ha x)
  | tick =>
    obtain ⟨c, -, rfl⟩ := Option.map_eq_some'.mp h
    exact List.prefix_refl _

end Append

/-! ## Round robin -/

/-- `pick_next` of `rr_schedule` from a readyqueue headed by `n` takes `n`. -/
theorem rrPickNext_of_cons {s : State nr} {n : Pid} {l : List Pid}
    (h : s.readyqueue = n :: l) :
    (rrPickNext s).2 = some n ∧ (rrPickNext s).1.readyqueue = l := by
  rw [rrPickNext, if_neg (by simp [h]), if_pos (by simp [h]), popReady_of_cons h]
  exact ⟨rfl, rfl⟩

/-- Every `rr_schedule` call takes the readyqueue's head, whether or not the current process
may go on. -/
theorem rrSchedule_of_cons {s : State nr} {n : Pid} {l : List Pid}
    (h : s.readyqueue = n :: l) :
    (rrSchedule s).2 = some n ∧ (rrSchedule s).1.readyqueue = l := by
  rcases rrSchedule_cases s with e | ⟨c, -, e⟩ <;> rw [e]
  · exact rrPickNext_of_cons h
  · exact rrPickNext_of_cons h

/-- **Round robin serves the readyqueue in order.**  Under `rr_scheduler`, from any state
and over any run of the driver's moves under any discipline, the first `k` `schedule()`
calls, for `k` up to the readyqueue's length, return the readyqueue's first `k` processes
in order, whatever arrives, blocks, completes or is woken in between: a process at index
`i` of the readyqueue runs at the `i + 1`-th call. -/
theorem rr_dispatch_order {maxPrio : Nat} (adm : State nr → Action nr → Prop)
    [∀ s a, Decidable (adm s a)] (as : List (Action nr)) (s : State nr) :
    (runPicks maxPrio .rr adm as s).take s.readyqueue.length <+: s.readyqueue.map some := by
  rw [runPicks_eq_runObs]
  refine runObs_take_queue State.readyqueue (fun a s t _ h => ?_) as s
  cases a
  case schedule x =>
    simp only [exec, Policy.scheduler, rrScheduler, Option.map_some', Option.some.injEq] at h
    subst h
    cases hrq : s.readyqueue with
    | nil => exact List.nil_prefix
    | cons m l =>
      obtain ⟨hn, hl⟩ := rrSchedule_of_cons hrq
      simp [Action.picks, hn, hl]
  all_goals exact (exec_readyqueue_extends (by simp) h).map some

/-- With process 1 running and 2 ready, process 3 arrives: round robin runs 2, then 3, which
arrived after 1 was parked, and only then 1. -/
example : (run 0 .rr (fun _ _ => True) [.arrive 1 ⟨.ready, 0, 5, 1, 1⟩,
      .arrive 2 ⟨.ready, 0, 5, 1, 1⟩, .schedule 0] (State.init : State 1)).map
      (fun s => (s.readyqueue, runPicks 0 .rr (fun _ _ => True)
        [.arrive 3 ⟨.ready, 0, 5, 1, 1⟩, .schedule 0, .schedule 0, .schedule 0] s)) =
    some ([2], [some 2, some 3, some 1]) := by
  decide

/-- A list's head followed by its tail. -/
theorem head?_cons_map_tail {l : List Pid} (h : l ≠ []) :
    l.head? :: l.tail.map some = l.map some := by
  obtain ⟨x, l, rfl⟩ := List.exists_cons_of_ne_nil h
  rfl

/-- **With no entry, round robin serves the readyqueue and then `rr_stack` from its bottom
up.**  Under `rr_scheduler`, from any state, over any stretch of moves with no arrival and
no release, the first `k` `schedule()` calls, for `k` up to the length of
`readyqueue ++ reverse rr_stack`, return its first `k` processes in order, whatever blocks,
completes or is dropped in between. -/
theorem rr_serves_ready_then_stack {maxPrio : Nat} (as : List (Action nr)) (s : State nr) :
    (runPicks maxPrio .rr NoEntry as s).take (s.readyqueue ++ (s.stack .rr).reverse).length <+:
      (s.readyqueue ++ (s.stack .rr).reverse).map some := by
  rw [runPicks_eq_runObs]
  refine runObs_take_queue (fun s => s.readyqueue ++ (s.stack .rr).reverse)
    (fun a s t ha h => ?_) as s
  cases a
  case schedule x =>
    simp only [exec, Policy.scheduler, rrScheduler, Option.map_some', Option.some.injEq] at h
    subst h
    rcases rrSchedule_cases s with e | ⟨c, -, e⟩ <;> rw [e]
    · -- the head of the queue is picked, and its tail is left
      obtain ⟨h₁, h₂⟩ := rrPickNext_rotates s
      simp only [Action.picks, List.singleton_append, h₁, h₂]
      by_cases hq : s.readyqueue ++ (s.stack .rr).reverse = []
      · simp [hq]
      · rw [head?_cons_map_tail hq]
    · -- `c` is parked at the queue's end, the head is picked, and the tail is left
      obtain ⟨h₁, h₂⟩ := rrPickNext_rotates (s.push .rr c)
      simp only [Action.picks, List.singleton_append, h₁, h₂]
      rw [head?_cons_map_tail (by simp)]
      simp
  case acquire r =>
    obtain ⟨c, -, rfl⟩ := Option.map_eq_some'.mp h
    rcases Policy.acquire_cases maxPrio .rr c r s with ⟨-, hpo⟩ | ⟨-, -, hpo⟩ <;>
      simp only [Action.picks, List.nil_append, hpo.readyqueue, hpo.stack] <;>
      exact List.prefix_refl _
  case tick =>
    obtain ⟨c, -, rfl⟩ := Option.map_eq_some'.mp h
    exact List.prefix_refl _
  all_goals exact absurd ha id

/-! ## FIFO -/

/-- **FIFO serves the readyqueue in order.**  Under `fifo_scheduler`, from any state and
over any run of the driver's moves under any discipline, the first `k` `schedule()` calls
that find the current process unable to go on, for `k` up to the readyqueue's length,
return the readyqueue's first `k` processes in order; a current process that may go on is
kept and takes nothing from the readyqueue. -/
theorem fifo_take_order {maxPrio : Nat} (adm : State nr → Action nr → Prop)
    [∀ s a, Decidable (adm s a)] (as : List (Action nr)) (s : State nr) :
    (runTakes maxPrio .fifo adm as s).take s.readyqueue.length <+: s.readyqueue.map some := by
  refine runObs_take_queue State.readyqueue (fun a s t _ h => ?_) as s
  cases a
  case schedule x =>
    simp only [exec, Policy.scheduler, fifoScheduler, Option.map_some', Option.some.injEq] at h
    subst h
    cases hc : s.continuing with
    | some c => simp [Action.takes, fifoSchedule, hc]
    | none =>
      cases hrq : s.readyqueue with
      | nil => exact List.nil_prefix
      | cons m l => simp [Action.takes, fifoSchedule, hc, popReady_of_cons hrq]
  all_goals exact (exec_readyqueue_extends (by simp) h).map some

/-! ## SJF -/

/-- One move of such a stretch under `sjf_scheduler` keeps every lifespan, takes no new
process into the readyqueue, and what it takes from it is in it and has a lifespan no
greater than any process it leaves there. -/
theorem sjf_noEntry_step {maxPrio : Nat} {s t : State nr} {a : Action nr} (ha : NoEntry s a)
    (he : exec maxPrio .sjf a s = some t) :
    (∀ p, (t.procs p).lifespan = (s.procs p).lifespan) ∧
      (∀ p ∈ t.readyqueue, p ∈ s.readyqueue) ∧
      ∀ p, some p ∈ a.takes s t →
        p ∈ s.readyqueue ∧
          ∀ q ∈ t.readyqueue, (s.procs p).lifespan ≤ (s.procs q).lifespan := by
  cases a with
  | acquire r =>
    -- an acquire moves only the caller, into a waitqueue, and changes no lifespan
    obtain ⟨c, -, rfl⟩ := Option.map_eq_some'.mp he
    rcases Policy.acquire_cases maxPrio .sjf c r s with ⟨-, hpo⟩ | ⟨-, -, hpo⟩
    · exact ⟨hpo.lifespan, fun p hp => by rwa [hpo.readyqueue] at hp, fun _ h => by cases h⟩
    · refine ⟨fun p => (hpo.lifespan p).trans ?_, fun p hp => by rwa [hpo.readyqueue] at hp,
        fun _ h => by cases h⟩
      rw [State.block_procs]
      split_ifs with e
      · rw [e]
      · rfl
  | tick =>
    obtain ⟨c, -, rfl⟩ := Option.map_eq_some'.mp he
    refine ⟨fun p => ?_, fun p hp => hp, fun _ h => by cases h⟩
    by_cases e : p = c <;> simp [State.age, e]
  | schedule x =>
    simp only [exec, Policy.scheduler, sjfScheduler, Option.map_some', Option.some.injEq] at he
    subst he
    cases hc : s.continuing with
    | some c => simp [Action.takes, sjfSchedule, hc]
    | none =>
      by_cases hrq : s.readyqueue = []
      · simp [Action.takes, sjfSchedule, hc, hrq, takeReady]
      · -- the first process of least lifespan is taken out
        obtain ⟨pre, p, post, hb, hsj⟩ : ∃ pre p post,
            IsFirstBest (fun x y => (s.procs x).lifespan < (s.procs y).lifespan)
              s.readyqueue pre p post ∧
            sjfSchedule s = ({ s with readyqueue := pre ++ post }, some p) := by
          rw [sjfSchedule, hc, foldl_sjfStep_eq_scanPick]
          exact takeReady_scanPick_firstLeast (fun x => (s.procs x).lifespan) hrq
        have hmem : ∀ q ∈ pre ++ post, q ∈ s.readyqueue := fun q hq => by
          rw [hb.1]
          rcases List.mem_append.mp hq with hq | hq <;> simp [hq]
        simp only [Action.takes, hc, hsj, if_true, List.mem_singleton, Option.some.injEq]
        refine ⟨by simp, hmem, fun q hq => ⟨hq ▸ hb.1 ▸ by simp, fun y hy => ?_⟩⟩
        subst hq
        rcases List.mem_append.mp hy with hy | hy
        · exact (hb.2.1 y hy).le
        · exact not_lt.mp (hb.2.2 y hy)
  | arrive p proc => exact absurd ha id
  | release r => exact absurd ha id

/-- **SJF serves shortest first.**  Under `sjf_scheduler`, from any state, over any stretch
of moves in which no process arrives and none is released (so none enters the readyqueue),
the processes that `schedule()` calls take from the readyqueue when the current process
cannot go on were in it at the start, and come in order of non-decreasing lifespan. -/
theorem sjf_serves_shortest_first {maxPrio : Nat} :
    ∀ (as : List (Action nr)) (s : State nr),
      (∀ p, some p ∈ runTakes maxPrio .sjf NoEntry as s → p ∈ s.readyqueue) ∧
      (runTakes maxPrio .sjf NoEntry as s).Pairwise
        (fun a b => ∀ p q, a = some p → b = some q →
          (s.procs p).lifespan ≤ (s.procs q).lifespan)
  | [], _ => by simp [runTakes, runObs]
  | a :: as, s => by
    simp only [runTakes, runObs]
    split_ifs with ha
    · split
      · rename_i t he
        obtain ⟨hl, hsub, htake⟩ := sjf_noEntry_step ha he
        obtain ⟨ihm, ihp⟩ := sjf_serves_shortest_first as t
        simp only [runTakes, hl] at ihm ihp
        refine ⟨fun p hp => ?_, List.pairwise_append.mpr ⟨?_, ihp, ?_⟩⟩
        · rcases List.mem_append.mp hp with hp | hp
          · exact (htake p hp).1
          · exact hsub p (ihm p hp)
        · -- a move takes at most one process
          cases a <;> simp only [Action.takes] <;> (try split_ifs) <;> simp
        · rintro _ ha' _ hb p q rfl rfl
          exact (htake p ha').2 q (ihm q hb)
      · simp
    · simp

/-- Processes of lifespans 5, 2 and 3 arrive; SJF runs them to completion as 2, 3, 1. -/
example : (run 0 .sjf (fun _ _ => True) [.arrive 1 ⟨.ready, 0, 5, 1, 1⟩,
      .arrive 2 ⟨.ready, 0, 2, 1, 1⟩, .arrive 3 ⟨.ready, 0, 3, 1, 1⟩]
      (State.init : State 1)).map
      (runTakes 0 .sjf NoEntry [.schedule 0, .tick, .tick, .schedule 0, .tick, .tick, .tick,
        .schedule 0]) = some [some 2, some 3, some 1] := by
  decide

/-! ## STCF -/

/-- Every ready or running process has fewer than `2^31` ticks to go, so that
`remain_time` reads the time it still needs, and a current process that may continue has no
more time to go than any ready one. -/
structure ShortestRunning (s : State nr) : Prop where
  fit : ∀ q ∈ s.readyqueue ++ s.current.toList,
    (s.procs q).lifespan - (s.procs q).age < 2147483648
  shortest : ∀ c, s.continuing = some c →
    ∀ q ∈ s.readyqueue, remainTime (s.procs c) ≤ remainTime (s.procs q)

/-- A tick shortens the time that a process with fewer than `2^31` ticks to go still needs. -/
theorem remainTime_tick_lt {p : Proc} (h : p.age + 1 < p.lifespan)
    (hfit : p.lifespan - p.age < 2147483648) :
    remainTime { p with age := p.age + 1 } < remainTime p := by
  simp only [remainTime, toInt32]
  omega

/-- One move of a stretch with no entry under `stcf_scheduler` keeps the running process
shortest and preempts nothing: an acquire either changes nothing the invariant reads or
blocks the caller, a tick shortens only the running process, and a call either keeps the
running process, which wins every tie, or takes the first ready process of least time. -/
theorem ShortestRunning.stcf_step {maxPrio : Nat} {s t : State nr} {a : Action nr}
    (hP : Partition .stcf s) (ha : NoEntry s a) (h : ShortestRunning s)
    (he : exec maxPrio .stcf a s = some t) : ShortestRunning t ∧ a.preempts s t = [] := by
  cases a with
  | acquire r =>
    obtain ⟨c, hc, rfl⟩ := Option.map_eq_some'.mp he
    have hcur := ((s.caller_eq_some).mp hc).1
    rcases Policy.acquire_cases maxPrio .stcf c r s with ⟨-, hpo⟩ | ⟨-, -, hpo⟩
    · -- the caller takes the resource: nothing the invariant reads changes
      have hf : Frame none (s.setOwner r (some c)) _ := hpo.frame
      refine ⟨⟨fun q hq => ?_, fun c' hc' q hq => ?_⟩, rfl⟩
      · rw [hpo.readyqueue, hpo.current] at hq
        rw [hpo.age, hpo.lifespan]
        exact h.fit q hq
      · rw [hf.continuing_eq] at hc'
        rw [hpo.readyqueue] at hq
        simp only [remainTime, hpo.age, hpo.lifespan]
        exact h.shortest c' hc' q hq
    · -- the caller blocks, so nobody may continue
      have hf : Frame none (s.block c r) _ := hpo.frame
      refine ⟨⟨fun q hq => ?_, fun c' hc' => ?_⟩, rfl⟩
      · rw [hpo.readyqueue, hpo.current] at hq
        rw [hpo.age, hpo.lifespan, State.block_procs]
        split_ifs with e
        · subst e
          exact h.fit _ hq
        · exact h.fit q hq
      · rw [hf.continuing_eq] at hc'
        obtain ⟨hcur', hst, -⟩ := ((s.block c r).continuing_eq_some).mp hc'
        obtain rfl : c' = c := Option.some.inj (hcur'.symm.trans hcur)
        simp at hst
  | tick =>
    obtain ⟨c, hc, rfl⟩ := Option.map_eq_some'.mp he
    have hcur := ((s.caller_eq_some).mp hc).1
    refine ⟨⟨fun q hq => ?_, fun c' hc' q hq => ?_⟩, rfl⟩
    · -- only the running process ages, which leaves it less time to go
      have hq' := h.fit q hq
      by_cases e : q = c <;> simp [State.age, e] at hq' ⊢ <;> omega
    · obtain ⟨hcur', hst, hage⟩ := ((s.age c).continuing_eq_some).mp hc'
      obtain rfl : c' = c := Option.some.inj (hcur'.symm.trans hcur)
      have hqc : q ≠ c' := fun e => (hP.current c' hcur).1 (e ▸ List.mem_append_left _ hq)
      -- the running process was shortest, and only it got shorter
      have hc₀ : s.continuing = some c' :=
        (s.continuing_eq_some).mpr ⟨hcur, by simpa [State.age] using hst,
          by simp [State.age] at hage; omega⟩
      have hlt := remainTime_tick_lt (by simpa [State.age] using hage) (h.fit c' (by simp [hcur]))
      simp only [State.age, State.modifyProc_procs, if_pos, if_neg hqc]
      exact hlt.le.trans (h.shortest c' hc₀ q hq)
  | schedule x =>
    simp only [exec, Policy.scheduler, stcfScheduler, Option.map_some', Option.some.injEq] at he
    subst he
    cases hc : s.continuing with
    | some c =>
      -- the running process is shortest, so it is put back at the head and picked again
      have hcur := ((s.continuing_eq_some).mp hc).1
      have hcq : c ∉ s.readyqueue := fun e => (hP.current c hcur).1 (List.mem_append_left _ e)
      have hne : getShortest s ≠ some c := fun e => hcq (scanPick_mem _ e)
      have e : stcfSchedule s = ((s.addReady c).delReady c, some c) := by
        rw [stcfSchedule, hc]
        dsimp only
        rw [if_pos hne, (getShortest_addReady s c).1 (h.shortest c hc)]
        rfl
      rw [e]
      refine ⟨⟨fun q hq => h.fit q ?_, fun c' hc' q hq => ?_⟩, by simp [Action.preempts, hcur]⟩
      · simpa [hcur] using hq
      · obtain ⟨hcur', -, -⟩ := (State.continuing_eq_some _).mp hc'
        obtain rfl : c' = c := Option.some.inj hcur'.symm
        simp only [State.delReady_readyqueue, State.addReady_readyqueue,
          List.erase_cons_head] at hq
        exact h.shortest c' hc q hq
    | none =>
      by_cases hrq : s.readyqueue = []
      · -- nothing to pick: no process runs
        have e : stcfSchedule s = (s, none) := by
          simp [stcfSchedule, hc, getShortest, hrq, takeReady]
        rw [e]
        refine ⟨⟨fun q hq => by simp [hrq] at hq, fun c' hc' => ?_⟩,
          by simp [Action.preempts, hc]⟩
        simp [State.continuing] at hc'
      · -- the first ready process of least time is taken
        obtain ⟨pre, p, post, hb, hst⟩ := takeReady_scanPick_firstLeast
          (fun x => remainTime (s.procs x)) hrq
        have e : stcfSchedule s = ({ s with readyqueue := pre ++ post }, some p) := by
          rw [stcfSchedule, hc]
          exact hst
        rw [e]
        refine ⟨⟨fun q hq => h.fit q ?_, fun c' hc' q hq => ?_⟩,
          by simp [Action.preempts, hc]⟩
        · rw [hb.1]
          exact List.mem_append_left _
            (((List.perm_append_singleton p _).trans List.perm_middle.symm).subset hq)
        · obtain ⟨hcur', -, -⟩ := (State.continuing_eq_some _).mp hc'
          obtain rfl : c' = p := Option.some.inj hcur'.symm
          rcases List.mem_append.mp hq with hq | hq
          · exact (hb.2.1 q hq).le
          · exact not_lt.mp (hb.2.2 q hq)
  | arrive p proc => exact absurd ha id
  | release r => exact absurd ha id

theorem ShortestRunning.stcf_run {maxPrio : Nat} :
    ∀ (as : List (Action nr)) (s : State nr), Partition .stcf s → ShortestRunning s →
      runObs maxPrio .stcf NoEntry Action.preempts as s = []
  | [], _, _, _ => rfl
  | a :: as, s, hP, h => by
    simp only [runObs]
    split_ifs with ha
    · split
      · rename_i t he
        obtain ⟨h', ho⟩ := h.stcf_step hP ha he
        rw [ho, ShortestRunning.stcf_run as t (hP.exec he) h']
        rfl
      · rfl
    · rfl

/-- **STCF preempts only on entry.**  Under `stcf_scheduler`, from any reachable state in
which every ready or running process has fewer than `2^31` ticks to go and the running
process, if it may continue, has no more time to go than any ready process (as right after
every `schedule()` call), no `schedule()` call of a stretch in which no process arrives and
none is released preempts a process that may continue. -/
theorem stcf_preempts_only_on_entry {maxPrio : Nat} {adm : State nr → Action nr → Prop}
    {s : State nr} (hs : Reachable maxPrio .stcf adm s)
    (hfit : ∀ q ∈ s.readyqueue ++ s.current.toList,
      (s.procs q).lifespan - (s.procs q).age < 2147483648)
    (htop : ∀ c, s.continuing = some c →
      ∀ q ∈ s.readyqueue, remainTime (s.procs c) ≤ remainTime (s.procs q))
    (as : List (Action nr)) : runObs maxPrio .stcf NoEntry Action.preempts as s = [] :=
  ShortestRunning.stcf_run as s (partition_of_reachable hs) ⟨hfit, htop⟩

/-- Processes of lifespans 5 and 2 arrive under STCF, and 2 runs: it is shortest. -/
theorem stcf_preempts_only_on_entry_after_schedule :
    ∃ s : State 1, Reachable 0 .stcf (fun _ _ => True) s ∧
      (∀ q ∈ s.readyqueue ++ s.current.toList,
        (s.procs q).lifespan - (s.procs q).age < 2147483648) ∧
      (∀ c, s.continuing = some c →
        ∀ q ∈ s.readyqueue, remainTime (s.procs c) ≤ remainTime (s.procs q)) ∧
      runObs 0 .stcf NoEntry Action.preempts [.tick, .schedule 0, .tick, .schedule 0] s = [] := by
  obtain ⟨s, hs, hfit, htop⟩ : ∃ s : State 1, Reachable 0 .stcf (fun _ _ => True) s ∧
      (∀ q ∈ s.readyqueue ++ s.current.toList,
        (s.procs q).lifespan - (s.procs q).age < 2147483648) ∧
      ∀ c ∈ s.continuing.toList, ∀ q ∈ s.readyqueue,
        remainTime (s.procs c) ≤ remainTime (s.procs q) :=
    exists_reachable_of_run [.arrive 1 ⟨.ready, 0, 5, 1, 1⟩, .arrive 2 ⟨.ready, 0, 2, 1, 1⟩,
      .schedule 0] (by decide)
  have htop' : ∀ c, s.continuing = some c →
      ∀ q ∈ s.readyqueue, remainTime (s.procs c) ≤ remainTime (s.procs q) :=
    fun c hc => htop c (by simp [hc])
  exact ⟨s, hs, hfit, htop', stcf_preempts_only_on_entry hs hfit htop' _⟩

end SchedSim
