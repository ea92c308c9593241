import SchedSim.HighestFirst
import Mathlib.Data.List.Rotate

/-!
# Round-robin rotation

Round robin keeps its queue in two lists: the readyqueue, taken from the head, and
`rr_stack`, onto which each process that may go on running is pushed with `list_add`.  When
the readyqueue runs dry, the drain loop moves the stack back front-first, which reverses
it, so the processes come back in the order in which they ran.  Read as one queue,
`readyqueue ++ reverse rr_stack` followed by the process that may continue, a call hands
out the queue's head and the rest is the queue's tail: the queue turns by one
(`rrSchedule_rotates`), as long as the process that may continue has fewer than `2^31`
ticks to go.  From `2^31` on, `remain_time` reads a negative `int`, the process is not
parked, and the queue loses it (`rr_schedule_drops_current`).

`prio_schedule` parks a process that ties the best of the readyqueue on `prio_stack` in the
same way, and rotates the processes of the top priority class: in the readyqueue's order,
then from the bottom of `prio_stack` up, then the running process
(`prioSchedule_rotates`).  Its flush-and-repick branch, taken when the pick is of lower
priority than the process parked on top, moves the stack back and picks from it.

Over a run of `schedule()` calls with nothing in between but ticks (`Steady`), a call that
turns an abstract queue by one makes the calls hand out that queue in round-robin order
(`runPicks_eq_rotationPicks`): every window of as many calls as the queue is long returns
each of its processes once.

## Main definitions

* `rotationPicks`: what a queue that hands out its head and requeues it at its tail returns
* `rrQueue`, `prioClass`: the queues that round robin and `prio_schedule` implement
* `Steady`, `runPicks`: a run of `schedule()` calls with only ticks in between, and what it
  returns

## Main results

* `rrSchedule_rotates`: one call of `rr_schedule` turns its queue by one
* `rr_schedule_drops_current`: a run on which it drops the process that may continue
* `rr_steady_run_rotates`: over a steady run, `rr_schedule` returns its queue in
  round-robin order
* `prioSchedule_rotates`: one call of `prio_schedule` turns the top priority class by one
* `prio_schedule_rotates_top_class`: over a steady run, `prio_schedule` returns the
  processes of the top priority class in round-robin order
-/

namespace SchedSim

open scoped List

variable {nr : Nat}

/-! ## The abstract round-robin queue -/

/-- The first `n` picks of a queue that hands out its head and requeues it at its tail. -/
def rotationPicks : List Pid → Nat → List (Option Pid)
  | _, 0 => []
  | q, n + 1 => q.head? :: rotationPicks (q.rotate 1) n

@[simp] theorem rotationPicks_length (q : List Pid) (n : Nat) :
    (rotationPicks q n).length = n := by
  induction n generalizing q with
  | zero => rfl
  | succ n ih => simp [rotationPicks, ih]

theorem rotationPicks_drop (q : List Pid) (n i : Nat) :
    (rotationPicks q n).drop i = rotationPicks (q.rotate i) (n - i) := by
  induction i generalizing q n with
  | zero => simp
  | succ i ih =>
    cases n with
    | zero => simp [rotationPicks]
    | succ n =>
      rw [rotationPicks, List.drop_succ_cons, ih, List.rotate_rotate, Nat.add_comm 1 i,
        Nat.add_sub_add_right]

theorem rotationPicks_take (q : List Pid) {m n : Nat} (h : m ≤ n) :
    (rotationPicks q n).take m = rotationPicks q m := by
  induction m generalizing q n with
  | zero => rfl
  | succ m ih =>
    obtain ⟨n, rfl⟩ : ∃ n', n = n' + 1 := ⟨n - 1, by omega⟩
    rw [rotationPicks, rotationPicks, List.take_succ_cons, ih _ (by omega)]

/-- A queue's first `l₁.length` picks are `l₁`, whatever follows it. -/
theorem rotationPicks_append_length (l₁ l₂ : List Pid) :
    rotationPicks (l₁ ++ l₂) l₁.length = l₁.map some := by
  induction l₁ generalizing l₂ with
  | nil => rfl
  | cons a l ih =>
    rw [List.length_cons, List.cons_append, rotationPicks, List.rotate_cons_succ,
      List.rotate_zero, List.append_assoc, ih]
    rfl

/-- Every window of `q.length` consecutive picks is `q`, turned as far as the window's
start. -/
theorem rotationPicks_window (q : List Pid) {n i : Nat} (h : i + q.length ≤ n) :
    ((rotationPicks q n).drop i).take q.length = (q.rotate i).map some := by
  have hq := rotationPicks_append_length (q.rotate i) []
  rw [List.append_nil, List.length_rotate] at hq
  rw [rotationPicks_drop, rotationPicks_take _ (by omega), hq]

/-- So every such window hands out each entry of `q` once. -/
theorem rotationPicks_window_perm (q : List Pid) {n i : Nat} (h : i + q.length ≤ n) :
    ((rotationPicks q n).drop i).take q.length ~ q.map some := by
  rw [rotationPicks_window q h]
  exact (List.rotate_perm q i).map some

/-- The queue that round robin keeps in the readyqueue and `rr_stack`: the readyqueue, then
the stack from its bottom up, then the process that may continue. -/
def rrQueue (s : State nr) : List Pid :=
  s.readyqueue ++ (s.stack .rr).reverse ++ s.runnable

theorem popReady_of_cons {s : State nr} {n : Pid} {l : List Pid} (h : s.readyqueue = n :: l) :
    popReady s = ({ s with readyqueue := l }, some n) := by
  simp [popReady, takeReady, State.delReady, h]

/-- `pick_next` of `rr_schedule` hands out the head of `readyqueue ++ reverse rr_stack`,
and leaves its tail. -/
theorem rrPickNext_rotates (s : State nr) :
    (rrPickNext s).2 = (s.readyqueue ++ (s.stack .rr).reverse).head? ∧
      (rrPickNext s).1.readyqueue ++ ((rrPickNext s).1.stack .rr).reverse =
        (s.readyqueue ++ (s.stack .rr).reverse).tail := by
  unfold rrPickNext
  cases hrq : s.readyqueue with
  | cons n l => simp [popReady_of_cons hrq]
  | nil =>
    cases hk : s.stack .rr with
    | nil => simp [hrq, hk]
    | cons y ys =>
      -- the drain loop reverses the stack into the empty readyqueue
      obtain ⟨z, zs, hz⟩ := List.exists_cons_of_ne_nil
        (List.reverse_ne_nil_iff.mpr (List.cons_ne_nil y ys))
      have hd : (s.drain false .rr).readyqueue = z :: zs := by simp [hrq, hk, hz]
      simp [hrq, hk, hz, popReady_of_cons hd]

/-- `rr_schedule` runs `pick_next` on the state it is called in, or, when it parks the
process `c` that may continue, on that state with `c` on `rr_stack`. -/
theorem rrSchedule_cases (s : State nr) :
    rrSchedule s = rrPickNext s ∨
      ∃ c, s.continuing = some c ∧ rrSchedule s = rrPickNext (s.push .rr c) := by
  unfold rrSchedule
  split
  · split
    · exact .inr ⟨_, ‹_›, rfl⟩
    · exact .inl rfl
  · exact .inl rfl

/-- A process that may continue, with fewer than `2^31` ticks to go, has a positive
`remain_time`, so `rr_schedule` parks it on `rr_stack`. -/
theorem rrSchedule_of_continuing {s : State nr} {c : Pid} (hc : s.continuing = some c)
    (hfit : (s.procs c).lifespan - (s.procs c).age < 2147483648) :
    rrSchedule s = rrPickNext (s.push .rr c) := by
  rw [rrSchedule, hc]
  exact if_pos (remainTime_pos ((s.continuing_eq_some).mp hc).2.2 hfit)

/-- **One call turns round robin's queue** (spec §4.5): from any state whose process that
may continue has fewer than `2^31` ticks to go, `rr_schedule` returns the head of `rrQueue`,
NULL exactly when it is empty, and leaves its tail in `readyqueue ++ reverse rr_stack`. -/
theorem rrSchedule_rotates (s : State nr)
    (hfit : ∀ c, s.continuing = some c → (s.procs c).lifespan - (s.procs c).age < 2147483648) :
    (rrSchedule s).2 = (rrQueue s).head? ∧
      (rrSchedule s).1.readyqueue ++ ((rrSchedule s).1.stack .rr).reverse =
        (rrQueue s).tail := by
  cases hc : s.continuing with
  | none =>
    rw [rrSchedule, hc]
    simpa [rrQueue, runnable_eq_nil hc] using rrPickNext_rotates s
  | some c =>
    rw [rrSchedule_of_continuing hc (hfit c hc)]
    simpa [rrQueue, runnable_eq_some hc] using rrPickNext_rotates (s.push .rr c)

/-- **Round robin drops the process that may continue.**  Process 1 arrives with a
lifespan of `2^31` ticks and runs, and process 2 arrives: the queue is `[2, 1]`.  At the
next call `remain_time` reads `-2^31` for 1, so `rr_schedule` does not park it; it returns 2,
the queue's head, but leaves the empty queue and not `[1]`. -/
theorem rr_schedule_drops_current :
    ∃ s : State 0, Reachable 0 .rr (fun _ _ => True) s ∧ rrQueue s = [2, 1] ∧
      (rrSchedule s).2 = some 2 ∧
      (rrSchedule s).1.readyqueue ++ ((rrSchedule s).1.stack .rr).reverse = [] :=
  exists_reachable_of_run [.arrive 1 ⟨.ready, 0, 2147483648, 1, 1⟩, .schedule 0,
    .arrive 2 ⟨.ready, 0, 5, 1, 1⟩] (by decide)

/-! ## Steady runs -/

/-- A stretch of `schedule()` calls with nothing in between but ticks: no arrival, acquire
or release, and every call finds the current process able to go on, so none has
completed or blocked. -/
def Steady (s : State nr) : Action nr → Prop
  | .schedule _ => s.continuing.isSome
  | .tick => True
  | .arrive _ _ | .acquire _ | .release _ => False

instance : ∀ (s : State nr) a, Decidable (Steady s a)
  | s, .schedule _ => inferInstanceAs (Decidable (s.continuing.isSome = true))
  | _, .tick => instDecidableTrue
  | _, .arrive _ _ | _, .acquire _ | _, .release _ => instDecidableFalse

/-- What a move that left `t` shows of the process run: a `schedule()` call shows the
process it returned, any other move nothing. -/
def Action.picks : Action nr → State nr → List (Option Pid)
  | .schedule _, t => [t.current]
  | .arrive _ _, _ | .acquire _, _ | .release _, _ | .tick, _ => []

/-- The processes that the `schedule()` calls of a run return, in order, up to the first
move that `adm` does not admit or that is not possible. -/
def runPicks (maxPrio : Nat) (pol : Policy) (adm : State nr → Action nr → Prop)
    [∀ s a, Decidable (adm s a)] : List (Action nr) → State nr → List (Option Pid)
  | [], _ => []
  | a :: as, s =>
    if adm s a then
      match exec maxPrio pol a s with
      | some t => a.picks t ++ runPicks maxPrio pol adm as t
      | none => []
    else []

section Steady

variable {maxPrio : Nat} {pol : Policy} (Q : State nr → List Pid) (I : State nr → Prop)

/-- **A call that turns a queue makes a steady run a rotation.**  When, from every state of
an invariant `I`, a call made while the current process may continue returns the head of
the queue `Q` and turns it by one, and a tick leaves `Q` alone, the calls of a steady run
return the picks of the abstract round-robin queue `Q`. -/
theorem runPicks_eq_rotationPicks
    (hsched : ∀ s x t, I s → s.continuing.isSome → exec maxPrio pol (.schedule x) s = some t →
      I t ∧ t.current = (Q s).head? ∧ Q t = (Q s).rotate 1)
    (htick : ∀ s t, I s → exec maxPrio pol .tick s = some t → I t ∧ Q t = Q s) :
    ∀ (as : List (Action nr)) (s : State nr), I s →
      runPicks maxPrio pol Steady as s =
        rotationPicks (Q s) (runPicks maxPrio pol Steady as s).length
  | [], _, _ => rfl
  | a :: as, s, hI => by
    have ih := runPicks_eq_rotationPicks hsched htick as
    cases a with
    | schedule x =>
      simp only [runPicks, Steady]
      split_ifs with hc
      · split
        · rename_i t he
          obtain ⟨hI', hcur, hQ⟩ := hsched s x t hI hc he
          rw [ih t hI', Action.picks, hcur, hQ]
          simp [rotationPicks]
        · rfl
      · rfl
    | tick =>
      simp only [runPicks, Steady, if_true]
      split
      · rename_i t he
        obtain ⟨hI', hQ⟩ := htick s t hI he
        rw [Action.picks, List.nil_append, ih t hI', hQ, rotationPicks_length]
      · rfl
    | arrive p proc => rfl
    | acquire r => rfl
    | release r => rfl

end Steady

/-! ## The top priority class under `prio_schedule` -/

section PrioClass

variable (p : Nat)

/-- The processes of priority `p` that `prio_schedule` holds, in the order it hands them
out: the readyqueue's, then `prio_stack`'s from its bottom up. -/
def prioClass (s : State nr) : List Pid :=
  (s.readyqueue ++ (s.stack .prio).reverse).filter fun q => (s.procs q).prio = p

theorem filter_prio_eq_nil {procs : Pid → Proc} {l : List Pid}
    (h : ∀ q ∈ l, (procs q).prio < p) : l.filter (fun q => (procs q).prio = p) = [] :=
  List.filter_eq_nil_iff.mpr fun q hq => by simpa using (h q hq).ne

/-- Taking the first process of greatest priority out of the readyqueue, when that
priority is `p`, takes the head of the class. -/
theorem prioClass_delReady {w : State nr} {n : Pid} (h : getHighestPrio w = some n)
    (hn : (w.procs n).prio = p) : prioClass p w = n :: prioClass p (w.delReady n) := by
  obtain ⟨pre, post, hb⟩ := scanPick_firstGreatest (fun q => (w.procs q).prio) h
  -- everything before the pick is of lower priority, so outside the class
  have hpre : pre.filter (fun q => (w.procs q).prio = p) = [] :=
    filter_prio_eq_nil p fun q hq => hn ▸ hb.2.1 q hq
  have he : w.readyqueue.erase n = pre ++ post := hb.erase fun _ _ => lt_asymm
  simp only [prioClass, State.delReady_readyqueue, State.delReady_stack, State.delReady_procs,
    he]
  rw [hb.1]
  simp only [List.append_assoc, List.cons_append, List.filter_append, List.filter_cons, hn,
    decide_True, if_true, hpre, List.nil_append]

/-- The pick of a readyqueue that holds `c`, of priority `p`, and nothing above `p`. -/
theorem pick_prio_eq {w : State nr} {c n : Pid} (h : getHighestPrio w = some n)
    (hc : c ∈ w.readyqueue) (hcp : (w.procs c).prio = p)
    (hmax : ∀ q ∈ w.readyqueue, (w.procs q).prio ≤ p) : (w.procs n).prio = p :=
  le_antisymm (hmax n (getHighestPrio_mem h)) (hcp ▸ highestPrio_le h c hc)

/-- When the pick of the readyqueue is below `p`, so is every ready process. -/
theorem readyqueue_lt_of_pick {w : State nr} {n : Pid} (h : getHighestPrio w = some n)
    (hle : (w.procs n).prio ≤ p) (hne : (w.procs n).prio ≠ p) :
    ∀ q ∈ w.readyqueue, (w.procs q).prio < p :=
  fun q hq => (highestPrio_le h q hq).trans_lt (lt_of_le_of_ne hle hne)

variable {p} {s : State nr} {c : Pid} (hcp : (s.procs c).prio = p)
include hcp

/-- After `prio_schedule` parks the running process `c`, of top priority `p`, on
`prio_stack`, `pick_next` hands out the head of the class with `c` at its end: from the
readyqueue when it holds the class, and otherwise, by the drain or by the
flush-and-repick branch, from the stack. -/
theorem prioPickNext_push_rotates
    (hmax : ∀ q ∈ s.readyqueue ++ s.stack .prio, (s.procs q).prio ≤ p) :
    ∃ t n, prioPickNext prioVariant (s.push .prio c) = some (t, some n) ∧ t.procs = s.procs ∧
      n :: prioClass p t = prioClass p s ++ [c] := by
  simp only [List.mem_append] at hmax
  unfold prioPickNext
  rw [if_neg (by simp [prioVariant])]
  by_cases hrq : s.readyqueue = []
  · -- the readyqueue is refilled from the stack, which ends with `c`
    have hw : prioRefill prioVariant (s.push .prio c) = (s.push .prio c).drain false .prio := by
      simp [prioRefill, hrq, prioVariant]
    set w := (s.push .prio c).drain false .prio
    have hwrq : w.readyqueue = (s.stack .prio).reverse ++ [c] := by simp [w, hrq]
    obtain ⟨n, hn⟩ := getHighestPrio_of_ne_nil (s := w) (by simp [hwrq])
    have hnp : (w.procs n).prio = p := by
      refine pick_prio_eq p hn (by simp [hwrq]) hcp fun q hq => ?_
      simp only [hwrq, List.mem_append, List.mem_reverse, List.mem_singleton] at hq
      rcases hq with hq | rfl
      · exact hmax q (.inr hq)
      · exact hcp.le
    refine ⟨w.delReady n, n, ?_, rfl, ?_⟩
    · rw [hw, hn, Option.some_bind]
      simp [prioCorrect, w, prioVariant]
    · rw [← prioClass_delReady p hn hnp]
      simp [prioClass, w, hrq, hcp]
  · have hw : prioRefill prioVariant (s.push .prio c) = s.push .prio c := by
      simp [prioRefill, hrq]
    obtain ⟨n, hn⟩ := getHighestPrio_of_ne_nil (s := s.push .prio c) hrq
    rw [hw, hn, Option.some_bind]
    by_cases hnp : (s.procs n).prio = p
    · -- the readyqueue holds the class: `c` on top has the pick's priority, no flush
      refine ⟨(s.push .prio c).delReady n, n, ?_, rfl, ?_⟩
      · simp [prioCorrect, prioVariant, hcp, hnp]
      · rw [← prioClass_delReady p hn hnp]
        simp [prioClass, hcp]
    · -- the pick is below `p`: flush the stack and pick its bottom entry, or `c`
      have hlow : ∀ q ∈ s.readyqueue, (s.procs q).prio < p :=
        readyqueue_lt_of_pick p hn (hmax n (.inl (getHighestPrio_mem hn))) hnp
      set w := (((s.push .prio c).delReady n).drain false .prio).addReady n
      have hwrq : w.readyqueue = n :: ((s.stack .prio).reverse ++ [c] ++ s.readyqueue.erase n) := by
        simp [w]
      obtain ⟨m, hm⟩ := getHighestPrio_of_ne_nil (s := w) (by simp [hwrq])
      have hmp : (w.procs m).prio = p := by
        refine pick_prio_eq p hm (by simp [hwrq]) hcp fun q hq => ?_
        simp only [hwrq, List.mem_cons, List.mem_append, List.mem_reverse, List.not_mem_nil,
          or_false] at hq
        rcases hq with rfl | (hq | rfl) | hq
        · exact hmax q (.inl (getHighestPrio_mem hn))
        · exact hmax q (.inr hq)
        · exact hcp.le
        · exact (hlow q (List.mem_of_mem_erase hq)).le
      refine ⟨w.delReady m, m, ?_, rfl, ?_⟩
      · simp [prioCorrect, prioVariant, hcp, Ne.symm hnp, hm, w]
      · rw [← prioClass_delReady p hm hmp]
        simp [prioClass, w, hcp, hnp, filter_prio_eq_nil p hlow,
          filter_prio_eq_nil p fun q hq => hlow q (List.mem_of_mem_erase hq)]

/-- When no held process has priority `p`, the running process `c` goes back to the
readyqueue's head and is picked again. -/
theorem prioPickNext_addReady_rotates (hS : s.stack .prio = [])
    (hlow : ∀ q ∈ s.readyqueue, (s.procs q).prio < p) :
    ∃ t n, prioPickNext prioVariant (s.addReady c) = some (t, some n) ∧ t.procs = s.procs ∧
      n :: prioClass p t = prioClass p s ++ [c] := by
  obtain ⟨n, hn⟩ := getHighestPrio_of_ne_nil (s := s.addReady c) (List.cons_ne_nil _ _)
  have hnp : ((s.addReady c).procs n).prio = p := pick_prio_eq p hn (List.mem_cons_self _ _)
    hcp (by simpa [hcp] using fun q hq => (hlow q hq).le)
  refine ⟨(s.addReady c).delReady n, n, ?_, rfl, ?_⟩
  · simp [prioPickNext, prioRefill, prioCorrect, hn, hS, prioVariant]
  · rw [← prioClass_delReady p hn hnp]
    simp [prioClass, hS, hcp, filter_prio_eq_nil p hlow]

end PrioClass

/-- **One call of `prio_schedule` turns the top class.**  When the running process `c` may
continue, no held process has a higher priority, and the processes parked on `prio_stack`
have `c`'s priority, a call returns, whatever an empty-list read yields, the head of the
class of `c`'s priority with `c` at its end, and leaves the rest of it as the new
class. -/
theorem prioSchedule_rotates {s : State nr} {c : Pid} (x : Nat) (hc : s.continuing = some c)
    (hmax : ∀ q ∈ s.readyqueue ++ s.stack .prio, (s.procs q).prio ≤ (s.procs c).prio)
    (hlevel : ∀ q ∈ s.stack .prio, (s.procs q).prio = (s.procs c).prio) :
    ∃ t n, prioSchedule (some x) s = some (t, some n) ∧ t.procs = s.procs ∧
      n :: prioClass (s.procs c).prio t = prioClass (s.procs c).prio s ++ [c] := by
  have hpush := prioPickNext_push_rotates (s := s) (c := c) rfl hmax
  obtain ⟨y, hy⟩ : ∃ y, readPrio s (some x) (getHighestPrio s) = some y := by
    cases getHighestPrio s <;> exact ⟨_, rfl⟩
  obtain ⟨z, hz⟩ : ∃ z, readPrio s (some x) (s.stack .prio).head? = some z := by
    cases (s.stack .prio).head? <;> exact ⟨_, rfl⟩
  unfold prioSchedule prioFamilySchedule
  rw [hc]
  simp only [prioVariant, hy, hz, Option.bind_eq_bind, Option.some_bind]
  by_cases hyp : y = (s.procs c).prio
  · rw [if_pos hyp]
    split_ifs with hemp
    · -- nothing else is held: `c` keeps the CPU
      exact ⟨s, c, rfl, rfl, by simp [prioClass, hemp]⟩
    · exact hpush
  · rw [if_neg hyp]
    by_cases hzp : z = (s.procs c).prio
    · rw [if_pos hzp]
      exact hpush
    · -- the stack's top would have `c`'s priority, so the stack is empty, and the
      -- readyqueue's best is below it
      rw [if_neg hzp]
      have hS : s.stack .prio = [] := by
        cases hk : s.stack .prio with
        | nil => rfl
        | cons q qs =>
          simp only [hk, List.head?_cons, readPrio, Option.some.injEq] at hz
          exact absurd (hz ▸ hlevel q (by simp [hk])) hzp
      have hlow : ∀ q ∈ s.readyqueue, (s.procs q).prio < (s.procs c).prio := by
        cases hh : getHighestPrio s with
        | none => simp [highestPrio_eq_none.mp hh]
        | some h =>
          simp only [hh, readPrio, Option.some.injEq] at hy
          exact readyqueue_lt_of_pick _ hh
            (hmax h (List.mem_append_left _ (getHighestPrio_mem hh))) (hy ▸ hyp)
      exact prioPickNext_addReady_rotates rfl hS hlow

/-! ## Steady runs of `prio_schedule` -/

section PrioRun

variable (p : Nat) {maxPrio : Nat}

/-- The class of priority `p` as a queue, with the running process at its end. -/
def prioRotation (s : State nr) : List Pid :=
  prioClass p s ++ s.current.toList

/-- What a steady run of `prio_schedule` keeps: the state is reachable, and the running
process has priority `p`, which no held process exceeds. -/
def TopRunning (maxPrio : Nat) (s : State nr) : Prop :=
  Reachable maxPrio .prio (fun _ _ => True) s ∧ ∃ c, s.current = some c ∧
    (s.procs c).prio = p ∧ ∀ q ∈ s.readyqueue ++ s.stack .prio, (s.procs q).prio ≤ p

theorem Partition.pool_eq_prio {s : State nr} (hP : Partition .prio s) :
    s.pool = s.readyqueue ++ s.stack .prio := by
  rw [State.pool, hP.stackList_eq]
  rfl

variable {p} {s t : State nr}

/-- A call of a steady run hands out the head of the queue and turns it. -/
theorem TopRunning.schedule (h : TopRunning p maxPrio s) (hc : s.continuing.isSome) {x : Nat}
    (he : exec maxPrio .prio (.schedule x) s = some t) :
    TopRunning p maxPrio t ∧ t.current = (prioRotation p s).head? ∧
      prioRotation p t = (prioRotation p s).rotate 1 := by
  obtain ⟨hs, c, hcur, rfl, hmax⟩ := h
  obtain ⟨c', hc'⟩ := Option.isSome_iff_exists.mp hc
  obtain rfl : c' = c := Option.some.inj (((s.continuing_eq_some).mp hc').1.symm.trans hcur)
  have hlevel : ∀ q ∈ s.stack .prio, (s.procs q).prio = (s.procs c').prio := fun q hq => by
    obtain ⟨n, hn, e⟩ := stackLevel_of_reachable hs q hq
    obtain rfl : n = c' := Option.some.inj (hn.symm.trans hcur)
    exact e
  obtain ⟨u, n, hr, hprocs, hrot⟩ := prioSchedule_rotates x hc' hmax hlevel
  have hs' := Reachable.step hs trivial he
  change (prioSchedule (some x) s).map _ = some t at he
  rw [hr] at he
  cases he
  have hQ : prioRotation (s.procs c').prio s = n :: prioClass (s.procs c').prio u := by
    rw [prioRotation, hcur, Option.toList_some, hrot]
  -- the pick comes from the class or is `c'` itself, so it has the top priority
  have hn : (s.procs n).prio = (s.procs c').prio := by
    have hmem : n ∈ prioClass (s.procs c').prio s ++ [c'] := hrot ▸ List.mem_cons_self _ _
    rcases List.mem_append.mp hmem with hmem | hmem
    · simpa using (List.mem_filter.mp hmem).2
    · rw [List.mem_singleton.mp hmem]
  refine ⟨⟨hs', n, rfl, by rw [hprocs, hn], fun q hq => ?_⟩, by rw [hQ]; rfl, ?_⟩
  · -- what is held now was held before, or was the running process
    have hq' : q ∈ s.pool ++ s.runnable := by
      refine (prioFamilySchedule_spec prioVariant hr).perm.symm.subset (List.mem_append_left _ ?_)
      rw [show u.pool = { u with current := some n }.pool from rfl,
        (partition_of_reachable hs').pool_eq_prio]
      exact hq
    rw [(partition_of_reachable hs).pool_eq_prio, runnable_eq_some hc', List.mem_append,
      List.mem_singleton] at hq'
    rw [hprocs]
    rcases hq' with hq' | rfl
    · exact hmax q hq'
    · exact le_rfl
  · rw [hQ, List.rotate_cons_succ, List.rotate_zero]
    rfl

/-- A tick changes neither the queue nor the priorities. -/
theorem TopRunning.tick (h : TopRunning p maxPrio s) (he : exec maxPrio .prio .tick s = some t) :
    TopRunning p maxPrio t ∧ prioRotation p t = prioRotation p s := by
  obtain ⟨hs, c, hcur, hcp, hmax⟩ := h
  obtain ⟨c', -, rfl⟩ := Option.map_eq_some'.mp he
  have hclass : prioClass p (s.age c') = prioClass p s := by
    simp only [prioClass, State.age_prio]
    rfl
  refine ⟨⟨.step hs trivial he, c, hcur, by rw [State.age_prio, hcp], fun q hq => ?_⟩, ?_⟩
  · rw [State.age_prio]
    exact hmax q hq
  · rw [prioRotation, prioRotation, hclass]
    rfl

/-- The run above: the first call parks 1 and runs 2; the second parks 2, picks 3 below
the stack's top, flushes and runs 1; the third runs 2 again. -/
example : (run 0 .prio (fun _ _ => True)
      [.arrive 1 ⟨.ready, 0, 5, 5, 5⟩, .arrive 2 ⟨.ready, 0, 5, 5, 5⟩,
        .arrive 3 ⟨.ready, 0, 5, 1, 1⟩, .schedule 0] (State.init : State 1)).map
      (runPicks 0 .prio Steady [.schedule 0, .tick, .schedule 0, .schedule 0]) =
    some [some 2, some 1, some 2] := by
  decide

end PrioRun

/-! ## Steady runs of `rr_schedule` -/

/-- **Round robin over a run**: from any state in which every process of
`readyqueue ++ reverse rr_stack` and the running one has fewer than `2^31` ticks to go, over
every run of `schedule()` calls with only ticks in between and no completion,
`rr_schedule` hands out `readyqueue ++ reverse rr_stack` followed by the running process in
round-robin order, so every window of as many calls as that queue is long returns each of
its entries once. -/
theorem rr_steady_run_rotates {maxPrio : Nat} (s : State nr)
    (hfit : ∀ q ∈ s.readyqueue ++ (s.stack .rr).reverse ++ s.current.toList,
      (s.procs q).lifespan - (s.procs q).age < 2147483648) (as : List (Action nr)) :
    let Q := s.readyqueue ++ (s.stack .rr).reverse ++ s.current.toList
    let picks := runPicks maxPrio .rr Steady as s
    picks = rotationPicks Q picks.length ∧
      ∀ i, i + Q.length ≤ picks.length → (picks.drop i).take Q.length ~ Q.map some := by
  intro Q picks
  let queue := fun u : State nr => u.readyqueue ++ (u.stack .rr).reverse ++ u.current.toList
  have hpicks : picks = rotationPicks Q picks.length := by
    refine runPicks_eq_rotationPicks queue
      (fun u => ∀ q ∈ queue u, (u.procs q).lifespan - (u.procs q).age < 2147483648)
      (fun u x t hI hc he => ?_) (fun u t hI he => ?_) as s hfit
    · -- the running process is parked at the queue's end, and the head is handed out
      obtain ⟨c, hc⟩ := Option.isSome_iff_exists.mp hc
      have hQ : queue u = rrQueue u := by
        simp [queue, rrQueue, runnable_eq_some hc, ((u.continuing_eq_some).mp hc).1]
      obtain ⟨hhead, htail⟩ := rrSchedule_rotates u fun c' hc' =>
        hI c' (by simp [queue, ((u.continuing_eq_some).mp hc').1])
      obtain ⟨n, l, hnl⟩ : ∃ n l, rrQueue u = n :: l :=
        List.exists_cons_of_ne_nil (by simp [rrQueue, runnable_eq_some hc])
      have hf := (rrSchedule_conserves u).toFrame
      change some { (rrSchedule u).1 with current := (rrSchedule u).2 } = some t at he
      cases he
      have hrot : queue { (rrSchedule u).1 with current := (rrSchedule u).2 } =
          (queue u).rotate 1 := by
        show (rrSchedule u).1.readyqueue ++ ((rrSchedule u).1.stack .rr).reverse ++
          (rrSchedule u).2.toList = _
        rw [htail, hhead, hQ, hnl, List.rotate_cons_succ, List.rotate_zero]
        rfl
      refine ⟨fun q hq => ?_, by rw [hhead, hQ], hrot⟩
      rw [hrot, List.mem_rotate] at hq
      simpa only [hf.age, hf.lifespan] using hI q hq
    · -- a tick ages the running process only, and moves nothing
      obtain ⟨c, -, rfl⟩ := Option.map_eq_some'.mp he
      refine ⟨fun q hq => ?_, rfl⟩
      have h := hI q hq
      by_cases e : q = c <;> simp [State.age, e] at h ⊢ <;> omega
  exact ⟨hpicks, fun i hi => hpicks ▸ rotationPicks_window_perm Q hi⟩

/-- Processes 1 and 2 arrive and 1 runs; the steady run that follows alternates them. -/
theorem rr_steady_run_rotates_of_two :
    ∃ s, run 0 .rr (fun _ _ => True)
        [.arrive 1 ⟨.ready, 0, 5, 1, 1⟩, .arrive 2 ⟨.ready, 0, 5, 1, 1⟩, .schedule 0]
        (State.init : State 1) = some s ∧
      (∀ q ∈ s.readyqueue ++ (s.stack .rr).reverse ++ s.current.toList,
        (s.procs q).lifespan - (s.procs q).age < 2147483648) ∧
      let Q := s.readyqueue ++ (s.stack .rr).reverse ++ s.current.toList
      let picks := runPicks 0 .rr Steady [.schedule 0, .tick, .schedule 0, .schedule 0] s
      picks = rotationPicks Q picks.length ∧
        ∀ i, i + Q.length ≤ picks.length → (picks.drop i).take Q.length ~ Q.map some := by
  obtain ⟨s, hs, hfit⟩ : ∃ s, run 0 .rr (fun _ _ => True)
      [.arrive 1 ⟨.ready, 0, 5, 1, 1⟩, .arrive 2 ⟨.ready, 0, 5, 1, 1⟩, .schedule 0]
      (State.init : State 1) = some s ∧
      ∀ q ∈ s.readyqueue ++ (s.stack .rr).reverse ++ s.current.toList,
        (s.procs q).lifespan - (s.procs q).age < 2147483648 := ⟨_, rfl, by decide⟩
  exact ⟨s, hs, hfit, rr_steady_run_rotates s hfit _⟩

end SchedSim
