import SchedSim.Resource

/-!
# The scheduling policies that ignore priorities

`fifo_schedule`, `sjf_schedule`, `stcf_schedule` and `rr_schedule` all begin alike: a
current process that is neither NULL, nor blocked, nor at the end of its lifespan may go on
running (`State.continuing`); otherwise the next process is taken from the readyqueue at
`pick_next`.  A schedule function returns the state it leaves and the process it picks; the
driver then makes that process `current`.

What every schedule function of the simulator guarantees, the priority family included, is
`SchedSpec`: it only moves pids between the readyqueue and the stacks, takes the returned
process out of them, and returns NULL only when there was nothing to return.  Round robin
is the exception.  `rr_schedule` parks a process that may continue only when
`remain_time(current) > 0`, and `remain_time` returns the `int` of an unsigned difference,
which is negative from `2^31` ticks to go on; such a process is linked nowhere after the
call.  What it keeps is `rrKept`, and it conserves the processes held with that
(`Conserves`, of which `SchedSpec` is the case that keeps the current process).

## Main definitions

* `Frame`, `Conserves`, `SchedSpec`: what a schedule function may change, and its contract
* `fifoSchedule`, `sjfSchedule`, `stcfSchedule`, `rrSchedule`
* `rrKept`: what `rr_schedule` keeps of the process that may continue

## Main results

* `fifoSchedule_spec`, `sjfSchedule_spec`, `stcfSchedule_spec`, `rrSchedule_conserves`
-/

namespace SchedSim

open scoped List

variable {nr : Nat}

/-! ## The contract of a schedule function -/

/-- What a schedule function leaves alone: `current`, the resources, every process's status,
age and lifespan, and every empty stack that is not its own. -/
structure Frame (own : Option StackId) (s t : State nr) : Prop where
  current : t.current = s.current
  resources : t.resources = s.resources
  status : ∀ p, (t.procs p).status = (s.procs p).status
  age : ∀ p, (t.procs p).age = (s.procs p).age
  lifespan : ∀ p, (t.procs p).lifespan = (s.procs p).lifespan
  stack_nil : ∀ k, own ≠ some k → s.stack k = [] → t.stack k = []

/-- The contract of a schedule function called in `s`, leaving `s'` and returning `next`,
that keeps `kept` of the process that may continue: the processes held before the call,
with `kept`, are those held after it with the returned one; and NULL is returned only when
there were none. -/
structure Conserves (own : Option StackId) (s s' : State nr) (kept : List Pid)
    (next : Option Pid) extends Frame own s s' : Prop where
  perm : s.pool ++ kept ~ s'.pool ++ next.toList
  eq_none : next = none → s.readyqueue = [] ∧ kept = [] ∧ ∀ k, own = some k → s.stack k = []

/-- The contract of a schedule function that keeps the current process when it may
continue. -/
abbrev SchedSpec (own : Option StackId) (s s' : State nr) (next : Option Pid) : Prop :=
  Conserves own s s' s.runnable next

namespace Frame

variable {own : Option StackId} {s t u : State nr}

theorem refl (s : State nr) : Frame own s s :=
  ⟨rfl, rfl, fun _ => rfl, fun _ => rfl, fun _ => rfl, fun _ _ h => h⟩

theorem trans (h₁ : Frame own s t) (h₂ : Frame own t u) : Frame own s u :=
  ⟨h₂.current.trans h₁.current, h₂.resources.trans h₁.resources,
    fun p => (h₂.status p).trans (h₁.status p), fun p => (h₂.age p).trans (h₁.age p),
    fun p => (h₂.lifespan p).trans (h₁.lifespan p),
    fun k hk h => h₂.stack_nil k hk (h₁.stack_nil k hk h)⟩

theorem continuing_eq (h : Frame own s t) : t.continuing = s.continuing := by
  simp only [State.continuing, h.current, h.status, h.age, h.lifespan]

theorem runnable_eq (h : Frame own s t) : t.runnable = s.runnable := by
  simp only [State.runnable, h.continuing_eq]

end Frame

theorem State.PrioOnly.frame {own : Option StackId} {s t : State nr} (h : s.PrioOnly t) :
    Frame own s t :=
  ⟨h.current, h.resources, h.status, h.age, h.lifespan, fun k _ hk => by rw [h.stack, hk]⟩

theorem State.PrioOnly.pool_eq {s t : State nr} (h : s.PrioOnly t) : t.pool = s.pool := by
  simp only [State.pool, State.stackList, h.readyqueue, h.stack]

section Moves

variable {own : Option StackId} (s : State nr)

theorem frame_addReady (p : Pid) : Frame own s (s.addReady p) :=
  ⟨rfl, rfl, fun _ => rfl, fun _ => rfl, fun _ => rfl, fun _ _ h => h⟩

theorem frame_addReadyTail (p : Pid) : Frame own s (s.addReadyTail p) :=
  ⟨rfl, rfl, fun _ => rfl, fun _ => rfl, fun _ => rfl, fun _ _ h => h⟩

theorem frame_delReady (p : Pid) : Frame own s (s.delReady p) :=
  ⟨rfl, rfl, fun _ => rfl, fun _ => rfl, fun _ => rfl, fun _ _ h => h⟩

theorem frame_push (k : StackId) (p : Pid) : Frame (some k) s (s.push k p) :=
  ⟨rfl, rfl, fun _ => rfl, fun _ => rfl, fun _ => rfl, fun k' hk h => by
    simp only [State.push_stack]
    split_ifs with e
    · exact absurd (congrArg some e.symm) hk
    · exact h⟩

theorem frame_drain (b : Bool) (k : StackId) : Frame own s (s.drain b k) :=
  ⟨rfl, rfl, fun _ => rfl, fun _ => rfl, fun _ => rfl, fun k' _ h => by
    simp only [State.drain_stack]
    split_ifs
    · rfl
    · exact h⟩

end Moves

namespace SchedSpec

variable {own : Option StackId} {s t : State nr}

/-- `return current`. -/
theorem keep {c : Pid} (h : s.continuing = some c) : SchedSpec own s s (some c) :=
  { Frame.refl s with
    perm := by simp [State.runnable, h]
    eq_none := fun h' => by cases h' }

end SchedSpec

namespace Conserves

variable {own : Option StackId} {s t : State nr} {kept : List Pid}

/-- Moves that gathered `kept` into the pool, then `list_del_init` of the pick `n` from the
readyqueue. -/
theorem take (hf : Frame own s t) (hp : t.pool ~ s.pool ++ kept) {n : Pid}
    (hn : n ∈ t.readyqueue) : Conserves own s (t.delReady n) kept (some n) :=
  { hf.trans (frame_delReady t n) with
    perm := hp.symm.trans ((t.pool_delReady hn).symm.trans (List.perm_append_singleton n _).symm)
    eq_none := fun h => by cases h }

/-- A call that keeps part of the runnable process holds afterwards, with the returned one,
only what it held before. -/
theorem subset {n : Option Pid} (h : Conserves own s t kept n) (hk : kept.Sublist s.runnable) :
    t.pool ++ n.toList ⊆ s.pool ++ s.runnable :=
  fun _ hx => (hk.append_left _).subset (h.perm.symm.subset hx)

end Conserves

/-! ## Picking from the readyqueue -/

/-- `pick_next` of the policies without a stack: `next = <pick>; list_del_init(&next->list)`
when the readyqueue is not empty, NULL otherwise; `pick` is `none` exactly on an empty
readyqueue. -/
def takeReady (s : State nr) (pick : Option Pid) : State nr × Option Pid :=
  match pick with
  | some n => (s.delReady n, some n)
  | none => (s, none)

theorem takeReady_spec {own : Option StackId} {s t : State nr} {kept : List Pid}
    {pick : Option Pid} (hf : Frame own s t) (hp : t.pool ~ s.pool ++ kept)
    (hpick : ∀ n, pick = some n → n ∈ t.readyqueue)
    (hnone : pick = none →
      s.readyqueue = [] ∧ kept = [] ∧ ∀ k, own = some k → s.stack k = []) :
    Conserves own s (takeReady t pick).1 kept (takeReady t pick).2 := by
  unfold takeReady
  split
  · exact Conserves.take hf hp (hpick _ rfl)
  · exact { hf with perm := by simpa using hp.symm, eq_none := fun _ => hnone rfl }

theorem runnable_eq_nil {s : State nr} (h : s.continuing = none) : s.runnable = [] := by
  simp [State.runnable, h]

theorem runnable_eq_some {s : State nr} {c : Pid} (h : s.continuing = some c) :
    s.runnable = [c] := by
  simp [State.runnable, h]

/-! ## FIFO -/

/-- `next = list_first_entry(&readyqueue, ...); list_del_init(&next->list)`, guarded by
`!list_empty(&readyqueue)`. -/
def popReady (s : State nr) : State nr × Option Pid :=
  takeReady s s.readyqueue.head?

/-- `fifo_schedule`. -/
def fifoSchedule (s : State nr) : State nr × Option Pid :=
  match s.continuing with
  | some c => (s, some c)
  | none => popReady s

theorem popReady_spec {own : Option StackId} {s t : State nr} {kept : List Pid}
    (hf : Frame own s t) (hp : t.pool ~ s.pool ++ kept)
    (hnone : t.readyqueue = [] →
      s.readyqueue = [] ∧ kept = [] ∧ ∀ k, own = some k → s.stack k = []) :
    Conserves own s (popReady t).1 kept (popReady t).2 :=
  takeReady_spec hf hp (fun _ h => List.mem_of_mem_head? h)
    (fun h => hnone (List.head?_eq_none_iff.mp h))

theorem fifoSchedule_spec (s : State nr) :
    SchedSpec none s (fifoSchedule s).1 (fifoSchedule s).2 := by
  unfold fifoSchedule
  split
  · exact SchedSpec.keep ‹_›
  · have hr := runnable_eq_nil ‹_›
    exact popReady_spec (Frame.refl s) (by simp [hr]) fun h => ⟨h, hr, fun _ h => by cases h⟩

/-! ## SJF -/

/-- One iteration of the loop of `sjf_schedule`:
`if (!next || iter->lifespan < next->lifespan) next = iter`. -/
def sjfStep (procs : Pid → Proc) (next : Option Pid) (iter : Pid) : Option Pid :=
  match next with
  | none => some iter
  | some n => if (procs iter).lifespan < (procs n).lifespan then some iter else some n

/-- `sjf_schedule`. -/
def sjfSchedule (s : State nr) : State nr × Option Pid :=
  match s.continuing with
  | some c => (s, some c)
  | none => takeReady s (s.readyqueue.foldl (sjfStep s.procs) none)

theorem foldl_sjfStep_some (procs : Pid → Proc) (l : List Pid) (n : Pid) :
    l.foldl (sjfStep procs) (some n) =
      some (l.foldl (scanStep fun x y => decide ((procs x).lifespan < (procs y).lifespan)) n) := by
  induction l generalizing n with
  | nil => rfl
  | cons x l ih =>
    simp only [List.foldl_cons, sjfStep, scanStep, decide_eq_true_eq]
    split_ifs <;> exact ih _

/-- The loop of `sjf_schedule` is the scan, with `<` on lifespans. -/
theorem foldl_sjfStep_eq_scanPick (procs : Pid → Proc) (l : List Pid) :
    l.foldl (sjfStep procs) none =
      scanPick (fun x y => decide ((procs x).lifespan < (procs y).lifespan)) l := by
  cases l with
  | nil => rfl
  | cons a l =>
    rw [scanPick_cons, List.foldl_cons, List.foldl_cons, scanStep, if_neg (by simp)]
    exact foldl_sjfStep_some procs l a

theorem sjfSchedule_spec (s : State nr) :
    SchedSpec none s (sjfSchedule s).1 (sjfSchedule s).2 := by
  unfold sjfSchedule
  split
  · exact SchedSpec.keep ‹_›
  · have hr := runnable_eq_nil ‹_›
    rw [foldl_sjfStep_eq_scanPick]
    exact takeReady_spec (Frame.refl s) (by simp [hr]) (fun _ h => scanPick_mem _ h)
      fun h => ⟨(scanPick_eq_none _).mp h, hr, fun _ h => by cases h⟩

/-! ## STCF -/

/-- `get_shortest`: the first entry of the readyqueue of least `remain_time`. -/
def getShortest (s : State nr) : Option Pid :=
  scanPick (fun tmp shortest => decide (remainTime (s.procs tmp) < remainTime (s.procs shortest)))
    s.readyqueue

/-- `stcf_schedule`. `get_shortest()` on an empty readyqueue returns the sentinel, which is
never `current`: here `none ≠ some c`. -/
def stcfSchedule (s : State nr) : State nr × Option Pid :=
  match s.continuing with
  | some c =>
    if getShortest s ≠ some c then takeReady (s.addReady c) (getShortest (s.addReady c))
    else (s, some c)
  | none => takeReady s (getShortest s)

theorem stcfSchedule_spec (s : State nr) :
    SchedSpec none s (stcfSchedule s).1 (stcfSchedule s).2 := by
  unfold stcfSchedule
  split
  · rename_i c hc
    split
    · refine takeReady_spec (frame_addReady s c) ?_ (fun _ h => scanPick_mem _ h) fun h => ?_
      · rw [runnable_eq_some hc]
        exact (s.pool_addReady c).trans (List.perm_append_singleton c _).symm
      · simp [getShortest, State.addReady] at h
    · exact SchedSpec.keep hc
  · have hr := runnable_eq_nil ‹_›
    exact takeReady_spec (Frame.refl s) (by simp [hr]) (fun _ h => scanPick_mem _ h)
      fun h => ⟨(scanPick_eq_none _).mp h, hr, fun _ h => by cases h⟩

/-! ## Round-robin -/

/-- `pick_next` of `rr_schedule`. -/
def rrPickNext (s : State nr) : State nr × Option Pid :=
  if s.readyqueue = [] ∧ s.stack .rr = [] then (s, none)
  else if s.readyqueue ≠ [] then popReady s
  else popReady (if s.stack .rr ≠ [] then s.drain false .rr else s)

/-- `rr_schedule`: a process that may continue goes onto `rr_stack` (`list_add`), and the
next one is picked. -/
def rrSchedule (s : State nr) : State nr × Option Pid :=
  match s.continuing with
  | some c => if remainTime (s.procs c) > 0 then rrPickNext (s.push .rr c) else rrPickNext s
  | none => rrPickNext s

/-- What `rr_schedule` keeps of the process that may continue: that process, when its
`remain_time` is positive. -/
def rrKept (s : State nr) : List Pid :=
  s.runnable.filter fun c => remainTime (s.procs c) > 0

/-- A process that may continue and has fewer than `2^31` ticks to go reads a positive
`remain_time`. -/
theorem remainTime_pos {p : Proc} (h : p.age < p.lifespan)
    (hfit : p.lifespan - p.age < 2147483648) : remainTime p > 0 := by
  rw [remainTime_eq h.le hfit]
  omega

theorem rrPickNext_spec {s t : State nr} {kept : List Pid} (hf : Frame (some .rr) s t)
    (hp : t.pool ~ s.pool ++ kept)
    (hnone : t.readyqueue = [] → t.stack .rr = [] →
      s.readyqueue = [] ∧ kept = [] ∧ s.stack .rr = []) :
    Conserves (some .rr) s (rrPickNext t).1 kept (rrPickNext t).2 := by
  unfold rrPickNext
  split
  · rename_i h
    obtain ⟨h₁, h₂, h₃⟩ := hnone h.1 h.2
    exact { hf with
      perm := by simpa using hp.symm
      eq_none := fun _ => ⟨h₁, h₂, fun k hk => by cases hk; exact h₃⟩ }
  · split
    · exact popReady_spec hf hp fun h => absurd h ‹_›
    · rename_i h₁ h₂
      have hrq : t.readyqueue = [] := not_not.mp h₂
      have hk : t.stack .rr ≠ [] := fun h => h₁ ⟨hrq, h⟩
      rw [if_pos hk]
      refine popReady_spec (hf.trans (frame_drain t false .rr)) ((t.pool_drain false .rr).trans hp)
        fun h => absurd ?_ hk
      simpa [hrq] using h

/-- `rr_schedule` conserves the processes it holds with what it keeps of the current one. -/
theorem rrSchedule_conserves (s : State nr) :
    Conserves (some .rr) s (rrSchedule s).1 (rrKept s) (rrSchedule s).2 := by
  -- with nothing kept, `pick_next` runs on the pool as it is
  have hdrop : rrKept s = [] → Conserves (some .rr) s (rrPickNext s).1 (rrKept s)
      (rrPickNext s).2 := fun hk => by
    rw [hk]
    exact rrPickNext_spec (Frame.refl s) (by simp) fun h₁ h₂ => ⟨h₁, rfl, h₂⟩
  unfold rrSchedule
  split
  · rename_i c hc
    split
    · rename_i hpos
      have hk : rrKept s = [c] := by simp [rrKept, runnable_eq_some hc, hpos]
      rw [hk]
      exact rrPickNext_spec (frame_push s .rr c)
        ((s.pool_push .rr c).trans (List.perm_append_singleton c _).symm) fun _ h => by simp at h
    · rename_i hpos
      exact hdrop (by simp [rrKept, runnable_eq_some hc, hpos])
  · exact hdrop (by simp [rrKept, runnable_eq_nil ‹_›])

end SchedSim
