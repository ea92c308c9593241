import SchedSim.Schedule

/-!
# The priority family of schedulers

`prio_schedule`, `pa_schedule`, `pcp_schedule` and `pip_schedule` share one skeleton
(spec §4.6).  A current process that may continue is compared with the highest priority
in the readyqueue: when it equals it and nothing else is ready, it keeps the CPU; when it
equals it, or equals the priority on top of the policy's stack, it is pushed onto the
stack; otherwise it goes back to the readyqueue.  At `pick_next` an empty readyqueue is
refilled from the stack, the first process of highest priority is taken, and when the
stack's top differs from it in priority the stack is flushed into the readyqueue and the
pick is made again.

The four differ only in details, which `PrioVariant` collects: where a preempted process
and the drained stack go (`list_add` or `list_add_tail`), and which stack the final flush
iterates, which for `pip_schedule` is `pcp_stack` and not its own.  `pa_schedule` first
resets the last runner's priority and ages everything waiting (`prio_reset`,
`prio_boost`).

`get_highest_prio()` and the stack-top helpers (`get_stack_prio` and its siblings) read
`list_first_entry(...)->prio`, which on an empty list reads the list head's surroundings
as if they were a process.  Such a read yields `sentinel`: a value, or `none` when the read
is taken as a fault.  The schedule functions therefore return an `Option`.

## Main definitions

* `PrioVariant`, `prioFamilySchedule`: the skeleton and its parameters
* `prioSchedule`, `paSchedule`, `pcpSchedule`, `pipSchedule`
* `prioBoost`, `prioReset`: the aging step of `pa_schedule`

## Main results

* `prioFamilySchedule_spec`: every call that returns keeps the contract `SchedSpec`
* `prioFamilySchedule_ne_none`: when the sentinel reads as a value, every call returns
* `paSchedule_spec`: the aging step of `pa_schedule` keeps the contract
-/

namespace SchedSim

open scoped List

variable {nr : Nat}

/-- How the four priority policies instantiate the skeleton. -/
structure PrioVariant where
  /-- The policy's own stack. -/
  stack : StackId
  /-- The stack whose entries the flush-and-repick loop moves to the readyqueue. -/
  flush : StackId
  /-- A current process that lost goes to the readyqueue by `list_add_tail`, not `list_add`. -/
  preemptTail : Bool
  /-- The drain and flush loops use `list_add_tail`, not `list_add`. -/
  drainTail : Bool

/-- `get_highest_prio()`: the first process of greatest priority in the readyqueue. -/
def getHighestPrio (s : State nr) : Option Pid :=
  highestPrio s.procs s.readyqueue

/-- `list_first_entry(...)->prio` of a helper's pick: its priority, or `sentinel` when the
helper ran on an empty list and returned the list head itself. -/
def readPrio (s : State nr) (sentinel : Option Nat) : Option Pid → Option Nat
  | some p => some (s.procs p).prio
  | none => sentinel

/-! ## The skeleton -/

section Skeleton

variable (v : PrioVariant)

/-- `if (list_empty(&readyqueue)) { if (!list_empty(&stack)) <drain stack> }`. -/
def prioRefill (s : State nr) : State nr :=
  if s.readyqueue = [] then
    if s.stack v.stack ≠ [] then s.drain v.drainTail v.stack else s
  else s

/-- The final correction of `pick_next`, after `next` was taken out: when the stack is not
empty and its top differs from `next` in priority, move `v.flush` into the readyqueue, put
`next` back at its head (`list_add`) and pick again. -/
def prioCorrect (s : State nr) (next : Pid) : Option (State nr × Option Pid) :=
  match (s.stack v.stack).head? with
  | some top =>
    if (s.procs top).prio ≠ (s.procs next).prio then
      let s' := (s.drain v.drainTail v.flush).addReady next
      (getHighestPrio s').map fun n => (s'.delReady n, some n)
    else some (s, some next)
  | none => some (s, some next)

/-- `pick_next` of the priority family. -/
def prioPickNext (s : State nr) : Option (State nr × Option Pid) :=
  if s.readyqueue = [] ∧ s.stack v.stack = [] then some (s, none)
  else
    (getHighestPrio (prioRefill v s)).bind fun next =>
      prioCorrect v ((prioRefill v s).delReady next) next

/-- The skeleton of `prio_schedule`, `pa_schedule`, `pcp_schedule` and `pip_schedule`. -/
def prioFamilySchedule (sentinel : Option Nat) (s : State nr) :
    Option (State nr × Option Pid) :=
  match s.continuing with
  | none => prioPickNext v s
  | some c => do
    let hp ← readPrio s sentinel (getHighestPrio s)
    if hp = (s.procs c).prio then
      if s.readyqueue = [] ∧ s.stack v.stack = [] then pure (s, some c)
      else prioPickNext v (s.push v.stack c)
    else do
      let tp ← readPrio s sentinel (s.stack v.stack).head?
      if tp = (s.procs c).prio then prioPickNext v (s.push v.stack c)
      else prioPickNext v (if v.preemptTail then s.addReadyTail c else s.addReady c)

end Skeleton

/-! ## The four policies -/

/-- `prio_schedule`: a preempted process and the drained stack go to the readyqueue's head. -/
def prioVariant : PrioVariant := ⟨.prio, .prio, false, false⟩

/-- `pa_schedule`'s skeleton: every move to the readyqueue is `list_add_tail`. -/
def paVariant : PrioVariant := ⟨.pa, .pa, true, true⟩

/-- `pcp_schedule`: a preempted process goes to the tail, the drained stack to the head. -/
def pcpVariant : PrioVariant := ⟨.pcp, .pcp, true, false⟩

/-- `pip_schedule`: as `pcp_schedule` on `pip_stack`, except that the final flush iterates
`pcp_stack`. -/
def pipVariant : PrioVariant := ⟨.pip, .pcp, true, false⟩

/-- `prio_schedule`. -/
def prioSchedule : Option Nat → State nr → Option (State nr × Option Pid) :=
  prioFamilySchedule prioVariant

/-- `pcp_schedule`. -/
def pcpSchedule : Option Nat → State nr → Option (State nr × Option Pid) :=
  prioFamilySchedule pcpVariant

/-- `pip_schedule`. -/
def pipSchedule : Option Nat → State nr → Option (State nr × Option Pid) :=
  prioFamilySchedule pipVariant

/-- `prio_reset(p)`: `p->prio = p->prio_orig`. -/
def prioReset (p : Pid) (s : State nr) : State nr :=
  s.setPrio p (s.procs p).prioOrig

/-- One iteration of `prio_boost`: `tmp->prio++; if (tmp->prio == MAX_PRIO) tmp->prio =
MAX_PRIO`, on an `unsigned int`, so that `UINT_MAX` is raised to 0. -/
def boostOne (maxPrio : Nat) (s : State nr) (p : Pid) : State nr :=
  let prio := ((s.procs p).prio + 1) % 4294967296
  s.setPrio p (if prio = maxPrio then maxPrio else prio)

/-- `prio_boost()`: the loop over the readyqueue, then the loop over `pa_stack`. -/
def prioBoost (maxPrio : Nat) (s : State nr) : State nr :=
  (s.stack .pa).foldl (boostOne maxPrio) (s.readyqueue.foldl (boostOne maxPrio) s)

/-- What `pa_schedule` does before the skeleton: `if (current != NULL) { prio_reset(current);
prio_boost(); }`. -/
def paAge (maxPrio : Nat) (s : State nr) : State nr :=
  match s.current with
  | some c => prioBoost maxPrio (prioReset c s)
  | none => s

/-- `pa_schedule`. -/
def paSchedule (maxPrio : Nat) (sentinel : Option Nat) (s : State nr) :
    Option (State nr × Option Pid) :=
  prioFamilySchedule paVariant sentinel (paAge maxPrio s)

/-! ## The contract -/

theorem getHighestPrio_mem {s : State nr} {n : Pid} (h : getHighestPrio s = some n) :
    n ∈ s.readyqueue :=
  highestPrio_mem h

theorem getHighestPrio_of_ne_nil {s : State nr} (h : s.readyqueue ≠ []) :
    ∃ n, getHighestPrio s = some n :=
  scanPick_isSome _ h

section Contract

variable (v : PrioVariant) {s t : State nr}

theorem prioRefill_frame : Frame (some v.stack) t (prioRefill v t) := by
  unfold prioRefill
  split_ifs
  · exact frame_drain t _ _
  · exact Frame.refl t
  · exact Frame.refl t

theorem prioRefill_pool : (prioRefill v t).pool ~ t.pool := by
  unfold prioRefill
  split_ifs
  · exact t.pool_drain _ _
  · rfl
  · rfl

theorem prioRefill_ne_nil (h : ¬(t.readyqueue = [] ∧ t.stack v.stack = [])) :
    (prioRefill v t).readyqueue ≠ [] := by
  unfold prioRefill
  split_ifs with h₁ h₂
  · simpa [h₁] using h₂
  · exact absurd ⟨h₁, not_not.mp h₂⟩ h
  · exact h₁

theorem prioCorrect_ne_none (t : State nr) (n : Pid) : prioCorrect v t n ≠ none := by
  unfold prioCorrect
  split
  · split_ifs
    · obtain ⟨m, hm⟩ :=
        getHighestPrio_of_ne_nil (s := (t.drain v.drainTail v.flush).addReady n)
        (List.cons_ne_nil _ _)
      simp [hm]
    · simp
  · simp

theorem prioCorrect_spec (hf : Frame (some v.stack) s t) (hp : t.pool ~ s.pool ++ s.runnable)
    {n : Pid} (hn : n ∈ t.readyqueue) {r : State nr × Option Pid}
    (h : prioCorrect v (t.delReady n) n = some r) : SchedSpec (some v.stack) s r.1 r.2 := by
  unfold prioCorrect at h
  split at h
  · split_ifs at h
    · obtain ⟨m, hm, rfl⟩ := Option.map_eq_some'.mp h
      let u := t.delReady n
      refine Conserves.take ((hf.trans (frame_delReady t n)).trans
        ((frame_drain u _ _).trans (frame_addReady _ n))) ?_ (getHighestPrio_mem hm)
      exact ((State.pool_addReady _ n).trans (((u.pool_drain _ _).cons n).trans
        (t.pool_delReady hn))).trans hp
    · cases h
      exact Conserves.take hf hp hn
  · cases h
    exact Conserves.take hf hp hn

theorem prioPickNext_ne_none (t : State nr) : prioPickNext v t ≠ none := by
  unfold prioPickNext
  split_ifs with h
  · simp
  · obtain ⟨n, hn⟩ := getHighestPrio_of_ne_nil (prioRefill_ne_nil v h)
    simpa [hn] using prioCorrect_ne_none v _ n

theorem prioPickNext_spec (hf : Frame (some v.stack) s t) (hp : t.pool ~ s.pool ++ s.runnable)
    (hnone : t.readyqueue = [] → t.stack v.stack = [] →
      s.readyqueue = [] ∧ s.runnable = [] ∧ s.stack v.stack = [])
    {r : State nr × Option Pid} (h : prioPickNext v t = some r) :
    SchedSpec (some v.stack) s r.1 r.2 := by
  unfold prioPickNext at h
  split_ifs at h with h₀
  · cases h
    obtain ⟨h₁, h₂, h₃⟩ := hnone h₀.1 h₀.2
    exact { hf with
      perm := by simpa using hp.symm
      eq_none := fun _ => ⟨h₁, h₂, fun k hk => by cases hk; exact h₃⟩ }
  · obtain ⟨n, hn⟩ := getHighestPrio_of_ne_nil (prioRefill_ne_nil v h₀)
    rw [hn, Option.some_bind] at h
    exact prioCorrect_spec v (hf.trans (prioRefill_frame v)) ((prioRefill_pool v).trans hp)
      (getHighestPrio_mem hn) h

/-- The final correction of `pick_next` either keeps the pick `m`, and then the stack's top
has `m`'s priority, or flushes and picks again. -/
theorem prioCorrect_cases {m : Pid} {r : State nr × Option Pid}
    (h : prioCorrect v t m = some r) :
    (r = (t, some m) ∧
        ∀ top, (t.stack v.stack).head? = some top → (t.procs top).prio = (t.procs m).prio) ∨
      ∃ n, getHighestPrio ((t.drain v.drainTail v.flush).addReady m) = some n ∧
        r = ((((t.drain v.drainTail v.flush).addReady m).delReady n), some n) := by
  unfold prioCorrect at h
  split at h
  · rename_i top htop
    split_ifs at h with hne
    · obtain ⟨n, hn, rfl⟩ := Option.map_eq_some'.mp h
      exact .inr ⟨n, hn, rfl⟩
    · cases h
      refine .inl ⟨rfl, fun top' htop' => ?_⟩
      obtain rfl : top = top' := Option.some.inj (htop.symm.trans htop')
      exact not_not.mp hne
  · rename_i htop
    cases h
    exact .inl ⟨rfl, fun _ h => by simp [htop] at h⟩

@[simp] theorem prioRefill_procs (t : State nr) : (prioRefill v t).procs = t.procs := by
  unfold prioRefill
  split_ifs <;> rfl

theorem prioPickNext_procs {r : State nr × Option Pid} (h : prioPickNext v t = some r) :
    r.1.procs = t.procs := by
  unfold prioPickNext at h
  split_ifs at h with h₀
  · cases h
    rfl
  obtain ⟨m, hm⟩ := getHighestPrio_of_ne_nil (prioRefill_ne_nil v h₀)
  rw [hm, Option.some_bind] at h
  rcases prioCorrect_cases v h with ⟨rfl, -⟩ | ⟨n, -, rfl⟩ <;> exact prioRefill_procs v t

/-- How the skeleton treats a current process `c` that may continue, when it does not keep
it: `c` goes onto the stack, or to the readyqueue's head or tail. -/
inductive Preempt (s : State nr) (c : Pid) : State nr → Prop
  | push : Preempt s c (s.push v.stack c)
  | ready : Preempt s c (s.addReady c)
  | readyTail : Preempt s c (s.addReadyTail c)

theorem Preempt.spec {c : Pid} (h : Preempt v s c t) :
    Frame (some v.stack) s t ∧ t.pool ~ c :: s.pool ∧
      ¬(t.readyqueue = [] ∧ t.stack v.stack = []) := by
  cases h with
  | push => exact ⟨frame_push s _ c, s.pool_push _ c, by simp⟩
  | ready => exact ⟨frame_addReady s c, s.pool_addReady c, by simp⟩
  | readyTail => exact ⟨frame_addReadyTail s c, s.pool_addReadyTail c, by simp⟩

/-- What one call of the skeleton can do: go to `pick_next` directly, keep the current
process (only when the readyqueue and the stack are empty), or move it and go to
`pick_next`. -/
theorem prioFamilySchedule_cases {sentinel : Option Nat} {r : State nr × Option Pid}
    (h : prioFamilySchedule v sentinel s = some r) :
    (s.continuing = none ∧ prioPickNext v s = some r) ∨
      (∃ c, s.continuing = some c ∧ s.readyqueue = [] ∧ s.stack v.stack = [] ∧
        r = (s, some c)) ∨
      (∃ c t, s.continuing = some c ∧ Preempt v s c t ∧ prioPickNext v t = some r) := by
  unfold prioFamilySchedule at h
  split at h
  · exact .inl ⟨‹_›, h⟩
  · rename_i c hc
    simp only [Option.bind_eq_bind, Option.bind_eq_some] at h
    obtain ⟨hpv, -, h⟩ := h
    by_cases h₁ : hpv = (s.procs c).prio
    · rw [if_pos h₁] at h
      split_ifs at h with h₂
      · cases h
        exact .inr (.inl ⟨c, hc, h₂.1, h₂.2, rfl⟩)
      · exact .inr (.inr ⟨c, _, hc, .push, h⟩)
    · rw [if_neg h₁, Option.bind_eq_some] at h
      obtain ⟨tpv, -, h⟩ := h
      split_ifs at h
      · exact .inr (.inr ⟨c, _, hc, .push, h⟩)
      · exact .inr (.inr ⟨c, _, hc, .readyTail, h⟩)
      · exact .inr (.inr ⟨c, _, hc, .ready, h⟩)

/-- Every call of the skeleton that returns keeps the contract of a schedule function. -/
theorem prioFamilySchedule_spec {sentinel : Option Nat} {r : State nr × Option Pid}
    (h : prioFamilySchedule v sentinel s = some r) : SchedSpec (some v.stack) s r.1 r.2 := by
  rcases prioFamilySchedule_cases v h with
    ⟨hc, h⟩ | ⟨c, hc, -, -, rfl⟩ | ⟨c, t, hc, hm, h⟩
  · have hr := runnable_eq_nil hc
    exact prioPickNext_spec v (Frame.refl s) (by simp [hr]) (fun h₁ h₂ => ⟨h₁, hr, h₂⟩)
      h
  · exact SchedSpec.keep hc
  · obtain ⟨hf, hp, hne⟩ := hm.spec
    refine prioPickNext_spec v hf ?_ (fun h₁ h₂ => absurd ⟨h₁, h₂⟩ hne) h
    rw [runnable_eq_some hc]
    exact hp.trans (List.perm_append_singleton c _).symm

/-- The skeleton moves processes between lists and never rewrites a process record. -/
theorem prioFamilySchedule_procs {sentinel : Option Nat} {r : State nr × Option Pid}
    (h : prioFamilySchedule v sentinel s = some r) : r.1.procs = s.procs := by
  rcases prioFamilySchedule_cases v h with ⟨-, h⟩ | ⟨c, -, -, -, rfl⟩ | ⟨c, t, -, hm, h⟩
  · exact prioPickNext_procs v h
  · rfl
  · rw [prioPickNext_procs v h]
    cases hm <;> rfl

/-- With a sentinel that reads as a value, every call of the skeleton returns. -/
theorem prioFamilySchedule_ne_none (x : Nat) (s : State nr) :
    prioFamilySchedule v (some x) s ≠ none := by
  unfold prioFamilySchedule
  split
  · exact prioPickNext_ne_none v s
  · have hread : ∀ o, ∃ y, readPrio s (some x) o = some y := fun o => by
      cases o <;> exact ⟨_, rfl⟩
    obtain ⟨y, hy⟩ := hread (getHighestPrio s)
    obtain ⟨z, hz⟩ := hread (s.stack v.stack).head?
    simp only [hy, hz, Option.bind_eq_bind, Option.some_bind]
    split_ifs <;> simp [prioPickNext_ne_none]

/-- With the faulting sentinel, a call on a process that may continue faults when the
readyqueue is empty: `get_highest_prio()` reads the list head. -/
theorem prioFamilySchedule_none_of_readyqueue_nil {s : State nr} {c : Pid}
    (hc : s.continuing = some c) (hrq : s.readyqueue = []) :
    prioFamilySchedule v none s = none := by
  have hh : getHighestPrio s = none := highestPrio_eq_none.mpr hrq
  unfold prioFamilySchedule
  simp [hc, readPrio, hh]

end Contract

/-! ## Aging -/

theorem prioOnly_foldl_boostOne (maxPrio : Nat) (l : List Pid) (s : State nr) :
    s.PrioOnly (l.foldl (boostOne maxPrio) s) := by
  induction l generalizing s with
  | nil => exact .refl
  | cons p l ih => exact (s.prioOnly_setPrio p _).trans (ih _)

theorem prioOnly_paAge (maxPrio : Nat) (s : State nr) : s.PrioOnly (paAge maxPrio s) := by
  unfold paAge prioBoost prioReset
  split
  · exact (s.prioOnly_setPrio _ _).trans
      ((prioOnly_foldl_boostOne _ _ _).trans (prioOnly_foldl_boostOne _ _ _))
  · exact .refl

/-- The aging step only rewrites priorities, so `pa_schedule` keeps the contract. -/
theorem paSchedule_spec {maxPrio : Nat} {sentinel : Option Nat} {s : State nr}
    {r : State nr × Option Pid} (h : paSchedule maxPrio sentinel s = some r) :
    SchedSpec (some .pa) s r.1 r.2 := by
  have ha := prioOnly_paAge maxPrio s
  have hs := prioFamilySchedule_spec paVariant h
  have hr : (paAge maxPrio s).runnable = s.runnable := (ha.frame : Frame none _ _).runnable_eq
  exact { ha.frame.trans hs.toFrame with
    perm := by simpa only [ha.pool_eq, hr] using hs.perm
    eq_none := fun hn => by simpa only [ha.readyqueue, hr, ha.stack] using hs.eq_none hn }

end SchedSim
