import SchedSim.State

/-!
# Resource arbitration

The five acquire functions of `pa2.c` share one body: a free resource is taken by the
caller, a taken one blocks the caller at the tail of its waitqueue.  They differ in what
happens after: `pcp_acquire` raises the new owner to `MAX_PRIO`, `pip_acquire` lets the
blocked caller lend its priority to the owner.  The four release functions share one body
too: the owner gives the resource up and one waiter, if any, moves to the readyqueue tail.
They differ in which waiter (`list_first_entry` for FCFS, `get_highest_prio_wait` for the
priority variants) and in whether the owner's priority goes back to `prio_orig` first
(`pcp_release`, `pip_release`).  Each family is one definition with these differences as
parameters; each function of the source is that definition at its own values.

The caller is `current`, passed explicitly as `cur`.  A failed `assert` makes a release
return `none`.

## Main definitions

* `acquireWith`, and `fcfsAcquire`, `prioAcquire`, `pcpAcquire`, `pipAcquire`
* `releaseWith`, and `fcfsRelease`, `prioRelease`, `pcpRelease`, `pipRelease`
* `highestPrio`: the scan of `get_highest_prio` and `get_highest_prio_wait`

## Main results

* `block_queued`, `wake_queued`: blocking links the caller into one more list, waking
  moves the waiter from its waitqueue to the readyqueue
* `acquireWith_cases`, `releaseWith_cases`: what one call can do
* `releaseWith_isSome`: by its owner, with only blocked waiters, a release never fails
-/

namespace SchedSim

open scoped List

variable {nr : Nat}

/-- The scan of `get_highest_prio` (over the readyqueue) and of `get_highest_prio_wait`
(over a waitqueue): the first entry of greatest `prio`. -/
def highestPrio (procs : Pid → Proc) (l : List Pid) : Option Pid :=
  scanPick (fun tmp highest => decide ((procs tmp).prio > (procs highest).prio)) l

theorem highestPrio_mem {procs : Pid → Proc} {l : List Pid} {p : Pid}
    (h : highestPrio procs l = some p) : p ∈ l :=
  scanPick_mem _ h

theorem highestPrio_le {procs : Pid → Proc} {l : List Pid} {p : Pid}
    (h : highestPrio procs l = some p) : ∀ x ∈ l, (procs x).prio ≤ (procs p).prio :=
  scanPick_le (fun x => (procs x).prio) h

@[simp] theorem highestPrio_eq_none {procs : Pid → Proc} {l : List Pid} :
    highestPrio procs l = none ↔ l = [] :=
  scanPick_eq_none _

/-- `get_highest_prio_wait(r)`. -/
def getHighestPrioWait (s : State nr) (r : Fin nr) : Option Pid :=
  highestPrio s.procs (s.resources r).waitqueue

namespace State

variable (s : State nr)

/-- `r->owner = o`. -/
def setOwner (r : Fin nr) (o : Option Pid) : State nr :=
  s.modifyResource r fun x => { x with owner := o }

/-- `current->status = PROCESS_BLOCKED; list_add_tail(&current->list, &r->waitqueue)`. -/
def block (p : Pid) (r : Fin nr) : State nr :=
  (s.setStatus p .blocked).modifyResource r fun x => { x with waitqueue := x.waitqueue ++ [p] }

/-- `list_del_init(&waiter->list); waiter->status = PROCESS_READY;
list_add_tail(&waiter->list, &readyqueue)`. -/
def wake (w : Pid) (r : Fin nr) : State nr :=
  ((s.modifyResource r fun x => { x with waitqueue := x.waitqueue.erase w }).setStatus w
    .ready).addReadyTail w

@[simp] theorem setOwner_resources (r : Fin nr) (o : Option Pid) (r' : Fin nr) :
    (s.setOwner r o).resources r' =
      if r' = r then { s.resources r with owner := o } else s.resources r' :=
  rfl

@[simp] theorem setOwner_queued (r : Fin nr) (o : Option Pid) :
    (s.setOwner r o).queued = s.queued := by
  simp only [queued, pool, stackList, waiting]
  congr 2
  funext r'
  by_cases h : r' = r
  · subst h
    simp
  · simp [h]

theorem block_procs (p : Pid) (r : Fin nr) (x : Pid) :
    (s.block p r).procs x = if x = p then { s.procs p with status := .blocked } else s.procs x :=
  rfl

@[simp] theorem block_current (p : Pid) (r : Fin nr) : (s.block p r).current = s.current :=
  rfl

theorem wake_procs (w : Pid) (r : Fin nr) (x : Pid) :
    (s.wake w r).procs x = if x = w then { s.procs w with status := .ready } else s.procs x :=
  rfl

@[simp] theorem wake_current (w : Pid) (r : Fin nr) : (s.wake w r).current = s.current :=
  rfl

@[simp] theorem block_status (p : Pid) (r : Fin nr) (x : Pid) :
    ((s.block p r).procs x).status = if x = p then .blocked else (s.procs x).status := by
  rw [block_procs]
  split_ifs <;> rfl

@[simp] theorem wake_status (w : Pid) (r : Fin nr) (x : Pid) :
    ((s.wake w r).procs x).status = if x = w then .ready else (s.procs x).status := by
  rw [wake_procs]
  split_ifs <;> rfl

@[simp] theorem block_prio (p : Pid) (r : Fin nr) (x : Pid) :
    ((s.block p r).procs x).prio = (s.procs x).prio := by
  rw [block_procs]
  split_ifs with h
  · rw [h]
  · rfl

@[simp] theorem wake_prio (w : Pid) (r : Fin nr) (x : Pid) :
    ((s.wake w r).procs x).prio = (s.procs x).prio := by
  rw [wake_procs]
  split_ifs with h
  · rw [h]
  · rfl

@[simp] theorem setOwner_procs (r : Fin nr) (o : Option Pid) :
    (s.setOwner r o).procs = s.procs :=
  rfl

@[simp] theorem setOwner_owner (r : Fin nr) (o : Option Pid) (r' : Fin nr) :
    ((s.setOwner r o).resources r').owner = if r' = r then o else (s.resources r').owner := by
  rw [setOwner_resources]
  split_ifs <;> rfl

/-- Blocking and waking move a process between lists and leave every owner alone. -/
@[simp] theorem block_owner (p : Pid) (r r' : Fin nr) :
    ((s.block p r).resources r').owner = (s.resources r').owner := by
  simp only [block, modifyResource_resources, setStatus_resources]
  split_ifs with h
  · rw [h]
  · rfl

@[simp] theorem wake_owner (w : Pid) (r r' : Fin nr) :
    ((s.wake w r).resources r').owner = (s.resources r').owner := by
  simp only [wake, addReadyTail, setStatus_resources, modifyResource_resources]
  split_ifs with h
  · rw [h]
  · rfl

@[simp] theorem block_prioOrig (p : Pid) (r : Fin nr) (x : Pid) :
    ((s.block p r).procs x).prioOrig = (s.procs x).prioOrig := by
  rw [block_procs]
  split_ifs with h
  · rw [h]
  · rfl

@[simp] theorem wake_prioOrig (w : Pid) (r : Fin nr) (x : Pid) :
    ((s.wake w r).procs x).prioOrig = (s.procs x).prioOrig := by
  rw [wake_procs]
  split_ifs with h
  · rw [h]
  · rfl

@[simp] theorem block_waitqueue (p : Pid) (r r' : Fin nr) :
    ((s.block p r).resources r').waitqueue =
      if r' = r then (s.resources r).waitqueue ++ [p] else (s.resources r').waitqueue := by
  simp only [block, modifyResource_resources, setStatus_resources]
  split_ifs <;> rfl

@[simp] theorem wake_waitqueue (w : Pid) (r r' : Fin nr) :
    ((s.wake w r).resources r').waitqueue =
      if r' = r then (s.resources r).waitqueue.erase w else (s.resources r').waitqueue := by
  simp only [wake, addReadyTail, setStatus_resources, modifyResource_resources]
  split_ifs <;> rfl

theorem wake_readyqueue (w : Pid) (r : Fin nr) : (s.wake w r).readyqueue = s.readyqueue ++ [w] :=
  rfl

theorem wake_resources_of_ne (w : Pid) {r r' : Fin nr} (h : r' ≠ r) :
    (s.wake w r).resources r' = s.resources r' := by
  simp only [wake, addReadyTail, setStatus_resources, modifyResource_resources, if_neg h]

theorem setOwner_resources_of_ne (o : Option Pid) {r r' : Fin nr} (h : r' ≠ r) :
    (s.setOwner r o).resources r' = s.resources r' := by
  rw [setOwner_resources, if_neg h]

theorem mem_waiting_block {p q : Pid} {r : Fin nr} (h : q ∈ (s.block p r).waiting) :
    q = p ∨ q ∈ s.waiting := by
  rw [mem_waiting] at h ⊢
  obtain ⟨r', hr'⟩ := h
  simp only [block, modifyResource_resources, setStatus_resources] at hr'
  split_ifs at hr' with e
  · rcases List.mem_append.mp hr' with h | h
    · exact .inr ⟨r, h⟩
    · exact .inl (List.mem_singleton.mp h)
  · exact .inr ⟨r', hr'⟩

theorem mem_waiting_wake {w q : Pid} {r : Fin nr} (h : q ∈ (s.wake w r).waiting) :
    q ∈ s.waiting := by
  rw [mem_waiting] at h ⊢
  obtain ⟨r', hr'⟩ := h
  simp only [wake, addReadyTail, modifyResource_resources, setStatus_resources] at hr'
  split_ifs at hr' with e
  · exact ⟨r, List.mem_of_mem_erase hr'⟩
  · exact ⟨r', hr'⟩

theorem block_queued (p : Pid) (r : Fin nr) : (s.block p r).queued ~ p :: s.queued := by
  have h : (s.block p r).waiting ++ (s.resources r).waitqueue ~
      s.waiting ++ ((s.resources r).waitqueue ++ [p]) :=
    (s.setStatus p .blocked).waiting_update_perm r _
  have hp : (s.block p r).pool = s.pool := rfl
  rw [List.perm_iff_count] at h ⊢
  intro a
  have h₁ := h a
  simp only [queued, hp, List.count_append, List.count_cons, List.count_nil] at h₁ ⊢
  omega

theorem wake_queued {w : Pid} {r : Fin nr} (hw : w ∈ (s.resources r).waitqueue) :
    (s.wake w r).queued ~ s.queued := by
  have h : (s.wake w r).waiting ++ (s.resources r).waitqueue ~
      s.waiting ++ (s.resources r).waitqueue.erase w :=
    s.waiting_update_perm r _
  have hp : (s.wake w r).pool = (s.readyqueue ++ [w]) ++ s.stackList := rfl
  have he := (List.perm_cons_erase hw).count_eq
  rw [List.perm_iff_count] at h ⊢
  intro a
  have h₁ := h a
  have h₂ := he a
  rw [queued, queued, hp]
  simp only [pool, List.count_append, List.count_cons, List.count_nil] at h₁ h₂ ⊢
  omega

end State

/-! ## Acquire -/

/-- The body of every acquire function: take `r` if it is free (then `onTake`), otherwise
block on its waitqueue (then `onBlock`).  The result is the state and the return value. -/
def acquireWith (onTake : Pid → State nr → State nr)
    (onBlock : Pid → Fin nr → State nr → State nr) (cur : Pid) (r : Fin nr) (s : State nr) :
    State nr × Bool :=
  match (s.resources r).owner with
  | none => (onTake cur (s.setOwner r (some cur)), true)
  | some _ => (onBlock cur r (s.block cur r), false)

/-- `fcfs_acquire`. -/
def fcfsAcquire : Pid → Fin nr → State nr → State nr × Bool :=
  acquireWith (fun _ s => s) (fun _ _ s => s)

/-- `prio_acquire`, the same body as `fcfs_acquire`. -/
def prioAcquire : Pid → Fin nr → State nr → State nr × Bool :=
  acquireWith (fun _ s => s) (fun _ _ s => s)

/-- `pcp_acquire`: the new owner runs at `MAX_PRIO`. -/
def pcpAcquire (maxPrio : Nat) : Pid → Fin nr → State nr → State nr × Bool :=
  acquireWith (fun cur s => s.setPrio cur maxPrio) (fun _ _ s => s)

/-- The inheritance step of `pip_acquire`, once the caller has joined the waitqueue:
`if (current->prio == get_highest_prio_wait(r)->prio) r->owner->prio = current->prio`.
The waitqueue then holds the caller and `r` has an owner, so the last case does not
occur. -/
def pipInherit (cur : Pid) (r : Fin nr) (s : State nr) : State nr :=
  match getHighestPrioWait s r, (s.resources r).owner with
  | some w, some o =>
    if (s.procs cur).prio = (s.procs w).prio then s.setPrio o (s.procs cur).prio else s
  | _, _ => s

/-- `pip_acquire`. -/
def pipAcquire : Pid → Fin nr → State nr → State nr × Bool :=
  acquireWith (fun _ s => s) pipInherit

/-! ## Release -/

/-- `if restore` (PCP and PIP): `r->owner->prio = current->prio_orig`, the owner being
`current`. -/
def restorePrio (restore : Bool) (cur : Pid) (s : State nr) : State nr :=
  if restore then s.setPrio cur (s.procs cur).prioOrig else s

/-- `if (!list_empty(&r->waitqueue)) { waiter = <pick>; assert(waiter->status ==
PROCESS_BLOCKED); <wake waiter> }`; `pickWaiter` is `none` exactly on an empty waitqueue. -/
def wakeOne (pickWaiter : State nr → Fin nr → Option Pid) (r : Fin nr) (s : State nr) :
    Option (State nr) :=
  match pickWaiter s r with
  | none => some s
  | some w => if (s.procs w).status = .blocked then some (s.wake w r) else none

/-- The body of every release function; `none` when `assert(r->owner == current)` or
`assert(waiter->status == PROCESS_BLOCKED)` fails. -/
def releaseWith (pickWaiter : State nr → Fin nr → Option Pid) (restore : Bool) (cur : Pid)
    (r : Fin nr) (s : State nr) : Option (State nr) :=
  if (s.resources r).owner = some cur then
    wakeOne pickWaiter r ((restorePrio restore cur s).setOwner r none)
  else none

/-- `fcfs_release`: wake the waiter that came first. -/
def fcfsRelease : Pid → Fin nr → State nr → Option (State nr) :=
  releaseWith (fun s r => (s.resources r).waitqueue.head?) false

/-- `prio_release`: wake the first waiter of greatest priority. -/
def prioRelease : Pid → Fin nr → State nr → Option (State nr) :=
  releaseWith getHighestPrioWait false

/-- `pcp_release`: restore `prio_orig`, then as `prio_release`. -/
def pcpRelease : Pid → Fin nr → State nr → Option (State nr) :=
  releaseWith getHighestPrioWait true

/-- `pip_release`: restore `prio_orig`, then as `prio_release`. -/
def pipRelease : Pid → Fin nr → State nr → Option (State nr) :=
  releaseWith getHighestPrioWait true

/-! ## What one call can do -/

section Cases

variable {s t : State nr} {cur : Pid} {r : Fin nr}

theorem prioOnly_pipInherit (cur : Pid) (r : Fin nr) (s : State nr) :
    s.PrioOnly (pipInherit cur r s) := by
  unfold pipInherit
  split
  · split_ifs
    · exact s.prioOnly_setPrio _ _
    · exact .refl
  · exact .refl

theorem pipInherit_eq {cur w o : Pid} {r : Fin nr} {s : State nr}
    (hw : getHighestPrioWait s r = some w) (ho : (s.resources r).owner = some o) :
    pipInherit cur r s =
      if (s.procs cur).prio = (s.procs w).prio then s.setPrio o (s.procs cur).prio else s := by
  simp only [pipInherit, hw, ho]

/-- The inheritance step rewrites the priority of the owner of `r` only. -/
theorem pipInherit_prio (cur : Pid) (r : Fin nr) (s : State nr) {p : Pid}
    (hp : (s.resources r).owner ≠ some p) :
    ((pipInherit cur r s).procs p).prio = (s.procs p).prio := by
  unfold pipInherit
  split
  · rename_i o _ ho
    split_ifs
    · have hpo : p ≠ o := fun e => hp (e ▸ ho)
      simp [hpo]
    · rfl
  · rfl

/-- An acquire either takes a free resource or blocks the caller on a taken one; the
functions `onTake` and `onBlock` of every acquire only rewrite priorities. -/
theorem acquireWith_cases {onTake : Pid → State nr → State nr}
    {onBlock : Pid → Fin nr → State nr → State nr}
    (hT : ∀ (c : Pid) (u : State nr), u.PrioOnly (onTake c u))
    (hB : ∀ (c : Pid) (r : Fin nr) (u : State nr), u.PrioOnly (onBlock c r u)) (cur : Pid)
    (r : Fin nr) (s : State nr) :
    ((s.resources r).owner = none ∧
        (s.setOwner r (some cur)).PrioOnly (acquireWith onTake onBlock cur r s).1) ∨
      (∃ o, (s.resources r).owner = some o ∧
        (s.block cur r).PrioOnly (acquireWith onTake onBlock cur r s).1) := by
  unfold acquireWith
  split
  · exact .inl ⟨‹_›, hT _ _⟩
  · exact .inr ⟨_, ‹_›, hB _ _ _⟩

/-- The waiter a release wakes is a waiter. -/
def PicksWaiter (pickWaiter : State nr → Fin nr → Option Pid) : Prop :=
  ∀ u r w, pickWaiter u r = some w → w ∈ (u.resources r).waitqueue

theorem picksWaiter_head : PicksWaiter fun (u : State nr) r => (u.resources r).waitqueue.head? :=
  fun _ _ _ h => List.mem_of_mem_head? h

theorem picksWaiter_getHighestPrioWait :
    PicksWaiter (getHighestPrioWait : State nr → Fin nr → Option Pid) :=
  fun _ _ _ h => highestPrio_mem h

@[simp] theorem setOwner_waitqueue (u : State nr) (r r' : Fin nr) (o : Option Pid) :
    ((u.setOwner r o).resources r').waitqueue = (u.resources r').waitqueue := by
  simp only [State.setOwner_resources]
  split_ifs with h
  · subst h
    rfl
  · rfl

@[simp] theorem setOwner_waiting (u : State nr) (r : Fin nr) (o : Option Pid) :
    (u.setOwner r o).waiting = u.waiting := by
  simp only [State.waiting, setOwner_waitqueue]

theorem prioOnly_restorePrio (restore : Bool) (cur : Pid) (s : State nr) :
    s.PrioOnly (restorePrio restore cur s) := by
  unfold restorePrio
  split_ifs
  · exact s.prioOnly_setPrio _ _
  · exact .refl

/-- A release by the owner gives the resource up, after restoring its priority or not,
and wakes one blocked waiter if there is one. -/
theorem releaseWith_cases {pickWaiter : State nr → Fin nr → Option Pid} {restore : Bool}
    (hpick : PicksWaiter pickWaiter) (h : releaseWith pickWaiter restore cur r s = some t) :
    (s.resources r).owner = some cur ∧
      (t = (restorePrio restore cur s).setOwner r none ∨ ∃ w ∈ (s.resources r).waitqueue,
        (s.procs w).status = .blocked ∧
          t = ((restorePrio restore cur s).setOwner r none).wake w r) := by
  have hu := prioOnly_restorePrio restore cur s
  unfold releaseWith at h
  split_ifs at h with ho
  refine ⟨ho, ?_⟩
  unfold wakeOne at h
  split at h
  · cases h
    exact .inl rfl
  · rename_i w hw
    split_ifs at h with hb
    cases h
    have hmem := hpick _ _ _ hw
    rw [setOwner_waitqueue, hu.resources] at hmem
    exact .inr ⟨w, hmem, (hu.status w).symm.trans hb, rfl⟩

/-- A release by the owner never fails its asserts while every waiter is blocked. -/
theorem releaseWith_isSome {pickWaiter : State nr → Fin nr → Option Pid} {restore : Bool}
    (hpick : PicksWaiter pickWaiter) (ho : (s.resources r).owner = some cur)
    (hb : ∀ p ∈ (s.resources r).waitqueue, (s.procs p).status = .blocked) :
    (releaseWith pickWaiter restore cur r s).isSome := by
  have hu := prioOnly_restorePrio restore cur s
  unfold releaseWith wakeOne
  rw [if_pos ho]
  split
  · rfl
  · rename_i w hw
    have hmem := hpick _ _ _ hw
    rw [setOwner_waitqueue, hu.resources] at hmem
    have hs : ((restorePrio restore cur s).procs w).status = .blocked :=
      (hu.status w).trans (hb w hmem)
    simp [hs]

end Cases

end SchedSim
