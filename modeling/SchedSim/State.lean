import SchedSim.Lists

/-!
# Processes, resources and the simulator's state

`process.h` and `resource.h` are not among the sources.  What `pa2.c` reads and writes of
their records is modelled from the spec (§3): a process has a status, an age, a lifespan,
an effective and an original priority; a resource has an optional owner and a waitqueue.
The globals of `pa2.c` become one record that every call takes and returns: the process
records by pid, `current`, `readyqueue`, the five policy stacks (`rr_stack`, `prio_stack`,
`pa_stack`, `pcp_stack`, `pip_stack`) and the table of `NR_RESOURCES` resources, whose size
is the parameter `nr`.

The numeric fields are `unsigned int`, as `get_pastack_prio` returns `prio` as one; they
are natural numbers here, and the two computations `pa2.c` makes with them keep their
width: `remain_time` returns the `int` of the unsigned `lifespan - age` (`remainTime`), and
`prio++` in `prio_boost` wraps at `UINT_MAX` (`boostOne`).

## Main definitions

* `Proc`, `Resource`, `State`
* `State.pool`: what the scheduler holds, the readyqueue and every stack
* `State.queued`: the pool and every waitqueue, the lists a process may be linked into
* `State.continuing`: the current process when `schedule()` may let it continue
* `toInt32`, `remainTime`: the `int` of an `unsigned int` difference, as `remain_time`
  returns it

## Main results

* `pool_addReady`, `pool_push`, `pool_drain`, `pool_delReady`: each list operation of a
  `schedule()` function moves one pid into or out of the pool, or none
-/

namespace SchedSim

open scoped List

/-- Process identifiers: a process record is found by its pid. -/
abbrev Pid := Nat

/-- Modelled from the spec: the process statuses of §3 (`process.h` is missing). -/
inductive Status
  | ready
  | running
  | blocked
  | terminated
  deriving DecidableEq, Repr

/-- Modelled from the spec: the fields of `struct process` that `pa2.c` reads or writes
(`process.h` is missing). -/
structure Proc where
  status : Status
  age : Nat
  lifespan : Nat
  prio : Nat
  prioOrig : Nat
  deriving DecidableEq, Repr

instance : Inhabited Proc := ⟨⟨.ready, 0, 0, 0, 0⟩⟩

/-- The `int` that an `unsigned int` value converts to: its residue modulo `2^32`, read in
two's complement. -/
def toInt32 (x : Int) : Int :=
  (x + 2147483648) % 4294967296 - 2147483648

theorem toInt32_of_lt {x : Int} (h₀ : -2147483648 ≤ x) (h₁ : x < 2147483648) : toInt32 x = x := by
  unfold toInt32
  omega

/-- `remain_time`: `tmp->lifespan - tmp->age` is computed on `unsigned int` and returned as
an `int`, so a process with `2^31` ticks or more to go reads a negative time. -/
def remainTime (p : Proc) : Int :=
  toInt32 (p.lifespan - p.age)

/-- Below `2^31` ticks to go, `remain_time` reads the ticks that a process still needs. -/
theorem remainTime_eq {p : Proc} (h : p.age ≤ p.lifespan) (hfit : p.lifespan - p.age < 2147483648) :
    remainTime p = ((p.lifespan - p.age : Nat) : Int) := by
  unfold remainTime
  rw [toInt32_of_lt (by omega) (by omega)]
  omega

/-- Modelled from the spec: `struct resource` (`resource.h` is missing). -/
structure Resource where
  owner : Option Pid
  waitqueue : List Pid
  deriving DecidableEq, Repr

/-- The policy-private stacks, each a `LIST_HEAD` of `pa2.c`. -/
inductive StackId
  | rr
  | prio
  | pa
  | pcp
  | pip
  deriving DecidableEq, Repr

/-- Every stack, once. -/
def StackId.all : List StackId := [.rr, .prio, .pa, .pcp, .pip]

theorem StackId.mem_all (k : StackId) : k ∈ StackId.all := by
  cases k <;> decide

theorem StackId.nodup_all : StackId.all.Nodup := by
  decide

/-- The globals of `pa2.c` that the scheduler and the resource functions share. -/
structure State (nr : Nat) where
  procs : Pid → Proc
  current : Option Pid
  readyqueue : List Pid
  stack : StackId → List Pid
  resources : Fin nr → Resource

namespace State

variable {nr : Nat} (s : State nr)

/-- The state a run starts from: nothing current, every list empty, every resource free. -/
def init : State nr where
  procs _ := default
  current := none
  readyqueue := []
  stack _ := []
  resources _ := ⟨none, []⟩

/-! ## Updates -/

/-- Rewrite the record of process `p`.  A plain `if`, not `Function.update`: its dependent
cast makes a concrete run slow to evaluate by `decide`. -/
def modifyProc (p : Pid) (f : Proc → Proc) : State nr :=
  { s with procs := fun x => if x = p then f (s.procs p) else s.procs x }

/-- `p->status = st`. -/
def setStatus (p : Pid) (st : Status) : State nr :=
  s.modifyProc p fun q => { q with status := st }

/-- `p->prio = v`. -/
def setPrio (p : Pid) (v : Nat) : State nr :=
  s.modifyProc p fun q => { q with prio := v }

/-- `list_add(&p->list, &readyqueue)`. -/
def addReady (p : Pid) : State nr :=
  { s with readyqueue := p :: s.readyqueue }

/-- `list_add_tail(&p->list, &readyqueue)`. -/
def addReadyTail (p : Pid) : State nr :=
  { s with readyqueue := s.readyqueue ++ [p] }

/-- `list_del_init(&p->list)` for an entry of the readyqueue. -/
def delReady (p : Pid) : State nr :=
  { s with readyqueue := s.readyqueue.erase p }

/-- `list_add(&p->list, &stack)`. -/
def push (k : StackId) (p : Pid) : State nr :=
  { s with stack := Function.update s.stack k (p :: s.stack k) }

/-- The drain loop: every entry of stack `k` onto the readyqueue, which leaves `k` empty. -/
def drain (atTail : Bool) (k : StackId) : State nr :=
  { s with
    readyqueue := moveAll atTail (s.stack k) s.readyqueue
    stack := Function.update s.stack k [] }

/-- Rewrite resource `r`. -/
def modifyResource (r : Fin nr) (f : Resource → Resource) : State nr :=
  { s with resources := fun x => if x = r then f (s.resources r) else s.resources x }

@[simp] theorem modifyProc_procs (p : Pid) (f : Proc → Proc) (x : Pid) :
    (s.modifyProc p f).procs x = if x = p then f (s.procs p) else s.procs x :=
  rfl

@[simp] theorem setStatus_procs (p : Pid) (st : Status) (x : Pid) :
    (s.setStatus p st).procs x = if x = p then { s.procs p with status := st } else s.procs x :=
  rfl

@[simp] theorem setPrio_procs (p : Pid) (v : Nat) (x : Pid) :
    (s.setPrio p v).procs x = if x = p then { s.procs p with prio := v } else s.procs x :=
  rfl

@[simp] theorem modifyResource_resources (r : Fin nr) (f : Resource → Resource) (r' : Fin nr) :
    (s.modifyResource r f).resources r' = if r' = r then f (s.resources r) else s.resources r' :=
  rfl

@[simp] theorem push_stack (k : StackId) (p : Pid) (k' : StackId) :
    (s.push k p).stack k' = if k' = k then p :: s.stack k else s.stack k' :=
  Function.update_apply _ _ _ _

@[simp] theorem drain_stack (b : Bool) (k k' : StackId) :
    (s.drain b k).stack k' = if k' = k then [] else s.stack k' :=
  Function.update_apply _ _ _ _

@[simp] theorem setPrio_resources (p : Pid) (v : Nat) : (s.setPrio p v).resources = s.resources :=
  rfl

@[simp] theorem modifyProc_readyqueue (p : Pid) (f : Proc → Proc) :
    (s.modifyProc p f).readyqueue = s.readyqueue :=
  rfl

@[simp] theorem modifyProc_stack (p : Pid) (f : Proc → Proc) :
    (s.modifyProc p f).stack = s.stack :=
  rfl

@[simp] theorem modifyProc_resources (p : Pid) (f : Proc → Proc) :
    (s.modifyProc p f).resources = s.resources :=
  rfl

@[simp] theorem modifyProc_current (p : Pid) (f : Proc → Proc) :
    (s.modifyProc p f).current = s.current :=
  rfl

@[simp] theorem setStatus_resources (p : Pid) (st : Status) :
    (s.setStatus p st).resources = s.resources :=
  rfl

@[simp] theorem setStatus_current (p : Pid) (st : Status) :
    (s.setStatus p st).current = s.current :=
  rfl

@[simp] theorem modifyResource_procs (r : Fin nr) (f : Resource → Resource) :
    (s.modifyResource r f).procs = s.procs :=
  rfl

@[simp] theorem modifyResource_current (r : Fin nr) (f : Resource → Resource) :
    (s.modifyResource r f).current = s.current :=
  rfl

@[simp] theorem addReady_readyqueue (p : Pid) : (s.addReady p).readyqueue = p :: s.readyqueue :=
  rfl

@[simp] theorem addReadyTail_readyqueue (p : Pid) :
    (s.addReadyTail p).readyqueue = s.readyqueue ++ [p] :=
  rfl

@[simp] theorem delReady_readyqueue (p : Pid) : (s.delReady p).readyqueue = s.readyqueue.erase p :=
  rfl

@[simp] theorem push_readyqueue (k : StackId) (p : Pid) : (s.push k p).readyqueue = s.readyqueue :=
  rfl

@[simp] theorem drain_readyqueue (b : Bool) (k : StackId) :
    (s.drain b k).readyqueue = moveAll b (s.stack k) s.readyqueue :=
  rfl

@[simp] theorem addReady_stack (p : Pid) : (s.addReady p).stack = s.stack :=
  rfl

@[simp] theorem addReadyTail_stack (p : Pid) : (s.addReadyTail p).stack = s.stack :=
  rfl

@[simp] theorem delReady_stack (p : Pid) : (s.delReady p).stack = s.stack :=
  rfl

/-- The queue moves leave every process record alone. -/
@[simp] theorem addReady_procs (p : Pid) : (s.addReady p).procs = s.procs :=
  rfl

@[simp] theorem addReadyTail_procs (p : Pid) : (s.addReadyTail p).procs = s.procs :=
  rfl

@[simp] theorem delReady_procs (p : Pid) : (s.delReady p).procs = s.procs :=
  rfl

@[simp] theorem push_procs (k : StackId) (p : Pid) : (s.push k p).procs = s.procs :=
  rfl

@[simp] theorem drain_procs (b : Bool) (k : StackId) : (s.drain b k).procs = s.procs :=
  rfl

/-! ## Updates of priorities only -/

/-- `t` differs from `s` at most in the priorities of processes. -/
structure PrioOnly (s t : State nr) : Prop where
  current : t.current = s.current
  readyqueue : t.readyqueue = s.readyqueue
  stack : t.stack = s.stack
  resources : t.resources = s.resources
  procs : ∀ p, t.procs p = { s.procs p with prio := (t.procs p).prio }

namespace PrioOnly

variable {s} {t u : State nr}

theorem refl : PrioOnly s s :=
  ⟨rfl, rfl, rfl, rfl, fun _ => rfl⟩

theorem trans (h₁ : PrioOnly s t) (h₂ : PrioOnly t u) : PrioOnly s u :=
  ⟨h₂.current.trans h₁.current, h₂.readyqueue.trans h₁.readyqueue,
    h₂.stack.trans h₁.stack, h₂.resources.trans h₁.resources,
    fun p => by rw [h₂.procs p, h₁.procs p]⟩

theorem status (h : PrioOnly s t) (p : Pid) : (t.procs p).status = (s.procs p).status := by
  rw [h.procs p]

theorem age (h : PrioOnly s t) (p : Pid) : (t.procs p).age = (s.procs p).age := by
  rw [h.procs p]

theorem lifespan (h : PrioOnly s t) (p : Pid) : (t.procs p).lifespan = (s.procs p).lifespan := by
  rw [h.procs p]

theorem prioOrig (h : PrioOnly s t) (p : Pid) : (t.procs p).prioOrig = (s.procs p).prioOrig := by
  rw [h.procs p]

end PrioOnly

theorem prioOnly_setPrio (p : Pid) (v : Nat) : PrioOnly s (s.setPrio p v) :=
  ⟨rfl, rfl, rfl, rfl, fun x => by by_cases h : x = p <;> simp [h]⟩

/-! ## What is linked where -/

/-- The concatenation of the five stacks. -/
def stackList : List Pid :=
  StackId.all.flatMap s.stack

/-- What the scheduler holds: the readyqueue and every stack. -/
def pool : List Pid :=
  s.readyqueue ++ s.stackList

/-- The concatenation of every resource's waitqueue. -/
def waiting : List Pid :=
  (List.finRange nr).flatMap fun r => (s.resources r).waitqueue

/-- Every list a process may be linked into. -/
def queued : List Pid :=
  s.pool ++ s.waiting

/-- `current`, when it is neither NULL, nor blocked, nor at the end of its lifespan: the
tests every `schedule()` function makes before `pick_next`. -/
def continuing : Option Pid :=
  match s.current with
  | some c =>
    if (s.procs c).status ≠ .blocked ∧ (s.procs c).age < (s.procs c).lifespan then some c
    else none
  | none => none

/-- The process a `schedule()` call may let continue, as a list of at most one pid. -/
def runnable : List Pid :=
  s.continuing.toList

theorem continuing_eq_some {c : Pid} :
    s.continuing = some c ↔
      s.current = some c ∧ (s.procs c).status ≠ .blocked ∧
        (s.procs c).age < (s.procs c).lifespan := by
  unfold continuing
  split
  · rename_i c' hc
    by_cases h : c = c'
    · subst h
      simp [hc]
    · simp [hc, Ne.symm h, h]
  · simp_all

theorem init_queued : (init : State nr).queued = [] :=
  List.eq_nil_iff_forall_not_mem.mpr fun p => by
    simp [queued, pool, stackList, waiting, init]

theorem mem_waiting {p : Pid} : p ∈ s.waiting ↔ ∃ r, p ∈ (s.resources r).waitqueue := by
  simp [waiting, List.mem_finRange]

theorem mem_queued_of_mem_stack {k : StackId} {p : Pid} (h : p ∈ s.stack k) :
    p ∈ s.queued := by
  simp only [queued, pool, stackList, List.mem_append, List.mem_flatMap]
  exact .inl (.inr ⟨k, StackId.mem_all k, h⟩)

theorem stackList_update_perm (k : StackId) (l : List Pid) :
    ({ s with stack := Function.update s.stack k l } : State nr).stackList ++ s.stack k ~
      s.stackList ++ l :=
  flatMap_update_perm s.stack StackId.nodup_all (StackId.mem_all k) l

theorem waiting_update_perm (r : Fin nr) (x : Resource) :
    (s.modifyResource r fun _ => x).waiting ++ (s.resources r).waitqueue ~
      s.waiting ++ x.waitqueue := by
  have h := flatMap_update_perm (fun r => (s.resources r).waitqueue) (List.nodup_finRange nr)
    (List.mem_finRange r) x.waitqueue
  refine (List.Perm.of_eq (congrArg (· ++ _) ?_)).trans h
  unfold waiting
  congr 1
  funext r'
  simp only [modifyResource_resources, Function.update_apply]
  split_ifs <;> rfl

/-! ## How the scheduler's list operations move pids -/

@[simp] theorem pool_modifyProc (p : Pid) (f : Proc → Proc) : (s.modifyProc p f).pool = s.pool :=
  rfl

@[simp] theorem pool_setPrio (p : Pid) (v : Nat) : (s.setPrio p v).pool = s.pool :=
  rfl

theorem pool_addReady (p : Pid) : (s.addReady p).pool ~ p :: s.pool :=
  List.Perm.refl _

theorem pool_addReadyTail (p : Pid) : (s.addReadyTail p).pool ~ p :: s.pool := by
  simp only [pool, addReadyTail, List.append_assoc, List.singleton_append]
  exact List.perm_middle

theorem pool_push (k : StackId) (p : Pid) : (s.push k p).pool ~ p :: s.pool := by
  have h := s.stackList_update_perm k (p :: s.stack k)
  rw [List.append_cons _ p] at h
  have h' := (List.perm_append_right_iff _).mp h
  refine (h'.append_left s.readyqueue).trans ?_
  rw [← List.append_assoc]
  exact List.perm_append_singleton p _

theorem pool_drain (b : Bool) (k : StackId) : (s.drain b k).pool ~ s.pool := by
  have h := s.stackList_update_perm k []
  have e : (s.drain b k).stackList =
      ({ s with stack := Function.update s.stack k [] } : State nr).stackList := rfl
  rw [List.perm_iff_count] at h ⊢
  intro a
  have h₁ := h a
  have h₂ := (moveAll_perm b (s.stack k) s.readyqueue).count_eq a
  simp only [List.count_append, List.count_nil, Nat.add_zero] at h₁ h₂
  simp only [pool, drain_readyqueue, e, List.count_append]
  omega

theorem pool_delReady {p : Pid} (h : p ∈ s.readyqueue) : p :: (s.delReady p).pool ~ s.pool :=
  ((List.perm_cons_erase h).append_right s.stackList).symm

end State

end SchedSim
