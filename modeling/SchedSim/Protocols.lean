import SchedSim.HighestFirst

/-!
# The priority protocols

PCP and PIP rewrite the effective priority `prio` of processes that contend for a
resource, and both put `prio_orig` back on release.  `pcp_acquire` lifts a new owner to
`MAX_PRIO`; `pip_acquire`, when the caller that has just blocked ties the greatest priority
among the resource's waiters, gives the owner the caller's priority.

Only owners are ever rewritten, and a release restores the releaser, so under both
protocols a process that owns nothing runs at its original priority, provided it arrived
at it (`prio_eq_prioOrig_of_owns_none`).  The ceiling of PCP lasts for a whole ownership
only while a process holds one resource at a time (`pcp_owner_prio_eq_max`): the release
of one of two resources restores the original priority while the other is still held
(`pcp_nested_release_drops_ceiling`).  The inheritance of PIP keeps every owner at least at
the priority of each waiter of its resource when a process holds one resource at a time and
never takes a free resource past a waiter of higher priority (`pip_owner_prio_ge_waiters`);
a nested release or such a barging acquire breaks the bound
(`pip_inheritance_bound_fails`).  The bound says nothing of the owner's original priority,
and `pip_acquire` does lower owners: it gives the owner the priority of a caller that ties
the greatest waiter without comparing it with the owner's own, so an owner above all its
waiters drops below its original priority (`pip_acquire_lowers_owner`), where the spec
(§4.4) says the owner's priority is raised, never lowered.

## Main definitions

* `OwnsNone`, `OrigUnlessOwner`: the invariant of both protocols
* `Ceiling`: the invariant of PCP for processes that hold one resource at a time
* `InheritBound`: the invariant of PIP under the same discipline, without barging past a
  waiter of higher priority

## Main results

* `prio_eq_prioOrig_of_owns_none`: under PCP and PIP, non-owners run at `prio_orig`
* `pcp_owner_prio_eq_max`: under PCP, one resource at a time, owners run at `MAX_PRIO`
* `pip_owner_prio_ge_waiters`: under PIP, one resource at a time and without barging,
  owners run at least at the priority of their waiters
* `pcp_nested_release_drops_ceiling`, `pip_inheritance_bound_fails`: runs on which the
  ceiling and the inheritance bound fail
* `pip_acquire_lowers_owner`: a run on which `pip_acquire` lowers an owner below its
  original priority
-/

namespace SchedSim

variable {nr : Nat}

/-- `p` owns no resource. -/
def OwnsNone (s : State nr) (p : Pid) : Prop :=
  ∀ r, (s.resources r).owner ≠ some p

/-- Every process that owns no resource runs at its original priority. -/
def OrigUnlessOwner (s : State nr) : Prop :=
  ∀ p, OwnsNone s p → (s.procs p).prio = (s.procs p).prioOrig

/-! ## Non-owners keep their original priority -/

namespace OrigUnlessOwner

variable {s t : State nr}

/-- A move keeps the invariant when every process that owns nothing afterwards runs at its
original priority, or owned nothing before and kept both priorities. -/
theorem of_step (h : OrigUnlessOwner s)
    (hp : ∀ p, OwnsNone t p → (t.procs p).prio = (t.procs p).prioOrig ∨
      OwnsNone s p ∧ (t.procs p).prio = (s.procs p).prio ∧
        (t.procs p).prioOrig = (s.procs p).prioOrig) :
    OrigUnlessOwner t := by
  intro p hp'
  rcases hp p hp' with e | ⟨hs, e₁, e₂⟩
  · exact e
  · rw [e₁, e₂]
    exact h p hs

/-- A move that makes no new non-owner and keeps the priorities of non-owners keeps the
invariant. -/
theorem of_frame (h : OrigUnlessOwner s) (ho : ∀ p, OwnsNone t p → OwnsNone s p)
    (hp : ∀ p, OwnsNone t p → (t.procs p).prio = (s.procs p).prio ∧
      (t.procs p).prioOrig = (s.procs p).prioOrig) :
    OrigUnlessOwner t :=
  h.of_step fun p hp' => .inr ⟨ho p hp', hp p hp'⟩

theorem of_owner_eq (h : OrigUnlessOwner s)
    (ho : ∀ r, (t.resources r).owner = (s.resources r).owner)
    (hp : ∀ p, OwnsNone t p → (t.procs p).prio = (s.procs p).prio ∧
      (t.procs p).prioOrig = (s.procs p).prioOrig) :
    OrigUnlessOwner t :=
  h.of_frame (fun _ hp' r => ho r ▸ hp' r) hp

theorem pcpAcquire (h : OrigUnlessOwner s) (maxPrio : Nat) (c : Pid) (r : Fin nr) :
    OrigUnlessOwner (SchedSim.pcpAcquire maxPrio c r s).1 := by
  unfold SchedSim.pcpAcquire acquireWith
  split
  · rename_i hr
    refine h.of_frame (fun p hp r' => ?_) fun p hp => ?_
    · by_cases e : r' = r
      · simp [e, hr]
      · simpa [e] using hp r'
    · have hpc : p ≠ c := fun e => hp r (by simp [e])
      simp [hpc]
  · exact h.of_owner_eq (fun r' => by simp) fun p _ => ⟨by simp, by simp⟩

theorem pipAcquire (h : OrigUnlessOwner s) (c : Pid) (r : Fin nr) :
    OrigUnlessOwner (SchedSim.pipAcquire c r s).1 := by
  unfold SchedSim.pipAcquire acquireWith
  split
  · rename_i hr
    refine h.of_frame (fun p hp r' => ?_) fun p _ => ⟨rfl, rfl⟩
    by_cases e : r' = r
    · simp [e, hr]
    · simpa [e] using hp r'
  · have hpo := prioOnly_pipInherit c r (s.block c r)
    refine h.of_owner_eq (fun r' => by rw [hpo.resources, State.block_owner]) fun p hp => ?_
    have hr : ((s.block c r).resources r).owner ≠ some p := by
      rw [← hpo.resources]
      exact hp r
    rw [pipInherit_prio c r _ hr, hpo.prioOrig]
    simp

/-- A release by the owner `c` under PCP or PIP restores `c`, gives `r` up and wakes a
waiter or none. -/
theorem release (h : OrigUnlessOwner s) {c : Pid} {r : Fin nr}
    (he : releaseWith getHighestPrioWait true c r s = some t) : OrigUnlessOwner t := by
  obtain ⟨hown, ht⟩ := releaseWith_cases picksWaiter_getHighestPrioWait he
  have hu : OrigUnlessOwner ((restorePrio true c s).setOwner r none) := by
    refine h.of_step fun p hp => ?_
    by_cases hpc : p = c
    · subst hpc
      left
      simp [restorePrio]
    · refine .inr ⟨fun r' => ?_, by simp [restorePrio, hpc], by simp [restorePrio, hpc]⟩
      by_cases e : r' = r
      · simp [e, hown, Ne.symm hpc]
      · simpa [e, restorePrio] using hp r'
  rcases ht with rfl | ⟨w, -, -, rfl⟩
  · exact hu
  · exact hu.of_owner_eq (fun r' => by simp) fun p _ => ⟨by simp, by simp⟩

/-- Every move of the driver under PCP or PIP keeps the invariant, when an arriving process
starts at its original priority. -/
theorem exec {maxPrio : Nat} {pol : Policy} (hpol : pol = .pcp ∨ pol = .pip) {a : Action nr}
    (ha : ArrivesWith (fun p => p.prio = p.prioOrig) s a) (h : OrigUnlessOwner s)
    (he : SchedSim.exec maxPrio pol a s = some t) : OrigUnlessOwner t := by
  cases a with
  | arrive p proc =>
    simp only [SchedSim.exec] at he
    split_ifs at he
    cases he
    refine h.of_step fun q hq => ?_
    by_cases e : q = p
    · subst e
      exact .inl (by simpa using ha)
    · exact .inr ⟨hq, by simp [e], by simp [e]⟩
  | acquire r =>
    obtain ⟨c, -, rfl⟩ := Option.map_eq_some'.mp he
    rcases hpol with rfl | rfl
    · exact h.pcpAcquire maxPrio c r
    · exact h.pipAcquire c r
  | release r =>
    obtain ⟨c, -, he⟩ := Option.bind_eq_some.mp he
    rcases hpol with rfl | rfl <;> exact h.release he
  | schedule x =>
    obtain ⟨⟨u, n⟩, hr, rfl⟩ := Option.map_eq_some'.mp he
    have hf : u.resources = s.resources := (Policy.schedule_conserves maxPrio pol hr).resources
    have hp : u.procs = s.procs := by
      rcases hpol with rfl | rfl <;> exact prioFamilySchedule_procs _ hr
    exact h.of_owner_eq (fun r => by rw [← hf]) fun p _ => by simp [hp]
  | tick =>
    obtain ⟨c, -, rfl⟩ := Option.map_eq_some'.mp he
    exact h.of_owner_eq (fun r => rfl) fun p _ => ⟨s.age_prio c p, s.age_prioOrig c p⟩

end OrigUnlessOwner

theorem origUnlessOwner_of_reachable {maxPrio : Nat} {pol : Policy}
    (hpol : pol = .pcp ∨ pol = .pip) {s : State nr}
    (hs : Reachable maxPrio pol (ArrivesWith fun p => p.prio = p.prioOrig) s) :
    OrigUnlessOwner s := by
  induction hs with
  | init => exact fun p _ => rfl
  | step _ ha he ih => exact ih.exec hpol ha he

/-- **Original priorities are never lost under PCP and PIP** (spec §4.3, §4.4): when every
process arrives at its original priority, in every reachable state every process that owns
no resource runs at its original priority. -/
theorem prio_eq_prioOrig_of_owns_none {maxPrio : Nat} {pol : Policy}
    (hpol : pol = .pcp ∨ pol = .pip) {s : State nr}
    (hs : Reachable maxPrio pol (ArrivesWith fun p => p.prio = p.prioOrig) s) (p : Pid)
    (hp : ∀ r, (s.resources r).owner ≠ some p) : (s.procs p).prio = (s.procs p).prioOrig :=
  origUnlessOwner_of_reachable hpol hs p hp

/-- Process 1 takes `r0` under PCP and rises to `MAX_PRIO`; process 2, which owns nothing,
stays at its original priority. -/
theorem prio_eq_prioOrig_of_owns_none_after_acquire :
    ∃ s : State 1, Reachable 10 .pcp (ArrivesWith fun p => p.prio = p.prioOrig) s ∧
      (∀ r, (s.resources r).owner ≠ some 2) ∧ (s.procs 2).prio = (s.procs 2).prioOrig := by
  obtain ⟨s, hs, hown⟩ : ∃ s : State 1,
      Reachable 10 .pcp (ArrivesWith fun p => p.prio = p.prioOrig) s ∧
        ∀ r, (s.resources r).owner ≠ some 2 :=
    exists_reachable_of_run
      [.arrive 1 ⟨.ready, 0, 10, 4, 4⟩, .arrive 2 ⟨.ready, 0, 10, 3, 3⟩, .schedule 0,
        .acquire 0]
      (by decide)
  exact ⟨s, hs, hown, prio_eq_prioOrig_of_owns_none (.inl rfl) hs 2 hown⟩

/-! ## The ceiling of PCP -/

/-- Every owner runs at `MAX_PRIO`, and no process owns two resources. -/
structure Ceiling (maxPrio : Nat) (s : State nr) : Prop where
  prio : ∀ r o, (s.resources r).owner = some o → (s.procs o).prio = maxPrio
  unique : ∀ r r' o, (s.resources r).owner = some o → (s.resources r').owner = some o → r = r'

namespace Ceiling

variable {maxPrio : Nat} {s t : State nr}

/-- A move that keeps every owner and the priorities of owners keeps the invariant. -/
theorem of_frame (h : Ceiling maxPrio s) (ho : ∀ r, (t.resources r).owner = (s.resources r).owner)
    (hp : ∀ r o, (s.resources r).owner = some o → (t.procs o).prio = (s.procs o).prio) :
    Ceiling maxPrio t where
  prio r o hr := by
    rw [ho] at hr
    rw [hp r o hr]
    exact h.prio r o hr
  unique r r' o hr hr' := h.unique r r' o (ho r ▸ hr) (ho r' ▸ hr')

/-- An owner is none of the processes that own nothing. -/
theorem ne_of_owns_none {r : Fin nr} {o c : Pid} (hr : (s.resources r).owner = some o)
    (hc : c ∉ s.owners) : o ≠ c := by
  rintro rfl
  exact hc ((s.mem_owners).mpr ⟨r, hr⟩)

theorem pcpAcquire (h : Ceiling maxPrio s) {c : Pid} (hc : c ∉ s.owners) (r : Fin nr) :
    Ceiling maxPrio (SchedSim.pcpAcquire maxPrio c r s).1 := by
  unfold SchedSim.pcpAcquire acquireWith
  split
  · rename_i hr
    have hown : ∀ r', (s.resources r').owner ≠ some c := fun r' e => ne_of_owns_none e hc rfl
    refine ⟨fun r' o ho => ?_, fun r₁ r₂ o h₁ h₂ => ?_⟩
    · by_cases e : r' = r
      · simp only [e, State.setPrio_resources, State.setOwner_owner, if_true,
          Option.some.injEq] at ho
        simp [ho]
      · simp only [e, State.setPrio_resources, State.setOwner_owner, if_false] at ho
        simp [ne_of_owns_none ho hc, h.prio r' o ho]
    · simp only [State.setPrio_resources, State.setOwner_owner] at h₁ h₂
      split_ifs at h₁ h₂ with e₁ e₂ e₂
      · exact e₁.trans e₂.symm
      · exact absurd (h₁ ▸ h₂) (hown r₂)
      · exact absurd (h₂ ▸ h₁) (hown r₁)
      · exact h.unique r₁ r₂ o h₁ h₂
  · exact h.of_frame (fun r' => by simp) fun _ _ _ => by simp

/-- A release by the owner `c` restores `c`, which then owns nothing, gives `r` up and wakes
a waiter or none. -/
theorem release (h : Ceiling maxPrio s) {c : Pid} {r : Fin nr}
    (he : releaseWith getHighestPrioWait true c r s = some t) : Ceiling maxPrio t := by
  obtain ⟨hown, ht⟩ := releaseWith_cases picksWaiter_getHighestPrioWait he
  have hu : Ceiling maxPrio ((restorePrio true c s).setOwner r none) := by
    refine ⟨fun r' o ho => ?_, fun r₁ r₂ o h₁ h₂ => ?_⟩
    · by_cases e : r' = r
      · simp [e] at ho
      · simp only [e, State.setOwner_owner, if_false, (prioOnly_restorePrio true c s).resources]
          at ho
        have hoc : o ≠ c := fun hoc => e (h.unique r' r o ho (hoc ▸ hown))
        simp [restorePrio, hoc, h.prio r' o ho]
    · simp only [State.setOwner_owner, (prioOnly_restorePrio true c s).resources] at h₁ h₂
      split_ifs at h₁ h₂
      exact h.unique r₁ r₂ o h₁ h₂
  rcases ht with rfl | ⟨w, -, -, rfl⟩
  · exact hu
  · exact hu.of_frame (fun r' => by simp) fun _ _ _ => by simp

/-- Every move of the driver under PCP keeps the invariant, when a process calls acquire
only while it owns nothing. -/
theorem exec {a : Action nr} (ha : OneAtATime s a) (h : Ceiling maxPrio s)
    (he : SchedSim.exec maxPrio .pcp a s = some t) : Ceiling maxPrio t := by
  cases a with
  | arrive p proc =>
    simp only [SchedSim.exec] at he
    split_ifs at he with hm
    cases he
    refine h.of_frame (fun r => rfl) fun r o ho => ?_
    have hop : o ≠ p := fun e => hm (.inr (.inr ((s.mem_owners).mpr ⟨r, e ▸ ho⟩)))
    simp [hop]
  | acquire r =>
    obtain ⟨c, hc, rfl⟩ := Option.map_eq_some'.mp he
    exact h.pcpAcquire (ha c ((s.caller_eq_some).mp hc).1) r
  | release r =>
    obtain ⟨c, -, he⟩ := Option.bind_eq_some.mp he
    exact h.release he
  | schedule x =>
    obtain ⟨⟨u, n⟩, hr, rfl⟩ := Option.map_eq_some'.mp he
    have hf : u.resources = s.resources := (Policy.schedule_conserves maxPrio .pcp hr).resources
    have hp : u.procs = s.procs := prioFamilySchedule_procs _ hr
    exact h.of_frame (fun r => by rw [← hf]) fun _ _ _ => by simp [hp]
  | tick =>
    obtain ⟨c, -, rfl⟩ := Option.map_eq_some'.mp he
    exact h.of_frame (fun r => rfl) fun _ o _ => s.age_prio c o

end Ceiling

theorem ceiling_of_reachable {maxPrio : Nat} {s : State nr}
    (hs : Reachable maxPrio .pcp OneAtATime s) : Ceiling maxPrio s := by
  induction hs with
  | init => exact ⟨fun _ _ h => (by cases h), fun _ _ _ h => by cases h⟩
  | step _ ha he ih => exact ih.exec ha he

/-- **The ceiling of PCP, one resource at a time** (spec §4.3): when a process calls acquire
only while it owns no resource, in every reachable state every owner runs at `MAX_PRIO`. -/
theorem pcp_owner_prio_eq_max {maxPrio : Nat} {s : State nr}
    (hs : Reachable maxPrio .pcp OneAtATime s) {r : Fin nr} {o : Pid}
    (ho : (s.resources r).owner = some o) : (s.procs o).prio = maxPrio :=
  (ceiling_of_reachable hs).prio r o ho

/-- Process 1 arrives at priority 1 under PCP, runs and takes `r0`: it runs at `MAX_PRIO`. -/
theorem pcp_owner_prio_eq_max_after_acquire :
    ∃ s : State 1, Reachable 10 .pcp OneAtATime s ∧ (s.resources 0).owner = some 1 ∧
      (s.procs 1).prio = 10 := by
  obtain ⟨s, hs, hown⟩ : ∃ s : State 1, Reachable 10 .pcp OneAtATime s ∧
      (s.resources 0).owner = some 1 :=
    exists_reachable_of_run [.arrive 1 ⟨.ready, 0, 10, 1, 1⟩, .schedule 0, .acquire 0]
      (by decide)
  exact ⟨s, hs, hown, pcp_owner_prio_eq_max hs hown⟩

/-- **A nested release drops the ceiling.**  Under PCP with `MAX_PRIO` 10, process 1
arrives at priority 1, runs, takes `r0` and `r1`, and releases `r1`: `pcp_release` restores
its original priority although it still owns `r0`. -/
theorem pcp_nested_release_drops_ceiling :
    ∃ s : State 2, Reachable 10 .pcp (fun _ _ => True) s ∧ (s.resources 0).owner = some 1 ∧
      (s.procs 1).prio ≠ 10 :=
  exists_reachable_of_run
    [.arrive 1 ⟨.ready, 0, 10, 1, 1⟩, .schedule 0, .acquire 0, .acquire 1, .release 1]
    (by decide)

/-! ## The inheritance bound of PIP -/

/-- Every owner runs at least at the priority of each waiter of its resource, owns one
resource only, and waits for none. -/
structure InheritBound (s : State nr) : Prop where
  ge : ∀ r o, (s.resources r).owner = some o →
    ∀ p ∈ (s.resources r).waitqueue, (s.procs p).prio ≤ (s.procs o).prio
  unique : ∀ r r' o, (s.resources r).owner = some o → (s.resources r').owner = some o → r = r'
  not_waiting : ∀ r o, (s.resources r).owner = some o → o ∉ s.waiting

namespace InheritBound

variable {s t : State nr}

/-- A move that keeps the resources and the priorities of owners and waiters keeps the
invariant. -/
theorem of_frame (h : InheritBound s) (hr : t.resources = s.resources)
    (hp : ∀ p, p ∈ s.owners ∨ p ∈ s.waiting → (t.procs p).prio = (s.procs p).prio) :
    InheritBound t := by
  have hw : t.waiting = s.waiting := by simp only [State.waiting, hr]
  refine ⟨fun r o ho p hp' => ?_, fun r r' o => hr ▸ h.unique r r' o, fun r o ho => ?_⟩
  · rw [hr] at ho hp'
    rw [hp p (.inr ((s.mem_waiting).mpr ⟨r, hp'⟩)), hp o (.inl ((s.mem_owners).mpr ⟨r, ho⟩))]
    exact h.ge r o ho p hp'
  · rw [hw]
    exact h.not_waiting r o (hr ▸ ho)

theorem owner_ne {r : Fin nr} {o c : Pid} (hr : (s.resources r).owner = some o)
    (hc : c ∉ s.owners) : o ≠ c := by
  rintro rfl
  exact hc ((s.mem_owners).mpr ⟨r, hr⟩)

/-- A caller that owns nothing and waits for nothing takes a free resource, none of whose
waiters has a higher priority. -/
theorem setOwner (h : InheritBound s) {c : Pid} (hc : c ∉ s.owners) (hcw : c ∉ s.waiting)
    {r : Fin nr} (hq : ∀ w ∈ (s.resources r).waitqueue, (s.procs w).prio ≤ (s.procs c).prio) :
    InheritBound (s.setOwner r (some c)) := by
  refine ⟨fun r' o ho p hp => ?_, fun r₁ r₂ o h₁ h₂ => ?_, fun r' o ho => ?_⟩
  · simp only [State.setOwner_owner, setOwner_waitqueue, State.setOwner_procs] at ho hp ⊢
    split_ifs at ho with e
    · obtain rfl := Option.some.inj ho
      exact hq p (e ▸ hp)
    · exact h.ge r' o ho p hp
  · simp only [State.setOwner_owner] at h₁ h₂
    split_ifs at h₁ h₂ with e₁ e₂ e₂
    · exact e₁.trans e₂.symm
    · obtain rfl := Option.some.inj h₁
      exact absurd ((s.mem_owners).mpr ⟨r₂, h₂⟩) hc
    · obtain rfl := Option.some.inj h₂
      exact absurd ((s.mem_owners).mpr ⟨r₁, h₁⟩) hc
    · exact h.unique r₁ r₂ o h₁ h₂
  · simp only [State.setOwner_owner, setOwner_waiting] at ho ⊢
    split_ifs at ho
    · cases ho
      exact hcw
    · exact h.not_waiting r' o ho

/-- After a caller that owns nothing blocks, owners are still unique and wait for nothing,
whatever priorities the inheritance step then rewrites. -/
theorem block_owners (h : InheritBound s) {c : Pid} (hc : c ∉ s.owners) (r : Fin nr)
    {u : State nr} (hu : u.resources = (s.block c r).resources) :
    (∀ r₁ r₂ o, (u.resources r₁).owner = some o → (u.resources r₂).owner = some o → r₁ = r₂) ∧
      ∀ r' o, (u.resources r').owner = some o → o ∉ u.waiting := by
  have hw : u.waiting = (s.block c r).waiting := by simp only [State.waiting, hu]
  refine ⟨fun r₁ r₂ o h₁ h₂ => ?_, fun r' o ho hmem => ?_⟩
  · simp only [hu, State.block_owner] at h₁ h₂
    exact h.unique r₁ r₂ o h₁ h₂
  · simp only [hu, State.block_owner] at ho
    rcases s.mem_waiting_block (hw ▸ hmem) with rfl | hmem
    · exact owner_ne ho hc rfl
    · exact h.not_waiting r' o ho hmem

/-- A caller that owns nothing blocks on a resource `o` owns.  When the caller ties the
greatest waiter, inheritance gives `o` the caller's priority, the greatest of all waiters;
otherwise the caller is below a waiter, hence below `o`. -/
theorem block (h : InheritBound s) {c : Pid} (hc : c ∉ s.owners) {r : Fin nr} {o : Pid}
    (ho : (s.resources r).owner = some o) : InheritBound (pipInherit c r (s.block c r)) := by
  obtain ⟨w, hw⟩ : ∃ w, getHighestPrioWait (s.block c r) r = some w :=
    Option.ne_none_iff_exists'.mp (by simp [getHighestPrioWait])
  have hwmax := highestPrio_le hw
  have hwmem := highestPrio_mem hw
  simp only [State.block_prio, State.block_waitqueue, if_true] at hwmax hwmem
  -- in either branch, the owners and waiters of the other resources keep their priorities
  have hother : ∀ u : State nr, u.resources = (s.block c r).resources →
      (∀ x, x ≠ o → (u.procs x).prio = (s.procs x).prio) → ∀ r' o', r' ≠ r →
      (u.resources r').owner = some o' → ∀ p ∈ (u.resources r').waitqueue,
        (u.procs p).prio ≤ (u.procs o').prio := by
    intro u hu hpr r' o' e ho' p hp
    simp only [hu, State.block_owner, State.block_waitqueue, if_neg e] at ho' hp
    rw [hpr p fun e' => h.not_waiting r o ho (e' ▸ (s.mem_waiting).mpr ⟨r', hp⟩),
      hpr o' fun e' => e (h.unique r' r o' ho' (e' ▸ ho))]
    exact h.ge r' o' ho' p hp
  rw [pipInherit_eq hw (by simpa using ho)]
  split_ifs with hcw
  · -- inheritance: `o` takes the caller's priority, the greatest among the waiters of `r`
    obtain ⟨hu, hn⟩ := block_owners h hc r (u := (s.block c r).setPrio o _) rfl
    refine ⟨fun r' o' ho' p hp => ?_, hu, hn⟩
    by_cases e : r' = r
    · subst e
      obtain rfl : o = o' := by simpa [ho] using ho'
      have hpo : p ≠ o := fun e' => hn r' o ho' (e' ▸ (State.mem_waiting _).mpr ⟨r', hp⟩)
      simp only [State.setPrio_procs, if_pos rfl, if_neg hpo, State.block_prio] at hcw ⊢
      rw [hcw]
      exact hwmax p (by simpa using hp)
    · exact hother _ (by rfl) (fun x hx => by simp [hx]) r' o' e ho' p hp
  · -- no inheritance: the caller is below the greatest waiter, an old one, hence below `o`
    obtain ⟨hu, hn⟩ := block_owners h hc r (u := s.block c r) rfl
    refine ⟨fun r' o' ho' p hp => ?_, hu, hn⟩
    by_cases e : r' = r
    · subst e
      obtain rfl : o = o' := by simpa [ho] using ho'
      simp only [State.block_waitqueue, if_true, List.mem_append, List.mem_singleton] at hp
      simp only [State.block_prio] at hcw ⊢
      rcases hp with hp | rfl
      · exact h.ge r' o ho p hp
      · have hlt := lt_of_le_of_ne (hwmax p (by simp)) hcw
        rcases List.mem_append.mp hwmem with hw' | hw'
        · exact hlt.le.trans (h.ge r' o ho w hw')
        · exact absurd (List.mem_singleton.mp hw' ▸ rfl) hcw
    · exact hother _ rfl (fun x _ => s.block_prio c r x) r' o' e ho' p hp

/-- Waking a waiter of a resource that has no owner keeps the invariant. -/
theorem wake (h : InheritBound s) {w : Pid} {r : Fin nr} (hr : (s.resources r).owner = none) :
    InheritBound (s.wake w r) := by
  refine ⟨fun r' o ho p hp => ?_, fun r₁ r₂ o h₁ h₂ => ?_, fun r' o ho hm => ?_⟩
  · simp only [State.wake_owner] at ho
    have e : r' ≠ r := by
      rintro rfl
      simp [hr] at ho
    simp only [State.wake_waitqueue, if_neg e] at hp
    simp only [State.wake_prio]
    exact h.ge r' o ho p hp
  · simp only [State.wake_owner] at h₁ h₂
    exact h.unique r₁ r₂ o h₁ h₂
  · simp only [State.wake_owner] at ho
    exact h.not_waiting r' o ho (s.mem_waiting_wake hm)

/-- A release by the owner `c`, which waits for nothing, restores `c`, which then owns
nothing, gives `r` up and wakes a waiter or none. -/
theorem release (h : InheritBound s) {c : Pid} (hcw : c ∉ s.waiting) {r : Fin nr}
    (he : releaseWith getHighestPrioWait true c r s = some t) : InheritBound t := by
  obtain ⟨hown, ht⟩ := releaseWith_cases picksWaiter_getHighestPrioWait he
  have hr := (prioOnly_restorePrio true c s).resources
  have hu : InheritBound ((restorePrio true c s).setOwner r none) := by
    refine ⟨fun r' o ho p hp => ?_, fun r₁ r₂ o h₁ h₂ => ?_, fun r' o ho hm => ?_⟩
    · simp only [State.setOwner_owner, setOwner_waitqueue, hr] at ho hp
      split_ifs at ho with e
      have hoc : o ≠ c := fun e' => e (h.unique r' r o ho (e' ▸ hown))
      have hpc : p ≠ c := fun e' => hcw (e' ▸ (s.mem_waiting).mpr ⟨r', hp⟩)
      simp only [restorePrio, if_true, State.setOwner_procs, State.setPrio_procs, if_neg hoc,
        if_neg hpc]
      exact h.ge r' o ho p hp
    · simp only [State.setOwner_owner, hr] at h₁ h₂
      split_ifs at h₁ h₂
      exact h.unique r₁ r₂ o h₁ h₂
    · simp only [State.setOwner_owner, setOwner_waiting, hr] at ho hm
      split_ifs at ho
      exact h.not_waiting r' o ho (by simpa only [State.waiting, hr] using hm)
  rcases ht with rfl | ⟨w, -, -, rfl⟩
  · exact hu
  · exact hu.wake (by simp)

/-- Every move of the driver under PIP keeps the invariant, when a process calls acquire
only while it owns nothing and never barges past a waiter of higher priority. -/
theorem exec {maxPrio : Nat} {a : Action nr} (hP : Partition .pip s)
    (ha : OneAtATime s a ∧ NoBarging s a) (h : InheritBound s)
    (he : SchedSim.exec maxPrio .pip a s = some t) : InheritBound t := by
  cases a with
  | arrive p proc =>
    simp only [SchedSim.exec] at he
    split_ifs at he with hm
    cases he
    simp only [State.Mentions, not_or] at hm
    refine h.of_frame rfl fun q hq => ?_
    have hqp : q ≠ p := by
      rintro rfl
      rcases hq with hq | hq
      · exact hm.2.2 hq
      · exact hm.1 (List.mem_append_right _ hq)
    simp [hqp]
  | acquire r =>
    obtain ⟨c, hc, rfl⟩ := Option.map_eq_some'.mp he
    have hcur := (s.caller_eq_some).mp hc
    have hco : c ∉ s.owners := ha.1 c hcur.1
    show InheritBound (pipAcquire c r s).1
    unfold pipAcquire acquireWith
    split
    · exact h.setOwner hco ((hP.current c hcur.1).2 hcur.2) (ha.2 c hcur.1 ‹_›)
    · exact h.block hco ‹_›
  | release r =>
    obtain ⟨c, hc, he⟩ := Option.bind_eq_some.mp he
    have hcur := (s.caller_eq_some).mp hc
    exact h.release ((hP.current c hcur.1).2 hcur.2) he
  | schedule x =>
    obtain ⟨⟨u, n⟩, hr, rfl⟩ := Option.map_eq_some'.mp he
    have hp : u.procs = s.procs := prioFamilySchedule_procs _ hr
    exact h.of_frame (Policy.schedule_conserves maxPrio .pip hr).resources fun p _ => by
      simp only [hp]
  | tick =>
    obtain ⟨c, -, rfl⟩ := Option.map_eq_some'.mp he
    exact h.of_frame rfl fun p _ => s.age_prio c p

end InheritBound

theorem inheritBound_of_reachable {maxPrio : Nat} {s : State nr}
    (hs : Reachable maxPrio .pip (fun s a => OneAtATime s a ∧ NoBarging s a) s) :
    InheritBound s := by
  induction hs with
  | init => exact ⟨fun _ _ h => (by cases h), fun _ _ _ h => (by cases h), fun _ _ h => by cases h⟩
  | step hs ha he ih => exact ih.exec (partition_of_reachable hs) ha he

/-- **The inheritance bound of PIP, one resource at a time and without barging** (spec
§4.4): when a process calls acquire only while it owns no resource, and takes a free
resource only when none of its waiters has a higher priority, in every reachable state
every owner runs at least at the priority of each waiter of its resource. -/
theorem pip_owner_prio_ge_waiters {maxPrio : Nat} {s : State nr}
    (hs : Reachable maxPrio .pip (fun s a => OneAtATime s a ∧ NoBarging s a) s) {r : Fin nr}
    {o : Pid} (ho : (s.resources r).owner = some o) :
    ∀ p ∈ (s.resources r).waitqueue, (s.procs p).prio ≤ (s.procs o).prio :=
  (inheritBound_of_reachable hs).ge r o ho

/-- Process 1 runs at priority 1 and takes `r0`; processes 2 and 3 arrive at priority 2,
run in turn and block on it, and lift 1 to 2.  1 releases `r0`, which wakes 2, and 2 takes
`r0` again while 3 still waits. -/
theorem pip_owner_prio_ge_waiters_after_reacquire :
    ∃ s : State 1, Reachable 10 .pip (fun s a => OneAtATime s a ∧ NoBarging s a) s ∧
      (s.resources 0).owner = some 2 ∧ 3 ∈ (s.resources 0).waitqueue ∧
      (s.procs 3).prio ≤ (s.procs 2).prio := by
  obtain ⟨s, hs, ho, hw⟩ : ∃ s : State 1,
      Reachable 10 .pip (fun s a => OneAtATime s a ∧ NoBarging s a) s ∧
        (s.resources 0).owner = some 2 ∧ 3 ∈ (s.resources 0).waitqueue :=
    exists_reachable_of_run [.arrive 1 ⟨.ready, 0, 10, 1, 1⟩, .schedule 0, .acquire 0,
      .arrive 2 ⟨.ready, 0, 10, 2, 2⟩, .arrive 3 ⟨.ready, 0, 10, 2, 2⟩, .schedule 0,
      .acquire 0, .schedule 0, .acquire 0, .schedule 0, .release 0, .schedule 0, .acquire 0]
      (by decide)
  exact ⟨s, hs, ho, hw, pip_owner_prio_ge_waiters hs ho 3 hw⟩

/-- **The inheritance bound fails in two ways.**  Under PIP, an owner can run below a
waiter of its resource:

* nested ownership: process 2 takes `r0` and `r1`, parks on `pip_stack` when 3 arrives at
  priority 5, 3 blocks on `r0` and lifts 2 to 5; 2 runs again and releases `r1`, which
  restores its original priority 1 while 3 still waits on `r0`;
* barging: holding one resource at a time, 2 owns `r0` when 3 and 4 block on it at
  priorities 9 and 8; 2 releases `r0`, which wakes 3, and takes it again at priority 1 while
  4 still waits. -/
theorem pip_inheritance_bound_fails :
    (∃ s : State 2, Reachable 10 .pip (fun _ _ => True) s ∧ (s.resources 0).owner = some 2 ∧
      3 ∈ (s.resources 0).waitqueue ∧ (s.procs 2).prio < (s.procs 3).prio) ∧
    ∃ s : State 2, Reachable 10 .pip OneAtATime s ∧ (s.resources 0).owner = some 2 ∧
      4 ∈ (s.resources 0).waitqueue ∧ (s.procs 2).prio < (s.procs 4).prio :=
  ⟨exists_reachable_of_run [.arrive 1 ⟨.ready, 0, 10, 1, 1⟩, .arrive 2 ⟨.ready, 0, 10, 1, 1⟩,
      .schedule 0, .schedule 0, .acquire 0, .acquire 1, .arrive 3 ⟨.ready, 0, 10, 5, 5⟩,
      .schedule 0, .acquire 0, .schedule 0, .release 1] (by decide),
    exists_reachable_of_run [.arrive 1 ⟨.ready, 0, 10, 1, 1⟩, .arrive 2 ⟨.ready, 0, 10, 1, 1⟩,
      .schedule 0, .schedule 0, .acquire 0, .arrive 3 ⟨.ready, 0, 10, 9, 9⟩,
      .arrive 4 ⟨.ready, 0, 10, 8, 8⟩, .schedule 0, .acquire 0, .schedule 0, .acquire 0,
      .schedule 0, .release 0, .acquire 0] (by decide)⟩

/-- **`pip_acquire` lowers the owner.**  Process 2 runs at priority 3 and takes `r1`.
Process 1 arrives at priority 7, runs, takes `r0` and `r2`, and blocks on `r1`, which lifts
2 to 7; 2 runs and blocks on `r2`.  Process 3 arrives at priority 1 and runs.  When 3 calls
`pip_acquire` on `r0` it blocks as the only waiter, so it ties the greatest waiter, and
`r->owner->prio = current->prio` sets 1, at its original priority 7 until then, to 1. -/
theorem pip_acquire_lowers_owner :
    ∃ s : State 3, Reachable 10 .pip (fun _ _ => True) s ∧
      s.caller = some 3 ∧ (s.resources 0).owner = some 1 ∧
      (s.procs 1).prio = (s.procs 1).prioOrig ∧
      ((pipAcquire 3 0 s).1.procs 1).prio < (s.procs 1).prioOrig :=
  exists_reachable_of_run [.arrive 2 ⟨.ready, 0, 10, 3, 3⟩, .schedule 0, .acquire 1,
    .arrive 1 ⟨.ready, 0, 10, 7, 7⟩, .schedule 0, .acquire 0, .acquire 2, .acquire 1,
    .schedule 0, .acquire 2, .arrive 3 ⟨.ready, 0, 10, 1, 1⟩, .schedule 0] (by decide)

end SchedSim
