import SchedSim.Driver

/-!
# What SJF and STCF select

`sjf_schedule` and `stcf_schedule` pick from the readyqueue with a scan that keeps the
first entry of least key, the lifespan for SJF and `remain_time` for STCF.  Said without
the loop, the pick is the first best entry (`IsFirstBest`): every entry before it has a
greater key and none after it a smaller one, and taking it out leaves the others in their
order.

SJF lets a current process that may continue run on.  STCF does not keep it outright: it
compares `get_shortest()`, a scan of the readyqueue alone, with `current`, which is never
in the readyqueue, so the test always fails and the current process is put back at the
readyqueue's head and the scan is made again.  Being first in the scan, it wins every tie,
so it is returned exactly when no ready process has strictly less time to go.

## Main results

* `sjf_schedule_selects`: SJF keeps a current process that may continue, and otherwise
  takes the first ready process of least lifespan
* `stcf_schedule_selects`: STCF keeps the current process unless a ready one has strictly
  less time to go, and then takes the first ready process of least `remain_time`
-/

namespace SchedSim

variable {nr : Nat}

/-- A scan for the least key over a non-empty readyqueue picks its first entry of least
key, and taking the pick out leaves the others in their order. -/
theorem takeReady_scanPick_firstLeast {β : Type} [LinearOrder β] (f : Pid → β) {s : State nr}
    (hrq : s.readyqueue ≠ []) :
    ∃ pre p post, IsFirstBest (fun x y => f x < f y) s.readyqueue pre p post ∧
      takeReady s (scanPick (fun x y => decide (f x < f y)) s.readyqueue) =
        ({ s with readyqueue := pre ++ post }, some p) := by
  obtain ⟨p, hp⟩ := scanPick_isSome (fun x y => decide (f x < f y)) hrq
  obtain ⟨pre, post, hb⟩ := scanPick_firstLeast f hp
  exact ⟨pre, p, post, hb, by simp only [hp, takeReady, State.delReady, hb.erase fun _ _ => lt_asymm]⟩

/-! ## SJF -/

/-- **SJF selection** (spec §4.5): a current process that may continue goes on running and
the readyqueue is left alone; otherwise an empty readyqueue gives NULL, and a non-empty one
gives its first process of least lifespan, which is taken out while the others keep their
order. -/
theorem sjf_schedule_selects (s : State nr) :
    (∀ c, s.continuing = some c → sjfSchedule s = (s, some c)) ∧
      (s.continuing = none → s.readyqueue = [] → sjfSchedule s = (s, none)) ∧
      (s.continuing = none → s.readyqueue ≠ [] → ∃ pre p post,
        IsFirstBest (fun x y => (s.procs x).lifespan < (s.procs y).lifespan)
          s.readyqueue pre p post ∧
        sjfSchedule s = ({ s with readyqueue := pre ++ post }, some p)) := by
  refine ⟨fun c hc => by simp [sjfSchedule, hc], fun hc hrq => ?_, fun hc hrq => ?_⟩
  · simp [sjfSchedule, hc, hrq, takeReady]
  · rw [sjfSchedule, hc, foldl_sjfStep_eq_scanPick]
    exact takeReady_scanPick_firstLeast (fun x => (s.procs x).lifespan) hrq

/-! ## STCF -/

/-- The scan of `get_shortest`, over a list headed by `c`: `c` is picked when no entry
after it has strictly less time to go, and otherwise the first such entry of least time
is picked from the rest. -/
theorem getShortest_addReady (s : State nr) (c : Pid) :
    ((∀ q ∈ s.readyqueue, remainTime (s.procs c) ≤ remainTime (s.procs q)) →
      getShortest (s.addReady c) = some c) ∧
    ((∃ q ∈ s.readyqueue, remainTime (s.procs q) < remainTime (s.procs c)) →
      ∃ pre p post, IsFirstBest (fun x y => remainTime (s.procs x) < remainTime (s.procs y))
        s.readyqueue pre p post ∧ p ≠ c ∧ getShortest (s.addReady c) = some p) := by
  obtain ⟨p, hp⟩ := scanPick_isSome
    (fun x y => decide (remainTime (s.procs x) < remainTime (s.procs y)))
    (List.cons_ne_nil c s.readyqueue)
  obtain ⟨pre, post, hb⟩ := scanPick_firstLeast (fun x => remainTime (s.procs x)) hp
  have hget : getShortest (s.addReady c) = some p := hp
  rw [hget]
  obtain ⟨he, hpre, hpost⟩ := hb
  cases pre with
  | nil =>
    -- `c` heads the list, so it is the pick, and nothing after it is strictly shorter
    obtain ⟨rfl, rfl⟩ := List.cons_eq_cons.mp he
    exact ⟨fun _ => rfl, fun ⟨q, hq, hlt⟩ => absurd hlt (hpost q hq)⟩
  | cons c' pre =>
    -- the pick is past `c`, which it beats
    obtain ⟨rfl, hrq⟩ := List.cons_eq_cons.mp he
    have hpc : remainTime (s.procs p) < remainTime (s.procs c) := hpre c (.head _)
    refine ⟨fun hle => absurd (hle p (by simp [hrq])) (not_le.mpr hpc), fun _ => ?_⟩
    exact ⟨pre, p, post, ⟨hrq, fun q hq => hpre q (.tail _ hq), hpost⟩,
      fun e => lt_irrefl _ (e ▸ hpc), rfl⟩

/-- **STCF selection** (spec §4.5): when the current process may continue and is in no
readyqueue position, it is returned while no ready process has strictly less time to go;
otherwise it is put back at the readyqueue's head and the first ready process of least
`remain_time` is taken out and returned.  When the current process may not continue, an
empty readyqueue gives NULL and a non-empty one its first process of least `remain_time`,
taken out while the others keep their order. -/
theorem stcf_schedule_selects (s : State nr)
    (hcur : ∀ c, s.current = some c → c ∉ s.readyqueue) :
    (∀ c, s.continuing = some c →
        (∀ q ∈ s.readyqueue, remainTime (s.procs c) ≤ remainTime (s.procs q)) →
        stcfSchedule s = (s, some c)) ∧
      (∀ c, s.continuing = some c →
        (∃ q ∈ s.readyqueue, remainTime (s.procs q) < remainTime (s.procs c)) →
        ∃ pre p post,
          IsFirstBest (fun x y => remainTime (s.procs x) < remainTime (s.procs y))
            s.readyqueue pre p post ∧
          stcfSchedule s = ({ s with readyqueue := c :: (pre ++ post) }, some p)) ∧
      (s.continuing = none → s.readyqueue = [] → stcfSchedule s = (s, none)) ∧
      (s.continuing = none → s.readyqueue ≠ [] → ∃ pre p post,
        IsFirstBest (fun x y => remainTime (s.procs x) < remainTime (s.procs y))
          s.readyqueue pre p post ∧
        stcfSchedule s = ({ s with readyqueue := pre ++ post }, some p)) := by
  -- `get_shortest()` never returns `current`, which is not in the readyqueue
  have hne : ∀ c, s.continuing = some c → getShortest s ≠ some c := fun c hc h =>
    hcur c ((s.continuing_eq_some).mp hc).1 (scanPick_mem _ h)
  refine ⟨fun c hc hle => ?_, fun c hc hlt => ?_, fun hc hrq => ?_, fun hc hrq => ?_⟩
  · rw [stcfSchedule, hc]
    dsimp only
    rw [if_pos (hne c hc), (getShortest_addReady s c).1 hle]
    simp [takeReady, State.delReady, State.addReady]
  · obtain ⟨pre, p, post, hb, hpc, hget⟩ := (getShortest_addReady s c).2 hlt
    refine ⟨pre, p, post, hb, ?_⟩
    rw [stcfSchedule, hc]
    dsimp only
    rw [if_pos (hne c hc), hget]
    simp only [takeReady, State.delReady, State.addReady,
      List.erase_cons_tail (by simpa using Ne.symm hpc : ¬(c == p)), hb.erase fun _ _ => lt_asymm]
  · simp [stcfSchedule, hc, getShortest, hrq, takeReady]
  · rw [stcfSchedule, hc]
    exact takeReady_scanPick_firstLeast (fun x => remainTime (s.procs x)) hrq

/-- Under `stcf_scheduler`, processes of lifespans 5 and 2 arrive and the shorter runs;
then a third of lifespan 1 arrives. -/
theorem stcf_schedule_selects_of_three :
    ∃ s, run 0 .stcf (fun _ _ => True)
        [.arrive 1 ⟨.ready, 0, 5, 1, 1⟩, .arrive 2 ⟨.ready, 0, 2, 1, 1⟩, .schedule 0,
          .arrive 3 ⟨.ready, 0, 1, 1, 1⟩] (State.init : State 1) = some s ∧
      (∀ c, s.current = some c → c ∉ s.readyqueue) ∧
      (∀ c, s.continuing = some c →
          (∀ q ∈ s.readyqueue, remainTime (s.procs c) ≤ remainTime (s.procs q)) →
          stcfSchedule s = (s, some c)) ∧
        (∀ c, s.continuing = some c →
          (∃ q ∈ s.readyqueue, remainTime (s.procs q) < remainTime (s.procs c)) →
          ∃ pre p post,
            IsFirstBest (fun x y => remainTime (s.procs x) < remainTime (s.procs y))
              s.readyqueue pre p post ∧
            stcfSchedule s = ({ s with readyqueue := c :: (pre ++ post) }, some p)) ∧
        (s.continuing = none → s.readyqueue = [] → stcfSchedule s = (s, none)) ∧
        (s.continuing = none → s.readyqueue ≠ [] → ∃ pre p post,
          IsFirstBest (fun x y => remainTime (s.procs x) < remainTime (s.procs y))
            s.readyqueue pre p post ∧
          stcfSchedule s = ({ s with readyqueue := pre ++ post }, some p)) := by
  refine ⟨_, rfl, fun c hc => ?_, stcf_schedule_selects _ fun c hc => ?_⟩
  all_goals
    obtain rfl : c = 2 := Option.some.inj hc.symm
    decide

/-- From that state STCF preempts 2 for 3, and puts 2 back at the readyqueue's head. -/
example : (run 0 .stcf (fun _ _ => True)
      [.arrive 1 ⟨.ready, 0, 5, 1, 1⟩, .arrive 2 ⟨.ready, 0, 2, 1, 1⟩, .schedule 0,
        .arrive 3 ⟨.ready, 0, 1, 1, 1⟩] (State.init : State 1)).map
      (fun s => ((stcfSchedule s).2, (stcfSchedule s).1.readyqueue)) = some (some 3, [2, 1]) := by
  decide

end SchedSim
