import Mathlib.Data.List.Perm.Basic
import Mathlib.Data.List.FinRange
import Mathlib.Data.List.Nodup

/-!
# The list primitives of the simulator

The scheduler links processes into intrusive doubly-linked lists (`list_head.h`, which is
not among the sources).  A list head is modelled by the list of what is linked into it,
head first: `list_add` is `p :: l`, `list_add_tail` is `l ++ [p]`, `list_del_init` of an
entry is `List.erase`, and `list_first_entry` is `List.head?`, with `none` for the
sentinel of an empty list.  Two loop shapes recur in `pa2.c`, and each is one definition
here: the scan that keeps the entry a comparison prefers (`get_highest_prio`,
`get_highest_prio_wait`, `get_shortest`), and the `list_for_each_entry_safe` loop that
unlinks every entry of a stack and links it onto the readyqueue.

## Main definitions

* `scanPick`: the scan loop, started from `list_first_entry`
* `moveAll`: the drain loop, with `list_add` or `list_add_tail`

## Main results

* `scanPick_mem`, `scanPick_eq_none`: the scan returns an entry, and nothing only on an
  empty list
* `scanPick_le`: when the comparison is `<` on a key, the pick has a maximal key
* `scanPick_firstBest`: the scan picks the first best entry (`IsFirstBest`)
* `moveAll_perm`, `moveAll_false`, `moveAll_true`: the drain loop moves the stack, in
  reverse with `list_add` and in order with `list_add_tail`
* `flatMap_update_perm`: replacing one list of a family changes their concatenation by
  exactly that list
-/

namespace SchedSim

open scoped List

variable {α : Type}

/-! ## The scan loop -/

section Scan

variable (better : α → α → Bool)

/-- One iteration of the scan: `if (better(tmp, pick)) pick = tmp`. -/
def scanStep (pick x : α) : α :=
  if better x pick then x else pick

/-- The scan of `get_highest_prio` and its siblings: start from `list_first_entry` and
replace the pick by every entry that `better` prefers to it. -/
def scanPick (l : List α) : Option α :=
  l.head?.map (l.foldl (scanStep better))

@[simp] theorem scanPick_nil : scanPick better ([] : List α) = none := rfl

theorem scanPick_cons (a : α) (l : List α) :
    scanPick better (a :: l) = some ((a :: l).foldl (scanStep better) a) := rfl

theorem foldl_scanStep_mem (l : List α) (a : α) :
    l.foldl (scanStep better) a = a ∨ l.foldl (scanStep better) a ∈ l := by
  induction l generalizing a with
  | nil => exact .inl rfl
  | cons x l ih =>
    rcases ih (scanStep better a x) with h | h
    · rw [List.foldl_cons, h]
      unfold scanStep
      split <;> simp
    · exact .inr (List.mem_cons_of_mem x h)

theorem scanPick_mem {l : List α} {p : α} (h : scanPick better l = some p) : p ∈ l := by
  cases l with
  | nil => cases h
  | cons a l =>
    rw [scanPick_cons, Option.some.injEq] at h
    subst h
    rcases foldl_scanStep_mem better (a :: l) a with h' | h'
    · rw [h']
      exact List.mem_cons_self a l
    · exact h'

@[simp] theorem scanPick_eq_none {l : List α} : scanPick better l = none ↔ l = [] := by
  cases l <;> simp [scanPick]

theorem scanPick_isSome {l : List α} (h : l ≠ []) : ∃ p, scanPick better l = some p := by
  cases l with
  | nil => exact absurd rfl h
  | cons a l => exact ⟨_, scanPick_cons better a l⟩

end Scan

section ScanMax

variable {β : Type} [LinearOrder β] (f : α → β)

theorem foldl_scanStep_le (l : List α) (a : α) :
    f a ≤ f (l.foldl (scanStep fun x y => decide (f y < f x)) a) ∧
      ∀ x ∈ l, f x ≤ f (l.foldl (scanStep fun x y => decide (f y < f x)) a) := by
  induction l generalizing a with
  | nil => simp
  | cons x l ih =>
    obtain ⟨h₁, h₂⟩ := ih (scanStep (fun x y => decide (f y < f x)) a x)
    have hstep : f a ≤ f (scanStep (fun x y => decide (f y < f x)) a x) ∧
        f x ≤ f (scanStep (fun x y => decide (f y < f x)) a x) := by
      unfold scanStep
      split <;> simp_all [le_of_lt]
    exact ⟨hstep.1.trans h₁, by simpa using ⟨hstep.2.trans h₁, h₂⟩⟩

/-- When the comparison is `<` on a key, the scan picks an entry of maximal key. -/
theorem scanPick_le {l : List α} {p : α}
    (h : scanPick (fun x y => decide (f y < f x)) l = some p) : ∀ x ∈ l, f x ≤ f p := by
  cases l with
  | nil => cases h
  | cons a l =>
    rw [scanPick_cons, Option.some.injEq] at h
    exact h ▸ (foldl_scanStep_le f (a :: l) a).2

end ScanMax

/-! ## The first best entry

What a scan computes, said without the loop: the pick splits the list into the entries
before it, each worse than the pick, and those after it, none better. -/

section FirstBest

variable (better : α → α → Prop)

/-- `p` is the first best entry of `l`, which it splits into `pre` and `post`: it beats
every entry of `pre` and no entry of `post` beats it. -/
def IsFirstBest (l pre : List α) (p : α) (post : List α) : Prop :=
  l = pre ++ p :: post ∧ (∀ q ∈ pre, better p q) ∧ ∀ q ∈ post, ¬better q p

variable {better} {l pre post : List α} {p : α}

theorem IsFirstBest.not_mem_pre (hasymm : ∀ x y, better x y → ¬better y x)
    (h : IsFirstBest better l pre p post) : p ∉ pre :=
  fun hp => hasymm p p (h.2.1 p hp) (h.2.1 p hp)

/-- Taking the first best entry out leaves the others in their order. -/
theorem IsFirstBest.erase [DecidableEq α] (hasymm : ∀ x y, better x y → ¬better y x)
    (h : IsFirstBest better l pre p post) : l.erase p = pre ++ post := by
  rw [h.1, List.erase_append_right _ (h.not_mem_pre hasymm), List.erase_cons_head]

/-- No entry of the list beats its first best entry. -/
theorem IsFirstBest.not_better (hasymm : ∀ x y, better x y → ¬better y x)
    (h : IsFirstBest better l pre p post) : ∀ q ∈ l, ¬better q p := by
  intro q hq
  rw [h.1, List.mem_append, List.mem_cons] at hq
  rcases hq with hq | rfl | hq
  · exact hasymm p q (h.2.1 q hq)
  · exact fun hp => hasymm q q hp hp
  · exact h.2.2 q hq

/-- Only the comparisons between entries of the list matter. -/
theorem IsFirstBest.congr {better' : α → α → Prop} (h : IsFirstBest better l pre p post)
    (hb : ∀ x ∈ l, ∀ y ∈ l, better x y ↔ better' x y) : IsFirstBest better' l pre p post := by
  have hp : p ∈ l := h.1 ▸ List.mem_append_right _ (List.mem_cons_self p post)
  refine ⟨h.1, fun q hq => ?_, fun q hq => ?_⟩
  · exact (hb p hp q (h.1 ▸ List.mem_append_left _ hq)).mp (h.2.1 q hq)
  · exact fun hq' => h.2.2 q hq
      ((hb q (h.1 ▸ List.mem_append_right _ (List.mem_cons_of_mem p hq)) p hp).mpr hq')

variable [DecidableRel better] (hasymm : ∀ x y, better x y → ¬better y x)
  (hcomp : ∀ x y z, better x y → ¬better z y → better x z)
include hasymm hcomp

/-- One iteration of the scan keeps its pick the first best entry of what it has seen. -/
theorem IsFirstBest.scanStep (h : IsFirstBest better l pre p post) (x : α) :
    ∃ pre' post', IsFirstBest better (l ++ [x]) pre'
      (scanStep (fun a b => decide (better a b)) p x) post' := by
  unfold SchedSim.scanStep
  by_cases hx : better x p
  · refine ⟨l, [], ?_⟩
    rw [if_pos (decide_eq_true hx)]
    exact ⟨rfl, fun q hq => hcomp x p q hx (h.not_better hasymm q hq), by simp⟩
  · refine ⟨pre, post ++ [x], ?_⟩
    rw [if_neg fun h' => hx (of_decide_eq_true h')]
    refine ⟨by simp [h.1], h.2.1, fun q hq => ?_⟩
    rcases List.mem_append.mp hq with hq | hq
    · exact h.2.2 q hq
    · rw [List.mem_singleton.mp hq]
      exact hx

theorem foldl_scanStep_firstBest (m : List α) :
    ∀ {l : List α} {p : α}, (∃ pre post, IsFirstBest better l pre p post) →
      ∃ pre post, IsFirstBest better (l ++ m) pre
        (m.foldl (scanStep fun a b => decide (better a b)) p) post := by
  induction m with
  | nil =>
    intro l p h
    simpa using h
  | cons x m ih =>
    rintro l p ⟨pre, post, h⟩
    simpa using ih (h.scanStep hasymm hcomp x)

/-- **The scan picks the first best entry**, for a comparison that is a strict order on
keys, as in `get_highest_prio`, `get_highest_prio_wait`, `get_shortest` and the loop of
`sjf_schedule`. -/
theorem scanPick_firstBest (h : scanPick (fun a b => decide (better a b)) l = some p) :
    ∃ pre post, IsFirstBest better l pre p post := by
  cases l with
  | nil => cases h
  | cons a l =>
    rw [scanPick_cons, Option.some.injEq, List.foldl_cons] at h
    have ha : scanStep (fun a b => decide (better a b)) a a = a := by
      simp [scanStep, fun hp => hasymm a a hp hp]
    rw [ha] at h
    subst h
    exact foldl_scanStep_firstBest hasymm hcomp l (l := [a]) ⟨[], [], by simp [IsFirstBest]⟩

omit hasymm hcomp in
/-- The scan with `<` on a key picks the first entry of least key. -/
theorem scanPick_firstLeast {β : Type} [LinearOrder β] (f : α → β)
    (h : scanPick (fun a b => decide (f a < f b)) l = some p) :
    ∃ pre post, IsFirstBest (fun a b => f a < f b) l pre p post :=
  scanPick_firstBest (fun _ _ => lt_asymm) (fun _ _ _ h h' => lt_of_lt_of_le h (not_lt.mp h')) h

omit hasymm hcomp in
/-- The scan with `>` on a key picks the first entry of greatest key. -/
theorem scanPick_firstGreatest {β : Type} [LinearOrder β] (f : α → β)
    (h : scanPick (fun a b => decide (f a > f b)) l = some p) :
    ∃ pre post, IsFirstBest (fun a b => f a > f b) l pre p post :=
  scanPick_firstBest (fun _ _ => lt_asymm) (fun _ _ _ h h' => lt_of_le_of_lt (not_lt.mp h') h) h

end FirstBest

/-! ## The drain loop -/

/-- The `list_for_each_entry_safe` loop moving every entry of a stack onto the readyqueue,
by `list_add` (`atTail = false`) or by `list_add_tail` (`atTail = true`). -/
def moveAll (atTail : Bool) : List α → List α → List α
  | [], rq => rq
  | p :: ps, rq => moveAll atTail ps (if atTail then rq ++ [p] else p :: rq)

@[simp] theorem moveAll_false (ps rq : List α) : moveAll false ps rq = ps.reverse ++ rq := by
  induction ps generalizing rq with
  | nil => rfl
  | cons p ps ih => simp [moveAll, ih]

@[simp] theorem moveAll_true (ps rq : List α) : moveAll true ps rq = rq ++ ps := by
  induction ps generalizing rq with
  | nil => simp [moveAll]
  | cons p ps ih => simp [moveAll, ih]

@[simp] theorem moveAll_eq_nil {b : Bool} {ps rq : List α} :
    moveAll b ps rq = [] ↔ ps = [] ∧ rq = [] := by
  cases b <;> simp [and_comm]

theorem moveAll_perm (atTail : Bool) (ps rq : List α) : moveAll atTail ps rq ~ ps ++ rq := by
  cases atTail
  · exact (moveAll_false ps rq).symm ▸ (List.reverse_perm ps).append_right rq
  · exact (moveAll_true ps rq).symm ▸ List.perm_append_comm

/-! ## Families of lists -/

/-- Replacing the list at one index of a family changes the concatenation of the family
by that list. -/
theorem flatMap_update_perm [DecidableEq α] {ι : Type} [DecidableEq ι] (f : ι → List α)
    {l : List ι}
    (hl : l.Nodup) {i : ι} (hi : i ∈ l) (x : List α) :
    l.flatMap (Function.update f i x) ++ f i ~ l.flatMap f ++ x := by
  induction l with
  | nil => cases hi
  | cons j l ih =>
    rw [List.nodup_cons] at hl
    simp only [List.flatMap_cons, List.append_assoc]
    by_cases hij : i = j
    · subst hij
      have hrest : l.flatMap (Function.update f i x) = l.flatMap f :=
        List.flatMap_congr fun k hk => Function.update_noteq (by rintro rfl; exact hl.1 hk) _ _
      rw [Function.update_same, hrest, List.perm_iff_count]
      intro a
      simp only [List.count_append]
      omega
    · rw [Function.update_noteq (Ne.symm hij)]
      exact (ih hl.2 (by simpa [hij] using hi)).append_left (f j)

end SchedSim
