/-
**Reserving several lanes at once.**

A job asks, at some time, for a set of lanes and holds all of them for one interval.  It is served
greedily: it starts as soon as it has been asked for and every lane of it is free.  This module
knows nothing of what the lanes are; the times are those of any ordered abelian group.

The state is one clock for each lane, which is moved to the end of the job.  What the clocks say
about the past is `LaneSchedule.Remembers`: they are after every job that held the lane, and they
are no later than the last of them makes them.

Main definitions:

* `LaneSchedule.Job`, `LaneSchedule.Slot` — a job, and a job with the time it starts;
* `LaneSchedule.reserve` — the clocks after a job;
* `LaneSchedule.serve` — the slots a list of jobs gets;
* `LaneSchedule.Remembers` — the clocks are those left by a list of slots.

Main results:

* `LaneSchedule.serve_pairwise` — **exclusive and in order**: of two jobs that share a lane the
  earlier one ends before the later one starts;
* `LaneSchedule.start_isLeast` — **work-conserving**: no earlier start is possible;
* `LaneSchedule.serve_swap` — jobs that share no lane commute.
-/

import Mathlib.Algebra.Order.Group.Defs
import Mathlib.Order.Bounds.Basic
import Mathlib.Data.List.Basic
import Mathlib.Tactic.Common

set_option relaxedAutoImplicit false
set_option autoImplicit false

namespace LaneSchedule

variable {ι τ : Type}

/-- A job: the lanes it holds, the time it is asked for, and how long it takes. -/
structure Job (ι τ : Type) where
  lanes : List ι
  now : τ
  cost : τ

/-- A job and the time it starts. -/
structure Slot (ι τ : Type) where
  job : Job ι τ
  start : τ

variable [LinearOrder τ]

/-- The end of a slot. -/
def Slot.finish [Add τ] (x : Slot ι τ) : τ := x.start + x.job.cost

/-- The two jobs have a lane in common. -/
def Job.Shares (a b : Job ι τ) : Prop := ∃ i, i ∈ a.lanes ∧ i ∈ b.lanes

/-- A job starts when it is asked for or when the last of its lanes is free. -/
def startTime (free : ι → τ) (j : Job ι τ) : τ := (j.lanes.map free).foldl max j.now

/-- The clocks after a job: its lanes are free at its end. -/
def reserve [DecidableEq ι] [Add τ] (free : ι → τ) (j : Job ι τ) : ι → τ := fun i =>
  if i ∈ j.lanes then startTime free j + j.cost else free i

/-- The slots a list of jobs gets, in the order in which they are asked for. -/
def serve [DecidableEq ι] [Add τ] (free : ι → τ) : List (Job ι τ) → List (Slot ι τ)
  | [] => []
  | j :: js => ⟨j, startTime free j⟩ :: serve (reserve free j) js

/-! ### One job -/

theorem foldl_max_le_iff {xs : List τ} {b t : τ} :
    xs.foldl max b ≤ t ↔ b ≤ t ∧ ∀ x ∈ xs, x ≤ t := by
  induction xs generalizing b with
  | nil => simp
  | cons x xs ih =>
      rw [List.foldl_cons, ih, max_le_iff, and_assoc, List.forall_mem_cons]

/-- A job starts by `t` if it is asked for by `t` and its lanes are free by `t`. -/
theorem startTime_le_iff {free : ι → τ} {j : Job ι τ} {t : τ} :
    startTime free j ≤ t ↔ j.now ≤ t ∧ ∀ i ∈ j.lanes, free i ≤ t := by
  rw [startTime, foldl_max_le_iff, List.forall_mem_map]

theorem now_le_startTime (free : ι → τ) (j : Job ι τ) : j.now ≤ startTime free j :=
  (startTime_le_iff.1 (le_refl _)).1

theorem free_le_startTime {free : ι → τ} {j : Job ι τ} {i : ι} (hi : i ∈ j.lanes) :
    free i ≤ startTime free j :=
  (startTime_le_iff.1 (le_refl _)).2 i hi

/-- Only the clocks of its lanes decide when a job starts. -/
theorem startTime_congr {free free' : ι → τ} {j : Job ι τ}
    (h : ∀ i ∈ j.lanes, free' i = free i) : startTime free' j = startTime free j := by
  unfold startTime
  rw [List.map_congr_left h]

variable [AddCommGroup τ]

/-! ### What the clocks remember -/

/-- The clocks are those that the slots `H` left behind, from clocks at `base`. -/
structure Remembers (base : τ) (free : ι → τ) (H : List (Slot ι τ)) : Prop where
  finish_le : ∀ x ∈ H, ∀ i ∈ x.job.lanes, x.finish ≤ free i
  of_base : ∀ i, free i = base ∨ ∃ x ∈ H, i ∈ x.job.lanes ∧ free i = x.finish

theorem remembers_nil (base : τ) : Remembers base (fun _ : ι => base) [] :=
  ⟨by simp, fun _ => Or.inl rfl⟩

/-- **The greedy start is the least possible one**: no earlier than the request, and after every
slot that shares a lane. -/
theorem Remembers.start_isLeast {base : τ} {free : ι → τ} {H : List (Slot ι τ)} {j : Job ι τ}
    (h : Remembers base free H) (hb : base ≤ j.now) :
    IsLeast {t | j.now ≤ t ∧ ∀ x ∈ H, x.job.Shares j → x.finish ≤ t} (startTime free j) := by
  refine ⟨⟨now_le_startTime free j, ?_⟩, ?_⟩
  · rintro x hx ⟨i, hxi, hji⟩
    exact (h.finish_le x hx i hxi).trans (free_le_startTime hji)
  · rintro t ⟨hnow, hshares⟩
    refine startTime_le_iff.2 ⟨hnow, fun i hi => ?_⟩
    rcases h.of_base i with hbase | ⟨x, hx, hxi, hf⟩
    · rw [hbase]
      exact hb.trans hnow
    · rw [hf]
      exact hshares x hx ⟨i, hxi, hi⟩

/-! ### Lists of jobs -/

variable [DecidableEq ι]

theorem reserve_of_notMem {free : ι → τ} {j : Job ι τ} {i : ι} (hi : i ∉ j.lanes) :
    reserve free j i = free i :=
  if_neg hi

theorem reserve_of_mem {free : ι → τ} {j : Job ι τ} {i : ι} (hi : i ∈ j.lanes) :
    reserve free j i = startTime free j + j.cost :=
  if_pos hi

/-! ### Jobs that share no lane -/

/-- A job that shares no lane does not change the start of the next one. -/
theorem startTime_reserve {free : ι → τ} {a b : Job ι τ} (h : ¬ a.Shares b) :
    startTime (reserve free a) b = startTime free b := by
  refine startTime_congr fun i hi => reserve_of_notMem fun ha => h ⟨i, ha, hi⟩

theorem reserve_comm (free : ι → τ) {a b : Job ι τ} (h : ¬ a.Shares b) :
    reserve (reserve free a) b = reserve (reserve free b) a := by
  have h' : ¬ b.Shares a := fun ⟨i, hb, ha⟩ => h ⟨i, ha, hb⟩
  funext i
  by_cases ha : i ∈ a.lanes
  · have hb : i ∉ b.lanes := fun hb => h ⟨i, ha, hb⟩
    rw [reserve_of_notMem hb, reserve_of_mem ha, reserve_of_mem ha, startTime_reserve h']
  · by_cases hb : i ∈ b.lanes
    · rw [reserve_of_mem hb, reserve_of_notMem ha, reserve_of_mem hb, startTime_reserve h]
    · rw [reserve_of_notMem hb, reserve_of_notMem ha, reserve_of_notMem ha, reserve_of_notMem hb]

/-- **Jobs that share no lane commute**: both get their slots all the same, and so do all other
jobs. -/
theorem serve_swap {a b : Job ι τ} (h : ¬ a.Shares b) (post pre : List (Job ι τ)) :
    ∀ free : ι → τ, ∃ before x y later, before.length = pre.length ∧
      serve free (pre ++ a :: b :: post) = before ++ x :: y :: later ∧
      serve free (pre ++ b :: a :: post) = before ++ y :: x :: later := by
  have h' : ¬ b.Shares a := fun ⟨i, hb, ha⟩ => h ⟨i, ha, hb⟩
  induction pre with
  | nil =>
      intro free
      refine ⟨[], ⟨a, startTime free a⟩, ⟨b, startTime free b⟩,
        serve (reserve (reserve free a) b) post, rfl, ?_, ?_⟩
      · rw [List.nil_append, List.nil_append, serve, serve, startTime_reserve h]
      · rw [List.nil_append, List.nil_append, serve, serve, startTime_reserve h',
          reserve_comm free h]
  | cons j pre ih =>
      intro free
      obtain ⟨before, x, y, later, hlen, hab, hba⟩ := ih (reserve free j)
      refine ⟨⟨j, startTime free j⟩ :: before, x, y, later, congrArg (· + 1) hlen, ?_, ?_⟩
      · rw [List.cons_append, serve, hab, List.cons_append]
      · rw [List.cons_append, serve, hba, List.cons_append]

/-! ### The slots of a run -/

variable [IsOrderedAddMonoid τ]

/-- One job: the clocks remember it too. -/
theorem Remembers.reserve {base : τ} {free : ι → τ} {H : List (Slot ι τ)} {j : Job ι τ}
    (h : Remembers base free H) (hc : 0 ≤ j.cost) :
    Remembers base (reserve free j) (H ++ [⟨j, startTime free j⟩]) := by
  have hle : ∀ i, free i ≤ LaneSchedule.reserve free j i := by
    intro i
    by_cases hi : i ∈ j.lanes
    · rw [reserve_of_mem hi]
      exact (free_le_startTime hi).trans (le_add_of_nonneg_right hc)
    · rw [reserve_of_notMem hi]
  refine ⟨?_, ?_⟩
  · intro x hx i hi
    rcases List.mem_append.1 hx with hx | hx
    · exact (h.finish_le x hx i hi).trans (hle i)
    · rw [List.mem_singleton.1 hx] at hi ⊢
      rw [reserve_of_mem hi]
      exact le_refl _
  · intro i
    by_cases hi : i ∈ j.lanes
    · exact Or.inr ⟨_, List.mem_append_right _ (List.mem_singleton_self _), hi, reserve_of_mem hi⟩
    · rw [reserve_of_notMem hi]
      rcases h.of_base i with hb | ⟨x, hx, hxi, hf⟩
      · exact Or.inl hb
      · exact Or.inr ⟨x, List.mem_append_left _ hx, hxi, hf⟩

/-- Every slot of a run starts at the least possible time, given the slots before it. -/
theorem start_isLeast {base : τ} {js : List (Job ι τ)} (hnow : ∀ j ∈ js, base ≤ j.now)
    (hcost : ∀ j ∈ js, 0 ≤ j.cost) : ∀ {free : ι → τ} {H : List (Slot ι τ)},
    Remembers base free H → ∀ {before : List (Slot ι τ)} {x : Slot ι τ} {after : List (Slot ι τ)},
    serve free js = before ++ x :: after →
    IsLeast {t | x.job.now ≤ t ∧ ∀ y ∈ H ++ before, y.job.Shares x.job → y.finish ≤ t} x.start := by
  induction js with
  | nil =>
      intro free H _ before x after hs
      simp [serve] at hs
  | cons j js ih =>
      intro free H h before x after hs
      obtain ⟨hnj, hnjs⟩ := List.forall_mem_cons.1 hnow
      obtain ⟨hcj, hcjs⟩ := List.forall_mem_cons.1 hcost
      cases before with
      | nil =>
          rw [serve, List.nil_append, List.cons.injEq] at hs
          rw [← hs.1, List.append_nil]
          exact h.start_isLeast hnj
      | cons y before =>
          rw [serve, List.cons_append, List.cons.injEq] at hs
          have hx := ih hnjs hcjs (h.reserve hcj) hs.2
          rwa [hs.1, List.append_assoc] at hx

/-- Of two slots that share a lane, the earlier one ends before the later one starts. -/
theorem serve_pairwise {base : τ} {js : List (Job ι τ)} (hnow : ∀ j ∈ js, base ≤ j.now)
    (hcost : ∀ j ∈ js, 0 ≤ j.cost) :
    (serve (fun _ => base) js).Pairwise fun x y => x.job.Shares y.job → x.finish ≤ y.start := by
  rw [List.pairwise_iff_getElem]
  intro i j hi hj hij hshares
  have hsplit := (List.take_append_drop j (serve (fun _ => base) js)).symm
  rw [List.drop_eq_getElem_cons hj] at hsplit
  refine (start_isLeast hnow hcost (remembers_nil base) hsplit).1.2 _ ?_ hshares
  exact List.mem_take_iff_getElem.2 ⟨i, by omega, rfl⟩

end LaneSchedule
