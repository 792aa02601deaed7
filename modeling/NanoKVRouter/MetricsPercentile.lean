/-
**The reported percentile and the data.**

The 99th percentile of the collector is a point on the line through two neighbours of the sorted
samples.  Which ones, and where on the line, follows from the number of samples alone.  From 99
samples on it lies between its neighbours.  Below that the neighbours are the two greatest samples,
and the point lies beyond the greatest, unless the two are equal.

Main definitions:

* `Statistics.WithinData` — a value between the least and the greatest sample;
* `Statistics.GreatestTwice` — the greatest sample occurs at least twice.

Main results:

* `Statistics.quantile99_eq_of_few` — the percentile of few samples lies beyond the greatest;
* `Statistics.p99_withinData_iff` — **the percentile is within the data exactly for one sample, for
  99 and more, and where the greatest sample occurs twice**.
-/

import NanoKVRouter.MetricsCollector
import Mathlib.Algebra.Order.Field.Basic
import Mathlib.Data.List.GetD
import Mathlib.Data.List.NodupEquivFin
import Mathlib.Tactic.Linarith
import Mathlib.Tactic.Ring

set_option relaxedAutoImplicit false
set_option autoImplicit false

namespace NanoKVRouter

namespace Statistics

/-- The value is between the least and the greatest sample. -/
def WithinData (data : List ℚ) (v : ℚ) : Prop := (∃ a ∈ data, a ≤ v) ∧ ∃ b ∈ data, v ≤ b

/-- The greatest sample occurs at least twice. -/
def GreatestTwice (data : List ℚ) : Prop := ∃ x, (∀ y ∈ data, y ≤ x) ∧ 2 ≤ data.count x

/-! ### Sorted samples -/

section Sorted

variable {data : List ℚ}

/-- The `i`-th of the sorted samples. -/
def ranked (data : List ℚ) (i : ℕ) : ℚ := (data.insertionSort (· ≤ ·)).getD i 0

theorem ranked_mem {i : ℕ} (hi : i < data.length) : ranked data i ∈ data := by
  have hlt : i < (data.insertionSort (· ≤ ·)).length := by rwa [List.length_insertionSort]
  rw [ranked, List.getD_eq_getElem _ _ hlt]
  exact (List.mem_insertionSort _).1 (List.getElem_mem hlt)

theorem ranked_le {i j : ℕ} (hij : i ≤ j) (hj : j < data.length) : ranked data i ≤ ranked data j := by
  have hlt : j < (data.insertionSort (· ≤ ·)).length := by rwa [List.length_insertionSort]
  rw [ranked, ranked, List.getD_eq_getElem _ _ (hij.trans_lt hlt), List.getD_eq_getElem _ _ hlt]
  rcases hij.lt_or_eq with hij | rfl
  · exact List.pairwise_iff_getElem.1 (List.pairwise_insertionSort _ data) i j _ _ hij
  · exact le_refl _

/-- Every sample has a rank. -/
theorem exists_ranked {x : ℚ} (hx : x ∈ data) : ∃ i < data.length, ranked data i = x := by
  obtain ⟨i, hi, rfl⟩ := List.getElem_of_mem ((List.mem_insertionSort (· ≤ ·)).2 hx)
  have hlt : i < data.length := by rwa [List.length_insertionSort] at hi
  exact ⟨i, hlt, List.getD_eq_getElem _ _ hi⟩

/-- No sample is greater than the last of the sorted samples. -/
theorem le_ranked_last {x : ℚ} (hx : x ∈ data) : x ≤ ranked data (data.length - 1) := by
  obtain ⟨i, hi, rfl⟩ := exists_ranked hx
  exact ranked_le (by omega) (by omega)

/-- The greatest sample occurs twice exactly if the last two of the sorted samples are equal. -/
theorem greatestTwice_iff (h : 2 ≤ data.length) :
    GreatestTwice data ↔ ranked data (data.length - 1) ≤ ranked data (data.length - 2) := by
  have hlen : (data.insertionSort (· ≤ ·)).length = data.length := List.length_insertionSort _ _
  have hcount : ∀ x, data.count x = (data.insertionSort (· ≤ ·)).count x := fun x =>
    (List.perm_insertionSort _ data).count_eq x |>.symm
  constructor
  · rintro ⟨x, hgreatest, htwice⟩
    rw [hcount, ← List.duplicate_iff_two_le_count,
      List.duplicate_iff_exists_distinct_get] at htwice
    obtain ⟨⟨i, hi⟩, ⟨j, hj⟩, hij, hxi, -⟩ := htwice
    have hij : i < j := hij
    have hrank : ranked data i = x := (List.getD_eq_getElem _ _ hi).trans hxi.symm
    calc ranked data (data.length - 1) ≤ x := hgreatest _ (ranked_mem (by omega))
      _ = ranked data i := hrank.symm
      _ ≤ ranked data (data.length - 2) := ranked_le (by omega) (by omega)
  · intro hle
    refine ⟨ranked data (data.length - 1), fun y hy => le_ranked_last hy, ?_⟩
    rw [hcount, ← List.duplicate_iff_two_le_count, List.duplicate_iff_exists_distinct_get]
    refine ⟨⟨data.length - 2, by omega⟩, ⟨data.length - 1, by omega⟩, ?_, ?_, ?_⟩
    · change data.length - 2 < data.length - 1
      omega
    · exact (le_antisymm hle (ranked_le (by omega) (by omega))).trans
        (List.getD_eq_getElem _ _ _)
    · exact List.getD_eq_getElem _ _ _

end Sorted

/-! ### The percentile -/

section Percentile

variable {data : List ℚ}

/-- The percentile is a point on the line through two neighbours. -/
theorem quantile99_eq {j : ℕ} (hj : j = max 1 (min (data.length - 1) (99 * (data.length + 1) / 100)))
    {delta : ℤ} (hdelta : delta = 99 * ((data.length + 1 : ℕ) : ℤ) - j * 100) :
    quantile99 data = ranked data (j - 1) +
      (ranked data j - ranked data (j - 1)) * (delta / 100) := by
  have hq : quantile99 data =
      (ranked data (j - 1) * (100 - delta) + ranked data j * delta) / 100 := by
    rw [hdelta, hj]
    rfl
  rw [hq]
  ring

/-- **From 99 samples on** the percentile lies between its neighbours. -/
theorem quantile99_within (h : 99 ≤ data.length) : WithinData data (quantile99 data) := by
  obtain ⟨j, hj⟩ : ∃ j, j = max 1 (min (data.length - 1) (99 * (data.length + 1) / 100)) := ⟨_, rfl⟩
  obtain ⟨delta, hdelta⟩ : ∃ delta : ℤ, delta = 99 * ((data.length + 1 : ℕ) : ℤ) - j * 100 :=
    ⟨_, rfl⟩
  have hjl : j < data.length := by omega
  have hlow : 0 ≤ delta := by omega
  have hhigh : delta ≤ 100 := by omega
  have hstep : 0 ≤ ranked data j - ranked data (j - 1) :=
    sub_nonneg.2 (ranked_le (Nat.sub_le j 1) hjl)
  have hfrac : 0 ≤ (delta : ℚ) / 100 := 
    div_nonneg (by exact_mod_cast hlow) (by decide +kernel)
  have hfrac' : (delta : ℚ) / 100 ≤ 1 := by
    rw [div_le_one (by decide +kernel)]
    exact_mod_cast hhigh
  rw [quantile99_eq hj hdelta]
  refine ⟨⟨_, ranked_mem (i := j - 1) (by omega), ?_⟩, ⟨_, ranked_mem hjl, ?_⟩⟩
  · have := mul_nonneg hstep hfrac
    linarith
  · have := mul_le_of_le_one_right hstep hfrac'
    linarith

/-- **Below 99 samples** the percentile lies beyond the greatest of them. -/
theorem quantile99_eq_of_few (h2 : 2 ≤ data.length) (h98 : data.length ≤ 98) :
    quantile99 data = ranked data (data.length - 1) +
      (ranked data (data.length - 1) - ranked data (data.length - 2)) *
        ((99 - data.length) / 100) := by
  have hj : data.length - 1 = max 1 (min (data.length - 1) (99 * (data.length + 1) / 100)) := by
    omega
  have hdelta : (199 : ℤ) - data.length =
      99 * ((data.length + 1 : ℕ) : ℤ) - (data.length - 1 : ℕ) * 100 := by omega
  have hprev : data.length - 1 - 1 = data.length - 2 := rfl
  rw [quantile99_eq hj hdelta, hprev]
  push_cast
  ring

/-- Below 99 samples the percentile is within the data if the two greatest are equal. -/
theorem quantile99_within_iff (h2 : 2 ≤ data.length) (h98 : data.length ≤ 98) :
    WithinData data (quantile99 data) ↔ GreatestTwice data := by
  have hfrac : (0 : ℚ) < (99 - data.length) / 100 := by
    have : (data.length : ℚ) ≤ 98 := by exact_mod_cast h98
    linarith
  have hstep : 0 ≤ ranked data (data.length - 1) - ranked data (data.length - 2) :=
    sub_nonneg.2 (ranked_le (by omega) (by omega))
  rw [greatestTwice_iff h2, quantile99_eq_of_few h2 h98]
  constructor
  · rintro ⟨-, b, hb, hle⟩
    have hlast := le_ranked_last hb
    by_contra hlt
    have := mul_pos (sub_pos.2 (not_le.1 hlt)) hfrac
    linarith
  · intro hle
    have hzero : ranked data (data.length - 1) - ranked data (data.length - 2) = 0 :=
      le_antisymm (sub_nonpos.2 hle) hstep
    have hmem := @ranked_mem data (data.length - 1) (by omega)
    rw [hzero, zero_mul, add_zero]
    exact ⟨⟨_, hmem, le_refl _⟩, ⟨_, hmem, le_refl _⟩⟩

/-- **The reported percentile is within the data** exactly for a single sample, for 99 samples and
more, and where the greatest sample occurs twice. -/
theorem p99_withinData_iff (hne : data ≠ []) :
    ∃ v, p99 data = some v ∧
      (WithinData data v ↔ data.length = 1 ∨ 99 ≤ data.length ∨ GreatestTwice data) := by
  rcases data with _ | ⟨x, _ | ⟨y, rest⟩⟩
  · exact absurd rfl hne
  · have hmem : x ∈ [x] := List.mem_singleton.2 rfl
    exact ⟨x, rfl, fun _ => Or.inl rfl, fun _ => ⟨⟨x, hmem, le_refl x⟩, ⟨x, hmem, le_refl x⟩⟩⟩
  · have h2 : 2 ≤ (x :: y :: rest).length := by simp
    refine ⟨quantile99 (x :: y :: rest), rfl, ?_⟩
    by_cases h99 : 99 ≤ (x :: y :: rest).length
    · exact ⟨fun _ => Or.inr (Or.inl h99), fun _ => quantile99_within h99⟩
    · rw [quantile99_within_iff h2 (by omega)]
      constructor
      · exact fun h => Or.inr (Or.inr h)
      · rintro (h1 | h | h)
        · omega
        · exact absurd h h99
        · exact h

theorem p99_withinData_two : ∃ v, p99 [5, 10, 10] = some v ∧
    (WithinData [5, 10, 10] v ↔
      [(5 : ℚ), 10, 10].length = 1 ∨ 99 ≤ [(5 : ℚ), 10, 10].length ∨ GreatestTwice [5, 10, 10]) :=
  p99_withinData_iff (by decide)

theorem p99_outside : ∃ v, p99 [10, 20] = some v ∧ ¬ WithinData [10, 20] v := by
  refine ⟨quantile99 [10, 20], rfl, ?_⟩
  rintro ⟨-, b, hb, hle⟩
  revert hle
  revert b
  decide +kernel

end Percentile

end Statistics

end NanoKVRouter
