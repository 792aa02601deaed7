/-
**The comparison of two summaries.**

A sensitivity experiment compares the metrics of a run with those of a baseline.  A metric may be a
mapping, which is compared leaf by leaf; the two sides have a leaf under the same name or not, and a
leaf that is missing or no number on one side is never a change.  The numbers are Python's: integers
are exact, and every operation on floats is rounded to double precision.

The shares of the tiers in the hits of a run are such a mapping.  A tier without hits has no entry in
it, and a run without hits has no mapping at all.

Main definitions:

* `PyNumber`, `MetricValue` — a number; a number, nothing, or a mapping;
* `iterMetricLeaves`, `metricThresholdMet`, `changedMetricNames` — the comparison;
* `MetricsCollector.tierShare` — the share of a tier in the hits of a run;
* `MetricsCollector.RoundsUnder` — a change of a share that is lost in the rounding.

Main results:

* `mem_changedMetricNames` — a leaf is reported if it is a number on both sides and has changed enough;
* `MetricsCollector.tier_reported_iff` — **the share of a tier is reported** if it is positive on both
  sides and the rounded shares differ by more than the middle below the threshold;
* `MetricsCollector.tiers_reported_iff` — **every share that has changed is reported** exactly if a
  tier with hits on one side only has a small share there and no change is lost in the rounding;
* `MetricsCollector.RoundsUnder.lt` — only a change at the threshold is lost.
-/

import NanoKVRouter.FloatRounding
import NanoKVRouter.MetricsCollector
import Mathlib.Algebra.Order.AbsoluteValue.Basic
import Mathlib.Algebra.Order.BigOperators.Group.List
import Mathlib.Data.List.Infix
import Mathlib.Data.String.Basic

set_option relaxedAutoImplicit false
set_option autoImplicit false

namespace NanoKVRouter

/-! ### Numbers -/

/-- A number of Python: an `int`, or the value of a finite `float`. -/
inductive PyNumber
  | int (value : ℤ)
  | float (value : ℚ)

namespace PyNumber

def value : PyNumber → ℚ
  | int z => z
  | float x => x

/-- `float(x)`. -/
def toFloat : PyNumber → ℚ
  | int z => binary64.round z
  | float x => x

/-- `x - y`: exact on integers. -/
def sub : PyNumber → PyNumber → PyNumber
  | int x, int y => int (x - y)
  | x, y => float (binary64.round (x.toFloat - y.toFloat))

/-- `x / y`: the quotient of integers is rounded once. -/
def div : PyNumber → PyNumber → PyNumber
  | int x, int y => float (binary64.round (x / y))
  | x, y => float (binary64.round (x.toFloat / y.toFloat))

/-- `abs(x)`. -/
def abs : PyNumber → PyNumber
  | int z => int |z|
  | float x => float |x|

end PyNumber

/-! ### Metrics -/

/-- The value of a metric. -/
inductive MetricValue
  | none
  | number (value : PyNumber)
  | mapping (entries : List (String × MetricValue))

mutual

/-- `_iter_metric_leaves`: the leaves of a metric, under their names. -/
def iterMetricLeaves (metricName : String) : MetricValue → List (String × MetricValue)
  | .mapping entries => iterEntryLeaves metricName entries
  | .none => [(metricName, .none)]
  | .number value => [(metricName, .number value)]

/-- The leaves of the entries of a mapping. -/
def iterEntryLeaves (metricName : String) :
    List (String × MetricValue) → List (String × MetricValue)
  | [] => []
  | (key, innerValue) :: entries =>
      iterMetricLeaves s!"{metricName}.{key}" innerValue ++ iterEntryLeaves metricName entries

end

/-- `dict(pairs)`. -/
def PyDict.ofPairs {κ ν : Type} [DecidableEq κ] (pairs : List (κ × ν)) : PyDict κ ν :=
  pairs.foldl (fun d pair => d.set pair.1 pair.2) .empty

/-- `metric_name.split(".", 1)[0]`. -/
def rootMetric (metricName : String) : String :=
  String.ofList (metricName.toList.takeWhile (· ≠ '.'))

/-- `s.endswith(suffix)`. -/
def endsWith (s suffix : String) : Bool := suffix.toList <:+ s.toList

/-- `part in s`. -/
def hasPart (s part : String) : Bool := part.toList <:+: s.toList

/-- `_metric_threshold_met`: both values are numbers, and their difference is large enough for a
metric of this name. -/
def metricThresholdMet (metricName : String) (baseline candidate : MetricValue) : Bool :=
  match baseline, candidate with
  | .number baseline, .number candidate =>
      let deltaAbs := (candidate.sub baseline).abs.value
      let pctMet := baseline.value ≠ 0 ∧
        binary64.round (1 / 100) ≤ ((candidate.sub baseline).div baseline).abs.value
      let root := rootMetric metricName
      if endsWith root "_ratio" || endsWith root "_rate" then
        binary64.round (1 / 200) ≤ deltaAbs
      else if endsWith root "_ms" then
        1 / 2 ≤ deltaAbs ∨ pctMet
      else if hasPart root "throughput" || hasPart root "rejection" then
        binary64.round (1 / 200) ≤ deltaAbs ∨ pctMet
      else if endsWith root "_count" || hasPart root "steps_per_request" ||
          hasPart root "batch_size" then
        1 / 2 ≤ deltaAbs ∨ pctMet
      else
        binary64.round (1 / 1000000000) < deltaAbs
  | _, _ => false

/-- `_changed_metric_names`: the leaves that have changed, sorted. -/
def changedMetricNames (baselineMetrics candidateMetrics : PyDict String MetricValue) :
    List String :=
  let changed := baselineMetrics.entries.flatMap fun (metricName, baselineValue) =>
    let candidateValue := candidateMetrics.getD metricName .none
    let baselineLeaves := PyDict.ofPairs (iterMetricLeaves metricName baselineValue)
    let candidateLeaves := PyDict.ofPairs (iterMetricLeaves metricName candidateValue)
    (baselineLeaves.keys ++ candidateLeaves.keys).filter fun leafName =>
      metricThresholdMet leafName (baselineLeaves.getD leafName .none)
        (candidateLeaves.getD leafName .none)
  changed.dedup.insertionSort (· ≤ ·)

/-! ### What is reported -/

/-- A dictionary of pairs with different keys has these pairs as its entries. -/
theorem PyDict.entries_ofPairs {κ ν : Type} [DecidableEq κ] {pairs : List (κ × ν)}
    (h : (pairs.map Prod.fst).Nodup) : (PyDict.ofPairs pairs).entries = pairs := by
  have hfold : ∀ d : PyDict κ ν, (d.keys ++ pairs.map Prod.fst).Nodup →
      (pairs.foldl (fun d pair => d.set pair.1 pair.2) d).entries = d.entries ++ pairs := by
    clear h
    induction pairs with
    | nil => exact fun d _ => (List.append_nil _).symm
    | cons pair pairs ih =>
        intro d hnodup
        have hnot : pair.1 ∉ d.keys := fun hmem =>
          (List.nodup_append.1 hnodup).2.2 _ hmem _ (List.mem_map_of_mem List.mem_cons_self) rfl
        have hentries := PyDict.entries_set_of_notMem pair.2 hnot
        rw [List.foldl_cons, ih, hentries, List.append_assoc, List.singleton_append]
        rw [PyDict.keys, hentries, List.map_append, List.append_assoc]
        exact hnodup
  exact hfold .empty h

/-- A leaf is a number on both sides if it has changed. -/
theorem exists_numbers {leafName : String} {baseline candidate : MetricValue}
    (h : metricThresholdMet leafName baseline candidate = true) :
    (∃ value, baseline = .number value) ∧ ∃ value, candidate = .number value := by
  cases baseline with
  | none | mapping _ => cases h
  | number value =>
      cases candidate with
      | none | mapping _ => cases h
      | number value' => exact ⟨⟨_, rfl⟩, ⟨_, rfl⟩⟩

theorem PyDict.mem_keys_of_getD {κ ν : Type} [DecidableEq κ] {d : PyDict κ ν} {k : κ} {v w : ν}
    (h : d.getD k v = w) (hne : w ≠ v) : k ∈ d.keys := by
  by_contra hnot
  rw [PyDict.getD, PyDict.get?_eq_none_iff.2 hnot] at h
  exact hne h.symm

/-- **A leaf is reported** if the leaves of a metric under this name have changed enough. -/
theorem mem_changedMetricNames {baselineMetrics candidateMetrics : PyDict String MetricValue}
    {leafName : String} :
    leafName ∈ changedMetricNames baselineMetrics candidateMetrics ↔
      ∃ entry ∈ baselineMetrics.entries, metricThresholdMet leafName
        ((PyDict.ofPairs (iterMetricLeaves entry.1 entry.2)).getD leafName .none)
        ((PyDict.ofPairs (iterMetricLeaves entry.1
          (candidateMetrics.getD entry.1 .none))).getD leafName .none) = true := by
  rw [changedMetricNames, List.mem_insertionSort, List.mem_dedup, List.mem_flatMap]
  refine exists_congr fun entry => and_congr_right fun _ => ?_
  rw [List.mem_filter]
  refine ⟨fun h => h.2, fun h => ⟨List.mem_append_left _ ?_, h⟩⟩
  obtain ⟨⟨value, hvalue⟩, -⟩ := exists_numbers h
  exact PyDict.mem_keys_of_getD hvalue fun hne => by cases hne

/-! ### The shares of the tiers -/

namespace MetricsCollector

/-- The hits of a tier. -/
def tierHits (m : MetricsCollector) (tier : Tier) : ℕ := m.cacheHitByTier.getD tier 0

/-- The share of a tier in the hits of all tiers; zero if there are none. -/
def tierShare (m : MetricsCollector) (tier : Tier) : ℚ :=
  let total := m.cacheHitByTier.values.sum
  if total = 0 then 0 else m.tierHits tier / total

/-- The shares of the tiers, as the summary has them: each is the float nearest to its quotient. -/
def tierMetric (m : MetricsCollector) : MetricValue :=
  match m.cacheHitByTierRatio with
  | none => .none
  | some entries => .mapping (entries.map fun entry =>
      (entry.1.name, .number (.float (binary64.round entry.2))))

/-- The metrics of an experiment on the shares of the tiers. -/
def tierMetrics (m : MetricsCollector) : PyDict String MetricValue :=
  PyDict.empty.set "cache_hit_by_tier_ratio" m.tierMetric

/-- The name of the leaf of a tier. -/
def tierLeaf (tier : Tier) : String := s!"cache_hit_by_tier_ratio.{tier.name}"

theorem tierLeaf_injective : Function.Injective tierLeaf := by
  intro a b hab
  revert hab
  cases a <;> cases b <;> decide

variable {m : MetricsCollector}

theorem tierHits_le (m : MetricsCollector) (tier : Tier) :
    m.tierHits tier ≤ m.cacheHitByTier.values.sum := by
  rw [tierHits, PyDict.getD]
  cases h : m.cacheHitByTier.get? tier with
  | none => exact Nat.zero_le _
  | some n => exact List.le_sum_of_mem (PyDict.mem_values_of_get? h)

/-- The leaves of a mapping of numbers. -/
theorem iterEntryLeaves_numbers (metricName : String) (entries : List (String × PyNumber)) :
    iterEntryLeaves metricName (entries.map fun entry => (entry.1, .number entry.2)) =
      entries.map fun entry => (s!"{metricName}.{entry.1}", .number entry.2) := by
  induction entries with
  | nil => rfl
  | cons entry entries ih =>
      rw [List.map_cons, List.map_cons, iterEntryLeaves, ih]
      rfl

/-- The entries of the shares. -/
def shareEntries (m : MetricsCollector) : List (Tier × ℕ) :=
  m.cacheHitByTier.entries.filter fun e => e.2 > 0

/-- The leaf of an entry of the shares. -/
def shareLeaf (m : MetricsCollector) (e : Tier × ℕ) : String × MetricValue :=
  (tierLeaf e.1, .number (.float (binary64.round ((e.2 : ℚ) / m.cacheHitByTier.values.sum))))

/-- The leaves of the shares have different names. -/
theorem nodup_tierLeaves (m : MetricsCollector) :
    ((m.shareEntries.map m.shareLeaf).map Prod.fst).Nodup := by
  rw [List.map_map]
  have hkeys : (m.shareEntries.map Prod.fst).Nodup :=
    m.cacheHitByTier.keys_nodup.sublist (List.filter_sublist.map _)
  have hcomp : Prod.fst ∘ m.shareLeaf = tierLeaf ∘ Prod.fst := rfl
  rw [hcomp, ← List.map_map]
  exact hkeys.map tierLeaf_injective

/-- Without hits there are no leaves but the missing mapping, and with hits those of the tiers with
hits. -/
theorem iterMetricLeaves_tierMetric (m : MetricsCollector) :
    iterMetricLeaves "cache_hit_by_tier_ratio" m.tierMetric =
      if m.cacheHitByTier.values.sum = 0 then [("cache_hit_by_tier_ratio", .none)]
      else m.shareEntries.map m.shareLeaf := by
  rw [tierMetric, cacheHitByTierRatio]
  by_cases htotal : m.cacheHitByTier.values.sum = 0
  · simp only [htotal, if_true]
    rfl
  · simp only [htotal, if_false]
    rw [iterMetricLeaves, List.map_map]
    have hleaves := iterEntryLeaves_numbers "cache_hit_by_tier_ratio" (m.shareEntries.map fun e =>
      (e.1.name, .float (binary64.round ((e.2 : ℚ) / m.cacheHitByTier.values.sum))))
    rw [List.map_map, List.map_map] at hleaves
    exact hleaves

/-- **The leaf of a tier** is its rounded share, if the tier has hits, and missing otherwise. -/
theorem getD_tierLeaf (m : MetricsCollector) (tier : Tier) :
    (PyDict.ofPairs (iterMetricLeaves "cache_hit_by_tier_ratio" m.tierMetric)).getD
      (tierLeaf tier) .none =
        if 0 < m.tierHits tier then .number (.float (binary64.round (m.tierShare tier)))
        else .none := by
  rw [iterMetricLeaves_tierMetric]
  by_cases htotal : m.cacheHitByTier.values.sum = 0
  · have hzero : m.tierHits tier = 0 := Nat.eq_zero_of_le_zero (htotal ▸ m.tierHits_le tier)
    rw [if_pos htotal, hzero, if_neg (lt_irrefl 0)]
    cases tier <;> rfl
  · rw [if_neg htotal]
    have hentries := PyDict.entries_ofPairs m.nodup_tierLeaves
    by_cases hpos : 0 < m.tierHits tier
    · obtain ⟨n, hn⟩ : ∃ n, m.cacheHitByTier.get? tier = some n := by
        rw [tierHits, PyDict.getD] at hpos
        cases hget : m.cacheHitByTier.get? tier with
        | none =>
            rw [hget] at hpos
            exact absurd hpos (lt_irrefl 0)
        | some n => exact ⟨n, rfl⟩
      have hhits : m.tierHits tier = n := by rw [tierHits, PyDict.getD, hn, Option.getD_some]
      have hmem : (tier, n) ∈ m.shareEntries :=
        List.mem_filter.2 ⟨PyDict.get?_eq_some_iff.1 hn, decide_eq_true (hhits ▸ hpos)⟩
      have hleaf := PyDict.get?_eq_some_iff.2 (hentries.symm ▸ List.mem_map_of_mem
        (f := m.shareLeaf) hmem)
      rw [if_pos hpos, tierShare, if_neg htotal, PyDict.getD, hleaf, Option.getD_some, hhits]
    · rw [if_neg hpos, PyDict.getD]
      cases hget : (PyDict.ofPairs (m.shareEntries.map m.shareLeaf)).get? (tierLeaf tier) with
      | none => rfl
      | some value =>
          have hmem := PyDict.get?_eq_some_iff.1 hget
          rw [hentries] at hmem
          obtain ⟨e, he, heq⟩ := List.mem_map.1 hmem
          obtain rfl : e.1 = tier := tierLeaf_injective (Prod.mk.inj heq).1
          obtain ⟨hentry, hlt⟩ := List.mem_filter.1 he
          rw [tierHits, PyDict.getD, PyDict.get?_eq_some_iff.2 hentry] at hpos
          exact absurd (of_decide_eq_true hlt) hpos

/-- The middle between the float nearest to 0.005 and the one before. -/
def shareMiddle : ℚ := (5764607523034235 - 1 / 2) * 2 ^ (-60 : ℤ)

/-- A rounded difference reaches the threshold exactly if the difference is beyond the middle. -/
theorem round_reaches_iff (x : ℚ) :
    binary64.round (1 / 200) ≤ |binary64.round x| ↔ shareMiddle < |x| := by
  have hthreshold : binary64.round (1 / 200) = (5764607523034235 : ℤ) * 2 ^ (-60 : ℤ) := by
    decide +kernel
  rw [FloatFormat.abs_round, hthreshold]
  rcases (abs_nonneg x).lt_or_eq with hpos | hzero
  · exact FloatFormat.le_round_iff (by decide) (by decide) (by decide) (by decide) hpos
  · rw [← hzero, FloatFormat.round_zero]
    exact iff_of_false (by decide +kernel) (by decide +kernel)

/-- **The share of a tier is reported** if it is positive on both sides and the rounded shares differ
by more than the middle below the threshold. -/
theorem tier_reported_iff (b c : MetricsCollector) (tier : Tier) :
    tierLeaf tier ∈ changedMetricNames b.tierMetrics c.tierMetrics ↔
      0 < b.tierHits tier ∧ 0 < c.tierHits tier ∧
        shareMiddle < |binary64.round (c.tierShare tier) - binary64.round (b.tierShare tier)| := by
  have hentries : b.tierMetrics.entries = [("cache_hit_by_tier_ratio", b.tierMetric)] := rfl
  have hcandidate : c.tierMetrics.getD "cache_hit_by_tier_ratio" .none = c.tierMetric := rfl
  have hroot : endsWith (rootMetric (tierLeaf tier)) "_ratio" = true := by
    cases tier <;> decide +kernel
  rw [mem_changedMetricNames, hentries]
  simp only [List.mem_singleton, exists_eq_left]
  rw [hcandidate, getD_tierLeaf, getD_tierLeaf]
  by_cases hb : 0 < b.tierHits tier
  · by_cases hc : 0 < c.tierHits tier
    · rw [if_pos hb, if_pos hc, metricThresholdMet, hroot, Bool.true_or, if_pos rfl,
        decide_eq_true_iff]
      exact (round_reaches_iff _).trans ⟨fun h => ⟨hb, hc, h⟩, fun h => h.2.2⟩
    · rw [if_neg hc]
      refine ⟨fun h => ?_, fun h => absurd h.2.1 hc⟩
      obtain ⟨-, value, hvalue⟩ := exists_numbers h
      cases hvalue
  · rw [if_neg hb]
    refine ⟨fun h => ?_, fun h => absurd h.1 hb⟩
    obtain ⟨⟨value, hvalue⟩, -⟩ := exists_numbers h
    cases hvalue

/-- A share that moves from 0.01 to 0.015 is not reported: in floats the difference is less. -/
example : ¬ shareMiddle < |binary64.round (3 / 200) - binary64.round (2 / 200)| := by decide +kernel

theorem tierShare_eq_zero {m : MetricsCollector} {tier : Tier} (h : m.tierHits tier = 0) :
    m.tierShare tier = 0 := by
  rw [tierShare, h]
  split
  · rfl
  · rw [Nat.cast_zero, zero_div]

theorem tierShare_nonneg (m : MetricsCollector) (tier : Tier) : 0 ≤ m.tierShare tier := by
  rw [tierShare]
  split
  · exact le_refl _
  · exact div_nonneg (Nat.cast_nonneg _) (Nat.cast_nonneg _)

theorem tierShare_le_one (m : MetricsCollector) (tier : Tier) : m.tierShare tier ≤ 1 := by
  rw [tierShare]
  split
  · exact zero_le_one
  · exact div_le_one_of_le₀ (Nat.cast_le.2 (m.tierHits_le tier)) (Nat.cast_nonneg _)

/-- A share is rounded by 2⁻⁵³ at most. -/
theorem abs_round_tierShare_sub_le (m : MetricsCollector) (tier : Tier) :
    |binary64.round (m.tierShare tier) - m.tierShare tier| ≤ 1 / 2 ^ 53 := by
  rcases (m.tierShare_nonneg tier).lt_or_eq with hpos | hzero
  · refine (FloatFormat.abs_round_sub_le _).trans ?_
    have hexp : binary64.exponent (m.tierShare tier) ≤ -52 := by
      have hone : binary64.exponent 1 = -52 := by decide +kernel
      exact hone ▸ FloatFormat.exponent_mono hpos (m.tierShare_le_one tier)
    have hle : (2 : ℚ) ^ binary64.exponent (m.tierShare tier) ≤ 2 ^ (-52 : ℤ) :=
      zpow_le_zpow_right₀ one_le_two hexp
    have hhalf : (2 : ℚ) ^ (-52 : ℤ) / 2 = 1 / 2 ^ 53 := by decide +kernel
    rw [← hhalf]
    exact div_le_div_of_nonneg_right hle zero_le_two
  · rw [← hzero, FloatFormat.round_zero, sub_zero, abs_zero]
    decide +kernel

/-- The share of the tier changes by 0.005 or more and is positive on both sides, but the rounded
shares differ by no more than the middle below the threshold. -/
def RoundsUnder (b c : MetricsCollector) (tier : Tier) : Prop :=
  0 < b.tierHits tier ∧ 0 < c.tierHits tier ∧ 1 / 200 ≤ |c.tierShare tier - b.tierShare tier| ∧
    |binary64.round (c.tierShare tier) - binary64.round (b.tierShare tier)| ≤ shareMiddle

/-- **Only a change at the threshold** is lost in the rounding. -/
theorem RoundsUnder.lt {b c : MetricsCollector} {tier : Tier} (h : RoundsUnder b c tier) :
    |c.tierShare tier - b.tierShare tier| < 1 / 200 + 1 / 2 ^ 52 := by
  have hb := abs_le.1 (b.abs_round_tierShare_sub_le tier)
  have hc := abs_le.1 (c.abs_round_tierShare_sub_le tier)
  have hd := abs_le.1 h.2.2.2
  have hmiddle : shareMiddle < 1 / 200 := by decide +kernel
  rw [abs_lt]
  constructor <;> linarith

/-- **Every share that has changed is reported** exactly if a tier with hits on one side only has a
small share there and no change is lost in the rounding. -/
theorem tiers_reported_iff (b c : MetricsCollector) :
    (∀ tier, 1 / 200 ≤ |c.tierShare tier - b.tierShare tier| →
      tierLeaf tier ∈ changedMetricNames b.tierMetrics c.tierMetrics) ↔
    ∀ tier, (c.tierHits tier = 0 → b.tierShare tier < 1 / 200) ∧
      (b.tierHits tier = 0 → c.tierShare tier < 1 / 200) ∧ ¬ RoundsUnder b c tier := by
  refine forall_congr' fun tier => ?_
  rw [tier_reported_iff]
  constructor
  · intro h
    refine ⟨fun hc => ?_, fun hb => ?_, fun hunder => ?_⟩
    · by_contra hle
      rw [tierShare_eq_zero hc, zero_sub, abs_neg, abs_of_nonneg (b.tierShare_nonneg tier)] at h
      exact absurd (h (not_lt.1 hle)).2.1 (by rw [hc]; exact lt_irrefl 0)
    · by_contra hle
      rw [tierShare_eq_zero hb, sub_zero, abs_of_nonneg (c.tierShare_nonneg tier)] at h
      exact absurd (h (not_lt.1 hle)).1 (by rw [hb]; exact lt_irrefl 0)
    · exact not_lt.2 hunder.2.2.2 (h hunder.2.2.1).2.2
  · rintro ⟨hc, hb, hunder⟩ hchange
    have hbpos : 0 < b.tierHits tier := Nat.pos_of_ne_zero fun hzero => by
      rw [tierShare_eq_zero hzero, sub_zero, abs_of_nonneg (c.tierShare_nonneg tier)] at hchange
      exact absurd hchange (not_le.2 (hb hzero))
    have hcpos : 0 < c.tierHits tier := Nat.pos_of_ne_zero fun hzero => by
      rw [tierShare_eq_zero hzero, zero_sub, abs_neg,
        abs_of_nonneg (b.tierShare_nonneg tier)] at hchange
      exact absurd hchange (not_le.2 (hc hzero))
    exact ⟨hbpos, hcpos, not_le.1 fun hle => hunder ⟨hbpos, hcpos, hchange, hle⟩⟩

/-- A collector that has counted these hits. -/
def withHits (gpu cpu disk : ℕ) : MetricsCollector :=
  { init with cacheHitByTier := ((PyDict.empty.set .gpu gpu).set .cpu cpu).set .disk disk }

theorem tier_collapse_unreported :
    1 / 200 ≤ |(withHits 10 0 0).tierShare .cpu - (withHits 6 4 0).tierShare .cpu| ∧
      tierLeaf .cpu ∉ changedMetricNames (withHits 6 4 0).tierMetrics
        (withHits 10 0 0).tierMetrics := by
  refine ⟨by decide +kernel, fun hmem => ?_⟩
  exact absurd ((tier_reported_iff _ _ _).1 hmem).2.1 (by decide +kernel)

end MetricsCollector

end NanoKVRouter
