/-
**Jobs in order on several slots.**

Jobs take their turns on several slots, each one on the slot that is released first, for as long as
it works.  The slots are interchangeable, so that the state is the multiset of their release times;
the times are those of any ordered type with an addition.

Main definitions:

* `SlotSchedule.Serves` — the release times after some jobs;
* `SlotSchedule.Earliest` — the first release of a multiset of slots.

Main results:

* `SlotSchedule.Serves.unique` — ties do not matter;
* `SlotSchedule.serves_foldl` — a sorted list of release times serves the jobs;
* `SlotSchedule.Serves.rel` — **later slots and longer jobs are released later**;
* `SlotSchedule.Serves.sum_eq`, `SlotSchedule.Earliest.card_nsmul_le` — the work is conserved, and
  the first release is at most the mean one.
-/

import Mathlib.Algebra.Order.BigOperators.Group.Multiset
import Mathlib.Data.List.Sort
import Mathlib.Data.Multiset.Basic

set_option relaxedAutoImplicit false
set_option autoImplicit false

namespace SlotSchedule

variable {τ : Type} [LinearOrder τ]

/-- The first release of some slots. -/
def Earliest (slots : Multiset τ) (t : τ) : Prop := t ∈ slots ∧ ∀ x ∈ slots, t ≤ x

/-- The jobs of a list, given by their works, take their turns on the slots: each job takes the slot
that is released first. -/
inductive Serves [Add τ] : Multiset τ → List τ → Multiset τ → Prop
  | nil (slots : Multiset τ) : Serves slots [] slots
  | cons {rest slots' : Multiset τ} {t work : τ} {works : List τ} (ht : ∀ x ∈ rest, t ≤ x)
      (h : Serves ((t + work) ::ₘ rest) works slots') : Serves (t ::ₘ rest) (work :: works) slots'

theorem Earliest.unique {slots : Multiset τ} {t t' : τ} (h : Earliest slots t)
    (h' : Earliest slots t') : t = t' :=
  le_antisymm (h.2 t' h'.1) (h'.2 t h.1)

theorem earliest_cons {rest : Multiset τ} {t : τ} (h : ∀ x ∈ rest, t ≤ x) :
    Earliest (t ::ₘ rest) t := by
  refine ⟨Multiset.mem_cons_self t rest, fun x hx => ?_⟩
  rcases Multiset.mem_cons.1 hx with rfl | hx
  · exact le_refl x
  · exact h x hx

/-- **The release times are determined by the jobs**: of several slots that are released first it
does not matter which one is taken. -/
theorem Serves.unique [Add τ] {slots slots₁ slots₂ : Multiset τ} {works : List τ}
    (h₁ : Serves slots works slots₁) (h₂ : Serves slots works slots₂) : slots₁ = slots₂ := by
  induction h₁ with
  | nil => cases h₂; rfl
  | @cons rest slots' t work works ht _ ih =>
      generalize hslots : t ::ₘ rest = slots at h₂
      cases h₂ with
      | @cons rest' _ t' _ _ ht' h₂ =>
          obtain rfl : t = t' := by
            refine (earliest_cons ht).unique ?_
            rw [hslots]
            exact earliest_cons ht'
          obtain rfl := (Multiset.cons_inj_right t).1 hslots
          exact ih h₂

/-- The first of a sorted list is the earliest one. -/
theorem earliest_of_pairwise {t : τ} {rest : List τ} (h : (t :: rest).Pairwise (· ≤ ·)) :
    Earliest ((t :: rest : List τ) : Multiset τ) t := by
  rw [← Multiset.cons_coe]
  exact earliest_cons fun x hx => (List.pairwise_cons.1 h).1 x hx

/-- A step on sorted lists that puts the first slot back later. -/
structure StepsSorted [Add τ] (step : List τ → τ → List τ) : Prop where
  sorted : ∀ slots work, (step slots work).Pairwise (· ≤ ·)
  perm : ∀ t rest work, (step (t :: rest) work).Perm ((t + work) :: rest)

/-- **A sorted list of release times serves the jobs**, and stays sorted. -/
theorem serves_foldl [Add τ] {step : List τ → τ → List τ} (hstep : StepsSorted step) :
    ∀ (works : List τ) {slots : List τ}, slots ≠ [] → slots.Pairwise (· ≤ ·) →
      Serves (slots : Multiset τ) works (works.foldl step slots : List τ) ∧
        works.foldl step slots ≠ [] ∧ (works.foldl step slots).Pairwise (· ≤ ·) := by
  intro works
  induction works with
  | nil => exact fun hne hs => ⟨.nil _, hne, hs⟩
  | cons work works ih =>
      intro slots hne hs
      obtain ⟨t, rest, rfl⟩ := List.exists_cons_of_ne_nil hne
      have hperm := hstep.perm t rest work
      have hne' : step (t :: rest) work ≠ [] := fun h => by
        rw [h] at hperm
        exact List.cons_ne_nil _ _ hperm.nil_eq.symm
      obtain ⟨hserves, hrest⟩ := ih hne' (hstep.sorted _ _)
      refine ⟨?_, hrest⟩
      rw [← Multiset.cons_coe]
      refine .cons (fun x hx => (List.pairwise_cons.1 hs).1 x hx) ?_
      rw [Multiset.cons_coe, ← Multiset.coe_eq_coe.2 hperm]
      exact hserves

/-! ### Later slots and longer jobs -/

section Rel

variable {rest rest' slots slots' : Multiset τ} {t t' : τ}

/-- Of slots that pair with later ones, the first ones pair, and so do the others. -/
theorem rel_of_rel_cons (ht : ∀ x ∈ rest, t ≤ x) (ht' : ∀ x ∈ rest', t' ≤ x)
    (h : Multiset.Rel (· ≤ ·) (t ::ₘ rest) (t' ::ₘ rest')) :
    t ≤ t' ∧ Multiset.Rel (· ≤ ·) rest rest' := by
  obtain ⟨b, bs, htb, hrest, heq⟩ := Multiset.rel_cons_left.1 h
  rcases Multiset.cons_eq_cons.1 heq with ⟨rfl, rfl⟩ | ⟨-, cs, rfl, rfl⟩
  · exact ⟨htb, hrest⟩
  · -- the first ones are paired with others, which exchange their partners
    obtain ⟨a, as, hat, has, rfl⟩ := Multiset.rel_cons_right.1 hrest
    have hab : a ≤ b := hat.trans (ht' b (Multiset.mem_cons_self b cs))
    exact ⟨(ht a (Multiset.mem_cons_self a as)).trans hat, .cons hab has⟩

/-- The first of some slots is released before the first of later ones. -/
theorem Earliest.le_of_rel (h : Earliest slots t) (h' : Earliest slots' t')
    (hrel : Multiset.Rel (· ≤ ·) slots slots') : t ≤ t' := by
  obtain ⟨rest', rfl⟩ := Multiset.exists_cons_of_mem h'.1
  obtain ⟨x, xs, hx, -, rfl⟩ := Multiset.rel_cons_right.1 hrel
  exact (h.2 x (Multiset.mem_cons_self x xs)).trans hx

/-- **Later slots and longer jobs are released later.** -/
theorem Serves.rel [Add τ] [AddLeftMono τ] [AddRightMono τ] {works works' : List τ}
    {slots₁ slots₂ : Multiset τ} (h : Serves slots works slots₁) (h' : Serves slots' works' slots₂)
    (hrel : Multiset.Rel (· ≤ ·) slots slots') (hworks : List.Forall₂ (· ≤ ·) works works') :
    Multiset.Rel (· ≤ ·) slots₁ slots₂ := by
  induction h generalizing slots' works' with
  | nil =>
      cases hworks
      cases h'
      exact hrel
  | cons ht _ ih =>
      cases hworks with
      | cons hwork hworks =>
          cases h' with
          | cons ht' h' =>
              obtain ⟨hle, hrest⟩ := rel_of_rel_cons ht ht' hrel
              exact ih h' (.cons (add_le_add hle hwork) hrest) hworks

end Rel

/-! ### The work is conserved -/

section Sum

variable {slots slots' : Multiset τ} {works : List τ}

theorem Serves.card_eq [Add τ] (h : Serves slots works slots') :
    Multiset.card slots' = Multiset.card slots := by
  induction h with
  | nil => rfl
  | cons _ _ ih => rw [ih, Multiset.card_cons, Multiset.card_cons]

/-- **The release times sum up to those of the slots and the works.** -/
theorem Serves.sum_eq [AddCommMonoid τ] (h : Serves slots works slots') :
    slots'.sum = slots.sum + works.sum := by
  induction h with
  | nil => rw [List.sum_nil, add_zero]
  | @cons rest slots' t work works _ _ ih =>
      rw [ih, Multiset.sum_cons, Multiset.sum_cons, List.sum_cons, add_right_comm t work,
        add_assoc (t + rest.sum)]

/-- The release times are not negative, if the slots and the works are not. -/
theorem Serves.nonneg [AddCommMonoid τ] [AddLeftMono τ] (h : Serves slots works slots')
    (hslots : ∀ x ∈ slots, 0 ≤ x) (hworks : ∀ w ∈ works, 0 ≤ w) : ∀ x ∈ slots', 0 ≤ x := by
  induction h with
  | nil => exact hslots
  | @cons rest slots' t work works _ _ ih =>
      refine ih (fun x hx => ?_) fun w hw => hworks w (List.mem_cons_of_mem _ hw)
      rcases Multiset.mem_cons.1 hx with rfl | hx
      · exact add_nonneg (hslots t (Multiset.mem_cons_self t rest))
          (hworks work List.mem_cons_self)
      · exact hslots x (Multiset.mem_cons_of_mem hx)

/-- The first release is at most the mean one. -/
theorem Earliest.card_nsmul_le [AddCommMonoid τ] [IsOrderedAddMonoid τ] {t : τ}
    (h : Earliest slots t) : Multiset.card slots • t ≤ slots.sum :=
  Multiset.card_nsmul_le_sum h.2

end Sum

end SlotSchedule
