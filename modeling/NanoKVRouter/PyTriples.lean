/-
**Total correctness of calls.**

A triple says that a call, started in a state with a precondition, returns: it raises nothing, and a
postcondition holds of the value and of the state it leaves.  The rules follow the constructs the
calls are written with, so that a caller is proved from the triples of its callees.

Main definitions:

* `Py.Returns` — the triple.

Main results:

* `Py.Returns.bind` — **the rule for sequences**;
* `Py.Returns.get_bind` — the rule for a read of the state, which the rest of the call may use;
* `Py.Returns.onPart` — the rule for a call on a component;
* `Py.Returns.orElse` — the rule for a `try` statement whose body may raise what is caught;
* `Py.Returns.foldlM`, `Py.Returns.mapM` — the rules for loops.
-/

import NanoKVRouter.PyRelations

set_option relaxedAutoImplicit false
set_option autoImplicit false

namespace Py

variable {σ τ α β ι : Type} {P P' : σ → Prop} {Q Q' : α → σ → Prop} {R : β → σ → Prop}

/-- From every state with `P` the call returns, and `Q` holds of its value and of the state it
leaves. -/
def Returns (P : σ → Prop) (m : Py σ α) (Q : α → σ → Prop) : Prop :=
  ∀ s, P s → ∃ a s', m.run s = .ok a s' ∧ Q a s'

namespace Returns

variable {m : Py σ α} {f : α → Py σ β}

/-- The rule of consequence. -/
theorem mono (h : Returns P m Q) (hP : ∀ s, P' s → P s) (hQ : ∀ a s, Q a s → Q' a s) :
    Returns P' m Q' := by
  intro s hs
  obtain ⟨a, s', hrun, ha⟩ := h s (hP s hs)
  exact ⟨a, s', hrun, hQ a s' ha⟩

theorem weaken (h : Returns P m Q) (hQ : ∀ a s, Q a s → Q' a s) : Returns P m Q' :=
  h.mono (fun _ hs => hs) hQ

theorem strengthen (h : Returns P m Q) (hP : ∀ s, P' s → P s) : Returns P' m Q :=
  h.mono hP fun _ _ ha => ha

theorem pure {a : α} (h : ∀ s, P s → Q a s) : Returns P (pure a : Py σ α) Q :=
  fun s hs => ⟨a, s, rfl, h s hs⟩

theorem modify {f : σ → σ} {Q : Unit → σ → Prop} (h : ∀ s, P s → Q () (f s)) :
    Returns P (modify f : Py σ Unit) Q :=
  fun s hs => ⟨(), f s, rfl, h s hs⟩

/-- **The rule for sequences.** -/
theorem bind (hm : Returns P m Q) (hf : ∀ a, Returns (Q a) (f a) R) : Returns P (m >>= f) R := by
  intro s hs
  obtain ⟨a, t, hrun, ha⟩ := hm s hs
  obtain ⟨b, s', hrun', hb⟩ := hf a t ha
  exact ⟨b, s', by rw [run_bind_ok hrun, hrun'], hb⟩

/-- The rule for a read of the state: the rest of the call starts in the state that was read. -/
theorem get_bind {f : σ → Py σ β} (h : ∀ s, P s → Returns (fun t => t = s) (f s) R) :
    Returns P (MonadState.get >>= f) R :=
  fun s hs => h s hs s rfl

/-- The rule for a read of the state that is not compared with later states. -/
theorem read {f : σ → Py σ β} (h : ∀ s, P s → Returns P (f s) R) :
    Returns P (MonadState.get >>= f) R :=
  fun s hs => h s hs s hs

/-- The rule for a sequence whose first call returns a known value. -/
theorem bind_val {a : α} {S : σ → Prop} (hm : Returns P m fun x s => x = a ∧ S s)
    (hf : Returns S (f a) R) : Returns P (m >>= f) R := by
  refine hm.bind fun x s hs => ?_
  obtain ⟨rfl, hs⟩ := hs
  exact hf s hs

/-- A run that is known. -/
theorem of_run {s s' : σ} {a : α} (h : m.run s = .ok a s') :
    Returns (fun t => t = s) m fun x t => x = a ∧ t = s' := by
  rintro _ rfl
  exact ⟨a, s', h, rfl, rfl⟩

/-- The rule for a call that raises on a condition. -/
theorem ite {c : Prop} [Decidable c] {m₁ m₂ : Py σ α} (h₁ : c → Returns P m₁ Q)
    (h₂ : ¬ c → Returns P m₂ Q) : Returns P (if c then m₁ else m₂) Q := by
  by_cases hc : c
  · rw [if_pos hc]
    exact h₁ hc
  · rw [if_neg hc]
    exact h₂ hc

/-- **The rule for a call on a component.** -/
theorem onPart {S : τ → Prop} {T : α → τ → Prop} {get : σ → τ} {put : τ → σ → σ} {n : Py τ α}
    (hn : Returns S n T) (hget : ∀ s, P s → S (get s))
    (hput : ∀ s a t, P s → T a t → Q a (put t s)) : Returns P (onPart get put n) Q := by
  intro s hs
  obtain ⟨a, t, hrun, ha⟩ := hn _ (hget s hs)
  exact ⟨a, put t s, run_onPart_ok hrun, hput s a t hs ha⟩

/-- The rule for a `try` statement whose body returns. -/
theorem onExcept {p : PyErr → Bool} {handler : Py σ α} (h : Returns P m Q) :
    Returns P (onExcept p m handler) Q := by
  intro s hs
  obtain ⟨a, s', hrun, ha⟩ := h s hs
  exact ⟨a, s', run_onExcept_eq_ok.2 (Or.inl hrun), ha⟩

/-- The rule for a `try` statement whose body returns, or raises what is caught. -/
theorem orElse {p : PyErr → Bool} {handler : Py σ α} {E : σ → Prop}
    (h : ∀ s, P s → (∃ a s', m.run s = .ok a s' ∧ Q a s') ∨
      ∃ e s', m.run s = .error e s' ∧ p e = true ∧ E s')
    (hh : Returns E handler Q) : Returns P (Py.onExcept p m handler) Q := by
  intro s hs
  rcases h s hs with ⟨a, s', hrun, ha⟩ | ⟨e, t, hrun, he, ht⟩
  · exact ⟨a, s', run_onExcept_eq_ok.2 (Or.inl hrun), ha⟩
  · obtain ⟨a, s', hrun', ha⟩ := hh t ht
    exact ⟨a, s', run_onExcept_eq_ok.2 (Or.inr ⟨e, t, hrun, he, hrun'⟩), ha⟩

/-- The rule for a loop with an accumulator. -/
theorem foldlM {f : α → ι → Py σ α} : ∀ (is : List ι),
    (∀ a, ∀ i ∈ is, Returns (Q a) (f a i) Q) → ∀ a, Returns (Q a) (is.foldlM f a) Q := by
  intro is
  induction is with
  | nil => exact fun _ a => pure fun _ hs => hs
  | cons i is ih =>
      intro h a
      exact (h a i List.mem_cons_self).bind fun b => ih (fun b j hj =>
        h b j (List.mem_cons_of_mem _ hj)) b

/-- The rule for a loop that collects results, each of which is related to its index. -/
theorem mapM {f : ι → Py σ β} {V : ι → β → Prop} : ∀ (is : List ι),
    (∀ i ∈ is, Returns P (f i) fun b s => V i b ∧ P s) →
    Returns P (is.mapM f) fun bs s => List.Forall₂ V is bs ∧ P s := by
  intro is
  induction is with
  | nil =>
      intro _
      rw [List.mapM_nil]
      exact pure fun s hs => ⟨.nil, hs⟩
  | cons i is ih =>
      intro h
      rw [List.mapM_cons]
      refine (h i List.mem_cons_self).bind fun b => ?_
      have hrest := ih fun j hj => h j (List.mem_cons_of_mem _ hj)
      intro s hs
      obtain ⟨bs, s', hrun, hbs, hs'⟩ := hrest s hs.2
      exact ⟨b :: bs, s', by rw [run_bind_ok hrun]; rfl, .cons hs.1 hbs, hs'⟩

end Returns

end Py
