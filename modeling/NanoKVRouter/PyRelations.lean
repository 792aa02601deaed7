/-
**Invariants and simulations of calls.**

Two ways of reasoning about a call without running it: a property of the state that every run
keeps, and a relation between two states that runs from related states end in, with the same
outcome.  Both are closed under the constructs the calls are written with.

Main definitions:

* `Py.Keeps` — every run of a call keeps a property of the state;
* `Py.Alike` — two runs end alike: in related values, or in the same exception, and in related
  states;
* `Py.outcome` — what the caller of a call sees;
* `Py.Sim` — two calls end alike from related states;
* `Py.Leads` — the same, but the states in which they end are related in another way.

Main results:

* `Py.Keeps.bind`, `Py.Sim.bind` — the rules for sequences;
* `Py.Leads.bind` — a sequence leads on to what its second call leads to;
* `Py.Sim.onPart` — **a call on a component** simulates if it does so on the component;
* `Py.Sim.foldlM` — the rule for loops.
-/

import NanoKVRouter.PyState

set_option relaxedAutoImplicit false
set_option autoImplicit false

namespace Py

/-! ### Properties that every run keeps -/

section Keeps

variable {σ τ α β : Type} {P : σ → Prop}

/-- Every run of the call keeps the property, whether it returns or raises. -/
def Keeps (P : σ → Prop) (m : Py σ α) : Prop := ∀ s, P s → P (m.run s).state

namespace Keeps

theorem pure (a : α) : Keeps P (pure a : Py σ α) := fun _ hs => hs

theorem raise (e : PyErr) : Keeps P (raise e : Py σ α) := fun _ hs => hs

theorem get : Keeps P (get : Py σ σ) := fun _ hs => hs

theorem modify {f : σ → σ} (hf : ∀ s, P s → P (f s)) : Keeps P (modify f : Py σ Unit) :=
  fun s hs => hf s hs

theorem bind {m : Py σ α} {f : α → Py σ β} (hm : Keeps P m) (hf : ∀ a, Keeps P (f a)) :
    Keeps P (m >>= f) := by
  intro s hs
  have h := hm s hs
  rw [EStateM.run_bind]
  cases hrun : m.run s with
  | ok a t =>
      rw [hrun] at h
      exact hf a t h
  | error e t =>
      rw [hrun] at h
      exact h

theorem onPart {Q : τ → Prop} {get : σ → τ} {put : τ → σ → σ} {m : Py τ α} (hm : Keeps Q m)
    (hget : ∀ s, P s → Q (get s)) (hput : ∀ s t, P s → Q t → P (put t s)) :
    Keeps P (onPart get put m) := by
  intro s hs
  have h := hm _ (hget s hs)
  rw [run_onPart]
  cases hrun : m.run (get s) with
  | ok a t =>
      rw [hrun] at h
      exact hput s t hs h
  | error e t =>
      rw [hrun] at h
      exact hput s t hs h

theorem onExcept {p : PyErr → Bool} {m handler : Py σ α} (hm : Keeps P m)
    (hh : Keeps P handler) : Keeps P (onExcept p m handler) := by
  intro s hs
  have h := hm s hs
  rw [run_onExcept]
  cases hrun : m.run s with
  | ok a t =>
      rw [hrun] at h
      exact h
  | error e t =>
      rw [hrun] at h
      by_cases hp : p e = true
      · simp only [hp, if_true]
        exact hh t h
      · simp only [hp, Bool.false_eq_true, if_false]
        exact h

theorem foldlM {ι : Type} {f : α → ι → Py σ α} (hf : ∀ a i, Keeps P (f a i)) :
    ∀ (is : List ι) (a : α), Keeps P (is.foldlM f a) := by
  intro is
  induction is with
  | nil => intro a; exact pure a
  | cons i is ih => intro a; exact (hf a i).bind ih

theorem forM {ι : Type} {f : ι → Py σ Unit} (hf : ∀ i, Keeps P (f i)) :
    ∀ is : List ι, Keeps P (is.forM f) := by
  intro is
  induction is with
  | nil => exact pure ()
  | cons i is ih => exact (hf i).bind fun _ => ih

end Keeps

end Keeps

/-! ### Runs that end alike -/

section Sim

variable {σ σ' τ τ' α α' β β' ι : Type}

/-- The runs end alike: in related values or in the same exception, and in related states. -/
inductive Alike (R : σ → σ' → Prop) (V : α → α' → Prop) :
    EStateM.Result PyErr σ α → EStateM.Result PyErr σ' α' → Prop
  | ok {a : α} {a' : α'} {s : σ} {s' : σ'} : V a a' → R s s' → Alike R V (.ok a s) (.ok a' s')
  | error (e : PyErr) {s : σ} {s' : σ'} : R s s' → Alike R V (.error e s) (.error e s')

/-- From related states the two calls end alike. -/
def Sim (R : σ → σ' → Prop) (V : α → α' → Prop) (m : Py σ α) (m' : Py σ' α') : Prop :=
  ∀ s s', R s s' → Alike R V (m.run s) (m'.run s')

/-- From states that `R` relates the two calls end alike, in states that `S` relates. -/
def Leads (R S : σ → σ' → Prop) (V : α → α' → Prop) (m : Py σ α) (m' : Py σ' α') : Prop :=
  ∀ s s', R s s' → Alike S V (m.run s) (m'.run s')

variable {R S T : σ → σ' → Prop} {V : α → α' → Prop} {W : β → β' → Prop}

theorem Alike.state {r : EStateM.Result PyErr σ α} {r' : EStateM.Result PyErr σ' α'}
    (h : Alike R V r r') : R r.state r'.state := by
  cases h with
  | ok _ hs => exact hs
  | error _ hs => exact hs

theorem Alike.error?_eq {r : EStateM.Result PyErr σ α} {r' : EStateM.Result PyErr σ' α'}
    (h : Alike R V r r') : r.error? = r'.error? := by
  cases h with
  | ok _ _ => rfl
  | error _ _ => rfl

theorem Alike.mono {R₁ : σ → σ' → Prop} {V₁ : α → α' → Prop} {r : EStateM.Result PyErr σ α}
    {r' : EStateM.Result PyErr σ' α'} (h : Alike R V r r') (hR : ∀ s s', R s s' → R₁ s s')
    (hV : ∀ a a', V a a' → V₁ a a') : Alike R₁ V₁ r r' := by
  cases h with
  | ok ha hs => exact .ok (hV _ _ ha) (hR _ _ hs)
  | error e hs => exact .error e (hR _ _ hs)

/-- What the caller of a call sees: its value, or the exception it raised. -/
def outcome (r : EStateM.Result PyErr σ α) : Except PyErr α :=
  match r with
  | .ok a _ => .ok a
  | .error e _ => .error e

theorem Alike.outcome_eq {r : EStateM.Result PyErr σ α} {r' : EStateM.Result PyErr σ' α}
    (h : Alike R Eq r r') : outcome r' = outcome r := by
  cases h with
  | ok ha _ => exact congrArg Except.ok ha.symm
  | error _ _ => rfl

namespace Leads

variable {m : Py σ α} {m' : Py σ' α'}

theorem mono {R₁ S₁ : σ → σ' → Prop} (h : Leads R S V m m') (hR : ∀ s s', R₁ s s' → R s s')
    (hS : ∀ s s', S s s' → S₁ s s') : Leads R₁ S₁ V m m' :=
  fun s s' hs => (h s s' (hR s s' hs)).mono hS fun _ _ ha => ha

theorem pure {a : α} {a' : α'} (h : V a a') (hRS : ∀ s s', R s s' → S s s') :
    Leads R S V (pure a : Py σ α) (Pure.pure a' : Py σ' α') :=
  fun s s' hs => .ok h (hRS s s' hs)

/-- A sequence leads on to what its second call leads to; that covers the states in which its
first call raises. -/
theorem bind {f : α → Py σ β} {f' : α' → Py σ' β'} (hm : Leads R S V m m')
    (hf : ∀ a a', V a a' → Leads S T W (f a) (f' a')) (hST : ∀ s s', S s s' → T s s') :
    Leads R T W (m >>= f) (m' >>= f') := by
  intro s s' hs
  have h := hm s s' hs
  rw [EStateM.run_bind, EStateM.run_bind]
  generalize m.run s = r at h
  generalize m'.run s' = r' at h
  cases h with
  | ok ha ht => exact hf _ _ ha _ _ ht
  | error e ht => exact .error e (hST _ _ ht)

/-- **A call on a component** leads where it does on the component. -/
theorem onPart {Q Q' : τ → τ' → Prop} {get : σ → τ} {put : τ → σ → σ} {get' : σ' → τ'}
    {put' : τ' → σ' → σ'} {n : Py τ α} {n' : Py τ' α'} (hn : Leads Q Q' V n n')
    (hget : ∀ s s', R s s' → Q (get s) (get' s'))
    (hput : ∀ s s' t t', R s s' → Q' t t' → S (put t s) (put' t' s')) :
    Leads R S V (onPart get put n) (onPart get' put' n') := by
  intro s s' hs
  have h := hn _ _ (hget s s' hs)
  rw [run_onPart, run_onPart]
  generalize n.run (get s) = r at h
  generalize n'.run (get' s') = r' at h
  cases h with
  | ok ha ht => exact .ok ha (hput _ _ _ _ hs ht)
  | error e ht => exact .error e (hput _ _ _ _ hs ht)

end Leads

namespace Sim

theorem pure {a : α} {a' : α'} (h : V a a') :
    Sim R V (pure a : Py σ α) (pure a' : Py σ' α') := fun _ _ hs => .ok h hs

theorem raise (e : PyErr) : Sim R V (raise e : Py σ α) (Py.raise e : Py σ' α') :=
  fun _ _ hs => .error e hs

theorem get : Sim R R (get : Py σ σ) (get : Py σ' σ') := fun _ _ hs => .ok hs hs

theorem modify {f : σ → σ} {f' : σ' → σ'} (hf : ∀ s s', R s s' → R (f s) (f' s')) :
    Sim R Eq (modify f : Py σ Unit) (modify f' : Py σ' Unit) :=
  fun s s' hs => .ok rfl (hf s s' hs)

theorem bind {m : Py σ α} {m' : Py σ' α'} {f : α → Py σ β} {f' : α' → Py σ' β'}
    (hm : Sim R V m m') (hf : ∀ a a', V a a' → Sim R W (f a) (f' a')) :
    Sim R W (m >>= f) (m' >>= f') := Leads.bind hm hf fun _ _ hs => hs

/-- The rule for a sequence that goes on with the value of its first call as it is. -/
theorem bind_eq {m : Py σ α} {m' : Py σ' α} {f : α → Py σ β} {f' : α → Py σ' β'}
    (hm : Sim R Eq m m') (hf : ∀ a, Sim R W (f a) (f' a)) : Sim R W (m >>= f) (m' >>= f') :=
  hm.bind fun a _ ha => ha ▸ hf a

/-- A read of the states in which the two calls start. -/
theorem get_bind {f : σ → Py σ β} {f' : σ' → Py σ' β'}
    (hf : ∀ s s', R s s' → Sim R W (f s) (f' s')) :
    Sim R W (MonadState.get >>= f) (MonadState.get >>= f') := get.bind hf

theorem forM {f : ι → Py σ Unit} {f' : ι → Py σ' Unit} (hf : ∀ i, Sim R Eq (f i) (f' i)) :
    ∀ is : List ι, Sim R Eq (is.forM f) (is.forM f') := by
  intro is
  induction is with
  | nil => exact pure rfl
  | cons i is ih => exact (hf i).bind_eq fun _ => ih

theorem foldlM {f : α → ι → Py σ α} {f' : α' → ι → Py σ' α'}
    (hf : ∀ a a' i, V a a' → Sim R V (f a i) (f' a' i)) :
    ∀ (is : List ι) {a : α} {a' : α'}, V a a' → Sim R V (is.foldlM f a) (is.foldlM f' a') := by
  intro is
  induction is with
  | nil => intro a a' ha; exact pure ha
  | cons i is ih => intro a a' ha; exact (hf a a' i ha).bind fun b b' hb => ih hb

/-- **A call on a component** simulates if it does so on the component. -/
theorem onPart {Q : τ → τ' → Prop} {get : σ → τ} {put : τ → σ → σ} {get' : σ' → τ'}
    {put' : τ' → σ' → σ'} {m : Py τ α} {m' : Py τ' α'} (hm : Sim Q V m m')
    (hget : ∀ s s', R s s' → Q (get s) (get' s'))
    (hput : ∀ s s' t t', R s s' → Q t t' → R (put t s) (put' t' s')) :
    Sim R V (onPart get put m) (onPart get' put' m') := Leads.onPart hm hget hput

end Sim

end Sim

end Py
