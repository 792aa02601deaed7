/-
**Systems of calls, and what an observer sees of them.**

A system answers the calls of an interface one after the other.  An observer who sees only some of
the calls, and these through a view, may take the system for another one that is given the calls as
seen: that is so if a hidden call leaves no trace in what relates the two states, and a call that is
shown simulates the call it is seen as.  Then whole sequences of calls agree as well, in the state
and in every answer that is seen, however the hidden calls are spread over the sequence.

Main definitions:

* `Py.served`, `Py.answers` — a sequence of calls, with the answers;
* `Py.Agrees` — two outcomes with related values, or with the same exception;
* `Py.Shows` — the view shows the first system as the second one.

Main results:

* `Py.Shows.served` — **the states agree** after any sequence;
* `Py.Shows.answers` — **the answers agree** for all calls that are seen.
-/

import NanoKVRouter.PyRelations

set_option relaxedAutoImplicit false
set_option autoImplicit false

namespace Py

variable {σ σ' α α' ι ι' : Type}

/-! ### Sequences of calls -/

/-- The state after a sequence of calls, whether they returned or raised. -/
def served (call : ι → Py σ α) (is : List ι) (s : σ) : σ :=
  is.foldl (fun s i => ((call i).run s).state) s

/-- The calls of a sequence, each with what its caller saw. -/
def answers (call : ι → Py σ α) : List ι → σ → List (ι × Except PyErr α)
  | [], _ => []
  | i :: is, s => (i, outcome ((call i).run s)) :: answers call is ((call i).run s).state

theorem served_cons (call : ι → Py σ α) (i : ι) (is : List ι) (s : σ) :
    served call (i :: is) s = served call is ((call i).run s).state := rfl

/-- Two outcomes agree: their values are related, or they are the same exception. -/
inductive Agrees (V : α → α' → Prop) : Except PyErr α → Except PyErr α' → Prop
  | ok {a : α} {a' : α'} : V a a' → Agrees V (.ok a) (.ok a')
  | error (e : PyErr) : Agrees V (.error e) (.error e)

theorem Alike.agrees {R : σ → σ' → Prop} {V : α → α' → Prop} {r : EStateM.Result PyErr σ α}
    {r' : EStateM.Result PyErr σ' α'} (h : Alike R V r r') : Agrees V (outcome r) (outcome r') := by
  cases h with
  | ok ha _ => exact .ok ha
  | error e _ => exact .error e

/-! ### Views -/

/-- The view shows the system of the calls `call` as the system of the calls `call'`: what it hides
does not matter to the second system, and what it shows goes on there alike. -/
structure Shows (call : ι → Py σ α) (call' : ι' → Py σ' α') (view : ι → Option ι')
    (R : σ → σ' → Prop) (V : α → α' → Prop) : Prop where
  hidden : ∀ i, view i = none → ∀ s', Keeps (fun s => R s s') (call i)
  shown : ∀ i j, view i = some j → Sim R V (call i) (call' j)

namespace Shows

variable {call : ι → Py σ α} {call' : ι' → Py σ' α'} {view : ι → Option ι'} {R : σ → σ' → Prop}
  {V : α → α' → Prop}

/-- **The states agree** after a sequence of calls and the calls seen of it. -/
theorem served (h : Shows call call' view R V) : ∀ (is : List ι) {s : σ} {s' : σ'}, R s s' →
    R (Py.served call is s) (Py.served call' (is.filterMap view) s') := by
  intro is
  induction is with
  | nil => intro s s' hs; exact hs
  | cons i is ih =>
      intro s s' hs
      rw [served_cons]
      cases hi : view i with
      | none =>
          rw [List.filterMap_cons_none hi]
          exact ih (h.hidden i hi s' s hs)
      | some j =>
          rw [List.filterMap_cons_some hi, served_cons]
          exact ih (h.shown i j hi s s' hs).state

/-- **The answers agree**: the calls seen of a sequence are answered as if there were no others. -/
theorem answers (h : Shows call call' view R V) : ∀ (is : List ι) {s : σ} {s' : σ'}, R s s' →
    List.Forall₂ (fun e e' => view e.1 = some e'.1 ∧ Agrees V e.2 e'.2)
      ((Py.answers call is s).filter fun e => (view e.1).isSome)
      (Py.answers call' (is.filterMap view) s') := by
  intro is
  induction is with
  | nil => intro s s' _; exact .nil
  | cons i is ih =>
      intro s s' hs
      rw [Py.answers, List.filter_cons]
      cases hi : view i with
      | none =>
          rw [List.filterMap_cons_none hi]
          exact ih (h.hidden i hi s' s hs)
      | some j =>
          rw [List.filterMap_cons_some hi, Py.answers]
          have hcall := h.shown i j hi s s' hs
          exact .cons ⟨hi, hcall.agrees⟩ (ih hcall.state)

end Shows

end Py
