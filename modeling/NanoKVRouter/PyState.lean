/-
**Python calls: a value or an exception, and the state they leave.**

A method of the source that raises half way keeps the changes it made before, so a call is
modelled in the state-and-exception monad of the standard library, whose error results carry the
state too.  This module fixes the exceptions and the one combinator the model needs beside the
monad itself: running a call on a part of a larger state.

Main definitions:

* `PyErr` — the exception classes the program raises, with their text;
* `Py` — a call on a state;
* `Py.onPart` — a call on one component of the state;
* `Py.onExcept` — a call with an `except` clause;
* `Py.ReadOnly` — a call that leaves the state as it was;
* `EStateM.Result.state` — the state a call leaves, whether it returned or raised.

Main results:

* `Py.run_onPart` — running a call on a component;
* `Py.run_bind_ok`, `Py.run_bind_error` — a sequence, by the outcome of its first call;
* `Py.bind_eq_ok` — what a sequence that returned consists of.
-/

import Mathlib.Tactic.Common

set_option relaxedAutoImplicit false
set_option autoImplicit false

/-- The exceptions the program raises.  `structError` is that of `struct.pack`, whose text is the
library's.  `outOfFuel` is none of Python's: it marks a loop that is still running when the bound
given to its recursion is used up. -/
inductive PyErr
  | keyError (msg : String)
  | valueError (msg : String)
  | indexError (msg : String)
  | memoryError (msg : String)
  | runtimeError (msg : String)
  | assertionError (msg : String)
  | attributeError (msg : String)
  | overflowError (msg : String)
  | structError
  | outOfFuel
deriving DecidableEq, Repr

namespace PyErr

/-- `except MemoryError` catches this exception. -/
def isMemoryError : PyErr → Bool
  | memoryError _ => true
  | _ => false

/-- `except KeyError` catches this exception. -/
def isKeyError : PyErr → Bool
  | keyError _ => true
  | _ => false

/-- `except ValueError` catches this exception. -/
def isValueError : PyErr → Bool
  | valueError _ => true
  | _ => false

end PyErr

/-- A character in the `repr` of a string between `quote`s.  Only control characters of the ASCII
range are escaped. -/
def pyReprChar (quote c : Char) : List Char :=
  if c = quote ∨ c.toNat = 92 then [Char.ofNat 92, c]
  else if c.toNat = 9 then [Char.ofNat 92, 't']
  else if c.toNat = 10 then [Char.ofNat 92, 'n']
  else if c.toNat = 13 then [Char.ofNat 92, 'r']
  else if c.toNat < 32 ∨ c.toNat = 127 then
    [Char.ofNat 92, 'x', (c.toNat / 16).digitChar, (c.toNat % 16).digitChar]
  else [c]

/-- `repr` of a string: between single quotes, or between double quotes if it has a single quote in
it and no double quote. -/
def pyRepr (s : String) : String :=
  let quote := if Char.ofNat 39 ∈ s.toList ∧ Char.ofNat 34 ∉ s.toList then Char.ofNat 34
    else Char.ofNat 39
  String.ofList (quote :: s.toList.flatMap (pyReprChar quote) ++ [quote])

/-- `repr` of a list of strings. -/
def pyReprList (l : List String) : String := "[" ++ ", ".intercalate (l.map pyRepr) ++ "]"

/-- A Python call on the state `σ`. -/
abbrev Py (σ α : Type) : Type := EStateM PyErr σ α

namespace EStateM.Result

variable {ε σ α : Type}

/-- The state a call leaves behind, whether it returned or raised. -/
def state : EStateM.Result ε σ α → σ
  | .ok _ s => s
  | .error _ s => s

@[simp] theorem state_ok (a : α) (s : σ) : (EStateM.Result.ok a s : Result ε σ α).state = s := rfl

@[simp] theorem state_error (e : ε) (s : σ) :
    (EStateM.Result.error e s : Result ε σ α).state = s := rfl

/-- The call returned. -/
def isOk : EStateM.Result ε σ α → Bool
  | .ok _ _ => true
  | .error _ _ => false

/-- The exception the call raised, if any. -/
def error? : EStateM.Result ε σ α → Option ε
  | .ok _ _ => none
  | .error e _ => some e

/-- The value the call returned, if any. -/
def value? : EStateM.Result ε σ α → Option α
  | .ok a _ => some a
  | .error _ _ => none

/-- A call that returned, by what it leaves. -/
theorem exists_eq_ok {r : EStateM.Result ε σ α} (h : r.isOk = true) : ∃ a, r = .ok a r.state := by
  cases r with
  | ok a s => exact ⟨a, rfl⟩
  | error e s => cases h

/-- A call that returned a value, by what it leaves. -/
theorem eq_ok_of_value? {r : EStateM.Result ε σ α} {a : α} (h : r.value? = some a) :
    r = .ok a r.state := by
  cases r with
  | ok b s =>
      cases h
      rfl
  | error e s => cases h

/-- The call raised a `MemoryError`. -/
theorem exists_memoryError {r : EStateM.Result PyErr σ α}
    (h : r.error?.any PyErr.isMemoryError = true) : ∃ msg s, r = .error (.memoryError msg) s := by
  cases r with
  | ok a s => cases h
  | error e s =>
      cases e with
      | memoryError msg => exact ⟨msg, s, rfl⟩
      | _ => cases h

end EStateM.Result

namespace Py

variable {σ τ α β : Type}

/-- `raise e`. -/
def raise (e : PyErr) : Py σ α := fun s => .error e s

@[simp] theorem run_raise (e : PyErr) (s : σ) :
    EStateM.run (raise e : Py σ α) s = .error e s := rfl

/-- A sequence whose first call returns goes on with the second. -/
theorem run_bind_ok {x : Py σ α} {f : α → Py σ β} {s s' : σ} {a : α}
    (h : x.run s = .ok a s') : (x >>= f).run s = (f a).run s' := by
  rw [EStateM.run_bind, h]

/-- A sequence whose first call raises raises. -/
theorem run_bind_error {x : Py σ α} {f : α → Py σ β} {s s' : σ} {e : PyErr}
    (h : x.run s = .error e s') : (x >>= f).run s = .error e s' := by
  rw [EStateM.run_bind, h]

/-- A sequence that returned is two calls that returned. -/
theorem bind_eq_ok {x : Py σ α} {f : α → Py σ β} {s s' : σ} {b : β} :
    (x >>= f).run s = .ok b s' ↔ ∃ a t, x.run s = .ok a t ∧ (f a).run t = .ok b s' := by
  rw [EStateM.run_bind]
  cases h : x.run s with
  | ok a t => simp
  | error e t => simp

/-- A sequence that raised raised in one of its calls. -/
theorem bind_eq_error {x : Py σ α} {f : α → Py σ β} {s s' : σ} {e : PyErr} :
    (x >>= f).run s = .error e s' ↔
      x.run s = .error e s' ∨ ∃ a t, x.run s = .ok a t ∧ (f a).run t = .error e s' := by
  rw [EStateM.run_bind]
  cases h : x.run s with
  | ok a t => simp
  | error e t => simp

theorem run_get_bind (f : σ → Py σ β) (s : σ) : (get >>= f).run s = (f s).run s := rfl

theorem run_modify_bind (g : σ → σ) (f : Unit → Py σ β) (s : σ) :
    (modify g >>= f).run s = (f ()).run (g s) := rfl

/-- A loop over a list starts with its first entry. -/
theorem run_forM_cons (f : α → Py σ Unit) (a : α) (as : List α) (s : σ) :
    ((a :: as).forM f).run s = (f a >>= fun _ => as.forM f).run s := rfl

/-- A call that leaves the state as it was, whether it returned or raised. -/
def ReadOnly (m : Py σ α) : Prop := ∀ s, (m.run s).state = s

/-- Run a call on the component `get s` of the state. -/
def onPart (get : σ → τ) (put : τ → σ → σ) (m : Py τ α) : Py σ α := fun s =>
  match m (get s) with
  | .ok a t => .ok a (put t s)
  | .error e t => .error e (put t s)

theorem run_onPart (get : σ → τ) (put : τ → σ → σ) (m : Py τ α) (s : σ) :
    (onPart get put m).run s =
      match m.run (get s) with
      | .ok a t => .ok a (put t s)
      | .error e t => .error e (put t s) := rfl

/-- Reading a component leaves the whole state as it was. -/
theorem ReadOnly.onPart {get : σ → τ} {put : τ → σ → σ} {m : Py τ α} (h : m.ReadOnly)
    (hput : ∀ s, put (get s) s = s) : (Py.onPart get put m).ReadOnly := by
  intro s
  have hs := h (get s)
  rw [run_onPart]
  cases hm : m.run (get s) with
  | ok a t =>
      rw [hm, EStateM.Result.state_ok] at hs
      simp [hs, hput]
  | error e t =>
      rw [hm, EStateM.Result.state_error] at hs
      simp [hs, hput]

/-- `try: m except …: handler`, for the exceptions `p` catches. -/
def onExcept (p : PyErr → Bool) (m handler : Py σ α) : Py σ α := fun s =>
  match m s with
  | .ok a t => .ok a t
  | .error e t => if p e then handler t else .error e t

theorem run_onExcept (p : PyErr → Bool) (m handler : Py σ α) (s : σ) :
    (onExcept p m handler).run s =
      match m.run s with
      | .ok a t => .ok a t
      | .error e t => if p e then handler.run t else .error e t := rfl

theorem run_onPart_ok {get : σ → τ} {put : τ → σ → σ} {m : Py τ α} {s : σ} {a : α} {t : τ}
    (h : m.run (get s) = .ok a t) : (onPart get put m).run s = .ok a (put t s) := by
  rw [run_onPart, h]

theorem run_onPart_error {get : σ → τ} {put : τ → σ → σ} {m : Py τ α} {s : σ} {e : PyErr} {t : τ}
    (h : m.run (get s) = .error e t) : (onPart get put m).run s = .error e (put t s) := by
  rw [run_onPart, h]

/-- A call on a component that returned is a call that returned there. -/
theorem run_onPart_eq_ok {get : σ → τ} {put : τ → σ → σ} {m : Py τ α} {s s' : σ} {a : α} :
    (onPart get put m).run s = .ok a s' ↔ ∃ t, m.run (get s) = .ok a t ∧ s' = put t s := by
  rw [run_onPart]
  cases h : m.run (get s) with
  | ok b t => simp [eq_comm]
  | error e t => simp

/-- A `try` statement returns from its body or from its handler. -/
theorem run_onExcept_eq_ok {p : PyErr → Bool} {m handler : Py σ α} {s s' : σ} {a : α} :
    (onExcept p m handler).run s = .ok a s' ↔
      m.run s = .ok a s' ∨ ∃ e t, m.run s = .error e t ∧ p e = true ∧ handler.run t = .ok a s' := by
  rw [run_onExcept]
  cases h : m.run s with
  | ok b t => simp
  | error e t =>
      by_cases hp : p e = true
      · simp [hp]
      · simp [hp]

end Py
