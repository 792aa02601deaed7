/-
**Requests.**

A request carries what the schedulers and the event handlers read: its prompt, the output length
it is expected to produce, and the service-level targets it was stamped with.

Main definitions:

* `Request` — a single inference request.
-/

import NanoKVRouter.Config

set_option relaxedAutoImplicit false
set_option autoImplicit false

namespace NanoKVRouter

/-- A single inference request flowing through the simulator. -/
structure Request where
  requestId : RequestId
  tokenIds : List Token
  expectedOutputLen : ℤ
  arrivalTime : Time
  sloTtft : Time
  sloTbt : Time
deriving DecidableEq

end NanoKVRouter
