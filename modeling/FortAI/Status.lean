import Mathlib.Data.List.Basic

/-!
# Status codes

The codes of `fortai_status`.  `FORTAI_OK` is the success case of an `Except Fault`.
-/

namespace FortAI

/-- The status codes other than `FORTAI_OK`. -/
inductive Fault
  | invalid
  | unsupported
  | ioError
  | outOfMemory
  /-- A device call failed at run time; never to be retried on a fallback path. -/
  | deviceError
  deriving DecidableEq, Repr

end FortAI
