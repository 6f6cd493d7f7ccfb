import Mathlib.Init

/-!
# How a call ends when it does not return

The C++ code ends a call by a `VMApi::Error` (which the callers catch), by another exception, by a
failed `assert`, or by undefined behaviour. A `std::string` is its bytes.
-/

namespace Odb

/-- The bytes of a `std::string`, of a `char` array or of a register. -/
abbrev Bytes := List UInt8

/-- The bytes of a string literal of the source (all of them ASCII). -/
def lit (s : String) : Bytes := s.toList.map fun c => c.toNat.toUInt8

inductive Fault where
  /-- A `VMApi::Error`, with its message. -/
  | vmError (msg : Bytes)
  /-- An exception of the standard library (`std::length_error`, `std::bad_alloc`). -/
  | stdException
  /-- An `assert` that does not hold. -/
  | assertFail
  /-- Undefined behaviour: an access outside an object. -/
  | undefined
deriving DecidableEq, Repr

/-- `assert(p)`. -/
def assertThat (p : Prop) [Decidable p] : Except Fault Unit :=
  if p then .ok () else .error .assertFail

/-- `std::vector::resize` and `std::string::resize`: beyond `max_size()` they throw
`std::length_error`. -/
def resize {α : Type} (maxSize : Nat) (xs : List α) (n : Nat) (x : α) : Except Fault (List α) :=
  if n ≤ maxSize then .ok (xs.take n ++ List.replicate (n - xs.length) x)
  else .error .stdException

/-- `max_size()` of a vector or a string of bytes. -/
def maxBytes : Nat := 0x7FFFFFFFFFFFFFFF

@[simp] theorem ok_bind {ε α β : Type} (a : α) (f : α → Except ε β) : (Except.ok a >>= f) = f a := rfl

@[simp] theorem error_bind {ε α β : Type} (e : ε) (f : α → Except ε β) :
    (Except.error e >>= f) = .error e := rfl

@[simp] theorem assertThat_eq_ok {p : Prop} [Decidable p] {u : Unit} :
    assertThat p = .ok u ↔ p := by
  unfold assertThat
  split <;> simp_all

theorem assertThat_pos {p : Prop} [Decidable p] (h : p) : assertThat p = .ok () := if_pos h

end Odb
