import Mathlib.Algebra.Order.Ring.Int
import Mathlib.Data.List.Basic

/-!
# Status codes, failures and exceptions of the media service

`Failure` carries the gRPC status a caller sees; the other exceptions are the
standard library's, which the service maps to a status at its outermost handler.
-/

namespace GrpcAsr.Media

set_option autoImplicit false

abbrev Bytes := List UInt8

inductive StatusCode
  | ok | cancelled | unknown | invalidArgument | deadlineExceeded | notFound | alreadyExists
  | permissionDenied | resourceExhausted | failedPrecondition | aborted | outOfRange
  | unimplemented | internal | unavailable | dataLoss | unauthenticated
  deriving DecidableEq, Repr

def StatusCode.value : StatusCode → Nat
  | ok => 0
  | cancelled => 1
  | unknown => 2
  | invalidArgument => 3
  | deadlineExceeded => 4
  | notFound => 5
  | alreadyExists => 6
  | permissionDenied => 7
  | resourceExhausted => 8
  | failedPrecondition => 9
  | aborted => 10
  | outOfRange => 11
  | unimplemented => 12
  | internal => 13
  | unavailable => 14
  | dataLoss => 15
  | unauthenticated => 16

theorem StatusCode.value_eq_zero (code : StatusCode) : code.value = 0 ↔ code = .ok := by
  cases code <;> simp [StatusCode.value]

structure Failure where
  code : StatusCode
  message : String
  deriving DecidableEq, Repr

def require (condition : Bool) (code : StatusCode) (message : String) : Except Failure Unit :=
  if condition then .ok () else .error ⟨code, message⟩

@[simp] theorem require_true (code : StatusCode) (message : String) :
    require true code message = .ok () := rfl

theorem require_eq_ok {condition : Bool} {code : StatusCode} {message : String} :
    require condition code message = .ok () ↔ condition = true := by
  cases condition <;> simp [require]

theorem bind_eq_ok {ε α β : Type} {x : Except ε α} {f : α → Except ε β} {b : β}
    (h : x >>= f = .ok b) : ∃ a, x = .ok a ∧ f a = .ok b := by
  cases x with
  | error e => cases h
  | ok a => exact ⟨a, rfl, h⟩

theorem mem_mapM_ok {ε α β : Type} {f : α → Except ε β} {xs : List α} {ys : List β}
    (h : xs.mapM f = .ok ys) : ∀ y ∈ ys, ∃ x ∈ xs, f x = .ok y := by
  induction xs generalizing ys with
  | nil =>
    cases h
    simp
  | cons x xs ih =>
    rw [List.mapM_cons] at h
    obtain ⟨b, hFirst, h⟩ := bind_eq_ok h
    obtain ⟨bs, hRest, h⟩ := bind_eq_ok h
    cases h
    intro y hy
    rcases List.mem_cons.mp hy with rfl | hy
    · exact ⟨x, List.mem_cons_self, hFirst⟩
    · obtain ⟨x', hx', hOk⟩ := ih hRest y hy
      exact ⟨x', List.mem_cons_of_mem _ hx', hOk⟩

inductive Exception
  | failure (error : Failure)
  | invalidArgument (what : String)
  | logicError (what : String)
  | lengthError (what : String)
  | runtimeError (what : String)
  deriving DecidableEq, Repr

/-- The status text a caller sees: an exception other than `Failure` never leaks its text. -/
structure Status where
  code : StatusCode
  message : String
  deriving DecidableEq, Repr

def Status.OK : Status := ⟨.ok, ""⟩

def Status.isOk (status : Status) : Bool := status.code == .ok

/-- The difference of two sizes, which wraps around below zero. -/
def sizeSub (left right : Nat) : Nat := if right ≤ left then left - right else left + 2 ^ 64 - right

end GrpcAsr.Media
