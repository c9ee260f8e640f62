import TynKernel.Sched.Identity
import TynKernel.Sched.Waiters

/-!
The end of a thread. A clone with CLONE_CHILD_CLEARTID asks the kernel to store zero to a word
and to wake a waiter on it when the new thread ends.
-/
namespace TynKernel.Sched
open List Runs

def awaits (k : Kernel) (u p : Nat) : Bool :=
  (k.threads u).any fun r => r.state = .blocked ∧ r.futexAddr = p ∧ r.futexVal ≠ 0

def Pc.committed : Pc → Option (Nat × Nat)
  | .waitValve _ addr val _ | .waitMark _ addr val _ => some (addr, val)
  | _ => none

section Awaits
variable {k k' : Kernel} {q q' : Pc} {u t p c : Nat} {s s' : System} {a : Action}

end Awaits

section Exit
variable {n : Nat} {past : List (System × Action)} {s s' : System} {c t : Nat}

section
variable (run : Run step (boot n) past s) (exits : s.pc c = .exitQueue t)
  (taken : step s (.cpu c) = some s')
include run exits taken

end

end Exit

/-- When thread t ends, the word is zero already, no other thread sleeps on it waiting for that,
    and none is about to. -/
structure Settles (s : System) (t p : Nat) : Prop where
  zero : s.kernel.mem p = 0
  asleep : ∀ u, u ≠ t → awaits s.kernel u p = false
  committed : ∀ d val, (s.pc d).committed = some (p, val) → val = 0

end TynKernel.Sched
