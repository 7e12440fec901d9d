import BoundedScript.RuntimeError

/-! # The ceiling of a loop

Every execution of a loop counts its own iterations. Nested loops, and a loop that is started again,
have separate counts.
-/

namespace BoundedScript

structure LoopGuard where
  limit : Nat
  line : Nat
  count : Nat := 0
  deriving DecidableEq, Repr

namespace LoopGuard

def advance (guard : LoopGuard) : LoopGuard := { guard with count := guard.count + 1 }

/-- Whether the iterations counted so far are allowed. -/
def Allows (guard : LoopGuard) : Prop := guard.count ≤ guard.limit

instance (guard : LoopGuard) : Decidable guard.Allows := inferInstanceAs (Decidable (_ ≤ _))

def exceeded (guard : LoopGuard) : RuntimeError := ⟨.loopLimit guard.limit, guard.line⟩

/-- Counts one more iteration and fails if it is not allowed. The count grows in either case. -/
def tick (guard : LoopGuard) : Except RuntimeError Unit × LoopGuard :=
  (if guard.advance.Allows then .ok () else .error guard.exceeded, guard.advance)

end LoopGuard

end BoundedScript
