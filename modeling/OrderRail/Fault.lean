import OrderRail.Text.Bracketed

/-!
# Faults

A fault ends the thread that meets it; it is a mistake of the program's user or a number beyond
its limits, never a normal answer. A fault met while holding the queue's lock breaks the lock for
everybody else, which two of the causes report.
-/

namespace OrderRail

/-- The causes for which a thread stops at once. -/
inductive Fault where
  /-- A counter would pass its largest value. -/
  | addOverflow
  /-- A product does not fit a counter. -/
  | mulOverflow
  /-- A list is asked for that no memory could address. -/
  | storageOverflow
  /-- The allocator refuses a list of so many bytes, which ends the whole program. -/
  | outOfMemory (bytes : Nat)
  /-- A call entered, or woke up in, a queue that has been closed. -/
  | usedAfterClose
  /-- A closed queue was closed again. -/
  | closedTwice
  /-- A call found the lock broken on entry. -/
  | lockBroken
  /-- A call found the lock broken as it woke up. -/
  | waitBroken
  /-- A thread's name has a zero byte in it; `position` is that of the first one. -/
  | zeroInName (position : Nat) (bytes : List UInt8)
  deriving DecidableEq, Repr

/-- The text of a fault. -/
def Fault.message : Fault → String
  | .addOverflow => "attempt to add with overflow"
  | .mulOverflow => "attempt to multiply with overflow"
  | .storageOverflow => "capacity overflow"
  | .outOfMemory bytes => s!"memory allocation of {bytes} bytes failed"
  | .usedAfterClose => "order queue used after close"
  | .closedTwice => "order queue closed twice"
  | .lockBroken => "order queue mutex poisoned: PoisonError \x7b .. \x7d"
  | .waitBroken => "condvar wait failed: PoisonError \x7b .. \x7d"
  | .zeroInName position bytes =>
    "thread name may not contain interior null bytes: NulError(" ++ toString position ++ ", " ++
      bracketed (bytes.map UInt8.toNat) ++ ")"

end OrderRail
