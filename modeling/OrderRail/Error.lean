import OrderRail.Duration
import OrderRail.Fault

/-!
# Errors

Errors are the refusals that a caller is expected to handle, as opposed to faults. Each kind is a
list of causes; one function gives its text and another the texts of the causes behind it, from
the nearest to the farthest.
-/

namespace OrderRail

/-- Why room for one more order could not be had. -/
inductive StorageError where
  | tooLarge
  | exhausted
  deriving DecidableEq, Repr

/-- The text of a storage error. -/
def StorageError.message : StorageError → String
  | .tooLarge =>
    "memory allocation failed because the computed capacity exceeded the collection's maximum"
  | .exhausted =>
    "memory allocation failed because the memory allocator returned an error"

/-- What the queue refuses. -/
inductive QueueError where
  /-- A queue without room could never accept an order. -/
  | zeroCapacity
  /-- Every expected order has been accepted already. -/
  | oversubscribed (expected : Nat)
  /-- There was no room for one more order. -/
  | allocation (cause : StorageError)
  /-- The time limit of the call has passed. -/
  | timedOut (limit : Duration)
  deriving DecidableEq, Repr

/-- The text of a queue error. -/
def QueueError.message : QueueError → String
  | .zeroCapacity => "queue capacity must be > 0"
  | .oversubscribed expected => s!"all {expected} expected orders were already submitted"
  | .allocation cause => "failed to reserve queue storage: " ++ cause.message
  | .timedOut limit => "timed out after " ++ limit.text

/-- The causes behind a queue error. -/
def QueueError.causes : QueueError → List String
  | .allocation cause => [cause.message]
  | _ => []

/-- A submission that was not accepted, with the payload handed back. -/
structure Rejected (P : Type) where
  payload : P
  reason : QueueError
  deriving DecidableEq, Repr

/-- The text of a rejection. -/
def Rejected.message {P : Type} (r : Rejected P) : String :=
  "order rejected: " ++ r.reason.message

/-- The causes behind a rejection. -/
def Rejected.causes {P : Type} (r : Rejected P) : List String :=
  r.reason.message :: r.reason.causes

/-- What is wrong with the parameters of a run. -/
inductive ConfigError where
  | zero (name : String)
  | emptySet (name : String)
  deriving DecidableEq, Repr

/-- The text of a parameter error. -/
def ConfigError.message : ConfigError → String
  | .zero name => name ++ " must be > 0"
  | .emptySet name => name ++ " set must not be empty"

/-- What ends a run without a report. -/
inductive RunError where
  | config (error : ConfigError)
  | queue (error : QueueError)
  | spawn (role : String) (cause : String)
  | workerCrashed (name : String)
  | rejected (customer : Nat) (reason : QueueError)
  deriving DecidableEq, Repr

/-- The text of a run error; parameter and queue errors speak for themselves. -/
def RunError.message : RunError → String
  | .config error => error.message
  | .queue error => error.message
  | .spawn role cause => "failed to spawn " ++ role ++ " thread: " ++ cause
  | .workerCrashed name => name ++ " thread panicked"
  | .rejected customer reason =>
    s!"order from customer {customer} rejected: " ++ reason.message

/-- The causes behind a run error. -/
def RunError.causes : RunError → List String
  | .config _ => []
  | .queue error => error.causes
  | .spawn _ cause => [cause]
  | .workerCrashed _ => []
  | .rejected _ reason => reason.message :: reason.causes

/-- Why a run gave no result. -/
inductive Failure where
  /-- An error that was foreseen. -/
  | error (cause : RunError)
  /-- A fault that nobody handled. -/
  | fault (cause : Fault)
  /-- The run was cut off before it came to an end. -/
  | unfinished
  deriving DecidableEq, Repr

end OrderRail
