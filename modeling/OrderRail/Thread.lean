import OrderRail.Error

/-!
# Threads

The lead thread starts the workers and waits for them. A worker's name is its role and its number;
whoever waits for a crashed worker gets an error with that name. A name ends at its first zero byte,
so nothing can be started under a name that holds one.
-/

namespace OrderRail

/-- What a worker does in the kitchen. -/
inductive Role where
  | customer
  | cook
  deriving DecidableEq, Repr

/-- The word for a role. -/
def Role.name : Role → String
  | .customer => "customer"
  | .cook => "cook"

/-- The name of the worker with a role and a number. -/
def workerName (role : String) (id : Nat) : String := s!"{role}-{id}"

/-- The name under which a worker is started, unless no thread can bear it. -/
def startName (role : String) (id : Nat) : Except Fault String :=
  let name := workerName role id
  let bytes := name.toUTF8.data.toList
  match bytes.idxOf? 0 with
  | some position => .error (.zeroInName position bytes)
  | none => .ok name

/-- The threads of a kitchen. -/
inductive Thread where
  | lead
  | worker (role : Role) (id : Nat)
  deriving DecidableEq, Repr

/-- The name under which a thread logs. -/
def Thread.name : Thread → String
  | .lead => "main"
  | .worker role id => workerName role.name id

/-- How a worker's thread ended. -/
inductive Ending (α : Type) where
  | returned (value : α)
  | crashed
  deriving DecidableEq, Repr

/-- The value of a worker that has ended, or an error with the name of one that crashed. -/
def Ending.join {α : Type} (name : String) : Ending α → Except RunError α
  | .returned value => .ok value
  | .crashed => .error (.workerCrashed name)

end OrderRail
