import OrderRail.Queue.Monitor

/-!
# Scripts of calls on one queue

A script makes calls one after another and lets the queue come to rest after each of them: a call
that may wait runs on a thread of its own, and the next one is made only when every thread either
has its answer or is asleep inside the queue. The clock of a script stands still, except that a
call with a short time limit which has to wait is waited for.
-/

namespace OrderRail.Queue.Script

variable {P : Type}

/-- A step of a script: a call, or a look at the terms, which needs no lock. -/
inductive Step (P : Type) where
  | call (request : Request P)
  | capacity
  | expected

/-- What a step brings: its answer unless its call still waits, the counters after it, how many
calls wait, and the answers of earlier calls that ended during the step. -/
structure Row (P : Type) where
  answer : Option (Answer P)
  state : Option (Answer P)
  waiting : Nat
  released : List (Answer P)

/-- A script under way. The script's own thread is `none`; the call of the `n`-th step runs on
thread `some n` if it may wait. -/
structure Session (P : Type) where
  queue : Monitor (Option Nat) P
  clock : Instant
  journal : List Entry

/-- Let roused calls go on, the one that has waited longest first, for at most so many steps. -/
def settleWithin (now : Instant) :
    Nat → Monitor (Option Nat) P → Monitor (Option Nat) P × List (Answer P)
  | 0, queue => (queue, [])
  | steps + 1, queue =>
    match queue.waiters.find? (·.sleep ≠ .asleep) with
    | none => (queue, [])
    | some waiter =>
      match queue.resume waiter.thread now .calm with
      | none => (queue, [])
      | some (queue, answer) =>
        let (queue, answers) := settleWithin now steps queue
        (queue, answer.toList ++ answers)

/-- Let roused calls go on until every call left is asleep.

A call that goes on either ends or falls asleep without a signal, so there are at most as many steps
as this before the queue is at rest. -/
def settle (now : Instant) (queue : Monitor (Option Nat) P) :
    Monitor (Option Nat) P × List (Answer P) :=
  settleWithin now (queue.waiters.length * (queue.waiters.length + 2)) queue

/-- Whether a request can make its thread wait. -/
def mayWait : Request P → Bool
  | .submit .. => true
  | .take _ => true
  | _ => false

/-- The patience of a request. -/
def patienceOf : Request P → Patience
  | .submit _ patience => patience
  | .take patience => patience
  | _ => .endless

/-- Whether a script waits for a call of this patience: its limit is below an hour. -/
def isShort : Patience → Bool
  | .endless => false
  | .limited limit => decide (limit.toNanos < Duration.hour.toNanos)

/-- Wait for the sleeping call of a thread until its deadline. -/
def awaitDeadline (session : Session P) (thread : Option Nat) (deadline : Instant) :
    Session P × Option (Answer P) :=
  match (session.queue.rouse thread).bind (·.resume thread deadline .calm) with
  | some (queue, answer) => ({ session with queue, clock := deadline }, answer)
  | none => (session, none)

/-- Make a call, and wait for it if its time limit is short. -/
def Session.call (session : Session P) (thread : Option Nat) (request : Request P) :
    Session P × Option (Answer P) :=
  match session.queue.enter thread request session.clock session.clock .calm with
  | none => (session, none)
  | some (queue, some answer) => ({ session with queue }, some answer)
  | some (queue, none) =>
    let session := { session with queue }
    match isShort (patienceOf request), request.deadline session.clock with
    | true, some deadline => awaitDeadline session thread deadline
    | _, _ => (session, none)

/-- Enter the closing of the queue into the journal if the answer reports one. -/
def Session.record (session : Session P) : Option (Answer P) → Session P
  | some (.report report) =>
    { session with journal := session.journal ++ [⟨.lead, closedEvent report⟩] }
  | _ => session

/-- The counters as the script's own thread reads them. -/
def Session.state (session : Session P) : Option (Answer P) :=
  (session.queue.enter none .stats session.clock session.clock .calm).bind (·.2)

/-- Let the queue come to rest and draw up the row of a step with this answer. -/
def Session.rest (session : Session P) (answer : Option (Answer P)) : Session P × Row P :=
  let (queue, released) := settle session.clock session.queue
  let session := { session with queue }
  (session, { answer, state := session.state, waiting := queue.waiters.length, released })

/-- Make the `n`-th step and let the queue come to rest. -/
def Session.perform (session : Session P) (n : Nat) : Step P → Session P × Row P
  | .capacity => session.rest (some (.count session.queue.terms.capacity))
  | .expected => session.rest (some (.count session.queue.terms.expected))
  | .call request =>
    let (session, answer) := session.call (if mayWait request then some n else none) request
    (session.record answer).rest answer

/-- Make all steps from the `n`-th on. -/
def Session.performAll (session : Session P) (n : Nat) : List (Step P) → Session P × List (Row P)
  | [] => (session, [])
  | step :: steps =>
    let (session, row) := session.perform n step
    let (session, rows) := session.performAll (n + 1) steps
    (session, row :: rows)

/-- Calls that still wait at the end are freed by closing the queue. -/
def Session.finish (session : Session P) : Session P :=
  if session.queue.waiters.isEmpty then session
  else
    let (session, answer) := session.call none .close
    session.record answer

/-- Run a script on a new queue: a row for each step, and the journal. -/
def run (terms : Terms) (steps : List (Step P)) : List (Row P) × List Entry :=
  let start : Session P :=
    { queue := .opened terms, clock := 0, journal := [⟨.lead, openedEvent terms⟩] }
  let (session, rows) := start.performAll 0 steps
  (rows, session.finish.journal)

end OrderRail.Queue.Script
