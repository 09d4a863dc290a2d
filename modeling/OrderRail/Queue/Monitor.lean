import OrderRail.Queue.Board

/-!
# The order queue as threads see it

A queue is a board behind a lock, with two conditions on which calls wait. This file says which
steps are possible. Every critical section is one step: a thread enters with a request, or comes
back from waiting. Between the two a waiting call is either asleep or roused, and it may be roused
by a signal, by its time limit or for no reason at all; nothing is assumed about the order in which
roused calls get the lock, or about which sleeper a signal reaches.

A section that fails breaks the lock. From then on every call that needs the lock fails as well.

The clock is an argument of each step and need not be monotone, and so is chance: the sleeper that a
signal reaches, and the answer of the allocator.
-/

namespace OrderRail.Queue

/-- What the surroundings decide about one section. -/
structure Chance where
  /-- Selects the sleeper that a signal for a single one reaches. -/
  sleeper : Nat
  /-- Why the allocator would refuse room for one more order, if it would. -/
  shortage : Option StorageError
  deriving DecidableEq, Repr

/-- The longest sleeper is reached first, and memory is never short. -/
def Chance.calm : Chance := ⟨0, none⟩

/-- The clock counts seconds in 63 bits; no reading reaches this many nanoseconds. -/
def clockRange : Nat := 9223372036854775808 * Duration.nanosPerSecond

/-- How long a call is ready to wait. -/
inductive Patience where
  | endless
  | limited (limit : Duration)
  deriving DecidableEq, Repr

/-- When the patience of a call that starts at `start` ends; a moment that the clock cannot show
never comes. -/
def Patience.deadline (start : Instant) : Patience → Option Instant
  | .endless => none
  | .limited limit =>
    if start + limit.toNanos < clockRange then some (start + limit.toNanos) else none

/-- Whether a deadline has come. -/
def reached (now : Instant) : Option Instant → Bool
  | none => false
  | some deadline => decide (deadline ≤ now)

/-- What a thread asks of the queue. -/
inductive Request (P : Type) where
  | submit (payload : P) (patience : Patience)
  | take (patience : Patience)
  | tryTake
  | close
  | length
  | isEmpty
  | stats
  deriving DecidableEq, Repr

/-- When the patience of a request ends. -/
def Request.deadline {P : Type} (start : Instant) : Request P → Option Instant
  | .submit _ patience => patience.deadline start
  | .take patience => patience.deadline start
  | _ => none

/-- What a thread gets. -/
inductive Answer (P : Type) where
  | accepted (number : Nat)
  | rejected (rejection : Rejected P)
  | order (order : Order P)
  | endOfWork
  | timedOut (limit : Duration)
  | wouldBlock
  | report (report : CloseReport)
  | count (count : Nat)
  | isEmpty (empty : Bool)
  | stats (stats : Stats)
  | fault (fault : Fault)
  deriving DecidableEq, Repr

/-- The answer to a submission. -/
def Answer.ofSubmit {P : Type} : Except (Rejected P) Nat → Answer P
  | .ok number => .accepted number
  | .error rejection => .rejected rejection

/-- The answer to a taker. -/
def Answer.ofTake {P : Type} : Take P → Answer P
  | .order taken => .order taken
  | .endOfWork => .endOfWork

/-- The answer to a taker with a time limit. -/
def Answer.ofTakeTimeout {P : Type} : Except Duration (Take P) → Answer P
  | .ok taken => .ofTake taken
  | .error limit => .timedOut limit

/-- The answer to a taker that does not wait. -/
def Answer.ofTryTake {P : Type} : Option (Take P) → Answer P
  | some taken => .ofTake taken
  | none => .wouldBlock

/-- The section of a request on the board that it finds. A limited call whose deadline the clock
cannot show is the unlimited one. The counters can be read at any time. -/
def Request.attempt {P : Type} (terms : Terms) (deadline : Option Instant) (now : Instant)
    (shortage : Option StorageError) (board : Board P) : Request P → Section P (Answer P)
  | .submit payload patience =>
    match patience, deadline with
    | .limited limit, some deadline =>
      (board.whileOpen (board.submitTimeout terms deadline now limit shortage payload)).map
        .ofSubmit
    | _, _ => (board.whileOpen (board.submit terms shortage payload)).map .ofSubmit
  | .take patience =>
    match patience, deadline with
    | .limited limit, some deadline =>
      (board.whileOpen (board.takeTimeout terms deadline now limit)).map .ofTakeTimeout
    | _, _ => (board.whileOpen (board.take terms)).map .ofTake
  | .tryTake => (board.whileOpen (board.tryTake terms)).map .ofTryTake
  | .close => (board.close terms).map .report
  | .length => .finish (.count board.pending.size) board []
  | .isEmpty => .finish (.isEmpty board.pending.isEmpty) board []
  | .stats => .finish (.stats (board.stats terms)) board []

/-- Whether a waiting call still sleeps; one that does not waits for the lock. -/
inductive Sleep where
  | asleep
  /-- Awake, and whether a signal did it. -/
  | roused (signalled : Bool)
  deriving DecidableEq, Repr

/-- A call that waits inside the queue. -/
structure Waiter (T P : Type) where
  thread : T
  request : Request P
  condition : Condition
  deadline : Option Instant
  sleep : Sleep
  deriving DecidableEq, Repr

namespace Waiter

variable {T P : Type}

/-- Whether a signal on a condition can reach this waiter. -/
def sleepsOn (condition : Condition) (waiter : Waiter T P) : Bool :=
  waiter.sleep == .asleep && waiter.condition == condition

/-- The waiter after a signal has reached it. -/
def signalled (waiter : Waiter T P) : Waiter T P := { waiter with sleep := .roused true }

end Waiter

/-- Signal the sleeper on a condition that has `skip` others before it. -/
def signalNth {T P : Type} (condition : Condition) :
    Nat → List (Waiter T P) → List (Waiter T P)
  | _, [] => []
  | skip, waiter :: rest =>
    if waiter.sleepsOn condition then
      match skip with
      | 0 => waiter.signalled :: rest
      | skip + 1 => waiter :: signalNth condition skip rest
    else waiter :: signalNth condition skip rest

/-- Deliver a signal. One that is meant for a single sleeper reaches the one that `choice` selects,
if anybody sleeps; every sleeper is selected by some choice. -/
def Signal.deliver {T P : Type} (choice : Nat) (waiters : List (Waiter T P)) :
    Signal → List (Waiter T P)
  | .one condition =>
    signalNth condition (choice % (waiters.countP (·.sleepsOn condition))) waiters
  | .all condition =>
    waiters.map fun waiter => if waiter.sleepsOn condition then waiter.signalled else waiter

/-- An order queue and the calls that wait inside it, in the order in which they came to wait. -/
structure Monitor (T P : Type) where
  terms : Terms
  board : Board P
  /-- A call has failed while it held the lock. -/
  broken : Bool
  waiters : List (Waiter T P)

namespace Monitor

variable {T P : Type} [DecidableEq T]

/-- A queue that has just been opened. -/
def opened (terms : Terms) : Monitor T P :=
  { terms, board := .fresh, broken := false, waiters := [] }

/-- The call of a thread that waits inside the queue. -/
def waiting? (queue : Monitor T P) (thread : T) : Option (Waiter T P) :=
  queue.waiters.find? (·.thread = thread)

/-- The queue without the waiting call of a thread. -/
def without (queue : Monitor T P) (thread : T) : Monitor T P :=
  { queue with waiters := queue.waiters.filter (·.thread ≠ thread) }

/-- Run the section of a request. The thread gets an answer, or it joins the sleepers. -/
def proceed (queue : Monitor T P) (thread : T) (request : Request P) (deadline : Option Instant)
    (now : Instant) (chance : Chance) : Monitor T P × Option (Answer P) :=
  match request.attempt queue.terms deadline now chance.shortage queue.board with
  | .finish answer board signals =>
    ({ queue with board, waiters := signals.foldl (Signal.deliver chance.sleeper) queue.waiters },
      some answer)
  | .wait condition =>
    ({ queue with
        waiters := queue.waiters ++ [⟨thread, request, condition, deadline, .asleep⟩] }, none)
  | .fail fault board => ({ queue with board, broken := true }, some (.fault fault))

/-- A thread that is not inside the queue calls it. The call starts at `start` and gets the lock at
`now`. -/
def enter (queue : Monitor T P) (thread : T) (request : Request P) (start now : Instant)
    (chance : Chance) : Option (Monitor T P × Option (Answer P)) :=
  if (queue.waiting? thread).isSome then none
  else if queue.broken then some (queue, some (.fault .lockBroken))
  else some (queue.proceed thread request (request.deadline start) now chance)

/-- A sleeping call wakes up without a signal. -/
def rouse (queue : Monitor T P) (thread : T) : Option (Monitor T P) :=
  match queue.waiting? thread with
  | some { sleep := .asleep, .. } =>
    some { queue with
      waiters := queue.waiters.map fun waiter =>
        if waiter.thread = thread then { waiter with sleep := .roused false } else waiter }
  | _ => none

/-- A roused call gets the lock back and decides again. -/
def resume (queue : Monitor T P) (thread : T) (now : Instant) (chance : Chance) :
    Option (Monitor T P × Option (Answer P)) :=
  match queue.waiting? thread with
  | some { request, deadline, sleep := .roused _, .. } =>
    let queue := queue.without thread
    if queue.broken then some (queue, some (.fault .waitBroken))
    else some (queue.proceed thread request deadline now chance)
  | _ => none

end Monitor

/-- The steps of a queue. -/
inductive Move (T P : Type) where
  | enter (thread : T) (request : Request P) (start now : Instant) (chance : Chance)
  | rouse (thread : T)
  | resume (thread : T) (now : Instant) (chance : Chance)

/-- The thread that makes a step. -/
def Move.thread {T P : Type} : Move T P → T
  | .enter thread .. => thread
  | .rouse thread => thread
  | .resume thread .. => thread

/-- Make a step, if it is possible. The thread may get its answer. -/
def Monitor.step {T P : Type} [DecidableEq T] (queue : Monitor T P) :
    Move T P → Option (Monitor T P × Option (Answer P))
  | .enter thread request start now chance => queue.enter thread request start now chance
  | .rouse thread => (queue.rouse thread).map (·, none)
  | .resume thread now chance => queue.resume thread now chance

end OrderRail.Queue
