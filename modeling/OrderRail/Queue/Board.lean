import OrderRail.Count
import OrderRail.Error
import OrderRail.Fifo
import OrderRail.Journal
import OrderRail.Order

/-!
# The board of an order queue

The board is everything that the lock of an order queue protects: the pending orders, oldest
first, and the counters. This file describes what one holder of the lock does, from taking the
lock to releasing it. Such a section ends with a value, or finds that it has to wait for a
condition, or fails under the lock. Sections never look at who else is waiting; they only say whom
to signal.

A queue is opened for a fixed number of orders. Submissions beyond that number are refused, and
takers are told that work has ended once that many orders have been handed out; an empty queue
alone never ends the work.

What a section cannot know is given to it: the reading of the clock, and what the allocator would
answer if it were asked for room for one more order. Room that has been used is kept, so the
allocator is asked only when as many orders are pending as there have ever been at once.
-/

namespace OrderRail.Queue

/-- A reading of the clock, in nanoseconds. -/
abbrev Instant := Nat

/-- The terms on which a queue is opened. -/
structure Terms where
  capacity : Nat
  expected : Nat
  capacity_pos : 0 < capacity
  expected_lt : expected < Count.wordSize

/-- Terms for a queue of at least one place. -/
def Terms.ofSizes (capacity expected : UInt64) : Except QueueError Terms :=
  if h : 0 < capacity.toNat then
    .ok ⟨capacity.toNat, expected.toNat, h, expected.toNat_lt⟩
  else .error .zeroCapacity

/-- What a call can wait for. -/
inductive Condition where
  | notFull
  | notEmpty
  deriving DecidableEq, Repr

/-- Whom a section wakes as it ends: one of those waiting for a condition, or all of them. -/
inductive Signal where
  | one (condition : Condition)
  | all (condition : Condition)
  deriving DecidableEq, Repr

/-- The state under the lock. -/
structure Board (P : Type) where
  /-- Accepted orders that nobody has taken yet, oldest first. -/
  pending : Fifo (Order P)
  /-- The number that the next accepted order gets. -/
  nextNumber : Nat
  /-- How many orders have been handed out. -/
  handled : Nat
  /-- The largest number of pending orders so far. -/
  peak : Nat
  closed : Bool
  deriving DecidableEq, Repr

/-- How a section ends. -/
inductive Section (P α : Type) where
  /-- The call has its value. -/
  | finish (value : α) (board : Board P) (signals : List Signal)
  /-- The call has to wait; the board is left as it was found. -/
  | wait (condition : Condition)
  /-- The call fails while it holds the lock. -/
  | fail (fault : Fault) (board : Board P)

/-- Change the value of a section. -/
def Section.map {P α β : Type} (f : α → β) : Section P α → Section P β
  | .finish value board signals => .finish (f value) board signals
  | .wait condition => .wait condition
  | .fail fault board => .fail fault board

/-- What a taker gets. -/
inductive Take (P : Type) where
  | order (order : Order P)
  | endOfWork
  deriving DecidableEq, Repr

/-- The final accounts of a queue. -/
structure CloseReport where
  expected : Nat
  submitted : Nat
  handled : Nat
  /-- Orders that were still pending and are dropped. -/
  leftover : Nat
  deriving DecidableEq, Repr

/-- The accounts balance when every expected order was handed out and none is left. -/
def CloseReport.balanced (report : CloseReport) : Bool :=
  report.handled == report.expected && report.leftover == 0

/-- The counters of a queue at one moment. -/
structure Stats where
  submitted : Nat
  handled : Nat
  expected : Nat
  pending : Nat
  peak : Nat
  capacity : Nat
  deriving DecidableEq, Repr

namespace Board

variable {P : Type}

/-- The board of a queue that has just been opened. -/
def fresh : Board P :=
  { pending := .empty, nextNumber := 1, handled := 0, peak := 0, closed := false }

/-- How many orders have been accepted. -/
def submitted (board : Board P) : Nat := board.nextNumber - 1

/-- Submitting and taking need a queue that is open. -/
def whileOpen {α : Type} (board : Board P) (decided : Section P α) : Section P α :=
  if board.closed then .fail .usedAfterClose board else decided

/-- Why there is no room for one more order, where `shortage` is what the allocator would answer if
it were asked. It is not asked for room that has been used before. -/
def lacks (board : Board P) (shortage : Option StorageError) : Option StorageError :=
  if board.pending.size < board.peak then none else shortage

/-- Accept a payload under the next number and wake one taker. Without room for it the payload is
handed back, and no number is used.

The number after that one has to exist too, or the section fails and accepts nothing. -/
def accept (shortage : Option StorageError) (board : Board P) (payload : P) :
    Section P (Except (Rejected P) Nat) :=
  match board.lacks shortage with
  | some cause => .finish (.error ⟨payload, .allocation cause⟩) board []
  | none =>
    match Count.next? board.nextNumber with
    | none => .fail .addOverflow board
    | some nextNumber =>
      let pending := board.pending.push ⟨board.nextNumber, payload⟩
      .finish (.ok board.nextNumber)
        { board with pending, nextNumber, peak := max board.peak pending.size }
        [.one .notEmpty]

/-- The refusal of a payload when every expected order is in. -/
def oversubscribed (terms : Terms) (payload : P) : Rejected P :=
  ⟨payload, .oversubscribed terms.expected⟩

/-- Submit a payload: refused if every expected order is in, accepted if there is a free place. -/
def submit (terms : Terms) (shortage : Option StorageError) (board : Board P) (payload : P) :
    Section P (Except (Rejected P) Nat) :=
  if terms.expected ≤ board.submitted then .finish (.error (oversubscribed terms payload)) board []
  else if board.pending.size < terms.capacity then board.accept shortage payload
  else .wait .notFull

/-- Submit a payload before a deadline, which is looked at only when the queue is full. -/
def submitTimeout (terms : Terms) (deadline now : Instant) (limit : Duration)
    (shortage : Option StorageError) (board : Board P) (payload : P) :
    Section P (Except (Rejected P) Nat) :=
  if terms.expected ≤ board.submitted then .finish (.error (oversubscribed terms payload)) board []
  else if board.pending.size < terms.capacity then board.accept shortage payload
  else if deadline ≤ now then .finish (.error ⟨payload, .timedOut limit⟩) board []
  else .wait .notFull

/-- Take the oldest order and wake one submitter, or learn that work has ended; nothing, if there
is nothing to take yet.

Handing out the last expected order, or telling that work has ended, wakes all takers. -/
def takeReady (terms : Terms) (board : Board P) : Option (Section P (Take P)) :=
  match board.pending.pop? with
  | some (order, rest) =>
    match Count.next? board.handled with
    | none => some (.fail .addOverflow { board with pending := rest })
    | some handled =>
      some (.finish (.order order) { board with pending := rest, handled }
        (.one .notFull :: if terms.expected ≤ handled then [.all .notEmpty] else []))
  | none =>
    if terms.expected ≤ board.handled then some (.finish .endOfWork board [.all .notEmpty])
    else none

/-- Take what is ready, or wait for it. -/
def take (terms : Terms) (board : Board P) : Section P (Take P) :=
  match board.takeReady terms with
  | some ready => ready
  | none => .wait .notEmpty

/-- Take what is ready, or wait for it until a deadline. -/
def takeTimeout (terms : Terms) (deadline now : Instant) (limit : Duration) (board : Board P) :
    Section P (Except Duration (Take P)) :=
  match board.takeReady terms with
  | some ready => ready.map .ok
  | none =>
    if deadline ≤ now then .finish (.error limit) board []
    else .wait .notEmpty

/-- Take what is ready, and do not wait for it. -/
def tryTake (terms : Terms) (board : Board P) : Section P (Option (Take P)) :=
  match board.takeReady terms with
  | some ready => ready.map some
  | none => .finish none board []

/-- The accounts of a board. -/
def accounts (terms : Terms) (board : Board P) : CloseReport :=
  { expected := terms.expected
    submitted := board.submitted
    handled := board.handled
    leftover := board.pending.size }

/-- Close the queue: draw up the accounts, drop what is pending and wake everybody. -/
def close (terms : Terms) (board : Board P) : Section P CloseReport :=
  if board.closed then .fail .closedTwice board
  else
    .finish (board.accounts terms) { board with pending := .empty, closed := true }
      [.all .notFull, .all .notEmpty]

/-- The counters of a board. -/
def stats (terms : Terms) (board : Board P) : Stats :=
  { submitted := board.submitted
    handled := board.handled
    expected := terms.expected
    pending := board.pending.size
    peak := board.peak
    capacity := terms.capacity }

end Board

/-- The journal events of opening a queue and of closing it. -/
def openedEvent (terms : Terms) : Event := .queueOpened terms.capacity terms.expected

/-- Balanced accounts are good news; others are reported with what does not match. -/
def closedEvent (report : CloseReport) : Event :=
  if report.balanced then .queueClosed report.handled
  else .accountsMismatch report.expected report.handled report.leftover

end OrderRail.Queue
