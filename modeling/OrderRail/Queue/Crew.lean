import OrderRail.Queue.Monitor

/-!
# Crews of producers and consumers

A crew is a number of producers, each of which submits its own list of payloads in order, and a
number of consumers, each of which takes orders until it is told that work has ended. They take
turns in rounds. The outcome is put in terms that do not depend on who comes first: which numbers
were taken, and the payloads of each producer in the order of their numbers.
-/

namespace OrderRail.Queue

variable {P : Type}

/-- The threads of a crew. -/
inductive Crew.Hand where
  | lead
  | producer (lane : Nat)
  | consumer (id : Nat)
  deriving DecidableEq, Repr

/-- How a consumer asks for an order. A limited or immediate attempt is repeated. -/
inductive Crew.Approach where
  | take
  | takeLimited
  | tryTake
  deriving DecidableEq, Repr

/-- The request of a consumer. -/
def Crew.Approach.request : Crew.Approach → Request P
  | .take => .take .endless
  | .takeLimited => .take (.limited .hour)
  | .tryTake => .tryTake

/-- A crew at work. A payload goes through the queue with the lane of its producer. -/
structure Crew (P : Type) where
  queue : Monitor Crew.Hand (Nat × P)
  /-- The patience of the producers. -/
  patience : Patience
  /-- What each producer has still to submit. -/
  lanes : List (List P)
  /-- How each consumer asks, and whether it still does. -/
  consumers : List (Crew.Approach × Bool)
  /-- How many submissions were refused. -/
  refused : Nat
  /-- The orders taken so far, the latest first. -/
  taken : List (Order (Nat × P))

namespace Crew

/-- A turn inside the queue: a roused call goes on, and a thread outside makes its request. -/
def turn (crew : Crew P) (hand : Hand) (request : Request (Nat × P)) :
    Crew P × Option (Answer (Nat × P)) :=
  let moved :=
    if (crew.queue.waiting? hand).isSome then crew.queue.resume hand 0 .calm
    else crew.queue.enter hand request 0 0 .calm
  match moved with
  | some (queue, answer) => ({ crew with queue }, answer)
  | none => (crew, none)

/-- A producer's turn: once its submission is answered, it goes on to its next payload. -/
def produce (crew : Crew P) (lane : Nat) : Crew P :=
  match crew.lanes[lane]? with
  | some (payload :: rest) =>
    match crew.turn (.producer lane) (.submit (lane, payload) crew.patience) with
    | (crew, some (.rejected _)) =>
      { crew with lanes := crew.lanes.set lane rest, refused := crew.refused + 1 }
    | (crew, some _) => { crew with lanes := crew.lanes.set lane rest }
    | (crew, none) => crew
  | _ => crew

/-- A consumer's turn: it keeps what it gets and leaves when there is no more work. -/
def consume (crew : Crew P) (id : Nat) : Crew P :=
  match crew.consumers[id]? with
  | some (approach, true) =>
    match crew.turn (.consumer id) approach.request with
    | (crew, some (.order taken)) => { crew with taken := taken :: crew.taken }
    | (crew, some .wouldBlock) => crew
    | (crew, some (.timedOut _)) => crew
    | (crew, some _) => { crew with consumers := crew.consumers.set id (approach, false) }
    | (crew, none) => crew
  | _ => crew

/-- Everybody who gets a turn, the producers first. -/
def hands (crew : Crew P) : List Hand :=
  (List.range crew.lanes.length).map .producer ++ (List.range crew.consumers.length).map .consumer

/-- The turn of one of them. The lead opens and closes the queue and has none in between. -/
def act (crew : Crew P) : Hand → Crew P
  | .lead => crew
  | .producer lane => crew.produce lane
  | .consumer id => crew.consume id

/-- A turn for everybody. -/
def round (crew : Crew P) : Crew P := crew.hands.foldl act crew

/-- Whether everybody has finished. -/
def idle (crew : Crew P) : Bool :=
  crew.lanes.all List.isEmpty && crew.consumers.all (!·.2)

/-- Rounds until everybody has finished, but at most so many. -/
def work : Nat → Crew P → Crew P
  | 0, crew => crew
  | rounds + 1, crew => if crew.idle then crew else work rounds crew.round

/-- A crew before its first round. -/
def fresh (terms : Terms) (patience : Patience) (lanes : List (List P))
    (approaches : List Approach) : Crew P :=
  { queue := .opened terms, patience, lanes, consumers := approaches.map (·, true)
    refused := 0, taken := [] }

/-- What a crew has done. -/
structure Report (P : Type) where
  /-- The numbers of the orders taken, in increasing order. -/
  numbers : List Nat
  /-- For each producer its payloads that were taken, in the order of their numbers. -/
  lanes : List (List P)
  refused : Nat
  peakWithinCapacity : Bool
  /-- The answer to closing the queue. -/
  close : Option (Answer (Nat × P))

/-- The payload of an order if it went through a lane. -/
def ofLane? (lane : Nat) (order : Order (Nat × P)) : Option P :=
  if order.payload.1 = lane then some order.payload.2 else none

/-- Draw up the report of a crew and close its queue. -/
def report (crew : Crew P) : Report P :=
  let taken := crew.taken.mergeSort fun a b => a.number ≤ b.number
  { numbers := taken.map (·.number)
    lanes := (List.range crew.lanes.length).map fun lane => taken.filterMap (ofLane? lane)
    refused := crew.refused
    peakWithinCapacity := decide (crew.queue.board.peak ≤ crew.queue.terms.capacity)
    close := (crew.queue.enter .lead .close 0 0 .calm).bind (·.2) }

/-- Let a crew work on a new queue and close the queue when everybody has finished.

A crew that brings fewer orders than are expected, or more, may have members who wait for ever, and
one that only ever asks without waiting does not end either. So there is a limit to the rounds; it
lies well above what a crew needs that brings as many orders as are expected. -/
def run (terms : Terms) (patience : Patience) (lanes : List (List P))
    (approaches : List Approach) : Report P :=
  let rounds := 4 * (lanes.flatten.length + lanes.length + approaches.length + 1)
  ((fresh terms patience lanes approaches).work rounds).report

end Crew

end OrderRail.Queue
