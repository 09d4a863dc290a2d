import OrderRail.Menu
import OrderRail.Queue.Monitor
import OrderRail.Random.Generators
import OrderRail.Shift.Config
import OrderRail.Shift.Report
import OrderRail.Thread

/-!
# A shift and its steps

In a shift the lead thread starts the customers, then the cooks, waits for all customers and then
for all cooks, and closes the queue. A customer places its orders one after another; a cook takes
orders until work ends, and notes each order outside the queue before it takes the next one. The
threads run in any order. What a thread does between two dealings with the others is one step.

The lead thread needs threads for the workers and memory for its lists, and the system may deny it
either one; then the shift ends with an error or with the program. A worker needs memory for the
order that it submits. What is denied is a part of the move, like the sleeper that a signal reaches.

The time that cooking takes does not change what is possible, so it appears only in the report.
-/

namespace OrderRail.Shift

open Queue (Terms Monitor Request Answer Chance)

/-- A customer's thread. -/
structure Customer where
  /-- How many orders it has still to place. -/
  remaining : Nat
  words : Words
  ending : Option (Ending (Except RunError Unit))

/-- A cook's thread. -/
structure Cook where
  /-- An order that it has taken and not yet noted. -/
  held : Option (Order Dish)
  fulfilled : Nat
  ending : Option (Ending Nat)

/-- How far the lead thread is. The threads that it starts are numbered in turn, and it waits for
them in that order. -/
inductive Lead where
  | startingCustomers
  | startingCooks
  | joiningCustomers (next : Nat)
  | joiningCooks (next : Nat)
  | closing
  | done (outcome : Except Failure Report)

/-- A shift under way. -/
structure State where
  config : Config
  validate : Bool
  /-- Where the customers get their random words. -/
  generators : Generators
  queue : Monitor Thread Dish
  customers : List Customer
  cooks : List Cook
  /-- The order numbers that the cooks have noted, the latest first. -/
  noted : List Nat
  lead : Lead
  /-- What the threads have entered into the journal, the latest first. -/
  journal : List Entry

/-- What the system denies the lead thread in one step. -/
structure Denial where
  /-- Why no thread can be started, if none can. -/
  thread : Option String
  /-- Whether the allocator refuses memory. -/
  memory : Bool
  deriving DecidableEq, Repr

/-- Nothing is denied. -/
def Denial.nothing : Denial := { thread := none, memory := false }

/-- The steps of a shift. -/
inductive Move where
  /-- The lead thread goes on. -/
  | lead (denial : Denial)
  /-- A worker that is outside the queue makes its next call. -/
  | call (role : Role) (id : Nat) (chance : Chance)
  /-- A worker's sleeping call wakes up without a signal. -/
  | rouse (role : Role) (id : Nat)
  /-- A worker's roused call goes on. -/
  | resume (role : Role) (id : Nat) (chance : Chance)
  /-- A cook notes the order that it holds and cooks it. -/
  | note (id : Nat)
  deriving DecidableEq, Repr

/-- A list is one block of memory, and a block has fewer bytes than two to the power of 63. -/
def blockLimit : Nat := 9223372036854775808

/-- A noted order number takes so many bytes, and so does the count of a cook. -/
def numberBytes : Nat := 8

/-- The handle of a worker takes so many bytes. -/
def handleBytes : Nat := 24

/-- Room for a list of so many items of a size. The allocator is not asked for a list of nothing. -/
def reserve (refused : Bool) (items bytes : Nat) : Except Failure Unit :=
  if blockLimit ≤ items * bytes then .error (.fault .storageOverflow)
  else if refused ∧ 0 < items * bytes then .error (.fault (.outOfMemory (items * bytes)))
  else .ok ()

namespace Customer

/-- A customer that has just been started. One who wants nothing leaves at once. -/
def start (orders : Nat) (words : Words) : Customer :=
  { remaining := orders, words, ending := if orders = 0 then some (.returned (.ok ())) else none }

/-- The customer after its order has been accepted. -/
def served (customer : Customer) : Customer :=
  start (customer.remaining - 1) customer.words

/-- The customer after its order has been refused. -/
def turnedAway (customer : Customer) (id : Nat) (reason : QueueError) : Customer :=
  { customer with ending := some (.returned (.error (.rejected id reason))) }

end Customer

namespace Cook

/-- A cook that has just been started. -/
def start : Cook := { held := none, fulfilled := 0, ending := none }

end Cook

/-- The elapsed time of a shift in which nothing but cooking takes time: that of the busiest
cook. -/
def cookingTime (config : Config) (perCook : List Nat) : Duration :=
  Duration.ofMillis ((perCook.foldl max 0) * config.workMillis.toNat)

namespace State

/-- A shift on a queue that has just been opened. -/
def start (config : Config) (validate : Bool) (generators : Generators) (terms : Terms) :
    State :=
  { config, validate, generators, queue := .opened terms, customers := [], cooks := []
    noted := [], lead := .startingCustomers, journal := [] }

/-- Enter an event into the journal. -/
def log (shift : State) (thread : Thread) (event : Event) : State :=
  { shift with journal := ⟨thread, event⟩ :: shift.journal }

/-- End the shift for the lead thread. -/
def conclude (shift : State) (outcome : Except Failure Report) : State :=
  { shift with lead := .done outcome }

/-- The report of a shift whose queue has been closed. -/
def report (shift : State) (accounts : Queue.CloseReport) (stats : Queue.Stats) : Report :=
  let perCook := shift.cooks.map (·.fulfilled)
  { capacity := stats.capacity
    expected := accounts.expected
    handled := accounts.handled
    leftover := accounts.leftover
    peakPending := stats.peak
    perCook
    elapsed := cookingTime shift.config perCook
    audit :=
      if shift.validate then some (Audit.ofNumbers shift.noted accounts.expected) else none }

/-- The lead thread closes the queue and draws up the report. -/
def close (shift : State) : Option State :=
  match shift.queue.enter .lead .close 0 0 .calm with
  | some (queue, some (.report accounts)) =>
    let shift := { shift with queue }.log .lead (Queue.closedEvent accounts)
    let report := shift.report accounts (queue.board.stats queue.terms)
    some ((shift.log .lead (.kitchenClosed report.handled report.elapsed)).conclude (.ok report))
  | some (queue, some (.fault fault)) =>
    some ({ shift with queue }.conclude (.error (.fault fault)))
  | _ => none

/-- The customer with the next number is started. -/
def startCustomer (shift : State) : State :=
  let id := UInt64.ofNat shift.customers.length
  let customer := Customer.start shift.config.ordersPerCustomer.toNat
    (.ofCustomer shift.config.seed (shift.generators.skip shift.customers.length) id)
  { shift with customers := shift.customers ++ [customer] }

/-- The cook with the next number is started. -/
def startCook (shift : State) : State := { shift with cooks := shift.cooks ++ [Cook.start] }

/-- The lead thread has started a worker of some role, or ends the shift because the system denies
it the thread. -/
def spawn (shift : State) (denial : Denial) (role : Role) (started : State) : State :=
  match denial.thread with
  | none => started
  | some cause => shift.conclude (.error (.error (.spawn role.name cause)))

/-- The lead thread has made room for a list with one item for each cook, or ends the shift because
there is none. -/
def listCooks (shift : State) (denial : Denial) (bytes : Nat) (listed : State) : State :=
  match reserve denial.memory shift.config.cooks.toNat bytes with
  | .ok () => listed
  | .error failure => shift.conclude (.error failure)

/-- The lead thread goes on, unless the worker for whom it waits has not ended. A customer that
was turned away or a worker that crashed ends the shift with an error. Before the cooks are started
their list gets its room, and before they are joined the list of their counts. -/
def leadOn (shift : State) (denial : Denial) : Option State :=
  match shift.lead with
  | .startingCustomers =>
    if shift.customers.length < shift.config.customers.toNat then
      some (shift.spawn denial .customer shift.startCustomer)
    else some (shift.listCooks denial handleBytes { shift with lead := .startingCooks })
  | .startingCooks =>
    if shift.cooks.length < shift.config.cooks.toNat then
      some (shift.spawn denial .cook shift.startCook)
    else some { shift with lead := .joiningCustomers 0 }
  | .joiningCustomers next =>
    match shift.customers[next]? with
    | none => some (shift.listCooks denial numberBytes { shift with lead := .joiningCooks 0 })
    | some customer =>
      customer.ending.map fun ending =>
        match ending.join (Thread.worker .customer next).name with
        | .ok (.ok ()) => { shift with lead := .joiningCustomers (next + 1) }
        | .ok (.error error) => shift.conclude (.error (.error error))
        | .error error => shift.conclude (.error (.error error))
  | .joiningCooks next =>
    match shift.cooks[next]? with
    | none => some { shift with lead := .closing }
    | some cook =>
      cook.ending.map fun ending =>
        match ending.join (Thread.worker .cook next).name with
        | .ok _ => { shift with lead := .joiningCooks (next + 1) }
        | .error error => shift.conclude (.error (.error error))
  | .closing => shift.close
  | .done _ => none

/-- A customer gets the answer to the submission of a dish. -/
def answerCustomer (shift : State) (id : Nat) (customer : Customer) (dish : Dish) :
    Answer Dish → State
  | .accepted number =>
    { shift with customers := shift.customers.set id customer.served }.log
      (.worker .customer id) (.orderPlaced ⟨number, dish⟩)
  | .rejected rejection =>
    { shift with customers := shift.customers.set id (customer.turnedAway id rejection.reason) }
  | _ =>
    { shift with customers := shift.customers.set id { customer with ending := some .crashed } }

/-- A cook gets an answer. -/
def answerCook (shift : State) (id : Nat) (cook : Cook) : Answer Dish → State
  | .order order => { shift with cooks := shift.cooks.set id { cook with held := some order } }
  | .endOfWork =>
    let ending := some (.returned cook.fulfilled)
    { shift with cooks := shift.cooks.set id { cook with ending } }.log
      (.worker .cook id) (.noMoreOrders id cook.fulfilled)
  | _ => { shift with cooks := shift.cooks.set id { cook with ending := some .crashed } }

/-- A customer draws its next item and submits it. -/
def callCustomer (shift : State) (id : Nat) (chance : Chance) : Option State :=
  match shift.customers[id]? with
  | some { remaining, words, ending := none } =>
    let (item, words) := Menu.pick words
    let customer : Customer := { remaining, words, ending := none }
    let dish : Dish := { item, customer := UInt64.ofNat id }
    match shift.queue.enter (.worker .customer id) (.submit dish .endless) 0 0 chance with
    | some (queue, some answer) =>
      some ({ shift with queue }.answerCustomer id customer dish answer)
    | some (queue, none) =>
      some { shift with queue, customers := shift.customers.set id customer }
    | none => none
  | _ => none

/-- A cook with free hands asks for an order. -/
def callCook (shift : State) (id : Nat) (chance : Chance) : Option State :=
  match shift.cooks[id]? with
  | some { held := none, fulfilled, ending := none } =>
    let cook : Cook := { held := none, fulfilled, ending := none }
    match shift.queue.enter (.worker .cook id) (.take .endless) 0 0 chance with
    | some (queue, some answer) => some ({ shift with queue }.answerCook id cook answer)
    | some (queue, none) => some { shift with queue }
    | none => none
  | _ => none

/-- A roused call goes on, and its worker may get the answer. -/
def resume (shift : State) (role : Role) (id : Nat) (chance : Chance) : Option State :=
  match shift.queue.waiting? (.worker role id), shift.queue.resume (.worker role id) 0 chance with
  | some waiter, some (queue, answer) =>
    let shift := { shift with queue }
    match role, answer with
    | _, none => some shift
    | .customer, some answer =>
      match waiter.request, shift.customers[id]? with
      | .submit dish _, some customer => some (shift.answerCustomer id customer dish answer)
      | _, _ => none
    | .cook, some answer => shift.cooks[id]?.map fun cook => shift.answerCook id cook answer
  | _, _ => none

/-- A cook notes the order that it holds, if the shift is validated, and cooks it. -/
def note (shift : State) (id : Nat) : Option State :=
  match shift.cooks[id]? with
  | some { held := some order, fulfilled, ending } =>
    let cook : Cook := { held := none, fulfilled := fulfilled + 1, ending }
    let noted := if shift.validate then order.number :: shift.noted else shift.noted
    some ({ shift with cooks := shift.cooks.set id cook, noted }.log
      (.worker .cook id) (.cooking id order))
  | _ => none

/-- Make a step, if it is possible. -/
def step (shift : State) : Move → Option State
  | .lead denial => shift.leadOn denial
  | .call .customer id chance => shift.callCustomer id chance
  | .call .cook id chance => shift.callCook id chance
  | .rouse role id => (shift.queue.rouse (.worker role id)).map ({ shift with queue := · })
  | .resume role id chance => shift.resume role id chance
  | .note id => shift.note id

/-- What the lead thread has come to, once it is done. -/
def outcome? (shift : State) : Option (Except Failure Report) :=
  match shift.lead with
  | .done outcome => some outcome
  | _ => none

end State

end OrderRail.Shift
