import OrderRail.Shift.State

/-!
# Running a shift

Before a shift starts, its parameters are checked, the queue is opened, and room is made for the
numbers that are noted and for the list of customers. Then a schedule is followed until the lead
thread is done. Whoever has been roused inside the queue goes on at once, and otherwise the threads
get their turns one after another, each for as long as it can make a step: the lead thread, the
cooks, the customers, and the lead thread again. The cooks are then waiting when the first order
comes, so the queue stays short.
-/

namespace OrderRail.Shift

open Queue (Terms Chance)

/-- What the system decides in one turn of the schedule: for a worker the chance of its call, and
for the lead thread what it is denied. -/
structure Fortune where
  chance : Chance
  denial : Denial

/-- The longest sleeper is reached first, and nothing is denied. -/
def Fortune.calm : Fortune := { chance := .calm, denial := .nothing }

/-- Which lists the allocator refuses before any worker is started. -/
structure Refusals where
  numbers : Bool
  customers : Bool

/-- Everything about a shift that its parameters do not say. -/
structure Surroundings where
  generators : Generators
  refusals : Refusals
  /-- The fortune of each turn, counted from the last one. -/
  fortune : Nat → Fortune

/-- Surroundings in which nothing is denied, with the generators of a key. -/
def Surroundings.ofKey (key : Key) : Surroundings where
  generators := .ofKey key
  refusals := { numbers := false, customers := false }
  fortune _ := .calm

/-- Where surroundings are asked for, a key stands for those in which nothing is denied. -/
instance : Coe Key Surroundings := ⟨.ofKey⟩

/-- What can be said of a shift before any worker is started: what the lead thread enters into the
journal, and the terms of the queue unless something is wrong. -/
structure Preparation where
  events : List Event
  terms : Except Failure Terms

/-- Check the parameters and open the queue. -/
def openQueue (config : Config) : Except Failure Terms :=
  match config.validate, config.expectedOrders with
  | .error error, _ => .error (.error (.config error))
  | .ok (), .error fault => .error (.fault fault)
  | .ok (), .ok expected =>
    match Terms.ofSizes config.capacity (UInt64.ofNat expected) with
    | .error error => .error (.error (.queue error))
    | .ok terms => .ok terms

/-- Prepare a shift: the queue is opened, the list of noted numbers gets its room if the shift is
validated, the kitchen opens, and the list of customers gets its room. -/
def prepare (config : Config) (validate : Bool) (refusals : Refusals) : Preparation :=
  match openQueue config with
  | .error failure => { events := [], terms := .error failure }
  | .ok terms =>
    let opened := Queue.openedEvent terms
    match reserve refusals.numbers (if validate then terms.expected else 0) numberBytes with
    | .error failure => { events := [opened], terms := .error failure }
    | .ok () =>
      let kitchen : Event := .kitchenOpened terms.capacity config.customers.toNat
        config.cooks.toNat terms.expected
      { events := [opened, kitchen]
        terms := (reserve refusals.customers config.customers.toNat handleBytes).map
          fun _ => terms }

/-- A bound on the steps of a shift that are more than waking up for no reason.

Every order is submitted, taken and noted, and every worker is started, told once that there is
nothing left to do, and joined. Each of these steps can make every worker try in vain. -/
def Config.stepBound (config : Config) : Nat :=
  let customers := config.customers.toNat
  let cooks := config.cooks.toNat
  let orders := customers * config.ordersPerCustomer.toNat
  (3 * orders + 2 * customers + 3 * cooks + 5) * (2 * (customers + cooks) + 1) +
    2 * (customers + cooks)

namespace State

/-- What a thread that is not inside the queue may do next. -/
def movesOf (fortune : Fortune) : Thread → List Move
  | .lead => [.lead fortune.denial]
  | .worker .customer id => [.call .customer id fortune.chance]
  | .worker .cook id => [.note id, .call .cook id fortune.chance]

/-- The step of a thread that is not inside the queue, if it can make one. -/
def turn (shift : State) (fortune : Fortune) (thread : Thread) : Option State :=
  (movesOf fortune thread).findSome? shift.step

/-- The first roused call goes on; the thread that made it is told as well. -/
def wake (shift : State) (fortune : Fortune) : Option (Thread × State) :=
  match shift.queue.waiters.find? (·.sleep ≠ .asleep) with
  | some { thread := .worker role id, .. } =>
    (shift.step (.resume role id fortune.chance)).map (.worker role id, ·)
  | _ => none

/-- Follow the schedule until the lead thread is done, for at most so many turns. The first thread
of the agenda keeps its turn until it cannot go on; a roused thread gets the turn before it. -/
def follow (fortune : Nat → Fortune) : Nat → List Thread → State → State
  | 0, _, shift => shift
  | turns + 1, agenda, shift =>
    if shift.outcome?.isSome then shift
    else
      match shift.wake (fortune turns) with
      | some (thread, next) => follow fortune turns (thread :: agenda) next
      | none =>
        match agenda with
        | [] => shift
        | thread :: others =>
          match shift.turn (fortune turns) thread with
          | some next => follow fortune turns (thread :: others) next
          | none => follow fortune turns others shift

/-- How many cooks can be started: none, if memory could not address their list. -/
def startableCooks (config : Config) : Nat :=
  if config.cooks.toNat * handleBytes < blockLimit then config.cooks.toNat else 0

/-- The threads of a shift in the order of their turns. -/
def agenda (config : Config) : List Thread :=
  .lead :: (List.range (startableCooks config)).map (.worker .cook) ++
    (List.range config.customers.toNat).map (.worker .customer) ++ [.lead]

/-- More turns than the schedule can take.

Every turn makes a step or takes a thread off the agenda, and a step puts at most one thread on
it. -/
def turnBound (config : Config) : Nat :=
  2 * config.stepBound + config.customers.toNat + config.cooks.toNat + 3

end State

/-- A shift that has been run: what the lead thread came to, and the journal in order. -/
structure Run where
  outcome : Except Failure Report
  journal : List Entry

/-- Run a shift. -/
def run (config : Config) (validate : Bool) (surroundings : Surroundings) : Run :=
  let preparation := prepare config validate surroundings.refusals
  let opening := preparation.events.map fun event => Entry.mk .lead event
  match preparation.terms with
  | .error failure => { outcome := .error failure, journal := opening }
  | .ok terms =>
    let start := State.start config validate surroundings.generators terms
    let shift := State.follow surroundings.fortune (State.turnBound config) (State.agenda config)
      start
    { outcome := shift.outcome?.getD (.error .unfinished)
      journal := opening ++ shift.journal.reverse }

end OrderRail.Shift
