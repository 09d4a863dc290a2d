import OrderRail.Proofs.Shift.Worker

/-!
# What a step of a shift can do

`Turn shift move next` lists the ways in which a move can lead from one state of a shift to the
next, with everything that has been checked on the way. A worker deals with the queue in one way,
whether it calls the queue or goes on in it: its call is granted the lock, and the worker hears what
the queue answers, or waits.

For this list the waiting calls have to be those of workers. That is so in every shift, and it is
kept by every step.
-/

namespace OrderRail.Shift

open Queue (Terms Monitor Request Answer Waiter Attempt Chance)

/-- The customer that makes a move: for a new call it draws its next item first. -/
def Customer.drawn (customer : Customer) : Move → Customer
  | .call .. => { customer with words := (Menu.pick customer.words).2 }
  | _ => customer

namespace State

/-- The move of the queue that a move of the shift is, if it deals with the queue. -/
def queueMove? (shift : State) : Move → Option (Queue.Move Thread Dish)
  | .lead _ =>
    match shift.lead with
    | .closing => some (.enter .lead .close 0 0 .calm)
    | _ => none
  | .call .customer id chance =>
    shift.customers[id]?.map fun customer =>
      let dish : Dish := { item := (Menu.pick customer.words).1, customer := UInt64.ofNat id }
      .enter (.worker .customer id) (.submit dish .endless) 0 0 chance
  | .call .cook id chance => some (.enter (.worker .cook id) (.take .endless) 0 0 chance)
  | .rouse role id => some (.rouse (.worker role id))
  | .resume role id chance => some (.resume (.worker role id) 0 chance)
  | .note _ => none

/-- The shift after a customer's call has had the lock and made `queue` of the queue. -/
def hearCustomer (shift : State) (queue : Monitor Thread Dish) (id : Nat) (customer : Customer)
    (dish : Dish) : Option (Answer Dish) → State
  | none => { shift with queue, customers := shift.customers.set id customer }
  | some answer => { shift with queue }.answerCustomer id customer dish answer

/-- The shift after a cook's call has had the lock and made `queue` of the queue. -/
def hearCook (shift : State) (queue : Monitor Thread Dish) (id : Nat) (cook : Cook) :
    Option (Answer Dish) → State
  | none => { shift with queue }
  | some answer => { shift with queue }.answerCook id cook answer

/-- What a customer hears changes nothing but that customer, the queue and the journal. -/
theorem hearCustomer_eq (shift : State) (queue : Monitor Thread Dish) (id : Nat)
    (customer : Customer) (dish : Dish) (answer : Option (Answer Dish)) :
    (shift.hearCustomer queue id customer dish answer).queue = queue ∧
      (shift.hearCustomer queue id customer dish answer).lead = shift.lead ∧
      (shift.hearCustomer queue id customer dish answer).cooks = shift.cooks ∧
      ∃ caller, (shift.hearCustomer queue id customer dish answer).customers =
        shift.customers.set id caller := by
  cases answer with
  | none => exact ⟨rfl, rfl, rfl, _, rfl⟩
  | some answer => cases answer <;> exact ⟨rfl, rfl, rfl, _, rfl⟩

/-- What a cook hears changes nothing but that cook, the queue and the journal. -/
theorem hearCook_eq (shift : State) (queue : Monitor Thread Dish) {id : Nat} {cook : Cook}
    (present : shift.cooks[id]? = some cook) (answer : Option (Answer Dish)) :
    (shift.hearCook queue id cook answer).queue = queue ∧
      (shift.hearCook queue id cook answer).lead = shift.lead ∧
      (shift.hearCook queue id cook answer).customers = shift.customers ∧
      ∃ caller, (shift.hearCook queue id cook answer).cooks = shift.cooks.set id caller := by
  cases answer with
  | none => exact ⟨rfl, rfl, rfl, cook, (set_present present).symm⟩
  | some answer => cases answer <;> exact ⟨rfl, rfl, rfl, _, rfl⟩

/-- The shift after a cook has noted the order in its hands. -/
def noting (shift : State) (id : Nat) (cook : Cook) (order : Order Dish) : State :=
  { shift with
    cooks := shift.cooks.set id { cook with held := none, fulfilled := cook.fulfilled + 1 }
    noted := if shift.validate then order.number :: shift.noted else shift.noted }.log
      (.worker .cook id) (.cooking id order)

/-- The shift after the lead thread has closed the queue, which has become `queue`. -/
def closed (shift : State) (queue : Monitor Thread Dish) (accounts : Queue.CloseReport) : State :=
  let shift := { shift with queue }.log .lead (Queue.closedEvent accounts)
  let report := shift.report accounts (queue.board.stats queue.terms)
  (shift.log .lead (.kitchenClosed report.handled report.elapsed)).conclude (.ok report)

end State

/-- What the system can deny the lead thread at its next step, with the failure that follows. -/
inductive State.Refused (shift : State) (denial : Denial) : Failure → Prop where
  | customer {cause : String} (stage : shift.lead = .startingCustomers)
      (more : shift.customers.length < shift.config.customers.toNat)
      (denied : denial.thread = some cause) :
      shift.Refused denial (.error (.spawn Role.customer.name cause))
  | handles {failure : Failure} (stage : shift.lead = .startingCustomers)
      (all : shift.config.customers.toNat ≤ shift.customers.length)
      (denied : reserve denial.memory shift.config.cooks.toNat handleBytes = .error failure) :
      shift.Refused denial failure
  | cook {cause : String} (stage : shift.lead = .startingCooks)
      (more : shift.cooks.length < shift.config.cooks.toNat)
      (denied : denial.thread = some cause) :
      shift.Refused denial (.error (.spawn Role.cook.name cause))
  | counts {next : Nat} {failure : Failure} (stage : shift.lead = .joiningCustomers next)
      (all : shift.customers[next]? = none)
      (denied : reserve denial.memory shift.config.cooks.toNat numberBytes = .error failure) :
      shift.Refused denial failure

/-- The ways in which a move can lead to the next state of a shift. -/
inductive Turn (shift : State) : Move → State → Prop where
  | refused {denial : Denial} {failure : Failure} (refused : shift.Refused denial failure) :
      Turn shift (.lead denial) (shift.conclude (.error failure))
  | startCustomer {denial : Denial} (stage : shift.lead = .startingCustomers)
      (more : shift.customers.length < shift.config.customers.toNat)
      (granted : denial.thread = none) : Turn shift (.lead denial) shift.startCustomer
  | customersStarted {denial : Denial} (stage : shift.lead = .startingCustomers)
      (all : shift.config.customers.toNat ≤ shift.customers.length)
      (room : reserve denial.memory shift.config.cooks.toNat handleBytes = .ok ()) :
      Turn shift (.lead denial) { shift with lead := .startingCooks }
  | startCook {denial : Denial} (stage : shift.lead = .startingCooks)
      (more : shift.cooks.length < shift.config.cooks.toNat)
      (granted : denial.thread = none) : Turn shift (.lead denial) shift.startCook
  | cooksStarted {denial : Denial} (stage : shift.lead = .startingCooks)
      (all : shift.config.cooks.toNat ≤ shift.cooks.length) :
      Turn shift (.lead denial) { shift with lead := .joiningCustomers 0 }
  | joinCustomer {denial : Denial} {next : Nat} {customer : Customer}
      (stage : shift.lead = .joiningCustomers next)
      (present : shift.customers[next]? = some customer)
      (ended : customer.ending = some (.returned (.ok ()))) :
      Turn shift (.lead denial) { shift with lead := .joiningCustomers (next + 1) }
  | joinFailedCustomer {denial : Denial} {next : Nat} {customer : Customer} {error : RunError}
      (stage : shift.lead = .joiningCustomers next)
      (present : shift.customers[next]? = some customer)
      (ended : customer.ending = some (.returned (.error error)) ∨
        customer.ending = some .crashed ∧ ∃ name, error = .workerCrashed name) :
      Turn shift (.lead denial) (shift.conclude (.error (.error error)))
  | customersJoined {denial : Denial} {next : Nat} (stage : shift.lead = .joiningCustomers next)
      (all : shift.customers[next]? = none)
      (room : reserve denial.memory shift.config.cooks.toNat numberBytes = .ok ()) :
      Turn shift (.lead denial) { shift with lead := .joiningCooks 0 }
  | joinCook {denial : Denial} {next fulfilled : Nat} {cook : Cook}
      (stage : shift.lead = .joiningCooks next) (present : shift.cooks[next]? = some cook)
      (ended : cook.ending = some (.returned fulfilled)) :
      Turn shift (.lead denial) { shift with lead := .joiningCooks (next + 1) }
  | joinCrashedCook {denial : Denial} {next : Nat} {cook : Cook} {name : String}
      (stage : shift.lead = .joiningCooks next) (present : shift.cooks[next]? = some cook)
      (ended : cook.ending = some .crashed) :
      Turn shift (.lead denial) (shift.conclude (.error (.error (.workerCrashed name))))
  | cooksJoined {denial : Denial} {next : Nat} (stage : shift.lead = .joiningCooks next)
      (all : shift.cooks[next]? = none) :
      Turn shift (.lead denial) { shift with lead := .closing }
  | close {denial : Denial} {queue : Monitor Thread Dish} {accounts : Queue.CloseReport}
      (stage : shift.lead = .closing)
      (made : shift.queue.step (.enter .lead .close 0 0 .calm) =
        some (queue, some (.report accounts))) :
      Turn shift (.lead denial) (shift.closed queue accounts)
  | failToClose {denial : Denial} {queue : Monitor Thread Dish} {fault : Fault}
      (stage : shift.lead = .closing)
      (made : shift.queue.step (.enter .lead .close 0 0 .calm) =
        some (queue, some (.fault fault))) :
      Turn shift (.lead denial) ({ shift with queue }.conclude (.error (.fault fault)))
  | customer {move : Move} {request : Queue.Move Thread Dish} {id : Nat}
      {chance : Chance} {dish : Dish} {poison : Fault} {customer caller : Customer}
      {base queue : Monitor Thread Dish} {answer : Option (Answer Dish)}
      (kind : move = .call .customer id chance ∨ move = .resume .customer id chance)
      (present : shift.customers[id]? = some customer) (busy : customer.ending = none)
      (same : caller.remaining = customer.remaining ∧ caller.ending = none)
      (grants : shift.queue.Grants request (submission id dish chance poison) base)
      (served : base.serve (submission id dish chance poison) = (queue, answer))
      (asks : shift.queueMove? move = some request) (draws : caller = customer.drawn move) :
      Turn shift move (shift.hearCustomer queue id caller dish answer)
  | cook {move : Move} {request : Queue.Move Thread Dish} {id : Nat}
      {chance : Chance} {poison : Fault} {cook : Cook} {base queue : Monitor Thread Dish}
      {answer : Option (Answer Dish)}
      (kind : move = .call .cook id chance ∨ move = .resume .cook id chance)
      (present : shift.cooks[id]? = some cook) (free : cook.held = none)
      (busy : cook.ending = none)
      (grants : shift.queue.Grants request (taking id chance poison) base)
      (served : base.serve (taking id chance poison) = (queue, answer))
      (asks : shift.queueMove? move = some request) :
      Turn shift move (shift.hearCook queue id cook answer)
  | rouse {role : Role} {id : Nat} {waiter : Waiter Thread Dish}
      (inside : shift.queue.waiting? (.worker role id) = some waiter)
      (asleep : waiter.sleep = .asleep) :
      Turn shift (.rouse role id) { shift with queue := shift.queue.rousing (.worker role id) }
  | note {id : Nat} {cook : Cook} {order : Order Dish} (present : shift.cooks[id]? = some cook)
      (holds : cook.held = some order) :
      Turn shift (.note id) (shift.noting id cook order)

/-- The lead thread has started a worker, or has been denied the thread. -/
theorem State.spawn_cases (shift : State) (denial : Denial) (role : Role) (started : State) :
    (denial.thread = none ∧ shift.spawn denial role started = started) ∨
      ∃ cause, denial.thread = some cause ∧
        shift.spawn denial role started =
          shift.conclude (.error (.error (.spawn role.name cause))) := by
  unfold State.spawn
  split
  · next granted => exact .inl ⟨granted, rfl⟩
  · next cause denied => exact .inr ⟨cause, denied, rfl⟩

/-- The lead thread has made room for a list, or has failed to do so. -/
theorem State.listCooks_cases (shift : State) (denial : Denial) (bytes : Nat) (listed : State) :
    (reserve denial.memory shift.config.cooks.toNat bytes = .ok () ∧
        shift.listCooks denial bytes listed = listed) ∨
      ∃ failure, reserve denial.memory shift.config.cooks.toNat bytes = .error failure ∧
        shift.listCooks denial bytes listed = shift.conclude (.error failure) := by
  unfold State.listCooks
  split
  · next room => exact .inl ⟨room, rfl⟩
  · next failure denied => exact .inr ⟨failure, denied, rfl⟩

/-- The steps of the lead thread. -/
theorem turn_of_leadOn {shift next : State} {denial : Denial}
    (h : shift.leadOn denial = some next) : Turn shift (.lead denial) next := by
  unfold State.leadOn at h
  split at h
  · next stage =>
    by_cases more : shift.customers.length < shift.config.customers.toNat
    · rw [if_pos more] at h
      cases h
      rcases shift.spawn_cases denial .customer shift.startCustomer with
        ⟨granted, heq⟩ | ⟨cause, denied, heq⟩
      · rw [heq]
        exact .startCustomer stage more granted
      · rw [heq]
        exact .refused (.customer stage more denied)
    · rw [if_neg more] at h
      have all := Nat.le_of_not_lt more
      cases h
      rcases shift.listCooks_cases denial handleBytes { shift with lead := .startingCooks } with
        ⟨room, heq⟩ | ⟨failure, denied, heq⟩
      · rw [heq]
        exact .customersStarted stage all room
      · rw [heq]
        exact .refused (.handles stage all denied)
  · next stage =>
    by_cases more : shift.cooks.length < shift.config.cooks.toNat
    · rw [if_pos more] at h
      cases h
      rcases shift.spawn_cases denial .cook shift.startCook with
        ⟨granted, heq⟩ | ⟨cause, denied, heq⟩
      · rw [heq]
        exact .startCook stage more granted
      · rw [heq]
        exact .refused (.cook stage more denied)
    · rw [if_neg more] at h
      cases h
      exact .cooksStarted stage (Nat.le_of_not_lt more)
  · next position stage =>
    cases present : shift.customers[position]? with
    | none =>
      simp only [present, Option.some.injEq] at h
      subst h
      rcases shift.listCooks_cases denial numberBytes { shift with lead := .joiningCooks 0 } with
        ⟨room, heq⟩ | ⟨failure, denied, heq⟩
      · rw [heq]
        exact .customersJoined stage present room
      · rw [heq]
        exact .refused (.counts stage present denied)
    | some customer =>
      simp only [present] at h
      obtain ⟨ending, ended, hnext⟩ := Option.map_eq_some_iff.mp h
      subst hnext
      cases ending with
      | returned value =>
        cases value with
        | ok => exact .joinCustomer stage present ended
        | error error => exact .joinFailedCustomer stage present (.inl ended)
      | crashed => exact .joinFailedCustomer stage present (.inr ⟨ended, _, rfl⟩)
  · next position stage =>
    cases present : shift.cooks[position]? with
    | none =>
      simp only [present] at h
      cases h
      exact .cooksJoined stage present
    | some cook =>
      simp only [present] at h
      obtain ⟨ending, ended, hnext⟩ := Option.map_eq_some_iff.mp h
      subst hnext
      cases ending with
      | returned value => exact .joinCook stage present ended
      | crashed => exact .joinCrashedCook stage present ended
  · next stage =>
    unfold State.close at h
    split at h
    · next queue accounts made =>
      cases h
      exact .close stage made
    · next queue fault made =>
      cases h
      exact .failToClose stage made
    · cases h
  · cases h

/-- Entering the queue is granted to a thread outside it. -/
theorem grants_of_enter {queue : Monitor Thread Dish} {thread : Thread} {request : Request Dish}
    {chance : Chance} {result : Monitor Thread Dish × Option (Answer Dish)}
    (h : queue.enter thread request 0 0 chance = some result) :
    queue.Grants (.enter thread request 0 0 chance)
        ⟨thread, request, request.deadline 0, 0, chance, .lockBroken⟩ queue ∧
      queue.serve ⟨thread, request, request.deadline 0, 0, chance, .lockBroken⟩ = result := by
  cases outside : queue.waiting? thread with
  | some waiter => simp [Monitor.enter, outside] at h
  | none =>
    have grants : queue.Grants (.enter thread request 0 0 chance)
        ⟨thread, request, request.deadline 0, 0, chance, .lockBroken⟩ queue := .enter outside
    exact ⟨grants, Option.some.inj (grants.step_eq.symm.trans h)⟩

/-- Going on in the queue is granted to a roused call. -/
theorem grants_of_resume {queue : Monitor Thread Dish} {thread : Thread} {chance : Chance}
    {waiter : Waiter Thread Dish} {result : Monitor Thread Dish × Option (Answer Dish)}
    (inside : queue.waiting? thread = some waiter)
    (h : queue.resume thread 0 chance = some result) :
    queue.Grants (.resume thread 0 chance)
        ⟨thread, waiter.request, waiter.deadline, 0, chance, .waitBroken⟩ (queue.without thread) ∧
      (queue.without thread).serve
        ⟨thread, waiter.request, waiter.deadline, 0, chance, .waitBroken⟩ = result := by
  cases awake : waiter.sleep with
  | asleep =>
    obtain ⟨_, request, condition, deadline, sleep⟩ := waiter
    subst awake
    simp [Monitor.resume, inside] at h
  | roused signalled =>
    have grants : queue.Grants (.resume thread 0 chance)
        ⟨thread, waiter.request, waiter.deadline, 0, chance, .waitBroken⟩
        (queue.without thread) := .resume inside awake
    exact ⟨grants, Option.some.inj (grants.step_eq.symm.trans h)⟩

/-- The calls of customers. -/
theorem turn_of_callCustomer {shift next : State} {id : Nat} {chance : Chance}
    (h : shift.callCustomer id chance = some next) :
    Turn shift (.call .customer id chance) next := by
  unfold State.callCustomer at h
  split at h
  · next remaining words present =>
    split at h
    next item rest hpick =>
    have asks : shift.queueMove? (.call .customer id chance) = some
        (.enter (.worker .customer id) (.submit ⟨item, UInt64.ofNat id⟩ .endless) 0 0 chance) := by
      simp only [State.queueMove?, present, Option.map_some, hpick]
    have draws : Customer.mk remaining rest none =
        Customer.drawn ⟨remaining, words, none⟩ (.call .customer id chance) := by
      simp only [Customer.drawn, hpick]
    dsimp only at h
    split at h
    · next queue answer made =>
      obtain ⟨grants, served⟩ := grants_of_enter made
      cases h
      exact @Turn.customer shift _ _ id chance _ .lockBroken _ ⟨remaining, rest, none⟩ _ queue
        (some answer) (.inl rfl) present rfl ⟨rfl, rfl⟩ grants served asks draws
    · next queue made =>
      obtain ⟨grants, served⟩ := grants_of_enter made
      cases h
      exact @Turn.customer shift _ _ id chance _ .lockBroken _ ⟨remaining, rest, none⟩ _ queue
        none (.inl rfl) present rfl ⟨rfl, rfl⟩ grants served asks draws
    · cases h
  · cases h

/-- The calls of cooks. -/
theorem turn_of_callCook {shift next : State} {id : Nat} {chance : Chance}
    (h : shift.callCook id chance = some next) : Turn shift (.call .cook id chance) next := by
  unfold State.callCook at h
  split at h
  · next fulfilled present =>
    dsimp only at h
    split at h
    · next queue answer made =>
      obtain ⟨grants, served⟩ := grants_of_enter made
      cases h
      exact @Turn.cook shift _ _ id chance .lockBroken _ _ queue (some answer)
        (.inl rfl) present rfl rfl grants served rfl
    · next queue made =>
      obtain ⟨grants, served⟩ := grants_of_enter made
      cases h
      exact @Turn.cook shift _ _ id chance .lockBroken _ _ queue none
        (.inl rfl) present rfl rfl grants served rfl
    · cases h
  · cases h

/-- Roused calls that go on. -/
theorem turn_of_resume {shift next : State} {role : Role} {id : Nat} {chance : Chance}
    (waiting : ∀ waiter ∈ shift.queue.waiters, shift.Awaits waiter)
    (h : shift.resume role id chance = some next) : Turn shift (.resume role id chance) next := by
  unfold State.resume at h
  split at h
  · next waiter queue answer inside made =>
    obtain ⟨grants, served⟩ := grants_of_resume inside made
    have hthread : waiter.thread = .worker role id := by
      simpa using List.find?_some inside
    cases waiting waiter (List.mem_of_find?_eq_some inside) with
    | @customer position customer dish condition sleep present busy =>
      obtain ⟨rfl, rfl⟩ := Thread.worker.inj hthread
      have turn := fun answer served => @Turn.customer shift (.resume .customer position chance) _
        position chance dish .waitBroken customer customer _ queue answer (.inr rfl)
        present busy ⟨rfl, busy⟩ grants served rfl rfl
      cases answer with
      | none =>
        cases h
        have hturn := turn none served
        rw [State.hearCustomer, set_present present] at hturn
        exact hturn
      | some answer =>
        simp only [present] at h
        cases h
        exact turn _ served
    | @cook position cook condition sleep present free busy =>
      obtain ⟨rfl, rfl⟩ := Thread.worker.inj hthread
      have turn := fun answer served => @Turn.cook shift (.resume .cook position chance) _
        position chance .waitBroken cook _ queue answer (.inr rfl)
        present free busy grants served rfl
      cases answer with
      | none =>
        cases h
        exact turn _ served
      | some answer =>
        simp only [present] at h
        cases h
        exact turn _ served
  · cases h

/-- A step of a shift is one of the turns, if only workers wait. -/
theorem turn_of_step {shift next : State} {move : Move}
    (waiting : ∀ waiter ∈ shift.queue.waiters, shift.Awaits waiter)
    (h : shift.step move = some next) : Turn shift move next := by
  cases move with
  | lead denial => exact turn_of_leadOn h
  | call role id chance =>
    cases role with
    | customer => exact turn_of_callCustomer h
    | cook => exact turn_of_callCook h
  | rouse role id =>
    obtain ⟨queue, made, rfl⟩ := Option.map_eq_some_iff.mp h
    have hstep : shift.queue.step (.rouse (.worker role id)) = some (queue, none) := by
      simp [Monitor.step, made]
    rcases Monitor.step_cases hstep with
      ⟨thread, waiter, hmove, inside, asleep, rfl, -⟩ | ⟨attempt, base, grants, -⟩
    · cases hmove
      exact .rouse inside asleep
    · cases grants
  | resume role id chance => exact turn_of_resume waiting h
  | note id =>
    simp only [State.step, State.note] at h
    split at h
    · next order fulfilled ending present =>
      cases h
      exact .note present rfl
    · cases h

end OrderRail.Shift
