import OrderRail.Proofs.Count
import OrderRail.Proofs.Shift.Course

/-!
# Sound shifts

A shift is sound if nothing has gone wrong in it and nothing is going to: the queue has made a run
and is unbroken, it is open until the lead thread has closed it, every customer who has placed all
of its orders has gone home happy and no other has ended, every cook who has ended was told that
work has ended, and the orders that are still to be placed are exactly those that the queue still
expects.

A shift is sound when it starts. Every step keeps it sound that leaves it whole, and so does every
step in which the system denies nothing, if one more order than expected still has a number and the
cooks can be listed. So no submission of such a shift is ever refused, and no worker ever crashes.
-/

namespace OrderRail.Shift

open Queue (Terms Monitor Request Answer Waiter Attempt Board Chance Tallied)

/-- Nothing is denied in a move. -/
def Move.Granted : Move → Prop
  | .lead denial => denial = .nothing
  | .call _ _ chance | .resume _ _ chance => chance.shortage = none
  | .rouse .. | .note _ => True

/-- A worker's call with which nothing is denied is not short of memory. -/
theorem shortage_of_granted {move : Move} {role : Role} {id : Nat} {chance : Chance}
    (kind : move = .call role id chance ∨ move = .resume role id chance)
    (granted : move.Granted) : chance.shortage = none := by
  rcases kind with rfl | rfl <;> exact granted

/-- The sizes of a shift leave room: one more order than expected has a number, and memory could
address the list of cooks. -/
structure Ample (config : Config) (terms : Terms) : Prop where
  countable : terms.expected + 1 < Count.wordSize
  storable : config.cooks.toNat * handleBytes < blockLimit

/-- There is room for a list that memory could address, if nothing is denied. -/
theorem reserve_of_lt {items bytes : Nat} (storable : items * bytes < blockLimit) :
    reserve false items bytes = .ok () := by
  simp [reserve, Nat.not_le.mpr storable]

/-- A call of a customer has gone well: the lock is whole, and no dish was handed back. -/
structure Fine (queue : Monitor Thread Dish) (answer : Option (Answer Dish)) : Prop where
  unbroken : queue.broken = false
  kept : ∀ rejection, answer ≠ some (.rejected rejection)

/-- Nothing has gone wrong in a shift on a queue with some terms. -/
structure Sound (config : Config) (terms : Terms) (shift : State) : Prop where
  staffed : Staffed config shift
  run : ∃ history, Queue.Run terms history shift.queue
  unbroken : shift.queue.broken = false
  isOpen : shift.outcome? = none → shift.queue.board.closed = false
  customers : ∀ customer ∈ shift.customers, customer.Fair
  cooks : ∀ cook ∈ shift.cooks, cook.Fair terms.expected shift.queue.board.handled
  waiting : ∀ waiter ∈ shift.queue.waiters, shift.Awaits waiter
  orders : shift.queue.board.submitted + (shift.customers.map (·.remaining)).sum +
    (config.customers.toNat - shift.customers.length) * config.ordersPerCustomer.toNat =
      terms.expected

namespace Sound

variable {config : Config} {terms : Terms} {shift next : State}

/-- As long as a customer has not ended, the lead thread is not done. -/
theorem undone_of_customer (h : Sound config terms shift) {id : Nat} {customer : Customer}
    (present : shift.customers[id]? = some customer) (busy : customer.ending = none) :
    shift.outcome? = none := by
  cases stage : shift.lead with
  | done outcome =>
    have hended := h.staffed.customers_ended (by rw [stage]; rfl) customer
      (List.mem_of_getElem? present)
    simp [busy] at hended
  | _ => simp [State.outcome?, stage]

/-- As long as a cook has not ended, the lead thread is not done. -/
theorem undone_of_cook (h : Sound config terms shift) {id : Nat} {cook : Cook}
    (present : shift.cooks[id]? = some cook) (busy : cook.ending = none) :
    shift.outcome? = none := by
  cases stage : shift.lead with
  | done outcome =>
    obtain ⟨fulfilled, hended⟩ := h.staffed.cooks_ended (by rw [stage]; rfl) cook
      (List.mem_of_getElem? present)
    simp [busy] at hended
  | _ => simp [State.outcome?, stage]

/-- As long as a customer has not ended, the queue is open. -/
theorem isOpen_of_customer (h : Sound config terms shift) {id : Nat} {customer : Customer}
    (present : shift.customers[id]? = some customer) (busy : customer.ending = none) :
    shift.queue.board.closed = false :=
  h.isOpen (h.undone_of_customer present busy)

/-- As long as a cook has not ended, the queue is open. -/
theorem isOpen_of_cook (h : Sound config terms shift) {id : Nat} {cook : Cook}
    (present : shift.cooks[id]? = some cook) (busy : cook.ending = none) :
    shift.queue.board.closed = false :=
  h.isOpen (h.undone_of_cook present busy)

/-- The queue keeps its terms. -/
theorem terms_eq (h : Sound config terms shift) : shift.queue.terms = terms := by
  obtain ⟨history, run⟩ := h.run
  exact run.terms_eq

/-- The accounts of the queue add up while it is open. -/
theorem tallied (h : Sound config terms shift) (isOpen : shift.queue.board.closed = false) :
    Tallied terms shift.queue.board := by
  obtain ⟨history, run⟩ := h.run
  exact run.tallied isOpen

/-- The order of a customer that has not ended is still wanted. -/
theorem wanted (h : Sound config terms shift) {id : Nat} {customer : Customer}
    (present : shift.customers[id]? = some customer) (busy : customer.ending = none) :
    0 < customer.remaining ∧
      shift.queue.board.submitted + customer.remaining ≤ terms.expected := by
  have hfair : customer.Fair := h.customers customer (List.mem_of_getElem? present)
  have horders := h.orders
  have hsum := Count.sum_map_set (·.remaining) present (Customer.start 0 customer.words)
  change _ + customer.remaining = _ + 0 at hsum
  refine ⟨?_, by omega⟩
  by_contra hnone
  have hzero : customer.remaining = 0 := by omega
  rw [Customer.Fair, busy, if_pos hzero] at hfair
  cases hfair

/-- A shift stays sound if one customer gets on with its orders. -/
theorem setCustomer {id : Nat} {customer caller : Customer} (h : Sound config terms shift)
    (present : shift.customers[id]? = some customer) (busy : customer.ending = none)
    (config_eq : next.config = shift.config) (lead : next.lead = shift.lead)
    (customers : next.customers = shift.customers.set id caller)
    (cooks : next.cooks = shift.cooks) (fair : caller.Fair)
    (run : ∃ history, Queue.Run terms history next.queue)
    (unbroken : next.queue.broken = false) (isOpen : next.queue.board.closed = false)
    (handled : next.queue.board.handled = shift.queue.board.handled)
    (waiting : ∀ waiter ∈ next.queue.waiters, next.Awaits waiter)
    (placed : next.queue.board.submitted + caller.remaining =
      shift.queue.board.submitted + customer.remaining) : Sound config terms next where
  staffed := h.staffed.setCustomer present busy config_eq lead customers cooks
  run := run
  unbroken := unbroken
  isOpen := fun _ => isOpen
  customers := by
    intro other hother
    rw [customers] at hother
    rcases List.mem_or_eq_of_mem_set hother with hold | rfl
    · exact h.customers other hold
    · exact fair
  cooks := by
    rw [cooks, handled]
    exact h.cooks
  waiting := waiting
  orders := by
    have horders := h.orders
    have hsum := Count.sum_map_set (·.remaining) present caller
    rw [customers, List.length_set]
    omega

/-- A shift stays sound if one cook gets on with its work. -/
theorem setCook {id : Nat} {cook caller : Cook} (h : Sound config terms shift)
    (present : shift.cooks[id]? = some cook) (busy : cook.ending = none)
    (config_eq : next.config = shift.config) (lead : next.lead = shift.lead)
    (customers : next.customers = shift.customers)
    (cooks : next.cooks = shift.cooks.set id caller)
    (fair : caller.Fair terms.expected next.queue.board.handled)
    (run : ∃ history, Queue.Run terms history next.queue)
    (unbroken : next.queue.broken = false) (isOpen : next.queue.board.closed = false)
    (handled : shift.queue.board.handled ≤ next.queue.board.handled)
    (waiting : ∀ waiter ∈ next.queue.waiters, next.Awaits waiter)
    (submitted : next.queue.board.submitted = shift.queue.board.submitted) :
    Sound config terms next where
  staffed := h.staffed.setCook present busy config_eq lead customers cooks
  run := run
  unbroken := unbroken
  isOpen := fun _ => isOpen
  customers := by
    rw [customers]
    exact h.customers
  cooks := by
    intro other hother
    rw [cooks] at hother
    rcases List.mem_or_eq_of_mem_set hother with hold | rfl
    · rcases h.cooks other hold with hbusy | ⟨hended, hheld, hdone⟩
      · exact .inl hbusy
      · exact .inr ⟨hended, hheld, hdone.trans handled⟩
    · exact fair
  waiting := waiting
  orders := by
    rw [customers, submitted]
    exact h.orders

section

variable {request : Queue.Move Thread Dish} {base queue : Monitor Thread Dish}
  {attempt : Attempt Thread Dish} {answer : Option (Answer Dish)} {id : Nat} {chance : Chance}
  {poison : Fault}

/-- A call that has had the lock continues the run of the queue. -/
theorem run_served (h : Sound config terms shift)
    (grants : shift.queue.Grants request attempt base)
    (served : base.serve attempt = (queue, answer)) :
    ∃ history, Queue.Run terms history queue := by
  obtain ⟨history, run⟩ := h.run
  exact ⟨_, run.step (grants.step_eq.trans (congrArg some served))⟩

/-- A customer that has not ended and whose call goes well gets its order accepted, or waits. -/
theorem customer_cases (h : Sound config terms shift) {customer : Customer} {dish : Dish}
    (present : shift.customers[id]? = some customer) (busy : customer.ending = none)
    (fine : Fine queue answer)
    (grants : shift.queue.Grants request (submission id dish chance poison) base)
    (served : base.serve (submission id dish chance poison) = (queue, answer)) :
    (answer = some (.accepted base.board.nextNumber) ∧
        queue = { base with
          board := base.board.accepting dish
          waiters := Queue.Signal.deliver chance.sleeper base.waiters (.one .notEmpty) }) ∨
      (answer = none ∧ queue = { base with
        waiters := base.waiters ++ [(submission id dish chance poison).waiter .notFull] }) := by
  obtain ⟨hremaining, hwanted⟩ := h.wanted present busy
  obtain ⟨hterms, hboard, hbroken⟩ := grants.base_eq
  rw [h.terms_eq] at hterms
  have yields := base.serve_yields (submission id dish chance poison)
  rw [served] at yields
  rcases submission_cases (hbroken.trans h.unbroken) (by rw [hterms, hboard]; omega) fine.unbroken
    yields with ⟨-, accepted⟩ | waits | ⟨cause, -, hanswer, -⟩
  · exact .inl accepted
  · exact .inr waits
  · exact absurd hanswer (fine.kept _)

/-- The call of a customer that has not ended goes well, if memory is not short and one more order
than expected still has a number. -/
theorem customer_fine (h : Sound config terms shift) (ample : Ample config terms)
    (granted : chance.shortage = none) {customer : Customer} {dish : Dish}
    (present : shift.customers[id]? = some customer) (busy : customer.ending = none)
    (grants : shift.queue.Grants request (submission id dish chance poison) base)
    (served : base.serve (submission id dish chance poison) = (queue, answer)) :
    Fine queue answer := by
  have isOpen := h.isOpen_of_customer present busy
  obtain ⟨hremaining, hwanted⟩ := h.wanted present busy
  obtain ⟨hterms, hboard, hbroken⟩ := grants.base_eq
  rw [h.terms_eq] at hterms
  have yields := base.serve_yields (submission id dish chance poison)
  rw [served] at yields
  have whole := submission_whole (hbroken.trans h.unbroken) (hboard ▸ isOpen)
    (hterms ▸ hboard ▸ h.tallied isOpen) (hterms ▸ ample.countable) yields
  refine ⟨whole, fun rejection hrejected => ?_⟩
  rcases submission_cases (hbroken.trans h.unbroken) (by rw [hterms, hboard]; omega) whole
    yields with ⟨-, haccepted, -⟩ | ⟨hwaits, -⟩ | ⟨cause, denied, -⟩
  · cases haccepted.symm.trans hrejected
  · cases hwaits.symm.trans hrejected
  · simp [granted] at denied

/-- The call of a customer that has not ended has gone well, if the shift is whole after it. -/
theorem fine_of_whole (h : Sound config terms shift) {customer caller : Customer} {dish : Dish}
    (present : shift.customers[id]? = some customer) (busy : customer.ending = none)
    (whole : (shift.hearCustomer queue id caller dish answer).Whole) : Fine queue answer := by
  have unbroken := whole.unbroken
  rw [(State.hearCustomer_eq ..).1] at unbroken
  refine ⟨unbroken, ?_⟩
  rintro rejection rfl
  have hid := (List.getElem?_eq_some_iff.mp present).1
  exact whole.served id (caller.turnedAway id rejection.reason) (List.getElem?_set_self hid)
    (h.staffed.ahead_of_busy present busy) _ rfl

/-- A cook that has not ended gets an order, learns that work has ended, or waits. -/
theorem cook_cases (h : Sound config terms shift) {cook : Cook}
    (present : shift.cooks[id]? = some cook) (busy : cook.ending = none)
    (grants : shift.queue.Grants request (taking id chance poison) base)
    (served : base.serve (taking id chance poison) = (queue, answer)) :
    (∃ order rest, base.board.pending.pop? = some (order, rest) ∧
        answer = some (.order order) ∧
        queue = { base with
          board := base.board.handingOut rest
          waiters := (Queue.takerSignals base.terms (base.board.handled + 1)).foldl
            (Queue.Signal.deliver chance.sleeper) base.waiters }) ∨
      (terms.expected ≤ base.board.handled ∧ answer = some .endOfWork ∧
        queue = { base with
          waiters := Queue.Signal.deliver chance.sleeper base.waiters (.all .notEmpty) }) ∨
      (answer = none ∧ queue = { base with
        waiters := base.waiters ++ [(taking id chance poison).waiter .notEmpty] }) := by
  have isOpen := h.isOpen_of_cook present busy
  obtain ⟨hterms, hboard, hbroken⟩ := grants.base_eq
  rw [h.terms_eq] at hterms
  have yields := base.serve_yields (taking id chance poison)
  rw [served] at yields
  have hcases := taking_cases (hbroken.trans h.unbroken) (hboard ▸ isOpen)
    (hterms ▸ hboard ▸ h.tallied isOpen) yields
  rwa [hterms] at hcases ⊢

/-- A shift stays sound when the call of a customer has gone well. -/
theorem hearCustomer (h : Sound config terms shift)
    {customer caller : Customer} {dish : Dish} (present : shift.customers[id]? = some customer)
    (busy : customer.ending = none) (fine : Fine queue answer)
    (same : caller.remaining = customer.remaining ∧ caller.ending = none)
    (grants : shift.queue.Grants request (submission id dish chance poison) base)
    (served : base.serve (submission id dish chance poison) = (queue, answer))
    (waiting : ∀ waiter ∈ (shift.hearCustomer queue id caller dish answer).queue.waiters,
      (shift.hearCustomer queue id caller dish answer).Awaits waiter) :
    Sound config terms (shift.hearCustomer queue id caller dish answer) := by
  have isOpen := h.isOpen_of_customer present busy
  obtain ⟨hremaining, hwanted⟩ := h.wanted present busy
  obtain ⟨-, hboard, hbroken⟩ := grants.base_eq
  have run := h.run_served grants served
  have tallied := h.tallied isOpen
  have hsubmitted : base.board.submitted = shift.queue.board.submitted := by rw [hboard]
  have hhandled : base.board.handled = shift.queue.board.handled := by rw [hboard]
  rcases h.customer_cases present busy fine grants served with ⟨rfl, rfl⟩ | ⟨rfl, rfl⟩
  · refine h.setCustomer present busy rfl rfl rfl rfl rfl run (hbroken.trans h.unbroken)
      (hboard ▸ isOpen) hhandled waiting ?_
    have hserved : caller.served.remaining = caller.remaining - 1 := rfl
    have hnumber := tallied.nextNumber_eq
    have hplaced := tallied.submitted_eq
    change base.board.nextNumber + caller.served.remaining = _
    rw [hboard]
    omega
  · have hfair : caller.Fair := by
      have hcustomer : customer.Fair := h.customers customer (List.mem_of_getElem? present)
      rw [Customer.Fair, busy] at hcustomer
      rw [Customer.Fair, same.1, same.2]
      exact hcustomer
    refine h.setCustomer present busy rfl rfl rfl rfl hfair run (hbroken.trans h.unbroken)
      (hboard ▸ isOpen) hhandled waiting ?_
    change base.board.submitted + caller.remaining = _
    omega

/-- A shift stays sound when a cook has had the lock. -/
theorem hearCook (h : Sound config terms shift) {cook : Cook}
    (present : shift.cooks[id]? = some cook) (free : cook.held = none)
    (busy : cook.ending = none)
    (grants : shift.queue.Grants request (taking id chance poison) base)
    (served : base.serve (taking id chance poison) = (queue, answer))
    (waiting : ∀ waiter ∈ (shift.hearCook queue id cook answer).queue.waiters,
      (shift.hearCook queue id cook answer).Awaits waiter) :
    Sound config terms (shift.hearCook queue id cook answer) := by
  have isOpen := h.isOpen_of_cook present busy
  obtain ⟨-, hboard, hbroken⟩ := grants.base_eq
  have run := h.run_served grants served
  have hsubmitted : base.board.submitted = shift.queue.board.submitted := by rw [hboard]
  have hhandled : base.board.handled = shift.queue.board.handled := by rw [hboard]
  rcases h.cook_cases present busy grants served with
    ⟨order, rest, pops, rfl, rfl⟩ | ⟨done, rfl, rfl⟩ | ⟨rfl, rfl⟩
  · refine h.setCook present busy rfl rfl rfl rfl (.inl busy) run (hbroken.trans h.unbroken)
      (hboard ▸ isOpen) ?_ waiting hsubmitted
    change shift.queue.board.handled ≤ base.board.handled + 1
    omega
  · refine h.setCook present busy rfl rfl rfl rfl ?_ run (hbroken.trans h.unbroken)
      (hboard ▸ isOpen) hhandled.ge waiting hsubmitted
    exact .inr ⟨⟨cook.fulfilled, rfl⟩, free, done⟩
  · exact h.setCook present busy rfl rfl rfl (set_present present).symm (.inl busy) run
      (hbroken.trans h.unbroken) (hboard ▸ isOpen) hhandled.ge waiting hsubmitted

end

/-- A shift is sound when it starts. -/
theorem start (config : Config) (validate : Bool) (generators : Generators) (terms : Terms)
    (expected : config.customers.toNat * config.ordersPerCustomer.toNat = terms.expected) :
    Sound config terms (State.start config validate generators terms) where
  staffed :=
    { config_eq := rfl
      customers_le := Nat.zero_le _
      cooks_le := Nat.zero_le _
      allCustomers := fun stage => absurd rfl stage
      allCooks := fun stage _ => absurd rfl stage
      customersJoined := fun id hid => absurd hid (Nat.not_lt_zero id)
      cooksJoined := fun id hid => absurd hid (Nat.not_lt_zero id)
      outcome := fun outcome stage => nomatch stage }
  run := ⟨[], .opened⟩
  unbroken := rfl
  isOpen := fun _ => rfl
  customers := fun customer hcustomer => nomatch hcustomer
  cooks := fun cook hcook => nomatch hcook
  waiting := fun waiter hwaiter => nomatch hwaiter
  orders := by
    rw [← expected]
    exact Nat.zero_add _

/-- The lead thread is not among those who wait. -/
theorem lead_outside (h : Sound config terms shift) : shift.queue.waiting? .lead = none := by
  apply List.find?_eq_none.mpr
  intro waiter hwaiter
  cases h.waiting waiter hwaiter <;> simp

/-- Closing the queue of a sound shift does not fail. -/
theorem close_step (h : Sound config terms shift) (stage : shift.lead = .closing) :
    shift.queue.step (.enter .lead .close 0 0 .calm) =
      some ({ shift.queue with
          board := shift.queue.board.closing
          waiters := [.all .notFull, .all .notEmpty].foldl
            (Queue.Signal.deliver Chance.calm.sleeper) shift.queue.waiters },
        some (.report (shift.queue.board.accounts terms))) := by
  have isOpen := h.isOpen (by simp [State.outcome?, stage])
  rw [← h.terms_eq]
  exact Queue.close_reports 0 0 .calm h.lead_outside h.unbroken isOpen

/-- A shift stays sound as the lead thread goes on to its next stage. -/
theorem setLead {lead : Lead} (h : Sound config terms shift) (undone : shift.outcome? = none)
    (staffed : Staffed config { shift with lead })
    (waiting : ∀ waiter ∈ shift.queue.waiters, { shift with lead }.Awaits waiter) :
    Sound config terms { shift with lead } where
  staffed := staffed
  run := h.run
  unbroken := h.unbroken
  isOpen := fun _ => h.isOpen undone
  customers := h.customers
  cooks := h.cooks
  waiting := waiting
  orders := h.orders

/-- A shift stays sound as one more customer is started, who is going to place some of the orders
that are expected. -/
theorem startCustomer (h : Sound config terms shift) (stage : shift.lead = .startingCustomers)
    (more : shift.customers.length < shift.config.customers.toNat)
    (staffed : Staffed config shift.startCustomer)
    (waiting : ∀ waiter ∈ shift.queue.waiters, shift.startCustomer.Awaits waiter) :
    Sound config terms shift.startCustomer where
  staffed := staffed
  run := h.run
  unbroken := h.unbroken
  isOpen := fun _ => h.isOpen (by simp [State.outcome?, stage])
  customers := by
    intro customer hcustomer
    rcases List.mem_append.mp hcustomer with hold | hnew
    · exact h.customers customer hold
    · rw [List.mem_singleton.mp hnew]
      rfl
  cooks := h.cooks
  waiting := waiting
  orders := by
    have horders := h.orders
    rw [h.staffed.config_eq] at more
    obtain ⟨others, hothers⟩ := Nat.exists_eq_add_of_lt more
    have hbefore : config.customers.toNat - shift.customers.length = others + 1 := by omega
    have hafter : config.customers.toNat - (shift.customers.length + 1) = others := by omega
    rw [hbefore, Nat.add_mul, Nat.one_mul] at horders
    simp only [State.startCustomer, List.map_append, List.sum_append_nat, List.length_append,
      List.map_cons, List.map_nil, List.sum_cons, List.sum_nil, List.length_cons, List.length_nil,
      Customer.start, h.staffed.config_eq, hafter]
    omega

/-- A shift stays sound as one more cook is started. -/
theorem startCook (h : Sound config terms shift) (stage : shift.lead = .startingCooks)
    (staffed : Staffed config shift.startCook)
    (waiting : ∀ waiter ∈ shift.queue.waiters, shift.startCook.Awaits waiter) :
    Sound config terms shift.startCook where
  staffed := staffed
  run := h.run
  unbroken := h.unbroken
  isOpen := fun _ => h.isOpen (by simp [State.outcome?, stage])
  customers := h.customers
  cooks := by
    intro cook hcook
    rcases List.mem_append.mp hcook with hold | hnew
    · exact h.cooks cook hold
    · rw [List.mem_singleton.mp hnew]
      exact .inl rfl
  waiting := waiting
  orders := h.orders

/-- A shift stays sound as its queue is closed. -/
theorem close {queue : Monitor Thread Dish} {accounts : Queue.CloseReport}
    (h : Sound config terms shift) (stage : shift.lead = .closing)
    (made : shift.queue.step (.enter .lead .close 0 0 .calm) =
      some (queue, some (.report accounts)))
    (staffed : Staffed config (shift.closed queue accounts))
    (waiting : ∀ waiter ∈ queue.waiters, (shift.closed queue accounts).Awaits waiter) :
    Sound config terms (shift.closed queue accounts) := by
  obtain ⟨history, run⟩ := h.run
  have hrun := run.step made
  rw [h.close_step stage] at made
  obtain ⟨rfl, -⟩ := Prod.mk.inj (Option.some.inj made)
  exact
    { staffed
      run := ⟨_, hrun⟩
      unbroken := h.unbroken
      isOpen := fun undone => nomatch undone
      customers := h.customers
      cooks := h.cooks
      waiting
      orders := h.orders }

/-- A shift stays sound as the lead thread goes on, unless it is denied what it needs. -/
theorem leadOn {denial : Denial} (h : Sound config terms shift)
    (unrefused : ∀ failure, shift.Refused denial failure →
      next ≠ shift.conclude (.error failure))
    (turn : Turn shift (.lead denial) next) : Sound config terms next := by
  have undone (stage : ∀ outcome, shift.lead ≠ .done outcome) : shift.outcome? = none := by
    cases hlead : shift.lead with
    | done outcome => exact absurd hlead (stage outcome)
    | _ => simp [State.outcome?, hlead]
  have staffed : Staffed config next := by
    refine h.staffed.leadOn h.customers h.cooks (fun stage queue fault made => ?_) unrefused turn
    rw [h.close_step stage] at made
    cases made
  have waiting := turn.waiting h.waiting
  cases turn with
  | startCustomer stage more => exact h.startCustomer stage more staffed waiting
  | startCook stage more => exact h.startCook stage staffed waiting
  | close stage made => exact h.close stage made staffed waiting
  | refused | joinFailedCustomer | joinCrashedCook | failToClose =>
    exact absurd staffed Staffed.not_failed
  | customersStarted stage | cooksStarted stage | joinCustomer stage | customersJoined stage
  | joinCook stage | cooksJoined stage =>
    exact h.setLead (undone (by simp [stage])) staffed waiting
  | customer kind => simp at kind
  | cook kind => simp at kind

/-- Where nothing is denied and the cooks can be listed, the lead thread gets what it needs. -/
theorem unrefused (h : Sound config terms shift) (ample : Ample config terms)
    {failure : Failure} : ¬ shift.Refused .nothing failure := by
  have storable := ample.storable
  rintro (⟨stage, more, denied⟩ | ⟨stage, all, denied⟩ | ⟨stage, more, denied⟩ |
    ⟨stage, all, denied⟩)
  · cases denied
  · rw [h.staffed.config_eq, Denial.nothing, reserve_of_lt storable] at denied
    cases denied
  · cases denied
  · have hcounts : config.cooks.toNat * numberBytes < blockLimit := by
      unfold numberBytes handleBytes at *
      omega
    rw [h.staffed.config_eq, Denial.nothing, reserve_of_lt hcounts] at denied
    cases denied

/-- A shift stays sound when a sleeping worker wakes up without a signal. -/
theorem rouse {role : Role} {id : Nat} {waiter : Waiter Thread Dish} (h : Sound config terms shift)
    (inside : shift.queue.waiting? (.worker role id) = some waiter)
    (asleep : waiter.sleep = .asleep)
    (waiting : ∀ waiter ∈ (shift.queue.rousing (.worker role id)).waiters,
      { shift with queue := shift.queue.rousing (.worker role id) }.Awaits waiter) :
    Sound config terms { shift with queue := shift.queue.rousing (.worker role id) } := by
  obtain ⟨history, run⟩ := h.run
  exact
    { staffed := h.staffed.congr rfl rfl rfl rfl
      run := ⟨_, run.step (Monitor.rouse_eq_some inside asleep)⟩
      unbroken := h.unbroken
      isOpen := h.isOpen
      customers := h.customers
      cooks := h.cooks
      waiting
      orders := h.orders }

/-- A cook that holds an order has not ended, and its thread is outside the queue. -/
theorem busy_of_held (h : Sound config terms shift) {id : Nat} {cook : Cook} {order : Order Dish}
    (present : shift.cooks[id]? = some cook) (holds : cook.held = some order) :
    cook.ending = none ∧
      ∀ waiter ∈ shift.queue.waiters, waiter.thread ≠ .worker .cook id := by
  refine ⟨?_, fun waiter hwaiter => (h.waiting waiter hwaiter).elsewhere present holds⟩
  rcases h.cooks cook (List.mem_of_getElem? present) with hbusy | ⟨-, hheld, -⟩
  · exact hbusy
  · simp [holds] at hheld

/-- A shift stays sound when a cook notes the order in its hands. -/
theorem noting (h : Sound config terms shift) {id : Nat} {cook : Cook} {order : Order Dish}
    (present : shift.cooks[id]? = some cook) (holds : cook.held = some order)
    (waiting : ∀ waiter ∈ shift.queue.waiters, (shift.noting id cook order).Awaits waiter) :
    Sound config terms (shift.noting id cook order) := by
  obtain ⟨busy, -⟩ := h.busy_of_held present holds
  exact h.setCook present busy rfl rfl rfl rfl (.inl busy) h.run h.unbroken
    (h.isOpen_of_cook present busy) (Nat.le_refl _) waiting rfl

/-- Every turn that leaves a sound shift whole keeps it sound. -/
theorem turn_of_whole {move : Move} (h : Sound config terms shift)
    (made : Turn shift move next) (whole : next.Whole) : Sound config terms next := by
  have waiting := made.waiting h.waiting
  by_cases hlead : ∃ denial, move = .lead denial
  · obtain ⟨denial, rfl⟩ := hlead
    refine h.leadOn (fun failure _ hnext => ?_) made
    exact whole.unfailed failure (congrArg State.lead hnext)
  · cases made with
    | customer kind present busy same grants served =>
      have fine := h.fine_of_whole present busy whole
      exact h.hearCustomer present busy fine same grants served waiting
    | cook kind present free busy grants served =>
      exact h.hearCook present free busy grants served waiting
    | rouse inside asleep => exact h.rouse inside asleep waiting
    | note present holds => exact h.noting present holds waiting
    | _ => exact absurd ⟨_, rfl⟩ hlead

/-- Every turn in which nothing is denied keeps a shift sound whose sizes leave room. -/
theorem turn {move : Move} (h : Sound config terms shift) (ample : Ample config terms)
    (granted : move.Granted) (made : Turn shift move next) : Sound config terms next := by
  have waiting := made.waiting h.waiting
  by_cases hlead : ∃ denial, move = .lead denial
  · obtain ⟨denial, rfl⟩ := hlead
    obtain rfl : denial = .nothing := granted
    exact h.leadOn (fun failure refused _ => h.unrefused ample refused) made
  · cases made with
    | customer kind present busy same grants served =>
      have hmemory := shortage_of_granted kind granted
      have fine := h.customer_fine ample hmemory present busy grants served
      exact h.hearCustomer present busy fine same grants served waiting
    | cook kind present free busy grants served =>
      exact h.hearCook present free busy grants served waiting
    | rouse inside asleep => exact h.rouse inside asleep waiting
    | note present holds => exact h.noting present holds waiting
    | _ => exact absurd ⟨_, rfl⟩ hlead

/-- Every step in which nothing is denied keeps a shift sound whose sizes leave room. -/
theorem step {move : Move} (h : Sound config terms shift) (ample : Ample config terms)
    (granted : move.Granted) (made : shift.step move = some next) : Sound config terms next :=
  h.turn ample granted (turn_of_step h.waiting made)

end Sound

/-- A sound shift whose sizes leave room is sound all the way, if nothing is denied. -/
theorem Execution.sound {config : Config} {terms : Terms} {start shift : State} {moves : List Move}
    (execution : Execution start moves shift) (ample : Ample config terms)
    (granted : ∀ move ∈ moves, move.Granted) (h : Sound config terms start) :
    Sound config terms shift := by
  induction execution with
  | nil => exact h
  | step execution made ih =>
    obtain ⟨hbefore, hlast⟩ := List.forall_mem_append.mp granted
    exact (ih hbefore).step ample (List.forall_mem_singleton.mp hlast) made

end OrderRail.Shift
