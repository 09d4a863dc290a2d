import OrderRail.Proofs.Queue.Accounting
import OrderRail.Shift.State

/-!
# Workers in the queue

A customer submits dishes and a cook takes orders, both without a time limit. On an open queue,
whose accounts add up, a wanted submission is accepted, or waits for a place, or is handed back
because memory is short, and a take gets an order, or is told that work has ended, or waits for an
order. Who waits in a shift is a worker that has not
ended, with the call that is its own.
-/

namespace OrderRail.Shift

open Queue (Terms Monitor Request Answer Waiter Attempt Board Chance Tallied)

/-- A customer's attempt to submit a dish. -/
def submission (id : Nat) (dish : Dish) (chance : Chance) (poison : Fault) :
    Attempt Thread Dish :=
  { thread := .worker .customer id, request := .submit dish .endless, deadline := none
    now := 0, chance, poison }

/-- A cook's attempt to take an order. -/
def taking (id : Nat) (chance : Chance) (poison : Fault) : Attempt Thread Dish :=
  { thread := .worker .cook id, request := .take .endless, deadline := none
    now := 0, chance, poison }

section

variable {base queue : Monitor Thread Dish} {id : Nat} {chance : Chance} {poison : Fault}
  {answer : Option (Answer Dish)}

/-- A wanted submission that leaves the lock whole is accepted, or it waits for a place, or the dish
is handed back because memory is short. -/
theorem submission_cases {dish : Dish} (unbroken : base.broken = false)
    (wanted : base.board.submitted < base.terms.expected) (whole : queue.broken = false)
    (yields : base.Yields (submission id dish chance poison) queue answer) :
    (base.board.pending.size < base.terms.capacity ∧
        answer = some (.accepted base.board.nextNumber) ∧
        queue = { base with
          board := base.board.accepting dish
          waiters := Queue.Signal.deliver chance.sleeper base.waiters (.one .notEmpty) }) ∨
      (answer = none ∧ queue = { base with
        waiters := base.waiters ++ [(submission id dish chance poison).waiter .notFull] }) ∨
      ∃ cause, base.board.lacks chance.shortage = some cause ∧
        answer = some (.rejected ⟨dish, .allocation cause⟩) ∧ queue = base := by
  cases yields with
  | broken isBroken => simp [unbroken] at isBroken
  | finish _ decision =>
    change Queue.Decision _ _ _ _ (.submit dish .endless) _ at decision
    cases decision with
    | accept _ _ room _ => exact .inl ⟨room, rfl, rfl⟩
    | @lack _ _ cause _ _ _ denied => exact .inr (.inr ⟨cause, denied, rfl, rfl⟩)
    | refuse _ unwanted => omega
    | handOut _ takes | endWork _ takes => cases takes
    | read reads => cases reads
  | wait _ decision =>
    change Queue.Decision _ _ _ _ (.submit dish .endless) _ at decision
    cases decision with
    | awaitRoom => exact .inr (.inl ⟨rfl, rfl⟩)
  | fail _ decision => cases whole

/-- A submission to an open queue does not break the lock, if one more order than expected still has
a number. -/
theorem submission_whole {dish : Dish} (unbroken : base.broken = false)
    (isOpen : base.board.closed = false) (tallied : Tallied base.terms base.board)
    (fits : base.terms.expected + 1 < Count.wordSize)
    (yields : base.Yields (submission id dish chance poison) queue answer) :
    queue.broken = false := by
  cases yields with
  | broken isBroken => exact unbroken
  | finish _ decision => exact unbroken
  | wait _ decision => exact unbroken
  | fail _ decision =>
    change Queue.Decision _ _ _ _ (.submit dish .endless) _ at decision
    cases decision with
    | misuse isClosed => simp [isOpen] at isClosed
    | numberOverflow _ wanted _ _ tooLarge =>
      have hnumber := tallied.nextNumber_eq
      have hsubmitted := tallied.submitted_eq
      omega
    | countOverflow _ takes => cases takes

/-- A take from an open queue gets an order, or learns that work has ended, or waits for an
order. -/
theorem taking_cases (unbroken : base.broken = false) (isOpen : base.board.closed = false)
    (tallied : Tallied base.terms base.board)
    (yields : base.Yields (taking id chance poison) queue answer) :
    (∃ order rest, base.board.pending.pop? = some (order, rest) ∧
        answer = some (.order order) ∧
        queue = { base with
          board := base.board.handingOut rest
          waiters := (Queue.takerSignals base.terms (base.board.handled + 1)).foldl
            (Queue.Signal.deliver chance.sleeper) base.waiters }) ∨
      (base.terms.expected ≤ base.board.handled ∧ answer = some .endOfWork ∧
        queue = { base with
          waiters := Queue.Signal.deliver chance.sleeper base.waiters (.all .notEmpty) }) ∨
      (answer = none ∧ queue = { base with
        waiters := base.waiters ++ [(taking id chance poison).waiter .notEmpty] }) := by
  cases yields with
  | broken isBroken => simp [unbroken] at isBroken
  | finish _ decision =>
    change Queue.Decision _ _ _ _ (.take .endless) _ at decision
    cases decision with
    | @handOut _ order rest _ _ pops _ => exact .inl ⟨order, rest, pops, rfl, rfl⟩
    | endWork _ _ _ done => exact .inr (.inl ⟨done, rfl, rfl⟩)
    | read reads => cases reads
  | wait _ decision =>
    change Queue.Decision _ _ _ _ (.take .endless) _ at decision
    cases decision with
    | awaitOrder => exact .inr (.inr ⟨rfl, rfl⟩)
  | fail _ decision =>
    change Queue.Decision _ _ _ _ (.take .endless) _ at decision
    cases decision with
    | misuse isClosed => simp [isOpen] at isClosed
    | countOverflow _ _ pops tooLarge =>
      have hfits := tallied.handled_fits pops
      omega

end

/-- The waiting calls that workers of a shift can have. A cook that waits has nothing in hand. -/
inductive State.Awaits (shift : State) : Waiter Thread Dish → Prop where
  | customer {id : Nat} {customer : Customer} {dish : Dish} {condition : Queue.Condition}
      {sleep : Queue.Sleep} (present : shift.customers[id]? = some customer)
      (busy : customer.ending = none) :
      shift.Awaits ⟨.worker .customer id, .submit dish .endless, condition, none, sleep⟩
  | cook {id : Nat} {cook : Cook} {condition : Queue.Condition} {sleep : Queue.Sleep}
      (present : shift.cooks[id]? = some cook) (free : cook.held = none)
      (busy : cook.ending = none) :
      shift.Awaits ⟨.worker .cook id, .take .endless, condition, none, sleep⟩

namespace State.Awaits

variable {shift next : State} {waiter other : Waiter Thread Dish}

/-- Who waits does not depend on who sleeps. -/
theorem congr (h : shift.Awaits other) (same : waiter.lying = other.lying) :
    shift.Awaits waiter := by
  obtain ⟨thread, request, condition, deadline, sleep⟩ := waiter
  cases h with
  | customer present busy =>
    simp only [Waiter.lying, Waiter.mk.injEq] at same
    obtain ⟨rfl, rfl, rfl, rfl, -⟩ := same
    exact .customer present busy
  | cook present free busy =>
    simp only [Waiter.lying, Waiter.mk.injEq] at same
    obtain ⟨rfl, rfl, rfl, rfl, -⟩ := same
    exact .cook present free busy

/-- A change to one customer does not concern the waiting calls of others. -/
theorem setCustomer {id : Nat} {customer : Customer} (h : shift.Awaits waiter)
    (absent : waiter.thread ≠ .worker .customer id)
    (customers : next.customers = shift.customers.set id customer)
    (cooks : next.cooks = shift.cooks) : next.Awaits waiter := by
  cases h with
  | @customer position caller dish condition sleep present busy =>
    refine .customer ?_ busy
    rw [customers, List.getElem?_set_ne fun hid => absent (by rw [hid])]
    exact present
  | cook present free busy => exact .cook (cooks ▸ present) free busy

/-- A change to one cook does not concern the waiting calls of others. -/
theorem setCook {id : Nat} {cook : Cook} (h : shift.Awaits waiter)
    (absent : waiter.thread ≠ .worker .cook id)
    (customers : next.customers = shift.customers)
    (cooks : next.cooks = shift.cooks.set id cook) : next.Awaits waiter := by
  cases h with
  | customer present busy => exact .customer (customers ▸ present) busy
  | @cook position caller condition sleep present free busy =>
    refine .cook ?_ free busy
    rw [cooks, List.getElem?_set_ne fun hid => absent (by rw [hid])]
    exact present

/-- New workers do not concern the waiting calls of others. -/
theorem hire {newCustomers : List Customer} {newCooks : List Cook} (h : shift.Awaits waiter)
    (customers : next.customers = shift.customers ++ newCustomers)
    (cooks : next.cooks = shift.cooks ++ newCooks) : next.Awaits waiter := by
  cases h with
  | customer present busy =>
    refine .customer ?_ busy
    rw [customers, List.getElem?_append_left (List.getElem?_eq_some_iff.mp present).1]
    exact present
  | cook present free busy =>
    refine .cook ?_ free busy
    rw [cooks, List.getElem?_append_left (List.getElem?_eq_some_iff.mp present).1]
    exact present

/-- A cook with an order in its hands does not wait. -/
theorem elsewhere {id : Nat} {cook : Cook} {order : Order Dish} (h : shift.Awaits waiter)
    (present : shift.cooks[id]? = some cook) (holds : cook.held = some order) :
    waiter.thread ≠ .worker .cook id := by
  intro hthread
  cases h with
  | customer => cases hthread
  | cook hpresent free =>
    obtain ⟨-, rfl⟩ := Thread.worker.inj hthread
    obtain rfl := Option.some.inj (present.symm.trans hpresent)
    simp [holds] at free

end State.Awaits

/-- Who waits does not depend on who sleeps. -/
theorem awaits_congr {shift : State} {waiters others : List (Waiter Thread Dish)}
    (h : ∀ waiter ∈ waiters, shift.Awaits waiter)
    (same : others.map Waiter.lying = waiters.map Waiter.lying) :
    ∀ waiter ∈ others, shift.Awaits waiter :=
  Queue.forall_of_map_lying same (fun _ _ heq hawaits => hawaits.congr heq) h

/-- Replacing an item by itself changes nothing. -/
theorem set_present {α : Type} {items : List α} {id : Nat} {a : α} (h : items[id]? = some a) :
    items.set id a = items := by
  obtain ⟨hid, rfl⟩ := List.getElem?_eq_some_iff.mp h
  exact List.set_getElem_self hid

end OrderRail.Shift
