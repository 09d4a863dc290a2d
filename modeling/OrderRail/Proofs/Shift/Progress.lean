import Mathlib.Algebra.BigOperators.Group.List.Basic
import OrderRail.Proofs.Queue.Wakeup
import OrderRail.Proofs.Shift.Config
import OrderRail.Proofs.Shift.Sound
import OrderRail.Shift.Run

/-!
# A shift never gets stuck

As long as the lead thread is not done, some thread can make a step that is more than waking up for
no reason, if nothing is denied. The lead thread itself can go on, unless it waits for a worker.
That worker is outside the queue and can go on, or somebody has been roused and can go on, or
everybody in the queue is asleep. Then a sleeping customer waits at a full queue, so there is an
order for a cook to take, and a sleeping cook waits for an order that a customer has still to place;
and neither can be, because the other one could go on.
-/

namespace OrderRail.Shift

open Queue (Terms Monitor Request Answer Waiter Chance)

/-- The thread that makes a move. -/
def Move.thread : Move → Thread
  | .lead _ => .lead
  | .call role id _ => .worker role id
  | .rouse role id => .worker role id
  | .resume role id _ => .worker role id
  | .note id => .worker .cook id

/-- Whether a move wakes a sleeping call without a signal. -/
def Move.isRouse : Move → Bool
  | .rouse .. => true
  | _ => false

/-- Some thread can make a step that is more than waking up for no reason, if nothing is denied. -/
def State.CanMove (shift : State) : Prop :=
  ∃ move next, move.isRouse = false ∧ move.Granted ∧ shift.step move = some next

/-- Nothing is denied in a turn of the schedule. -/
def Fortune.Granted (fortune : Fortune) : Prop :=
  fortune.chance.shortage = none ∧ fortune.denial = .nothing

/-- Nothing is denied in a calm turn. -/
theorem Fortune.granted_calm : Fortune.calm.Granted := ⟨rfl, rfl⟩

/-- Whether the lead thread has still to start workers. -/
def State.Opening (shift : State) : Prop :=
  shift.lead = .startingCustomers ∨ shift.lead = .startingCooks

/-- A thread outside the queue can enter it. -/
theorem enter_of_outside {queue : Monitor Thread Dish} {thread : Thread}
    (outside : queue.waiting? thread = none) (request : Request Dish) (chance : Chance) :
    ∃ next answer, queue.enter thread request 0 0 chance = some (next, answer) :=
  ⟨_, _, (Monitor.Grants.enter outside).step_eq⟩

/-- A roused call can go on. -/
theorem resume_of_roused {queue : Monitor Thread Dish} {thread : Thread}
    {waiter : Waiter Thread Dish} {signalled : Bool}
    (inside : queue.waiting? thread = some waiter) (awake : waiter.sleep = .roused signalled)
    (chance : Chance) : ∃ next answer, queue.resume thread 0 chance = some (next, answer) :=
  ⟨_, _, (Monitor.Grants.resume inside awake).step_eq⟩

namespace State

variable {shift : State} {id : Nat}

/-- What a thread may do next are moves of its own, and more than waking up for no reason. They are
denied nothing if the fortune of the turn denies nothing. -/
theorem movesOf_cases {fortune : Fortune} {thread : Thread} {move : Move}
    (h : move ∈ movesOf fortune thread) :
    move.thread = thread ∧ move.isRouse = false ∧ (fortune.Granted → move.Granted) := by
  cases thread with
  | lead =>
    rw [List.mem_singleton.mp h]
    exact ⟨rfl, rfl, And.right⟩
  | worker role id =>
    cases role with
    | customer =>
      rw [List.mem_singleton.mp h]
      exact ⟨rfl, rfl, And.left⟩
    | cook =>
      rcases List.mem_pair.mp h with rfl | rfl
      · exact ⟨rfl, rfl, fun _ => trivial⟩
      · exact ⟨rfl, rfl, And.left⟩

/-- A turn is a step that is more than waking up for no reason. -/
theorem step_of_turn {next : State} {fortune : Fortune} {thread : Thread}
    (h : shift.turn fortune thread = some next) :
    ∃ move, move.thread = thread ∧ move.isRouse = false ∧ (fortune.Granted → move.Granted) ∧
      shift.step move = some next := by
  obtain ⟨move, hmem, made⟩ := List.exists_of_findSome?_eq_some h
  obtain ⟨hthread, hrouse, hgranted⟩ := movesOf_cases hmem
  exact ⟨move, hthread, hrouse, hgranted, made⟩

/-- The lead thread can take its turn while it starts workers. -/
theorem turn_of_opening (opening : shift.Opening) (fortune : Fortune) :
    ∃ next, shift.turn fortune .lead = some next := by
  have hlead : ∃ next, shift.leadOn fortune.denial = some next := by
    rcases opening with stage | stage
    · by_cases more : shift.customers.length < shift.config.customers.toNat
      · exact ⟨_, by simp only [leadOn, stage, if_pos more]; rfl⟩
      · exact ⟨_, by simp only [leadOn, stage, if_neg more]; rfl⟩
    · by_cases more : shift.cooks.length < shift.config.cooks.toNat
      · exact ⟨_, by simp only [leadOn, stage, if_pos more]; rfl⟩
      · exact ⟨_, by simp only [leadOn, stage, if_neg more]; rfl⟩
  obtain ⟨next, made⟩ := hlead
  exact ⟨next, by simp only [turn, movesOf, List.findSome?_cons, step, made]⟩

/-- A customer outside the queue can make its next call. -/
theorem turn_of_customer {customer : Customer} (present : shift.customers[id]? = some customer)
    (busy : customer.ending = none)
    (outside : shift.queue.waiting? (.worker .customer id) = none) (fortune : Fortune) :
    ∃ next, shift.turn fortune (.worker .customer id) = some next := by
  obtain ⟨remaining, words, ending⟩ := customer
  subst busy
  obtain ⟨queue, answer, made⟩ := enter_of_outside outside
    (.submit ⟨(Menu.pick words).1, UInt64.ofNat id⟩ .endless) fortune.chance
  have hcall : ∃ next, shift.step (.call .customer id fortune.chance) = some next := by
    cases answer with
    | none => exact ⟨_, by simp only [State.step, State.callCustomer, present, made]; rfl⟩
    | some answer => exact ⟨_, by simp only [State.step, State.callCustomer, present, made]; rfl⟩
  obtain ⟨next, made⟩ := hcall
  exact ⟨next, by simp only [turn, movesOf, List.findSome?_cons, made]⟩

/-- A cook outside the queue can note the order in its hands, or make its next call. -/
theorem turn_of_cook {cook : Cook} (present : shift.cooks[id]? = some cook)
    (busy : cook.ending = none)
    (outside : shift.queue.waiting? (.worker .cook id) = none) (fortune : Fortune) :
    ∃ next, shift.turn fortune (.worker .cook id) = some next := by
  obtain ⟨held, fulfilled, ending⟩ := cook
  subst busy
  cases held with
  | some order =>
    have hnote : ∃ next, shift.step (.note id) = some next :=
      ⟨_, by simp only [State.step, State.note, present]; rfl⟩
    obtain ⟨next, made⟩ := hnote
    exact ⟨next, by simp only [turn, movesOf, List.findSome?_cons, made]⟩
  | none =>
    have hnote : shift.step (.note id) = none := by
      simp only [State.step, State.note, present]
    obtain ⟨queue, answer, made⟩ := enter_of_outside outside (.take .endless) fortune.chance
    have hcall : ∃ next, shift.step (.call .cook id fortune.chance) = some next := by
      cases answer with
      | none => exact ⟨_, by simp only [State.step, State.callCook, present, made]; rfl⟩
      | some answer => exact ⟨_, by simp only [State.step, State.callCook, present, made]; rfl⟩
    obtain ⟨next, made⟩ := hcall
    exact ⟨next, by simp only [turn, movesOf, List.findSome?_cons, hnote, made]⟩

/-- A thread that can take its turn can go on. -/
theorem canMove_of_turn {thread : Thread}
    (h : ∀ fortune, ∃ next, shift.turn fortune thread = some next) : shift.CanMove := by
  obtain ⟨next, h⟩ := h .calm
  obtain ⟨move, -, hmove, hgranted, made⟩ := step_of_turn h
  exact ⟨move, next, hmove, hgranted Fortune.granted_calm, made⟩

end State

namespace Sound

variable {config : Config} {terms : Terms} {shift : State}

/-- A roused call goes on with the step of the worker that made it. -/
theorem step_of_roused (h : Sound config terms shift) {waiter : Waiter Thread Dish}
    {signalled : Bool} (hmem : waiter ∈ shift.queue.waiters)
    (awake : waiter.sleep = .roused signalled) (chance : Chance) :
    ∃ role id next, waiter.thread = .worker role id ∧
      shift.step (.resume role id chance) = some next := by
  obtain ⟨history, run⟩ := h.run
  have inside := Monitor.waiting?_of_mem run.orderly hmem
  obtain ⟨queue, answer, made⟩ := resume_of_roused inside awake chance
  cases h.waiting waiter hmem with
  | @customer id customer dish condition sleep present busy =>
    refine ⟨.customer, id, ?_⟩
    cases answer with
    | none => exact ⟨_, rfl, by simp only [State.step, State.resume, inside, made]; rfl⟩
    | some answer =>
      exact ⟨_, rfl, by simp only [State.step, State.resume, inside, made, present]; rfl⟩
  | @cook id cook condition sleep present free busy =>
    refine ⟨.cook, id, ?_⟩
    cases answer with
    | none => exact ⟨_, rfl, by simp only [State.step, State.resume, inside, made]; rfl⟩
    | some answer =>
      exact ⟨_, rfl, by simp only [State.step, State.resume, inside, made, present]; rfl⟩

/-- Somebody can go on, or everybody in the queue is asleep. -/
theorem canMove_or_quiet (h : Sound config terms shift) :
    shift.CanMove ∨ ∀ waiter ∈ shift.queue.waiters, waiter.sleep = .asleep := by
  by_cases hasleep : ∀ other ∈ shift.queue.waiters, other.sleep = .asleep
  · exact .inr hasleep
  · simp only [not_forall] at hasleep
    obtain ⟨other, hmem, hawake⟩ := hasleep
    cases awake : other.sleep with
    | asleep => exact absurd awake hawake
    | roused signalled =>
      obtain ⟨role, id, next, -, made⟩ := h.step_of_roused hmem awake .calm
      exact .inl ⟨.resume role id .calm, next, rfl, rfl, made⟩

/-- A worker that can go on outside the queue waits in it among sleepers only, unless somebody can
go on. -/
theorem canMove_or_asleep (h : Sound config terms shift) {thread : Thread}
    (outside : shift.queue.waiting? thread = none → shift.CanMove) :
    shift.CanMove ∨ (∀ other ∈ shift.queue.waiters, other.sleep = .asleep) ∧
      ∃ waiter ∈ shift.queue.waiters, waiter.thread = thread := by
  cases inside : shift.queue.waiting? thread with
  | none => exact .inl (outside inside)
  | some waiter =>
    have hthread : waiter.thread = thread := by simpa using List.find?_some inside
    exact h.canMove_or_quiet.imp_right
      fun asleep => ⟨asleep, waiter, List.mem_of_find?_eq_some inside, hthread⟩

/-- A customer that has not ended waits for nothing but room in a full queue, unless somebody can
go on. -/
theorem canMove_or_full (h : Sound config terms shift) {id : Nat} {customer : Customer}
    (present : shift.customers[id]? = some customer) (busy : customer.ending = none) :
    shift.CanMove ∨ shift.queue.board.pending.size = terms.capacity := by
  rcases h.canMove_or_asleep (fun outside =>
      State.canMove_of_turn (State.turn_of_customer present busy outside)) with
    hmove | ⟨asleep, waiter, hmem, hthread⟩
  · exact .inl hmove
  · obtain ⟨history, run⟩ := h.run
    have isOpen := h.isOpen_of_customer present busy
    have hcondition : waiter.condition = .notFull := by
      have hapt := run.orderly.apt waiter hmem
      cases h.waiting waiter hmem with
      | customer => exact (Option.some.inj hapt).symm
      | cook => cases hthread
    obtain ⟨hremaining, hwanted⟩ := h.wanted present busy
    rcases (run.sleeping isOpen h.unbroken asleep hmem).2 hcondition with hfull | hall
    · exact .inr hfull
    · omega

/-- A cook that has not ended waits for nothing but an order that has still to come, unless somebody
can go on. -/
theorem canMove_or_empty (h : Sound config terms shift) {id : Nat} {cook : Cook}
    (present : shift.cooks[id]? = some cook) (busy : cook.ending = none) :
    shift.CanMove ∨
      (shift.queue.board.pending.size = 0 ∧ shift.queue.board.handled < terms.expected) := by
  rcases h.canMove_or_asleep (fun outside =>
      State.canMove_of_turn (State.turn_of_cook present busy outside)) with
    hmove | ⟨asleep, waiter, hmem, hthread⟩
  · exact .inl hmove
  · obtain ⟨history, run⟩ := h.run
    have isOpen := h.isOpen_of_cook present busy
    have hcondition : waiter.condition = .notEmpty := by
      have hapt := run.orderly.apt waiter hmem
      cases h.waiting waiter hmem with
      | customer => cases hthread
      | cook => exact (Option.some.inj hapt).symm
    exact .inr ((run.sleeping isOpen h.unbroken asleep hmem).1 hcondition)

/-- While the customers are joined, a customer that has not ended does not block the shift: at a
full queue some cook can go on. -/
theorem canMove_of_busy_customer (h : Sound config terms shift) (cooks : 0 < shift.cooks.length)
    {id : Nat} {customer : Customer} (present : shift.customers[id]? = some customer)
    (busy : customer.ending = none) : shift.CanMove := by
  rcases h.canMove_or_full present busy with hmove | hfull
  · exact hmove
  · have isOpen := h.isOpen_of_customer present busy
    obtain ⟨hremaining, hwanted⟩ := h.wanted present busy
    have hsubmitted := (h.tallied isOpen).submitted_eq
    have hcapacity := terms.capacity_pos
    have hcook : shift.cooks[0]? = some shift.cooks[0] := List.getElem?_eq_getElem cooks
    rcases h.cooks _ (List.mem_of_getElem? hcook) with hbusy | ⟨-, -, hdone⟩
    · rcases h.canMove_or_empty hcook hbusy with hmove | ⟨hempty, -⟩
      · exact hmove
      · omega
    · omega

/-- When all customers have ended, all expected orders have been submitted. -/
theorem submitted_of_ended (h : Sound config terms shift)
    (all : shift.customers.length = config.customers.toNat)
    (ended : ∀ customer ∈ shift.customers, customer.ending ≠ none) :
    shift.queue.board.submitted = terms.expected := by
  have hsum : (shift.customers.map (·.remaining)).sum = 0 := by
    refine List.sum_eq_zero fun remaining hremaining => ?_
    obtain ⟨customer, hcustomer, rfl⟩ := List.mem_map.mp hremaining
    have hfair : customer.Fair := h.customers customer hcustomer
    by_contra hmore
    rw [Customer.Fair, if_neg hmore] at hfair
    exact ended customer hcustomer hfair
  have horders := h.orders
  rw [hsum, all, Nat.sub_self, Nat.zero_mul] at horders
  exact horders

/-- While the cooks are joined, a cook that has not ended does not block the shift: all orders have
been submitted, so there is one to take or the work has ended. -/
theorem canMove_of_busy_cook (h : Sound config terms shift)
    (all : shift.customers.length = config.customers.toNat)
    (ended : ∀ customer ∈ shift.customers, customer.ending ≠ none) {id : Nat} {cook : Cook}
    (present : shift.cooks[id]? = some cook) (busy : cook.ending = none) : shift.CanMove := by
  rcases h.canMove_or_empty present busy with hmove | ⟨hempty, hundone⟩
  · exact hmove
  · have isOpen := h.isOpen_of_cook present busy
    have hsubmitted := (h.tallied isOpen).submitted_eq
    have hall := h.submitted_of_ended all ended
    omega

/-- As long as the lead thread of a sound shift is not done, somebody can go on. -/
theorem canMove (h : Sound config terms shift) (valid : config.validate = .ok ())
    (undone : shift.outcome? = none) : shift.CanMove := by
  obtain ⟨-, -, hcooks, -⟩ := Config.pos_of_validate valid
  have hlead (hsome : (shift.leadOn .nothing).isSome = true) : shift.CanMove := by
    obtain ⟨next, made⟩ := Option.isSome_iff_exists.mp hsome
    exact ⟨.lead .nothing, next, rfl, rfl, made⟩
  have hcustomers := h.staffed.allCustomers
  have hallCooks := h.staffed.allCooks
  have hjoined := h.staffed.customersJoined
  cases stage : shift.lead with
  | startingCustomers => exact State.canMove_of_turn (State.turn_of_opening (.inl stage))
  | startingCooks => exact State.canMove_of_turn (State.turn_of_opening (.inr stage))
  | joiningCustomers position =>
    rw [stage] at hallCooks
    cases present : shift.customers[position]? with
    | none => exact hlead (by simp [State.leadOn, stage, present])
    | some customer =>
      cases ending : customer.ending with
      | none => exact h.canMove_of_busy_customer (hallCooks nofun nofun ▸ hcooks) present ending
      | some ending' => exact hlead (by simp [State.leadOn, stage, present, ending])
  | joiningCooks position =>
    rw [stage] at hcustomers hjoined
    cases present : shift.cooks[position]? with
    | none => exact hlead (by simp [State.leadOn, stage, present])
    | some cook =>
      cases ending : cook.ending with
      | none =>
        refine h.canMove_of_busy_cook (hcustomers nofun) (fun customer hcustomer => ?_)
          present ending
        obtain ⟨id, hid⟩ := List.mem_iff_getElem?.mp hcustomer
        have hended := hjoined id
          ((List.getElem?_eq_some_iff.mp hid).1.trans_eq (hcustomers nofun)) customer hid
        simp [hended]
      | some ending' => exact hlead (by simp [State.leadOn, stage, present, ending])
  | closing =>
    have made : shift.queue.enter .lead .close 0 0 .calm = _ := h.close_step stage
    exact hlead (by simp [State.leadOn, stage, State.close, made])
  | done outcome => simp [State.outcome?, stage] at undone

end Sound

end OrderRail.Shift
