import Mathlib.Data.List.Perm.Subperm
import OrderRail.Proofs.Queue.Unwinding
import OrderRail.Proofs.Shift.Progress
import OrderRail.Shift.Run

/-!
# A shift ends

What is left to do in a shift is counted in two parts. The work left goes down with every order that
is accepted, handed out or noted, with every cook that goes home, and with every step of the lead
thread. The stir counts who is outside the queue and who is awake in it; it goes down when a call
goes to sleep, and it never exceeds twice the number of workers. A roused call that finds its order
or its place taken by another one goes back to sleep, so it makes the stir smaller while the work
stays the same. Only waking up for no reason makes either of them larger, and then only the stir, by
one.

Together with progress this settles how a shift ends.
-/

namespace OrderRail.Shift

open Queue (Terms Monitor Request Answer Waiter Attempt Chance awake)

/-- What a cook has still to do: to note the order in its hands, and to go home. -/
def Cook.load (cook : Cook) : Nat :=
  (if cook.held.isSome then 1 else 0) + if cook.ending.isNone then 1 else 0

namespace State

/-- A bound on the steps that the lead thread has still to make. -/
def stepsOfLead (shift : State) : Nat :=
  let customers := shift.config.customers.toNat
  let cooks := shift.config.cooks.toNat
  match shift.lead with
  | .startingCustomers => (customers - shift.customers.length) + cooks + customers + cooks + 5
  | .startingCooks => (cooks - shift.cooks.length) + customers + cooks + 4
  | .joiningCustomers next => (customers - next) + cooks + 3
  | .joiningCooks next => (cooks - next) + 2
  | .closing => 1
  | .done _ => 0

/-- The work that is left. An order that has been handed out has still to be noted. -/
def work (shift : State) : Nat :=
  (shift.queue.terms.expected - shift.queue.board.submitted) +
    2 * (shift.queue.terms.expected - shift.queue.board.handled) +
    (shift.cooks.map Cook.load).sum + (shift.config.cooks.toNat - shift.cooks.length) +
    shift.stepsOfLead

/-- How many workers a shift has when all have been started. -/
def crew (shift : State) : Nat := shift.config.customers.toNat + shift.config.cooks.toNat

/-- Two for every worker outside the queue, and one for every one that is awake in it. -/
def stir (shift : State) : Nat :=
  2 * (shift.crew - shift.queue.waiters.length) + awake shift.queue.waiters

/-- What is left to do: the work, and below it the stir. -/
def rank (shift : State) : Nat := shift.work * (2 * shift.crew + 1) + shift.stir

/-- The lead thread has as many steps to make as before if it has not gone on and no worker has been
started. -/
theorem stepsOfLead_congr {shift next : State} (config : next.config = shift.config)
    (lead : next.lead = shift.lead)
    (customers : next.customers.length = shift.customers.length)
    (cooks : next.cooks.length = shift.cooks.length) :
    next.stepsOfLead = shift.stepsOfLead := by
  simp only [stepsOfLead, config, lead, customers, cooks]

/-- A call that falls asleep leaves the work as it was. -/
theorem work_congr {shift next : State} (config : next.config = shift.config)
    (lead : next.lead = shift.lead)
    (customers : next.customers.length = shift.customers.length)
    (cooks : next.cooks = shift.cooks) (terms : next.queue.terms = shift.queue.terms)
    (board : next.queue.board = shift.queue.board) : next.work = shift.work := by
  have hsteps := stepsOfLead_congr config lead customers (congrArg List.length cooks)
  simp only [work, hsteps, config, cooks, terms, board]

/-- An order that has been placed makes the work less. -/
theorem work_lt_of_customer {shift next : State} {id : Nat} {caller : Customer}
    (customers : next.customers = shift.customers.set id caller)
    (cooks : next.cooks = shift.cooks) (config : next.config = shift.config)
    (lead : next.lead = shift.lead) (terms : next.queue.terms = shift.queue.terms)
    (handled : next.queue.board.handled = shift.queue.board.handled)
    (placed : shift.queue.board.submitted < next.queue.board.submitted)
    (wanted : shift.queue.board.submitted < shift.queue.terms.expected) :
    next.work < shift.work := by
  have hlength : next.customers.length = shift.customers.length := by
    rw [customers, List.length_set]
  have hsteps := stepsOfLead_congr config lead hlength (congrArg List.length cooks)
  simp only [work, hsteps, config, terms, handled, cooks]
  omega

/-- A cook that gets on makes the work less, by what it leaves undone and what it takes upon
itself. -/
theorem work_lt_of_cook {shift next : State} {id : Nat} {cook caller : Cook}
    (present : shift.cooks[id]? = some cook) (cooks : next.cooks = shift.cooks.set id caller)
    (customers : next.customers = shift.customers) (config : next.config = shift.config)
    (lead : next.lead = shift.lead) (terms : next.queue.terms = shift.queue.terms)
    (submitted : next.queue.board.submitted = shift.queue.board.submitted)
    (less : 2 * (shift.queue.terms.expected - next.queue.board.handled) + caller.load <
      2 * (shift.queue.terms.expected - shift.queue.board.handled) + cook.load) :
    next.work < shift.work := by
  have hlength : next.cooks.length = shift.cooks.length := by rw [cooks, List.length_set]
  have hsteps := stepsOfLead_congr config lead (congrArg List.length customers) hlength
  have hsum := Count.sum_map_set Cook.load present caller
  simp only [work, hsteps, hlength, config, terms, submitted]
  rw [cooks]
  omega

/-- The stir is bounded, if only workers wait. -/
theorem stir_le {shift : State} (h : shift.queue.waiters.length ≤ shift.crew) :
    shift.stir ≤ 2 * shift.crew := by
  have hawake : awake shift.queue.waiters ≤ shift.queue.waiters.length := List.countP_le_length
  unfold stir
  omega

/-- Less work means less to do, whatever becomes of the stir. -/
theorem rank_lt_of_work {shift next : State} (crew : next.crew = shift.crew)
    (waiters : next.queue.waiters.length ≤ next.crew) (work : next.work < shift.work) :
    next.rank < shift.rank := by
  have hstir := stir_le waiters
  have hwork : (next.work + 1) * (2 * shift.crew + 1) ≤ shift.work * (2 * shift.crew + 1) :=
    Nat.mul_le_mul_right _ work
  rw [Nat.add_mul, Nat.one_mul] at hwork
  unfold rank
  rw [crew] at hstir ⊢
  omega

/-- With the same work and less stir there is less to do. -/
theorem rank_lt_of_stir {shift next : State} (crew : next.crew = shift.crew)
    (work : next.work = shift.work) (stir : next.stir < shift.stir) :
    next.rank < shift.rank := by
  unfold rank
  rw [crew, work]
  omega

end State

/-- A call that falls asleep makes less stir: it was outside the queue or awake in it before. -/
theorem stir_of_wait {queue base : Monitor Thread Dish} {request : Queue.Move Thread Dish}
    {attempt : Attempt Thread Dish} (orderly : Queue.Orderly queue.waiters)
    (grants : queue.Grants request attempt base) (condition : Queue.Condition) {crew : Nat}
    (room : (base.waiters ++ [attempt.waiter condition]).length ≤ crew) :
    2 * (crew - (base.waiters ++ [attempt.waiter condition]).length) +
        awake (base.waiters ++ [attempt.waiter condition]) <
      2 * (crew - queue.waiters.length) + awake queue.waiters := by
  have hgrant : 2 * (crew - base.waiters.length) + awake base.waiters ≤
      2 * (crew - queue.waiters.length) + awake queue.waiters + 1 := by
    cases request with
    | enter =>
      cases grants
      exact Nat.le_succ _
    | resume =>
      obtain ⟨-, -, hlength, hawake⟩ := grants.resumed orderly
      omega
    | rouse => cases grants
  rw [Queue.awake_wait]
  rw [List.length_append, List.length_singleton] at room ⊢
  omega

namespace Sound

variable {config : Config} {terms : Terms} {shift next : State}

/-- Nobody waits but workers, and each of them waits once. -/
theorem waiters_le (h : Sound config terms shift) :
    shift.queue.waiters.length ≤ shift.crew := by
  obtain ⟨history, run⟩ := h.run
  have hsubset : shift.queue.waiters.map (·.thread) ⊆
      (List.range config.customers.toNat).map (Thread.worker .customer) ++
        (List.range config.cooks.toNat).map (Thread.worker .cook) := by
    intro thread hthread
    obtain ⟨waiter, hwaiter, rfl⟩ := List.mem_map.mp hthread
    cases h.waiting waiter hwaiter with
    | @customer id customer dish condition sleep present busy =>
      have hid := (List.getElem?_eq_some_iff.mp present).1
      apply List.mem_append_left
      exact List.mem_map_of_mem (List.mem_range.mpr (hid.trans_le h.staffed.customers_le))
    | @cook id cook condition sleep present free busy =>
      have hid := (List.getElem?_eq_some_iff.mp present).1
      apply List.mem_append_right
      exact List.mem_map_of_mem (List.mem_range.mpr (hid.trans_le h.staffed.cooks_le))
  have hlength := (run.orderly.distinct.subperm hsubset).length_le
  simpa [State.crew, h.staffed.config_eq] using hlength

/-- Every step of the lead thread leaves less work. -/
theorem work_lt_of_lead {denial : Denial} (h : Sound config terms shift)
    (turn : Turn shift (.lead denial) next) (sound : Sound config terms next) :
    next.work < shift.work := by
  have hcustomers := h.staffed.customers_le
  have hcooks := h.staffed.cooks_le
  have hconfig := h.staffed.config_eq
  cases turn with
  | startCustomer stage more =>
    simp only [State.work, State.stepsOfLead, State.startCustomer, stage, List.length_append,
      List.length_cons, List.length_nil]
    omega
  | customersStarted stage all =>
    simp only [State.work, State.stepsOfLead, stage]
    omega
  | startCook stage more =>
    simp only [State.work, State.stepsOfLead, State.startCook, stage, List.map_append,
      List.sum_append_nat, List.length_append, List.map_cons, List.map_nil, List.sum_cons,
      List.sum_nil, List.length_cons, List.length_nil]
    have hload : Cook.start.load = 1 := rfl
    omega
  | cooksStarted stage all =>
    simp only [State.work, State.stepsOfLead, stage]
    omega
  | @joinCustomer _ position customer stage present ended =>
    have hposition := (List.getElem?_eq_some_iff.mp present).1
    rw [← hconfig] at hcustomers
    simp only [State.work, State.stepsOfLead, stage]
    omega
  | customersJoined stage all =>
    simp only [State.work, State.stepsOfLead, stage]
    omega
  | @joinCook _ position fulfilled cook stage present ended =>
    have hposition := (List.getElem?_eq_some_iff.mp present).1
    rw [← hconfig] at hcooks
    simp only [State.work, State.stepsOfLead, stage]
    omega
  | cooksJoined stage all =>
    simp only [State.work, State.stepsOfLead, stage]
    omega
  | @close _ queue accounts stage made =>
    rw [h.close_step stage] at made
    obtain ⟨rfl, -⟩ := Prod.mk.inj (Option.some.inj made)
    simp only [State.work, State.stepsOfLead, State.closed, State.conclude, State.log, stage]
    exact Nat.lt_succ_self _
  | refused | joinFailedCustomer | joinCrashedCook | failToClose =>
    exact absurd sound.staffed Staffed.not_failed
  | customer kind => simp at kind
  | cook kind => simp at kind

/-- Noting an order leaves less work. -/
theorem work_lt_of_note (h : Sound config terms shift) {id : Nat} {cook : Cook}
    {order : Order Dish} (present : shift.cooks[id]? = some cook)
    (holds : cook.held = some order) : (shift.noting id cook order).work < shift.work := by
  obtain ⟨busy, -⟩ := h.busy_of_held present holds
  refine State.work_lt_of_cook present rfl rfl rfl rfl rfl rfl ?_
  have hbefore : cook.load = 2 := by simp [Cook.load, holds, busy]
  have hafter : Cook.load { cook with held := none, fulfilled := cook.fulfilled + 1 } = 1 := by
    simp [Cook.load, busy]
  rw [hbefore, hafter]
  exact Nat.lt_succ_self _

section

variable {request : Queue.Move Thread Dish} {base queue : Monitor Thread Dish}
  {answer : Option (Answer Dish)} {id : Nat} {chance : Chance} {poison : Fault}

/-- A customer whose call has gone well has placed an order, or has gone to sleep. -/
theorem rank_lt_of_customer (h : Sound config terms shift) {customer caller : Customer}
    {dish : Dish} (present : shift.customers[id]? = some customer)
    (busy : customer.ending = none) (fine : Fine queue answer)
    (grants : shift.queue.Grants request (submission id dish chance poison) base)
    (served : base.serve (submission id dish chance poison) = (queue, answer))
    (sound : Sound config terms (shift.hearCustomer queue id caller dish answer)) :
    (shift.hearCustomer queue id caller dish answer).rank < shift.rank := by
  obtain ⟨hterms, hboard, -⟩ := grants.base_eq
  obtain ⟨history, run⟩ := h.run
  have waiters := sound.waiters_le
  rcases h.customer_cases present busy fine grants served with ⟨rfl, rfl⟩ | ⟨rfl, rfl⟩
  · refine State.rank_lt_of_work rfl waiters ?_
    have isOpen := h.isOpen_of_customer present busy
    have hnumber := (h.tallied isOpen).nextNumber_eq
    have hsubmitted := (h.tallied isOpen).submitted_eq
    obtain ⟨hremaining, hwanted⟩ := h.wanted present busy
    have hhandled : base.board.handled = shift.queue.board.handled := by rw [hboard]
    refine State.work_lt_of_customer rfl rfl rfl rfl hterms hhandled ?_ ?_
    · change shift.queue.board.submitted < base.board.nextNumber
      rw [hboard]
      omega
    · rw [h.terms_eq]
      omega
  · refine State.rank_lt_of_stir rfl ?_ (stir_of_wait run.orderly grants .notFull waiters)
    exact State.work_congr rfl rfl List.length_set rfl hterms hboard

/-- A cook that has had the lock has got an order, or goes home, or has gone to sleep. -/
theorem rank_lt_of_cook (h : Sound config terms shift) {cook : Cook}
    (present : shift.cooks[id]? = some cook) (free : cook.held = none)
    (busy : cook.ending = none)
    (grants : shift.queue.Grants request (taking id chance poison) base)
    (served : base.serve (taking id chance poison) = (queue, answer))
    (sound : Sound config terms (shift.hearCook queue id cook answer)) :
    (shift.hearCook queue id cook answer).rank < shift.rank := by
  obtain ⟨hterms, hboard, -⟩ := grants.base_eq
  obtain ⟨history, run⟩ := h.run
  have waiters := sound.waiters_le
  have hsubmitted : base.board.submitted = shift.queue.board.submitted := by rw [hboard]
  rcases h.cook_cases present busy grants served with
    ⟨order, rest, pops, rfl, rfl⟩ | ⟨done, rfl, rfl⟩ | ⟨rfl, rfl⟩
  · refine State.rank_lt_of_work rfl waiters ?_
    have isOpen := h.isOpen_of_cook present busy
    have hwanted := (h.tallied isOpen).wanted
    have hsize := Queue.size_of_pop? (hboard ▸ pops)
    refine State.work_lt_of_cook present rfl rfl rfl rfl hterms hsubmitted ?_
    have hbefore : cook.load = 1 := by simp [Cook.load, free, busy]
    have hafter : Cook.load { cook with held := some order } = 2 := by simp [Cook.load, busy]
    change 2 * (_ - (base.board.handled + 1)) + _ < _
    rw [hbefore, hafter, hboard, h.terms_eq]
    omega
  · refine State.rank_lt_of_work rfl waiters ?_
    refine State.work_lt_of_cook present rfl rfl rfl rfl hterms hsubmitted ?_
    have hbefore : cook.load = 1 := by simp [Cook.load, free, busy]
    have hafter : Cook.load { cook with ending := some (.returned cook.fulfilled) } = 0 := by
      simp [Cook.load, free]
    change 2 * (_ - base.board.handled) + _ < _
    rw [hbefore, hafter, hboard]
    exact Nat.lt_succ_self _
  · refine State.rank_lt_of_stir rfl ?_ (stir_of_wait run.orderly grants .notEmpty waiters)
    exact State.work_congr rfl rfl rfl rfl hterms hboard

end

/-- Waking up without a signal leaves at most one more thing to do. -/
theorem rank_le_of_rouse (h : Sound config terms shift) {role : Role} {id : Nat}
    {waiter : Waiter Thread Dish}
    (inside : shift.queue.waiting? (.worker role id) = some waiter)
    (asleep : waiter.sleep = .asleep) :
    State.rank { shift with queue := shift.queue.rousing (.worker role id) } ≤ shift.rank + 1 := by
  obtain ⟨history, run⟩ := h.run
  obtain ⟨before, after, hsplit, hrousing⟩ := Monitor.rousing_split run.orderly inside
  have hlength : (shift.queue.rousing (.worker role id)).waiters.length =
      shift.queue.waiters.length := List.length_map _
  have hawake : awake (shift.queue.rousing (.worker role id)).waiters =
      awake shift.queue.waiters + 1 := by
    rw [hrousing, hsplit]
    simp only [awake, List.countP_append, List.countP_cons, asleep]
    rfl
  have hstir : State.stir { shift with queue := shift.queue.rousing (.worker role id) } =
      shift.stir + 1 := by
    simp only [State.stir, State.crew, hlength, hawake]
    rfl
  have hwork : State.work { shift with queue := shift.queue.rousing (.worker role id) } =
      shift.work := State.work_congr rfl rfl rfl rfl rfl rfl
  have hcrew : State.crew { shift with queue := shift.queue.rousing (.worker role id) } =
      shift.crew := rfl
  rw [State.rank, State.rank, hstir, hwork, hcrew]
  exact Nat.le_refl _

/-- Every step in which nothing is denied leaves less to do, but for waking up without a signal,
which leaves one more. -/
theorem rank_step (h : Sound config terms shift) (ample : Ample config terms)
    {move : Move} (granted : move.Granted) (made : shift.step move = some next) :
    (move.isRouse = false → next.rank < shift.rank) ∧
      (move.isRouse = true → next.rank ≤ shift.rank + 1) := by
  have turn := turn_of_step h.waiting made
  have sound := h.turn ample granted turn
  have hcrew : next.crew = shift.crew := by
    simp only [State.crew, sound.staffed.config_eq, h.staffed.config_eq]
  by_cases hlead : ∃ denial, move = .lead denial
  · obtain ⟨denial, rfl⟩ := hlead
    have hwork := h.work_lt_of_lead turn sound
    exact ⟨fun _ => State.rank_lt_of_work hcrew sound.waiters_le hwork, nofun⟩
  · cases turn with
    | customer kind present busy same grants served =>
      have fine := h.customer_fine ample (shortage_of_granted kind granted) present busy grants
        served
      have hless := h.rank_lt_of_customer present busy fine grants served sound
      refine ⟨fun _ => hless, fun hrouse => ?_⟩
      rcases kind with rfl | rfl <;> cases hrouse
    | cook kind present free busy grants served =>
      have hless := h.rank_lt_of_cook present free busy grants served sound
      refine ⟨fun _ => hless, fun hrouse => ?_⟩
      rcases kind with rfl | rfl <;> cases hrouse
    | note present holds =>
      have hwork := h.work_lt_of_note present holds
      exact ⟨fun _ => State.rank_lt_of_work hcrew sound.waiters_le hwork, nofun⟩
    | rouse inside asleep => exact ⟨nofun, fun _ => h.rank_le_of_rouse inside asleep⟩
    | _ => exact absurd ⟨_, rfl⟩ hlead

end Sound

end OrderRail.Shift
