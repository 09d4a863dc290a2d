import OrderRail.Proofs.Shift.Dealings
import OrderRail.Proofs.Shift.Schedule

/-!
# Completed shifts

A shift is completed when the lead thread has its report, whatever the threads did in between. The
lead thread has then closed the queue of a sound shift, in which all customers and all cooks had
ended, so all orders were handed out. Nothing is assumed about the number of orders or about what
the system denies: a shift that expects as many orders as a counter can count to never completes,
nor does one in which a thread or memory was denied.
-/

namespace OrderRail.Shift

open Queue (Terms Transition calls)

/-- Everything has been done in a shift whose queue is about to be closed. -/
structure Settled (config : Config) (terms : Terms) (shift : State) : Prop where
  isOpen : shift.queue.board.closed = false
  handled : shift.queue.board.handled = terms.expected
  empty : shift.queue.board.pending.size = 0
  nobody : shift.queue.waiters = []
  allCustomers : shift.customers.length = config.customers.toNat
  served : ∀ customer ∈ shift.customers, customer.remaining = 0
  allCooks : shift.cooks.length = config.cooks.toNat
  free : ∀ cook ∈ shift.cooks, cook.held = none

/-- When the lead thread of a sound shift has joined everybody, everything has been done. -/
theorem Sound.settled {config : Config} {terms : Terms} {shift : State}
    (h : Sound config terms shift) (valid : config.validate = .ok ())
    (stage : shift.lead = .closing) : Settled config terms shift := by
  obtain ⟨-, -, hpos, -⟩ := Config.pos_of_validate valid
  have isOpen := h.isOpen (by simp [State.outcome?, stage])
  have tallied := h.tallied isOpen
  have allCustomers := h.staffed.allCustomers (by simp [stage])
  have allCooks := h.staffed.allCooks (by simp [stage]) (by simp [stage])
  have customersEnded := h.staffed.customers_ended (by rw [stage]; rfl)
  have cooksEnded := h.staffed.cooks_ended (by rw [stage]; rfl)
  have cookFair (cook : Cook) (hcook : cook ∈ shift.cooks) :
      cook.held = none ∧ terms.expected ≤ shift.queue.board.handled := by
    obtain ⟨fulfilled, hended⟩ := cooksEnded cook hcook
    rcases h.cooks cook hcook with hbusy | ⟨-, hheld, hdone⟩
    · simp [hended] at hbusy
    · exact ⟨hheld, hdone⟩
  have hdone : terms.expected ≤ shift.queue.board.handled :=
    (cookFair shift.cooks[0] (List.getElem_mem (by omega))).2
  have hwanted := tallied.wanted
  refine ⟨isOpen, by omega, by omega, ?_, allCustomers, ?_, allCooks,
    fun cook hcook => (cookFair cook hcook).1⟩
  · apply List.eq_nil_iff_forall_not_mem.mpr
    intro waiter hwaiter
    cases h.waiting waiter hwaiter with
    | customer present busy =>
      simp [customersEnded _ (List.mem_of_getElem? present)] at busy
    | cook present free busy =>
      obtain ⟨fulfilled, hended⟩ := cooksEnded _ (List.mem_of_getElem? present)
      simp [hended] at busy
  · intro customer hcustomer
    have hfair : customer.Fair := h.customers customer hcustomer
    by_contra hmore
    rw [Customer.Fair, if_neg hmore, customersEnded customer hcustomer] at hfair
    cases hfair

/-- A shift was prepared, its threads have made some moves, and the lead thread has its report. -/
structure Completed (config : Config) (validate : Bool) (generators : Generators) (terms : Terms)
    (moves : List Move) (report : Report) : Prop where
  prepared : ∃ refusals, (prepare config validate refusals).terms = .ok terms
  reached : ∃ shift, Execution (State.start config validate generators terms) moves shift ∧
    shift.outcome? = some (.ok report)

/-- A completed shift had valid parameters, and its queue was opened for all orders of its
customers. -/
theorem Completed.terms_eq {config : Config} {validate : Bool} {generators : Generators}
    {terms : Terms} {moves : List Move} {report : Report}
    (h : Completed config validate generators terms moves report) :
    config.validate = .ok () ∧ terms.capacity = config.capacity.toNat ∧
      terms.expected = config.customers.toNat * config.ordersPerCustomer.toNat := by
  obtain ⟨refusals, prepared⟩ := h.prepared
  have opened := openQueue_of_prepare prepared
  obtain ⟨valid, hexpected⟩ := openQueue_cases opened
  obtain ⟨others, hothers, hcapacity, -⟩ := openQueue_eq valid (hexpected ▸ terms.expected_lt)
  cases opened.symm.trans hothers
  exact ⟨valid, hcapacity, hexpected.symm⟩

/-- A completed shift ends with the closing of the queue, in which everything has been done. -/
theorem Completed.closed {config : Config} {validate : Bool} {generators : Generators}
    {terms : Terms} {moves : List Move} {report : Report}
    (h : Completed config validate generators terms moves report) :
    ∃ shift before accounts, shift.outcome? = some (.ok report) ∧
      Sound config terms (State.start config validate generators terms) ∧
      Closed config terms (State.start config validate generators terms) moves shift before
        accounts ∧
      Settled config terms before := by
  obtain ⟨valid, -, hexpected⟩ := h.terms_eq
  obtain ⟨shift, execution, ok⟩ := h.reached
  have hstart := Sound.start config validate generators terms hexpected.symm
  obtain ⟨before, accounts, hclosed⟩ := execution.closed_of_ok hstart rfl ok
  exact ⟨shift, before, accounts, ok, hstart, hclosed, hclosed.sound.settled valid hclosed.stage⟩

/-- What holds when a shift starts, and is kept by the turns of sound shifts, holds when everything
has been done. The queue is closed after that, with which no more orders are handed out, and the
report is about that moment. -/
theorem Completed.keeps {config : Config} {validate : Bool} {generators : Generators}
    {terms : Terms} {moves : List Move} {report : Report}
    {motive : List (Transition Thread Dish) → State → Prop}
    (h : Completed config validate generators terms moves report)
    (first : motive [] (State.start config validate generators terms))
    (kept : ∀ {history shift move next}, Sound config terms shift → Turn shift move next →
      next.Whole → motive history shift → motive (history ++ shift.dealing move) next) :
    ∃ history closing shift, Settled config terms shift ∧
      Queue.Run terms history shift.queue ∧ motive history shift ∧
      (State.start config validate generators terms).dealings moves = history ++ closing ∧
      calls closing = [⟨.lead, .close, .report (shift.queue.board.accounts terms)⟩] ∧
      report = shift.report (shift.queue.board.accounts terms)
        (shift.queue.board.closing.stats terms) := by
  obtain ⟨last, shift, accounts, ok, hstart, hclosed, settled⟩ := h.closed
  obtain ⟨others, denial, rfl, execution, hlast⟩ := hclosed.earlier
  -- The motive is taken before the last step, which is the closing.
  have made := hclosed.made
  have hcalls := State.calls_close denial hclosed.stage made
  rw [hclosed.sound.close_step hclosed.stage] at made
  obtain ⟨hqueue, haccounts⟩ := Prod.mk.inj (Option.some.inj made)
  obtain rfl : shift.queue.board.accounts terms = accounts := by
    cases haccounts
    rfl
  refine ⟨_, _, shift, settled, execution.run rfl hstart.waiting,
    execution.keeps hstart hclosed.whole first kept, execution.dealings_step hlast, hcalls, ?_⟩
  rw [hclosed.closed] at ok
  cases ok
  rw [← hqueue, ← hclosed.sound.terms_eq]
  rfl

/-- Make one move after another, as long as they are possible. -/
def State.replay (shift : State) : List Move → Option State
  | [] => some shift
  | move :: moves => (shift.step move).bind (·.replay moves)

/-- Moves that can be made continue an execution. -/
theorem Execution.replay {start shift last : State} {moves more : List Move}
    (execution : Execution start moves shift) (h : shift.replay more = some last) :
    Execution start (moves ++ more) last := by
  induction more generalizing moves shift with
  | nil =>
    cases h
    exact (List.append_nil moves).symm ▸ execution
  | cons move more ih =>
    obtain ⟨next, made, hrest⟩ := Option.bind_eq_some_iff.mp h
    simpa using ih (execution.step made) hrest

/-- A shift is completed by moves that can be made and that bring the lead thread to its report. -/
theorem completed_of_replay {config : Config} {validate : Bool} {generators : Generators}
    {terms : Terms} {moves : List Move} {report : Report} (refusals : Refusals)
    (prepared : (prepare config validate refusals).terms = .ok terms)
    (ok : ((State.start config validate generators terms).replay moves).bind State.outcome? =
      some (.ok report)) :
    Completed config validate generators terms moves report := by
  obtain ⟨shift, made, houtcome⟩ := Option.bind_eq_some_iff.mp ok
  exact ⟨⟨refusals, prepared⟩, shift, Execution.nil.replay made, houtcome⟩

/-- The schedule of a shift is one of its executions. -/
theorem Execution.follow {start shift : State} {moves : List Move}
    (execution : Execution start moves shift) (fortune : Nat → Fortune) (turns : Nat)
    (agenda : List Thread) :
    ∃ more, Execution start (moves ++ more) (State.follow fortune turns agenda shift) := by
  have stop {moves : List Move} {shift : State} (execution : Execution start moves shift) :
      ∃ more, Execution start (moves ++ more) shift :=
    ⟨[], (List.append_nil moves).symm ▸ execution⟩
  induction turns generalizing agenda moves shift with
  | zero => exact stop execution
  | succ turns ih =>
    have onward {move : Move} {next : State} (made : shift.step move = some next)
        (agenda : List Thread) :
        ∃ more, Execution start (moves ++ more) (State.follow fortune turns agenda next) := by
      obtain ⟨more, hmore⟩ := ih (execution.step made) agenda
      exact ⟨move :: more, by simpa using hmore⟩
    unfold State.follow
    split
    · exact stop execution
    · split
      · next woken =>
        obtain ⟨role, id, -, made⟩ := State.step_of_wake woken
        exact onward made _
      · split
        · exact stop execution
        · split
          · next taken =>
            obtain ⟨move, -, -, -, made⟩ := State.step_of_turn taken
            exact onward made _
          · exact ih execution _

/-- A shift that is run and comes to a report is completed. -/
theorem completed_of_run {config : Config} {validate : Bool} {surroundings : Surroundings}
    {report : Report} (ok : (run config validate surroundings).outcome = .ok report) :
    ∃ terms moves, Completed config validate surroundings.generators terms moves report := by
  unfold run at ok
  dsimp only at ok
  split at ok
  · cases ok
  · next terms prepared =>
    obtain ⟨moves, execution⟩ := Execution.nil.follow surroundings.fortune
      (State.turnBound config) (State.agenda config)
    refine ⟨terms, moves, ⟨_, prepared⟩, _, execution, ?_⟩
    dsimp only at ok
    cases houtcome : (State.follow surroundings.fortune (State.turnBound config)
        (State.agenda config)
        (State.start config validate surroundings.generators terms)).outcome? with
    | none => simp [houtcome] at ok
    | some outcome => simpa [houtcome] using ok

end OrderRail.Shift
