import OrderRail.Proofs.Shift.Termination

/-!
# How a shift ends

A shift with valid parameters, whose orders have numbers with one to spare, and in which the lead
thread gets its threads and everybody the memory that is asked for, never gets stuck and always ends
well: while the lead thread is not done some thread can go on, the number of steps is bounded but
for those that wake a sleeping call for no reason, and where nobody can go on, all customers have
been served, all cooks have gone home, and the lead thread has its report.
-/

namespace OrderRail.Shift

open Queue (Terms)

/-- What is left to do when a shift starts. -/
theorem rank_start (config : Config) (validate : Bool) (generators : Generators) (terms : Terms)
    (expected : config.customers.toNat * config.ordersPerCustomer.toNat = terms.expected) :
    (State.start config validate generators terms).rank = config.stepBound := by
  have hcrew : (State.start config validate generators terms).crew =
      config.customers.toNat + config.cooks.toNat := rfl
  have hstir : (State.start config validate generators terms).stir =
      2 * (config.customers.toNat + config.cooks.toNat) := rfl
  have hwork : (State.start config validate generators terms).work =
      3 * terms.expected + 2 * config.customers.toNat + 3 * config.cooks.toNat + 5 := by
    change (terms.expected - 0) + 2 * (terms.expected - 0) + 0 + (config.cooks.toNat - 0) +
      ((config.customers.toNat - 0) + config.cooks.toNat + config.customers.toNat +
        config.cooks.toNat + 5) = _
    omega
  rw [State.rank, hwork, hcrew, hstir, Config.stepBound, expected]

/-- Every step of an execution in which nothing is denied uses up what there was to do, but for
waking up without a signal. -/
theorem Execution.rank_add_length {config : Config} {terms : Terms} {start shift : State}
    {moves : List Move} (execution : Execution start moves shift) (ample : Ample config terms)
    (granted : ∀ move ∈ moves, move.Granted) (h : Sound config terms start) :
    shift.rank + moves.length ≤ start.rank + 2 * moves.countP Move.isRouse := by
  induction execution with
  | nil => exact Nat.le_refl _
  | @step moves move shift next execution made ih =>
    obtain ⟨hbefore, hlast⟩ := List.forall_mem_append.mp granted
    have hgranted := List.forall_mem_singleton.mp hlast
    have hsound := execution.sound ample hbefore h
    obtain ⟨hless, hrouse⟩ := hsound.rank_step ample hgranted made
    have hold := ih hbefore
    rw [List.length_append, List.length_singleton, List.countP_append, List.countP_singleton]
    cases hmove : move.isRouse with
    | false =>
      have := hless hmove
      simp only [Bool.false_eq_true, if_false]
      omega
    | true =>
      have := hrouse hmove
      simp only [if_true]
      omega

/-- The queue of a shift with valid parameters can be opened, if the orders can be counted. -/
theorem openQueue_eq {config : Config} (valid : config.validate = .ok ())
    (countable : config.customers.toNat * config.ordersPerCustomer.toNat < Count.wordSize) :
    ∃ terms, openQueue config = .ok terms ∧ terms.capacity = config.capacity.toNat ∧
      terms.expected = config.customers.toNat * config.ordersPerCustomer.toNat := by
  obtain ⟨hcapacity, -⟩ := Config.pos_of_validate valid
  have horders : config.expectedOrders =
      .ok (config.customers.toNat * config.ordersPerCustomer.toNat) :=
    config.expectedOrders_eq.trans (if_pos countable)
  refine ⟨⟨config.capacity.toNat, _, hcapacity, countable⟩, ?_, rfl, rfl⟩
  simp only [openQueue, valid, horders, Terms.ofSizes, dif_pos hcapacity]
  congr 2
  exact UInt64.toNat_ofNat_of_lt countable

/-- A queue is opened for valid parameters only, and for all orders of the customers. -/
theorem openQueue_cases {config : Config} {terms : Terms} (opened : openQueue config = .ok terms) :
    config.validate = .ok () ∧
      config.customers.toNat * config.ordersPerCustomer.toNat = terms.expected := by
  have hopened := opened
  unfold openQueue at hopened
  split at hopened
  · cases hopened
  · cases hopened
  · next expected valid horders =>
    have hcountable : config.customers.toNat * config.ordersPerCustomer.toNat < Count.wordSize := by
      rw [config.expectedOrders_eq] at horders
      split at horders
      · assumption
      · cases horders
    obtain ⟨others, hothers, -, hexpected⟩ := openQueue_eq valid hcountable
    cases opened.symm.trans hothers
    exact ⟨valid, hexpected.symm⟩

/-- Where nobody can go on, a sound shift has ended well. -/
theorem Sound.ended {config : Config} {terms : Terms} {shift : State}
    (h : Sound config terms shift) (valid : config.validate = .ok ()) (stuck : ¬ shift.CanMove) :
    (∃ report, shift.outcome? = some (.ok report)) ∧
      shift.customers.length = config.customers.toNat ∧
      (∀ customer ∈ shift.customers, customer.ending = some (.returned (.ok ()))) ∧
      shift.cooks.length = config.cooks.toNat ∧
      ∀ cook ∈ shift.cooks, ∃ fulfilled, cook.ending = some (.returned fulfilled) := by
  cases stage : shift.lead with
  | done outcome =>
    obtain ⟨report, rfl⟩ := h.staffed.outcome outcome stage
    exact ⟨⟨report, by simp [State.outcome?, stage]⟩,
      h.staffed.allCustomers (by simp [stage]), h.staffed.customers_ended (by rw [stage]; rfl),
      h.staffed.allCooks (by simp [stage]) (by simp [stage]),
      h.staffed.cooks_ended (by rw [stage]; rfl)⟩
  | _ => exact absurd (h.canMove valid (by simp [State.outcome?, stage])) stuck

/-- A shift never gets stuck and always ends well, in every execution of its threads in which the
system denies nothing: every thread is started, and memory is never short.

In every state that can be reached, even with calls that wake up for no reason, the lead thread is
done or some thread can make a step that is more than that; no customer has been refused and no
worker has crashed. The number of steps is bounded, with two more for each call that woke up for no
reason. And where no more than that is possible, the lead thread has its report, all customers have
placed all of their orders, and all cooks have gone home. -/
theorem shift_ends (config : Config) (validate : Bool) (generators : Generators)
    (valid : config.validate = .ok ())
    (countable : config.customers.toNat * config.ordersPerCustomer.toNat < Count.wordSize - 1)
    (storable : config.cooks.toNat * handleBytes < blockLimit) :
    ∃ terms, openQueue config = .ok terms ∧ terms.capacity = config.capacity.toNat ∧
      terms.expected = config.customers.toNat * config.ordersPerCustomer.toNat ∧
      ∀ moves shift, Execution (State.start config validate generators terms) moves shift →
        (∀ move ∈ moves, move.Granted) →
        (shift.outcome?.isSome = true ∨
          ∃ move next, move.isRouse = false ∧ move.Granted ∧ shift.step move = some next) ∧
        (∀ customer ∈ shift.customers,
          customer.ending = none ∨ customer.ending = some (.returned (.ok ()))) ∧
        (∀ cook ∈ shift.cooks,
          cook.ending = none ∨ ∃ fulfilled, cook.ending = some (.returned fulfilled)) ∧
        moves.length ≤ config.stepBound + 2 * moves.countP Move.isRouse ∧
        ((∀ move, move.isRouse = false → move.Granted → shift.step move = none) →
          (∃ report, shift.outcome? = some (.ok report)) ∧
          shift.customers.length = config.customers.toNat ∧
          (∀ customer ∈ shift.customers, customer.ending = some (.returned (.ok ()))) ∧
          shift.cooks.length = config.cooks.toNat ∧
          ∀ cook ∈ shift.cooks, ∃ fulfilled, cook.ending = some (.returned fulfilled)) := by
  obtain ⟨terms, hopen, hcapacity, hexpected⟩ := openQueue_eq valid (by omega)
  have ample : Ample config terms := ⟨by omega, storable⟩
  have hstart := Sound.start config validate generators terms hexpected.symm
  refine ⟨terms, hopen, hcapacity, hexpected, fun moves shift execution granted => ?_⟩
  have sound := execution.sound ample granted hstart
  refine ⟨?_, ?_, ?_, ?_, ?_⟩
  · cases undone : shift.outcome? with
    | none => exact .inr (sound.canMove valid undone)
    | some outcome => exact .inl rfl
  · intro customer hcustomer
    have hfair : customer.Fair := sound.customers customer hcustomer
    by_cases hdone : customer.remaining = 0
    · exact .inr (hfair.trans (if_pos hdone))
    · exact .inl (hfair.trans (if_neg hdone))
  · intro cook hcook
    exact (sound.cooks cook hcook).imp_right And.left
  · have hrank := execution.rank_add_length ample granted hstart
    rw [rank_start config validate generators terms hexpected.symm] at hrank
    omega
  · intro stuck
    refine sound.ended valid ?_
    rintro ⟨move, next, hmove, hgranted, made⟩
    rw [stuck move hmove hgranted] at made
    cases made

/-- A shift with a queue of one place, two customers with two orders each, and three cooks. -/
def narrow : Config :=
  { capacity := 1, customers := 2, cooks := 3, ordersPerCustomer := 2, workMillis := 0
    seed := some 7 }

/-- Every execution of the narrow shift in which nothing is denied, and no call wakes up for no
reason, has at most 340 steps, and the shift ends well where none is possible any more. -/
theorem narrow_ends :
    narrow.validate = .ok () ∧
    narrow.customers.toNat * narrow.ordersPerCustomer.toNat < Count.wordSize - 1 ∧
    narrow.cooks.toNat * handleBytes < blockLimit ∧
    ∃ terms, openQueue narrow = .ok terms ∧ terms.capacity = 1 ∧ terms.expected = 4 ∧
      ∀ moves shift,
        Execution (State.start narrow true (.ofKey (.replicate 8 0)) terms) moves shift →
        (∀ move ∈ moves, move.Granted) → moves.countP Move.isRouse = 0 →
        moves.length ≤ 340 ∧
        ((∀ move, move.isRouse = false → move.Granted → shift.step move = none) →
          ∃ report, shift.outcome? = some (.ok report)) := by
  have valid : narrow.validate = .ok () := by decide
  have countable :
      narrow.customers.toNat * narrow.ordersPerCustomer.toNat < Count.wordSize - 1 := by
    decide
  have storable : narrow.cooks.toNat * handleBytes < blockLimit := by decide
  obtain ⟨terms, hopen, hcapacity, hexpected, hall⟩ :=
    shift_ends narrow true (.ofKey (.replicate 8 0)) valid countable storable
  refine ⟨valid, countable, storable, terms, hopen, hcapacity, hexpected, ?_⟩
  intro moves shift execution granted hrouses
  obtain ⟨-, -, -, hlength, hended⟩ := hall moves shift execution granted
  have hbound : narrow.stepBound = 340 := by decide
  refine ⟨by omega, fun stuck => (hended stuck).1⟩

end OrderRail.Shift
