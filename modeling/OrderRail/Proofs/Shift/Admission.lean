import OrderRail.Proofs.Shift.Completed

/-!
# Sizes are refused before a shift starts or not at all

A shift whose sizes fail their check is refused before anything happens. Once a shift has started,
many things can still end it: a refused order, a crashed worker, a queue that cannot be closed. But
nobody in it can complain about the sizes any more, in whatever order the threads run.
-/

namespace OrderRail.Shift

open Queue (Terms Monitor Answer Chance)

/-- A customer that has not ended with a complaint about the sizes of the shift. -/
def Customer.Content (customer : Customer) : Prop :=
  ∀ error, customer.ending ≠ some (.returned (.error (.config error)))

/-- A customer that has just been started is content. -/
theorem Customer.content_start (orders : Nat) (words : Words) :
    (Customer.start orders words).Content := by
  intro error
  rw [Customer.start]
  split <;> simp

/-- A customer that has not ended has not complained. -/
theorem Customer.content_of_busy {customer : Customer} (busy : customer.ending = none) :
    customer.Content := by
  intro error
  rw [busy]
  exact nofun

/-- A shift that has been admitted: no customer complains about its sizes, and neither does the lead
thread. -/
structure State.Admitted (shift : State) : Prop where
  customers : ∀ customer ∈ shift.customers, customer.Content
  lead : ∀ error, shift.lead ≠ .done (.error (.error (.config error)))

/-- Missing room for a list is no complaint about the sizes. -/
theorem reserve_ne_config {refused : Bool} {items bytes : Nat} {error : ConfigError} :
    reserve refused items bytes ≠ .error (.error (.config error)) := by
  unfold reserve
  split
  · nofun
  · split <;> nofun

/-- The lead thread does not blame the sizes for what the system denies it. -/
theorem State.Refused.ne_config {shift : State} {denial : Denial} {error : ConfigError} :
    ¬ shift.Refused denial (.error (.config error)) := by
  intro h
  cases h with
  | handles stage all lack | counts stage all lack => exact reserve_ne_config lack

namespace State.Admitted

variable {shift next : State} {id : Nat} {chance : Chance} {customer : Customer}

/-- A change of nothing but one customer, who stays content, keeps a shift admitted. -/
theorem setCustomer (h : shift.Admitted) (lead : next.lead = shift.lead)
    (customers : next.customers = shift.customers.set id customer) (content : customer.Content) :
    next.Admitted where
  customers := by
    intro other hother
    rw [customers] at hother
    rcases List.mem_or_eq_of_mem_set hother with hold | rfl
    · exact h.customers other hold
    · exact content
  lead := by
    rw [lead]
    exact h.lead

/-- What does not change the customers keeps a shift admitted, unless the lead thread complains. -/
theorem congr (h : shift.Admitted) (customers : next.customers = shift.customers)
    (lead : ∀ error, next.lead ≠ .done (.error (.error (.config error)))) : next.Admitted where
  customers := customers ▸ h.customers
  lead := lead

/-- What the queue comes to does not concern the sizes. -/
theorem withQueue (h : shift.Admitted) (queue : Monitor Thread Dish) :
    ({ shift with queue } : State).Admitted :=
  h.congr rfl h.lead

/-- No answer of the queue is about the sizes of the shift. -/
theorem answerCustomer (h : shift.Admitted) (customer : Customer) (dish : Dish)
    (answer : Answer Dish) : (shift.answerCustomer id customer dish answer).Admitted := by
  cases answer with
  | accepted number => exact h.setCustomer rfl rfl (Customer.content_start _ _)
  | rejected rejection => exact h.setCustomer rfl rfl nofun
  | _ => exact h.setCustomer rfl rfl nofun

/-- What a cook is told does not concern the customers. -/
theorem answerCook (h : shift.Admitted) (cook : Cook) (answer : Answer Dish) :
    (shift.answerCook id cook answer).Admitted := by
  cases answer <;> exact h.congr rfl h.lead

/-- The lead thread passes on what a customer complains about, and has no complaint of its own about
the sizes. -/
theorem leadOn {denial : Denial} (h : shift.Admitted) (made : shift.leadOn denial = some next) :
    next.Admitted := by
  cases turn_of_leadOn made with
  | refused refused =>
    refine h.congr rfl fun error hlead => ?_
    cases hlead
    exact State.Refused.ne_config refused
  | startCustomer =>
    refine ⟨fun customer hmem => ?_, h.lead⟩
    rcases List.mem_append.mp hmem with hold | hnew
    · exact h.customers customer hold
    · exact List.mem_singleton.mp hnew ▸ Customer.content_start _ _
  | startCook => exact h.congr rfl h.lead
  | joinFailedCustomer stage present ended =>
    have content := h.customers _ (List.mem_of_getElem? present)
    refine h.congr rfl fun error hlead => ?_
    cases hlead
    rcases ended with ended | ⟨-, name, hname⟩
    · exact content error ended
    · cases hname
  | customer kind | cook kind => simp at kind
  | _ => exact h.congr rfl nofun

/-- A customer that submits an order stays content, or is refused the order. -/
theorem callCustomer (h : shift.Admitted) (made : shift.callCustomer id chance = some next) :
    next.Admitted := by
  unfold State.callCustomer at made
  split at made
  · dsimp only at made
    split at made <;> cases made
    · exact (h.withQueue _).answerCustomer _ _ _
    · exact h.setCustomer rfl rfl (Customer.content_of_busy rfl)
  · cases made

/-- A cook that asks for an order leaves the customers alone. -/
theorem callCook (h : shift.Admitted) (made : shift.callCook id chance = some next) :
    next.Admitted := by
  unfold State.callCook at made
  split at made
  · dsimp only at made
    split at made <;> cases made
    · exact (h.withQueue _).answerCook _ _
    · exact h.withQueue _
  · cases made

/-- A call that goes on is answered by the queue. -/
theorem resume {role : Role} (h : shift.Admitted)
    (made : shift.resume role id chance = some next) : next.Admitted := by
  unfold State.resume at made
  split at made
  · dsimp only at made
    split at made
    · cases made
      exact h.withQueue _
    · split at made
      · cases made
        exact (h.withQueue _).answerCustomer _ _ _
      · cases made
    · obtain ⟨cook, -, rfl⟩ := Option.map_eq_some_iff.mp made
      exact (h.withQueue _).answerCook _ _
  · cases made

/-- Every step keeps a shift admitted. -/
theorem step {move : Move} (h : shift.Admitted) (made : shift.step move = some next) :
    next.Admitted := by
  cases move with
  | lead denial => exact h.leadOn made
  | call role id chance =>
    cases role with
    | customer => exact h.callCustomer made
    | cook => exact h.callCook made
  | rouse role id =>
    obtain ⟨queue, -, rfl⟩ := Option.map_eq_some_iff.mp made
    exact h.withQueue _
  | resume role id chance => exact h.resume made
  | note id =>
    simp only [State.step, State.note] at made
    split at made
    · cases made
      exact h.congr rfl h.lead
    · cases made

end State.Admitted

variable {config : Config} {validate : Bool} {generators : Generators} {error : ConfigError}

/-- A shift that has been started stays admitted in every execution of its threads. -/
theorem Execution.admitted {start shift : State} {moves : List Move}
    (execution : Execution start moves shift) (h : start.Admitted) : shift.Admitted := by
  induction execution with
  | nil => exact h
  | step execution made ih => exact ih.step made

/-- A shift that starts is admitted. -/
theorem State.admitted_start (config : Config) (validate : Bool) (generators : Generators)
    (terms : Terms) : (State.start config validate generators terms).Admitted where
  customers := nofun
  lead := nofun

/-- No execution of a shift ends with a refusal of its sizes. -/
theorem Execution.outcome_ne_config {terms : Terms} {shift : State} {moves : List Move}
    (execution : Execution (State.start config validate generators terms) moves shift)
    (error : ConfigError) : shift.outcome? ≠ some (.error (.error (.config error))) := by
  have admitted := execution.admitted (State.admitted_start config validate generators terms)
  unfold State.outcome?
  split
  · next outcome stage =>
    rintro ⟨⟩
    exact admitted.lead error stage
  · exact nofun

/-- The queue is refused for the sizes of a shift exactly if they fail their check. -/
theorem openQueue_refused_iff :
    openQueue config = .error (.error (.config error)) ↔ config.validate = .error error := by
  unfold openQueue
  split
  · next refused => simp [refused]
  · next valid _ => simp [valid]
  · next valid _ => split <;> simp [valid]

/-- A shift is refused for its sizes before it starts exactly if they fail their check. -/
theorem prepare_refused_iff (validate : Bool) (refusals : Refusals) :
    (prepare config validate refusals).terms = .error (.error (.config error)) ↔
      config.validate = .error error := by
  rw [← openQueue_refused_iff]
  cases opened : openQueue config with
  | error failure => simp only [prepare, opened]
  | ok terms =>
    have hpassed :
        (prepare config validate refusals).terms ≠ .error (.error (.config error)) := by
      simp only [prepare, opened]
      split
      · next hnumbers =>
        rintro ⟨⟩
        exact reserve_ne_config hnumbers
      · cases hcustomers : reserve refusals.customers config.customers.toNat handleBytes with
        | ok => rintro ⟨⟩
        | error failure =>
          rintro ⟨⟩
          exact reserve_ne_config hcustomers
    simp [hpassed]

/-- A shift that is run is refused for its sizes exactly if they fail their check. -/
theorem run_refused_iff {surroundings : Surroundings} :
    (run config validate surroundings).outcome = .error (.error (.config error)) ↔
      config.validate = .error error := by
  rw [← prepare_refused_iff validate surroundings.refusals]
  cases prepared : (prepare config validate surroundings.refusals).terms with
  | error failure =>
    simp only [run, prepared]
    exact ⟨fun h => by cases h; rfl, fun h => by cases h; rfl⟩
  | ok terms =>
    obtain ⟨moves, execution⟩ :=
      (Execution.nil : Execution (State.start config validate surroundings.generators terms) []
        _).follow surroundings.fortune (State.turnBound config) (State.agenda config)
    have hended := execution.outcome_ne_config error
    have hrun :
        (run config validate surroundings).outcome ≠ .error (.error (.config error)) := by
      simp only [run, prepared]
      cases houtcome : (State.follow surroundings.fortune (State.turnBound config)
          (State.agenda config)
          (State.start config validate surroundings.generators terms)).outcome? with
      | none => rintro ⟨⟩
      | some outcome => exact fun h => hended (houtcome.trans (congrArg some h))
    simp [hrun]

end OrderRail.Shift
