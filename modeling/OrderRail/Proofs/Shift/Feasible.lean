import OrderRail.Proofs.Shift.Schedule

/-!
# Which shifts can be run

In surroundings that deny nothing, the sizes of a shift decide whether it comes to a report. If they
fail their check, or the number of orders is too large for a counter, the queue is not opened and
nothing happens at all. If the orders have numbers with one to spare, and memory could address all
lists, the shift is run to its end. If memory could not address one of them, the shift stops where
it makes room for that list: the numbers and the customers are listed before any worker is started,
the cooks when all customers have been started.
-/

namespace OrderRail.Shift

open Queue (Terms)

/-- Surroundings that deny nothing: neither a list before the shift starts, nor anything in one of
its turns. -/
structure Surroundings.Generous (surroundings : Surroundings) : Prop where
  numbers : surroundings.refusals.numbers = false
  customers : surroundings.refusals.customers = false
  turns : ∀ turn, (surroundings.fortune turn).Granted

/-- Nothing is denied in the surroundings that a key stands for. -/
theorem Surroundings.generous_ofKey (key : Key) : (Surroundings.ofKey key).Generous where
  numbers := rfl
  customers := rfl
  turns := fun _ => Fortune.granted_calm

/-- A shift that can be run: its orders have numbers with one to spare, and memory could address
the lists that it keeps. -/
structure Config.Feasible (config : Config) (validate : Bool) : Prop where
  countable : config.totalOrders + 1 < Count.wordSize
  numbers : validate = true → config.totalOrders * numberBytes < blockLimit
  customers : config.customers.toNat * handleBytes < blockLimit
  cooks : config.cooks.toNat * handleBytes < blockLimit

/-- A shift with a list that no memory could address: the numbers of the orders, which are kept only
to validate them, or the handles of the customers or of the cooks. -/
def Config.Unreservable (config : Config) (validate : Bool) : Prop :=
  (validate = true ∧ blockLimit ≤ config.totalOrders * numberBytes) ∨
    blockLimit ≤ config.customers.toNat * handleBytes ∨
    blockLimit ≤ config.cooks.toNat * handleBytes

variable {config : Config} {validate : Bool} {surroundings : Surroundings}

/-- There is no room for a list that no memory could address, whether it is refused or not. -/
theorem reserve_of_le {items bytes : Nat} (refused : Bool)
    (unstorable : blockLimit ≤ items * bytes) :
    reserve refused items bytes = .error (.fault .storageOverflow) :=
  if_pos unstorable

/-- The list of numbers has as many bytes as it takes to validate the shift. -/
theorem numbers_bytes {terms : Terms} (hexpected : terms.expected = config.totalOrders)
    (validate : Bool) :
    (if validate then terms.expected else 0) * numberBytes =
      if validate then config.totalOrders * numberBytes else 0 := by
  cases validate with
  | true => rw [if_pos rfl, if_pos rfl, hexpected]
  | false => rfl

/-- A feasible shift whose sizes pass their check can be prepared, and its sizes leave room. -/
theorem Config.Feasible.prepared (h : config.Feasible validate) (valid : config.validate = .ok ())
    (generous : surroundings.Generous) :
    ∃ terms, (prepare config validate surroundings.refusals).terms = .ok terms ∧
      Ample config terms := by
  obtain ⟨terms, hopen, -, hexpected⟩ := openQueue_eq valid (Nat.lt_of_succ_lt h.countable)
  have hnumbers : reserve false (if validate then terms.expected else 0) numberBytes = .ok () := by
    refine reserve_of_lt ?_
    rw [numbers_bytes hexpected validate]
    split
    · next validated => exact h.numbers validated
    · decide
  refine ⟨terms, ?_, hexpected ▸ h.countable, h.cooks⟩
  simp only [prepare, hopen, generous.numbers, generous.customers, hnumbers,
    reserve_of_lt h.customers]
  rfl

/-- A feasible shift whose sizes pass their check comes to a report, if nothing is denied. -/
theorem Config.Feasible.reports (h : config.Feasible validate) (valid : config.validate = .ok ())
    (generous : surroundings.Generous) :
    ∃ report, (run config validate surroundings).outcome = .ok report := by
  obtain ⟨terms, hprepared, ample⟩ := h.prepared valid generous
  exact run_ends hprepared ample generous.turns

/-- A shift in which all that is left to start is denied nothing, but whose cooks cannot be listed,
starts its customers one after another and fails then. -/
theorem State.follow_unlisted (shift : State) {fortune : Nat → Fortune}
    (granted : ∀ turn, (fortune turn).Granted) (stage : shift.lead = .startingCustomers)
    (nobody : shift.queue.waiters = [])
    (unstorable : blockLimit ≤ shift.config.cooks.toNat * handleBytes) (others : List Thread)
    {turns : Nat} (enough : shift.config.customers.toNat - shift.customers.length < turns) :
    (follow fortune turns (.lead :: others) shift).outcome? =
      some (.error (.fault .storageOverflow)) := by
  induction turns generalizing shift with
  | zero => omega
  | succ turns ih =>
    have undone : shift.outcome? = none := by simp only [outcome?, stage]
    have quiet : shift.wake (fortune turns) = none := wake_of_asleep (by simp [nobody]) _
    have taken : shift.turn (fortune turns) .lead = shift.leadOn .nothing := by
      rw [turn, movesOf, (granted turns).2, List.findSome?_cons]
      cases hmove : shift.step (.lead .nothing) <;> exact hmove.symm
    simp only [follow, undone, quiet, taken, leadOn, stage, Option.isSome_none,
      Bool.false_eq_true, if_false]
    by_cases more : shift.customers.length < shift.config.customers.toNat
    · have spawned : shift.spawn .nothing .customer shift.startCustomer = shift.startCustomer := rfl
      simp only [if_pos more, spawned]
      have hlength : shift.startCustomer.customers.length = shift.customers.length + 1 :=
        List.length_append
      have hconfig : shift.startCustomer.config = shift.config := rfl
      exact ih shift.startCustomer stage nobody unstorable (by rw [hlength, hconfig]; omega)
    · -- All customers have been started, so the cooks are next.
      simp only [if_neg more, listCooks, reserve_of_le _ unstorable]
      cases turns <;> rfl

/-- A shift whose orders can be counted, but one of whose lists no memory could address, stops where
it makes room for that list, if nothing else is denied. -/
theorem run_of_unreservable (valid : config.validate = .ok ())
    (countable : config.totalOrders < Count.wordSize)
    (unreservable : config.Unreservable validate) (generous : surroundings.Generous) :
    (run config validate surroundings).outcome = .error (.fault .storageOverflow) := by
  obtain ⟨terms, hopen, -, hexpected⟩ := openQueue_eq valid countable
  simp only [run, prepare, hopen, generous.numbers, generous.customers]
  have hbytes := numbers_bytes hexpected validate
  rcases Nat.lt_or_ge ((if validate then terms.expected else 0) * numberBytes) blockLimit with
    numbers | numbers
  · rw [reserve_of_lt numbers]
    rcases Nat.lt_or_ge (config.customers.toNat * handleBytes) blockLimit with
      customers | customers
    · rw [reserve_of_lt customers]
      -- There is room for everything but the cooks.
      have cooks : blockLimit ≤ config.cooks.toNat * handleBytes := by
        rcases unreservable with ⟨validated, large⟩ | large | large
        · rw [hbytes, if_pos validated] at numbers
          exact absurd numbers (Nat.not_lt.mpr large)
        · exact absurd customers (Nat.not_lt.mpr large)
        · exact large
      obtain ⟨others, hagenda⟩ : ∃ others, State.agenda config = .lead :: others := ⟨_, rfl⟩
      have enough : config.customers.toNat - 0 < State.turnBound config := by
        rw [State.turnBound]
        omega
      have hends := State.follow_unlisted
        (State.start config validate surroundings.generators terms) generous.turns rfl rfl cooks
        others enough
      rw [hagenda]
      exact congrArg (Option.getD · _) hends
    · rw [reserve_of_le false customers]
      rfl
  · rw [reserve_of_le false numbers]

/-- A shift whose queue cannot be opened does nothing. -/
theorem run_of_openQueue {failure : Failure} (h : openQueue config = .error failure) :
    run config validate surroundings = { outcome := .error failure, journal := [] } := by
  simp only [run, prepare, h]
  rfl

/-- A shift whose sizes fail their check does nothing. -/
theorem run_of_invalid {error : ConfigError} (invalid : config.validate = .error error) :
    run config validate surroundings =
      { outcome := .error (.error (.config error)), journal := [] } :=
  run_of_openQueue (by simp only [openQueue, invalid])

/-- A shift with too many orders does nothing but fail. -/
theorem run_of_uncountable (valid : config.validate = .ok ())
    (uncountable : Count.wordSize ≤ config.totalOrders) (validate : Bool)
    (surroundings : Surroundings) :
    run config validate surroundings =
      { outcome := .error (.fault .mulOverflow), journal := [] } := by
  have horders : config.expectedOrders = .error .mulOverflow := by
    rw [config.expectedOrders_eq, if_neg (Nat.not_lt.mpr uncountable)]
  exact run_of_openQueue (by simp only [openQueue, valid, horders])

end OrderRail.Shift
