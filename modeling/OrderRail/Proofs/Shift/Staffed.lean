import OrderRail.Proofs.Shift.Turn

/-!
# What the lead thread has behind it

The lead thread starts all customers, then all cooks, and joins them in the same order. Whatever it
has joined has ended well. This file keeps that record through every turn, and does not look into
the queue: it only has to be known that no customer was refused, that no worker has crashed, that
the system denied the lead thread nothing, and that closing does not fail.
-/

namespace OrderRail.Shift

/-- A customer has ended, and happily, exactly if it has no more orders to place. -/
def Customer.Fair (customer : Customer) : Prop :=
  customer.ending = if customer.remaining = 0 then some (.returned (.ok ())) else none

/-- A cook has not ended, or it has ended with empty hands after all expected orders were handed
out. -/
def Cook.Fair (expected handled : Nat) (cook : Cook) : Prop :=
  cook.ending = none ∨
    (∃ fulfilled, cook.ending = some (.returned fulfilled)) ∧ cook.held = none ∧
      expected ≤ handled

/-- How many customers the lead thread has joined. -/
def Lead.customersJoined (customers : Nat) : Lead → Nat
  | .startingCustomers | .startingCooks => 0
  | .joiningCustomers next => next
  | .joiningCooks _ | .closing | .done _ => customers

/-- How many cooks the lead thread has joined. -/
def Lead.cooksJoined (cooks : Nat) : Lead → Nat
  | .startingCustomers | .startingCooks | .joiningCustomers _ => 0
  | .joiningCooks next => next
  | .closing | .done _ => cooks

/-- Whether the lead thread has still to join the customer with a number. -/
def Lead.Ahead (id : Nat) : Lead → Prop
  | .startingCustomers | .startingCooks => True
  | .joiningCustomers next => next ≤ id
  | .joiningCooks _ | .closing | .done _ => False

/-- The lead thread has started whom it should, and those whom it has joined have ended well. -/
structure Staffed (config : Config) (shift : State) : Prop where
  config_eq : shift.config = config
  customers_le : shift.customers.length ≤ config.customers.toNat
  cooks_le : shift.cooks.length ≤ config.cooks.toNat
  allCustomers : shift.lead ≠ .startingCustomers →
    shift.customers.length = config.customers.toNat
  allCooks : shift.lead ≠ .startingCustomers → shift.lead ≠ .startingCooks →
    shift.cooks.length = config.cooks.toNat
  customersJoined : ∀ id < shift.lead.customersJoined config.customers.toNat,
    ∀ customer, shift.customers[id]? = some customer →
      customer.ending = some (.returned (.ok ()))
  cooksJoined : ∀ id < shift.lead.cooksJoined config.cooks.toNat,
    ∀ cook, shift.cooks[id]? = some cook → ∃ fulfilled, cook.ending = some (.returned fulfilled)
  outcome : ∀ outcome, shift.lead = .done outcome → ∃ report, outcome = .ok report

namespace Staffed

variable {config : Config} {shift next : State}

/-- When the lead thread has joined all customers, they have ended well. -/
theorem customers_ended (h : Staffed config shift)
    (joined : shift.lead.customersJoined config.customers.toNat = config.customers.toNat) :
    ∀ customer ∈ shift.customers, customer.ending = some (.returned (.ok ())) := by
  intro customer hcustomer
  obtain ⟨id, present⟩ := List.mem_iff_getElem?.mp hcustomer
  have hid := (List.getElem?_eq_some_iff.mp present).1
  exact h.customersJoined id (joined.symm ▸ hid.trans_le h.customers_le) customer present

/-- When the lead thread has joined all cooks, they have ended well. -/
theorem cooks_ended (h : Staffed config shift)
    (joined : shift.lead.cooksJoined config.cooks.toNat = config.cooks.toNat) :
    ∀ cook ∈ shift.cooks, ∃ fulfilled, cook.ending = some (.returned fulfilled) := by
  intro cook hcook
  obtain ⟨id, present⟩ := List.mem_iff_getElem?.mp hcook
  have hid := (List.getElem?_eq_some_iff.mp present).1
  exact h.cooksJoined id (joined.symm ▸ hid.trans_le h.cooks_le) cook present

/-- A customer that has not ended has still to be joined. -/
theorem ahead_of_busy (h : Staffed config shift) {id : Nat} {customer : Customer}
    (present : shift.customers[id]? = some customer) (busy : customer.ending = none) :
    shift.lead.Ahead id := by
  have hmem := List.mem_of_getElem? present
  have hjoined := h.customersJoined
  have hended := h.customers_ended
  cases stage : shift.lead with
  | startingCustomers | startingCooks => trivial
  | joiningCustomers next =>
    rw [stage] at hjoined
    refine Nat.le_of_not_lt fun hid => ?_
    simp [hjoined id hid customer present] at busy
  | joiningCooks | closing | done =>
    rw [stage] at hended
    simp [hended rfl customer hmem] at busy

/-- What happens to one customer that has not ended does not concern the lead thread. -/
theorem setCustomer {id : Nat} {customer caller : Customer} (h : Staffed config shift)
    (present : shift.customers[id]? = some customer) (busy : customer.ending = none)
    (config_eq : next.config = shift.config) (lead : next.lead = shift.lead)
    (customers : next.customers = shift.customers.set id caller)
    (cooks : next.cooks = shift.cooks) : Staffed config next := by
  have hlength : next.customers.length = shift.customers.length := by
    rw [customers, List.length_set]
  refine ⟨config_eq.trans h.config_eq, hlength ▸ h.customers_le, cooks ▸ h.cooks_le,
    fun stage => hlength ▸ h.allCustomers (lead ▸ stage),
    fun stage stage' => cooks ▸ h.allCooks (lead ▸ stage) (lead ▸ stage'), ?_, ?_,
    fun outcome stage => h.outcome outcome (lead ▸ stage)⟩
  · intro position hposition other hother
    rw [lead] at hposition
    have hne : id ≠ position := by
      rintro rfl
      have hended := h.customersJoined id hposition customer present
      simp [busy] at hended
    rw [customers, List.getElem?_set_ne hne] at hother
    exact h.customersJoined position hposition other hother
  · rw [lead, cooks]
    exact h.cooksJoined

/-- What happens to one cook that has not ended does not concern the lead thread. -/
theorem setCook {id : Nat} {cook caller : Cook} (h : Staffed config shift)
    (present : shift.cooks[id]? = some cook) (busy : cook.ending = none)
    (config_eq : next.config = shift.config) (lead : next.lead = shift.lead)
    (customers : next.customers = shift.customers)
    (cooks : next.cooks = shift.cooks.set id caller) : Staffed config next := by
  have hlength : next.cooks.length = shift.cooks.length := by
    rw [cooks, List.length_set]
  refine ⟨config_eq.trans h.config_eq, customers ▸ h.customers_le, hlength ▸ h.cooks_le,
    fun stage => customers ▸ h.allCustomers (lead ▸ stage),
    fun stage stage' => hlength ▸ h.allCooks (lead ▸ stage) (lead ▸ stage'), ?_, ?_,
    fun outcome stage => h.outcome outcome (lead ▸ stage)⟩
  · rw [lead, customers]
    exact h.customersJoined
  · intro position hposition other hother
    rw [lead] at hposition
    have hne : id ≠ position := by
      rintro rfl
      obtain ⟨fulfilled, hended⟩ := h.cooksJoined id hposition cook present
      simp [busy] at hended
    rw [cooks, List.getElem?_set_ne hne] at hother
    exact h.cooksJoined position hposition other hother

/-- What happens in the queue does not concern the lead thread. -/
theorem congr (h : Staffed config shift) (config_eq : next.config = shift.config)
    (lead : next.lead = shift.lead) (customers : next.customers = shift.customers)
    (cooks : next.cooks = shift.cooks) : Staffed config next := by
  obtain ⟨hconfig, hcustomers, hcooks, hall, hallCooks, hjoined, hjoinedCooks, houtcome⟩ := h
  constructor
  all_goals simp only [config_eq, lead, customers, cooks]
  all_goals assumption

/-- The lead thread has not come to an error. -/
theorem not_failed {failure : Failure} : ¬ Staffed config (shift.conclude (.error failure)) := by
  intro h
  obtain ⟨report, hreport⟩ := h.outcome _ rfl
  cases hreport

/-- The lead thread comes to its next stage with all customers started, and from the joining of
customers on with all cooks started. -/
theorem advance {lead : Lead} (h : Staffed config shift)
    (customers : shift.customers.length = config.customers.toNat)
    (cooks : lead ≠ .startingCooks → shift.cooks.length = config.cooks.toNat)
    (customersJoined : ∀ id < lead.customersJoined config.customers.toNat,
      ∀ customer, shift.customers[id]? = some customer →
        customer.ending = some (.returned (.ok ())))
    (cooksJoined : ∀ id < lead.cooksJoined config.cooks.toNat,
      ∀ cook, shift.cooks[id]? = some cook → ∃ fulfilled, cook.ending = some (.returned fulfilled))
    (outcome : ∀ outcome, lead = .done outcome → ∃ report, outcome = .ok report) :
    Staffed config { shift with lead } where
  config_eq := h.config_eq
  customers_le := h.customers_le
  cooks_le := h.cooks_le
  allCustomers := fun _ => customers
  allCooks := fun _ stage => cooks stage
  customersJoined := customersJoined
  cooksJoined := cooksJoined
  outcome := outcome

/-- The lead thread has started one more customer. -/
theorem startCustomer (h : Staffed config shift) (stage : shift.lead = .startingCustomers)
    (more : shift.customers.length < shift.config.customers.toNat) :
    Staffed config shift.startCustomer where
  config_eq := h.config_eq
  customers_le := by
    change (shift.customers ++ [_]).length ≤ _
    rw [List.length_append, ← h.config_eq]
    exact more
  cooks_le := h.cooks_le
  allCustomers := fun hstage => absurd stage hstage
  allCooks := fun hstage => absurd stage hstage
  customersJoined := by
    intro id hid
    change id < shift.lead.customersJoined _ at hid
    rw [stage] at hid
    exact absurd hid (Nat.not_lt_zero id)
  cooksJoined := h.cooksJoined
  outcome := h.outcome

/-- The lead thread has started one more cook. -/
theorem startCook (h : Staffed config shift) (stage : shift.lead = .startingCooks)
    (more : shift.cooks.length < shift.config.cooks.toNat) :
    Staffed config shift.startCook where
  config_eq := h.config_eq
  customers_le := h.customers_le
  cooks_le := by
    change (shift.cooks ++ [_]).length ≤ _
    rw [List.length_append, ← h.config_eq]
    exact more
  allCustomers := h.allCustomers
  allCooks := fun _ hstage => absurd stage hstage
  customersJoined := h.customersJoined
  cooksJoined := by
    intro id hid
    change id < shift.lead.cooksJoined _ at hid
    rw [stage] at hid
    exact absurd hid (Nat.not_lt_zero id)
  outcome := h.outcome

/-- The lead thread goes on as it should, if no worker has crashed, no customer was refused, nothing
that it needs is denied, and closing does not fail. -/
theorem leadOn {denial : Denial} {expected handled : Nat} (h : Staffed config shift)
    (customers : ∀ customer ∈ shift.customers, customer.Fair)
    (cooks : ∀ cook ∈ shift.cooks, cook.Fair expected handled)
    (closes : shift.lead = .closing → ∀ queue fault,
      shift.queue.step (.enter .lead .close 0 0 .calm) ≠ some (queue, some (.fault fault)))
    (unrefused : ∀ failure, shift.Refused denial failure →
      next ≠ shift.conclude (.error failure))
    (turn : Turn shift (.lead denial) next) : Staffed config next := by
  have hcustomers := h.customersJoined
  have hcooks := h.cooksJoined
  have hall := h.allCustomers
  have hallCooks := h.allCooks
  cases turn with
  | refused refused => exact absurd rfl (unrefused _ refused)
  | startCustomer stage more => exact h.startCustomer stage more
  | customersStarted stage all =>
    rw [h.config_eq] at all
    refine h.advance (Nat.le_antisymm h.customers_le all) (fun hstage => absurd rfl hstage)
      (fun id hid => ?_) (fun id hid => ?_) nofun
    · exact absurd hid (Nat.not_lt_zero id)
    · exact absurd hid (Nat.not_lt_zero id)
  | startCook stage more => exact h.startCook stage more
  | cooksStarted stage all =>
    rw [h.config_eq] at all
    refine h.advance (hall (by simp [stage])) (fun _ => Nat.le_antisymm h.cooks_le all)
      (fun id hid => ?_) (fun id hid => ?_) nofun
    · exact absurd hid (Nat.not_lt_zero id)
    · exact absurd hid (Nat.not_lt_zero id)
  | @joinCustomer _ position customer stage present ended =>
    rw [stage] at hcustomers hcooks hall hallCooks
    refine h.advance (hall nofun) (fun _ => hallCooks nofun nofun) ?_ hcooks nofun
    intro id hid other hother
    by_cases hlast : id = position
    · rw [hlast, present] at hother
      exact Option.some.inj hother ▸ ended
    · change id < position + 1 at hid
      exact hcustomers id (show id < position by omega) other hother
  | @joinFailedCustomer _ position customer error stage present ended =>
    have hfair : customer.Fair := customers customer (List.mem_of_getElem? present)
    rw [Customer.Fair] at hfair
    split at hfair <;> simp [hfair] at ended
  | @customersJoined _ position stage all =>
    rw [stage] at hcustomers hcooks hall hallCooks
    refine h.advance (hall nofun) (fun _ => hallCooks nofun nofun) ?_
      (fun id hid => absurd hid (Nat.not_lt_zero id)) nofun
    intro id hid customer present
    have hposition := List.getElem?_eq_none_iff.mp all
    have hid := (List.getElem?_eq_some_iff.mp present).1
    exact hcustomers id (show id < position by omega) customer present
  | @joinCook _ position fulfilled cook stage present ended =>
    rw [stage] at hcustomers hcooks hall hallCooks
    refine h.advance (hall nofun) (fun _ => hallCooks nofun nofun) hcustomers ?_ nofun
    intro id hid other hother
    by_cases hlast : id = position
    · rw [hlast, present] at hother
      exact ⟨fulfilled, Option.some.inj hother ▸ ended⟩
    · change id < position + 1 at hid
      exact hcooks id (show id < position by omega) other hother
  | @joinCrashedCook _ position cook name stage present ended =>
    rcases cooks cook (List.mem_of_getElem? present) with hbusy | ⟨⟨fulfilled, hended⟩, -⟩
    · simp [hbusy] at ended
    · simp [hended] at ended
  | @cooksJoined _ position stage all =>
    rw [stage] at hcustomers hcooks hall hallCooks
    refine h.advance (hall nofun) (fun _ => hallCooks nofun nofun) hcustomers ?_ nofun
    intro id hid cook present
    have hposition := List.getElem?_eq_none_iff.mp all
    have hid := (List.getElem?_eq_some_iff.mp present).1
    exact hcooks id (show id < position by omega) cook present
  | @close _ queue accounts stage made =>
    rw [stage] at hcustomers hcooks hall hallCooks
    have hdone (report : Report) : Staffed config { shift with lead := .done (.ok report) } :=
      h.advance (hall nofun) (fun _ => hallCooks nofun nofun) hcustomers hcooks
        fun outcome hstage => ⟨report, (Lead.done.inj hstage).symm⟩
    exact (hdone _).congr rfl rfl rfl rfl
  | failToClose stage made => exact absurd made (closes stage _ _)
  | customer kind => simp at kind
  | cook kind => simp at kind

end Staffed

end OrderRail.Shift
