import OrderRail.Proofs.Shift.Staffed

/-!
# The course of a shift

Two things are true of every execution of a shift, whatever goes wrong in it. Nobody waits in the
queue but workers with calls of their own. And what has gone wrong stays wrong until the lead thread
finds out: a lock that is broken stays broken, and a customer that has been turned away stays among
those whom the lead thread has still to join. So a shift in which nothing is wrong in the end has
gone well all the way.
-/

namespace OrderRail.Shift

open Queue (Terms Monitor Request Answer Waiter Attempt)

/-- The lead thread closes the queue when it has joined everybody. -/
theorem State.queueMove?_of_closing {shift : State} {denial : Denial}
    (stage : shift.lead = .closing) :
    shift.queueMove? (.lead denial) = some (.enter .lead .close 0 0 .calm) := by
  simp only [State.queueMove?, stage]

/-- At no other stage does the lead thread deal with the queue. -/
theorem State.queueMove?_of_lead {shift : State} {denial : Denial}
    (stage : shift.lead ≠ .closing) : shift.queueMove? (.lead denial) = none := by
  cases hlead : shift.lead with
  | closing => exact absurd hlead stage
  | _ => simp only [State.queueMove?, hlead]

/-- What is denied the lead thread is not the closing of the queue. -/
theorem State.Refused.stage {shift : State} {denial : Denial} {failure : Failure}
    (h : shift.Refused denial failure) :
    shift.lead ≠ .closing ∧ ∀ outcome, shift.lead ≠ .done outcome := by
  cases h with
  | customer stage | handles stage | cook stage | counts stage => simp [stage]

namespace Turn

variable {shift next : State} {move : Move}

/-- A turn leaves the queue alone, or makes a step of it. -/
theorem queue (h : Turn shift move next) :
    (shift.queueMove? move = none ∧ next.queue = shift.queue) ∨
      ∃ request answer, shift.queueMove? move = some request ∧
        shift.queue.step request = some (next.queue, answer) := by
  cases h with
  | close stage made => exact .inr ⟨_, _, State.queueMove?_of_closing stage, made⟩
  | failToClose stage made => exact .inr ⟨_, _, State.queueMove?_of_closing stage, made⟩
  | customer kind present busy same grants served asks draws =>
    rw [(State.hearCustomer_eq ..).1]
    exact .inr ⟨_, _, asks, grants.step_eq.trans (congrArg some served)⟩
  | cook kind present free busy grants served asks =>
    rw [(State.hearCook_eq _ _ present _).1]
    exact .inr ⟨_, _, asks, grants.step_eq.trans (congrArg some served)⟩
  | rouse inside asleep => exact .inr ⟨_, _, rfl, Monitor.rouse_eq_some inside asleep⟩
  | note present holds => exact .inl ⟨rfl, rfl⟩
  | refused refused => exact .inl ⟨State.queueMove?_of_lead refused.stage.1, rfl⟩
  | startCustomer stage | customersStarted stage | startCook stage | cooksStarted stage
  | joinCustomer stage | joinFailedCustomer stage | customersJoined stage | joinCook stage
  | joinCrashedCook stage | cooksJoined stage =>
    exact .inl ⟨State.queueMove?_of_lead (by simp [stage]), rfl⟩

/-- Only the lead thread itself goes on to its next stage. -/
theorem lead_eq (h : Turn shift move next) :
    (∃ denial, move = .lead denial) ∨ next.lead = shift.lead := by
  cases h with
  | customer => exact .inr (State.hearCustomer_eq ..).2.1
  | cook kind present => exact .inr (State.hearCook_eq _ _ present _).2.1
  | rouse | note => exact .inr rfl
  | _ => exact .inl ⟨_, rfl⟩

/-- Closing the queue changes nothing about the waiters but whether they sleep. -/
theorem waiting_of_close {queue : Monitor Thread Dish} {answer : Option (Answer Dish)}
    (made : shift.queue.step (.enter .lead .close 0 0 .calm) = some (queue, answer))
    (customers : next.customers = shift.customers) (cooks : next.cooks = shift.cooks)
    (waiting : ∀ waiter ∈ shift.queue.waiters, shift.Awaits waiter) :
    ∀ waiter ∈ queue.waiters, next.Awaits waiter := by
  have hstay : ∀ waiter ∈ shift.queue.waiters, next.Awaits waiter := fun waiter hmem =>
    (waiting waiter hmem).hire (customers.trans (List.append_nil _).symm)
      (cooks.trans (List.append_nil _).symm)
  refine Monitor.forall_of_step made (fun _ _ same hawaits => hawaits.congr same)
    (fun _ hmove => nomatch hmove) (fun waiter hmem _ => hstay waiter hmem) ?_
  intro attempt base condition grants decision
  cases grants
  cases decision.condition?_eq

/-- Every turn leaves only workers waiting. -/
theorem waiting (h : Turn shift move next)
    (waiting : ∀ waiter ∈ shift.queue.waiters, shift.Awaits waiter) :
    ∀ waiter ∈ next.queue.waiters, next.Awaits waiter := by
  have stay {last : State} (customers : last.customers = shift.customers)
      (cooks : last.cooks = shift.cooks) :
      ∀ waiter ∈ shift.queue.waiters, last.Awaits waiter := fun waiter hmem =>
    (waiting waiter hmem).hire (customers.trans (List.append_nil _).symm)
      (cooks.trans (List.append_nil _).symm)
  cases h with
  | startCustomer =>
    exact fun waiter hmem => (waiting waiter hmem).hire rfl (List.append_nil _).symm
  | startCook =>
    exact fun waiter hmem => (waiting waiter hmem).hire (List.append_nil _).symm rfl
  | close stage made => exact waiting_of_close made rfl rfl waiting
  | failToClose stage made => exact waiting_of_close made rfl rfl waiting
  | @customer move request id chance dish poison customer caller base queue answer kind present
      busy same grants served =>
    obtain ⟨hqueue, -, hcooks, changed, hcustomers⟩ :=
      State.hearCustomer_eq shift queue id caller dish answer
    have hbase : ∀ waiter ∈ base.waiters,
        (shift.hearCustomer queue id caller dish answer).Awaits waiter := fun waiter hmem =>
      (waiting waiter (grants.subset hmem)).setCustomer (grants.absent waiter hmem) hcustomers
        hcooks
    have yields := base.serve_yields (submission id dish chance poison)
    rw [served] at yields
    rw [hqueue]
    cases yields with
    | broken | fail => exact hbase
    | finish => exact awaits_congr hbase (Queue.map_lying_foldl_deliver _ _ _)
    | wait =>
      refine List.forall_mem_append.mpr ⟨hbase, List.forall_mem_singleton.mpr ?_⟩
      have hid := (List.getElem?_eq_some_iff.mp present).1
      exact .customer (List.getElem?_set_self hid) same.2
  | @cook move request id chance poison cook base queue answer kind present free busy grants
      served =>
    obtain ⟨hqueue, -, hcustomers, changed, hcooks⟩ := State.hearCook_eq shift queue present answer
    have hbase : ∀ waiter ∈ base.waiters,
        (shift.hearCook queue id cook answer).Awaits waiter := fun waiter hmem =>
      (waiting waiter (grants.subset hmem)).setCook (grants.absent waiter hmem) hcustomers hcooks
    have yields := base.serve_yields (taking id chance poison)
    rw [served] at yields
    rw [hqueue]
    cases yields with
    | broken | fail => exact hbase
    | finish => exact awaits_congr hbase (Queue.map_lying_foldl_deliver _ _ _)
    | wait =>
      exact List.forall_mem_append.mpr
        ⟨hbase, List.forall_mem_singleton.mpr (.cook present free busy)⟩
  | @rouse role id =>
    exact awaits_congr (stay rfl rfl) (shift.queue.map_lying_rousing (.worker role id))
  | note present holds =>
    exact fun waiter hmem =>
      (waiting waiter hmem).setCook ((waiting waiter hmem).elsewhere present holds) rfl rfl
  | _ => exact stay rfl rfl

end Turn

/-- Nothing has gone wrong that the lead thread has not found out: the lock is whole, the lead
thread has not failed, and no customer whom it has still to join was turned away. -/
structure State.Whole (shift : State) : Prop where
  unbroken : shift.queue.broken = false
  unfailed : ∀ failure, shift.lead ≠ .done (.error failure)
  served : ∀ id customer, shift.customers[id]? = some customer → shift.lead.Ahead id →
    ∀ error, customer.ending ≠ some (.returned (.error error))

/-- What is whole after a turn was whole before. -/
theorem Turn.whole {shift next : State} {move : Move} (h : Turn shift move next)
    (whole : next.Whole) : shift.Whole := by
  have unfailed (failure : Failure) : shift.lead ≠ .done (.error failure) := by
    intro stage
    rcases h.lead_eq with ⟨denial, rfl⟩ | same
    · cases h with
      | refused refused => exact refused.stage.2 _ stage
      | customer kind | cook kind => simp at kind
      | startCustomer hstage | customersStarted hstage | startCook hstage | cooksStarted hstage
      | joinCustomer hstage | joinFailedCustomer hstage | customersJoined hstage | joinCook hstage
      | joinCrashedCook hstage | cooksJoined hstage | close hstage | failToClose hstage =>
        simp [hstage] at stage
    · exact whole.unfailed failure (same.trans stage)
  refine ⟨?_, unfailed, ?_⟩
  · rcases h.queue with ⟨-, hqueue⟩ | ⟨request, answer, -, hstep⟩
    · rw [← hqueue]
      exact whole.unbroken
    · exact (Monitor.step_unbroken hstep whole.unbroken).1
  · intro id customer present ahead error ended
    have hid := (List.getElem?_eq_some_iff.mp present).1
    -- The customer is still there, and has still to be joined, unless the lead thread has failed.
    have stays (customers : next.customers[id]? = some customer) : ¬ next.lead.Ahead id :=
      fun hahead => whole.served id customer customers hahead error ended
    cases h with
    | refused | joinFailedCustomer | joinCrashedCook | failToClose =>
      exact whole.unfailed _ rfl
    | startCustomer stage =>
      exact stays ((List.getElem?_append_left hid).trans present) ahead
    | customersStarted | cooksStarted => exact stays present (by simp [Lead.Ahead])
    | startCook | rouse | note => exact stays present ahead
    | @joinCustomer _ position other stage hpresent hended =>
      have hne : position ≠ id := by
        rintro rfl
        obtain rfl := Option.some.inj (hpresent.symm.trans present)
        simp [hended] at ended
      rw [stage] at ahead
      exact stays present (Nat.lt_of_le_of_ne ahead hne)
    | customersJoined stage all =>
      rw [stage] at ahead
      have hposition := List.getElem?_eq_none_iff.mp all
      exact absurd (hid.trans_le hposition) (Nat.not_lt.mpr ahead)
    | joinCook stage | cooksJoined stage | close stage =>
      rw [stage] at ahead
      exact ahead
    | @customer move request other chance dish poison customer' caller base queue answer kind
        hpresent busy =>
      obtain ⟨-, hlead, -, changed, hcustomers⟩ :=
        State.hearCustomer_eq shift queue other caller dish answer
      refine stays ?_ (hlead ▸ ahead)
      rw [hcustomers, List.getElem?_set_ne, present]
      rintro rfl
      obtain rfl := Option.some.inj (hpresent.symm.trans present)
      simp [busy] at ended
    | cook kind hpresent =>
      obtain ⟨-, hlead, hcustomers, -⟩ := State.hearCook_eq shift _ hpresent _
      exact stays (hcustomers ▸ present) (hlead ▸ ahead)

/-- The executions of a shift, with the moves that have been made, the first one first. -/
inductive Execution (start : State) : List Move → State → Prop where
  | nil : Execution start [] start
  | step {moves : List Move} {move : Move} {shift next : State}
      (execution : Execution start moves shift) (made : shift.step move = some next) :
      Execution start (moves ++ [move]) next

/-- If only workers wait when a shift starts, then only workers ever do. -/
theorem Execution.waiting {start shift : State} {moves : List Move}
    (execution : Execution start moves shift)
    (h : ∀ waiter ∈ start.queue.waiters, start.Awaits waiter) :
    ∀ waiter ∈ shift.queue.waiters, shift.Awaits waiter := by
  induction execution with
  | nil => exact h
  | step execution made ih => exact (turn_of_step ih made).waiting ih

end OrderRail.Shift
