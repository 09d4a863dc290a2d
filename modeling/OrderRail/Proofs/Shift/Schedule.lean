import OrderRail.Proofs.Shift.Ending

/-!
# The schedule of a shift

When a shift is run, one schedule of many is followed: roused calls go on at once, and otherwise the
threads have their turns in the order of an agenda. A thread is taken off the agenda when it cannot
make a step. That is safe, because a worker that is not on the agenda waits inside the queue, if it
has not ended, and comes back to the agenda when it is roused. So nobody can go on when the agenda
is empty, and a shift in which nobody can go on has ended well.

Every turn makes a step or takes a thread off the agenda. If nothing is denied the steps are
bounded, so the number of turns that is provided for is enough.
-/

namespace OrderRail.Shift

open Queue (Terms Monitor Waiter Attempt Chance)

/-- How many workers of a role a shift has. -/
def Config.workers (config : Config) : Role → Nat
  | .customer => config.customers.toNat
  | .cook => config.cooks.toNat

namespace State

/-- Whether a worker has been started and has not ended. -/
def Busy (shift : State) : Role → Nat → Prop
  | .customer, id => ∃ customer, shift.customers[id]? = some customer ∧ customer.ending = none
  | .cook, id => ∃ cook, shift.cooks[id]? = some cook ∧ cook.ending = none

/-- A busy worker outside the queue can take its turn. -/
theorem turn_of_busy {shift : State} {role : Role} {id : Nat} (busy : shift.Busy role id)
    (outside : shift.queue.waiting? (.worker role id) = none) (fortune : Fortune) :
    ∃ next, shift.turn fortune (.worker role id) = some next := by
  cases role with
  | customer =>
    obtain ⟨customer, present, ending⟩ := busy
    exact turn_of_customer present ending outside fortune
  | cook =>
    obtain ⟨cook, present, ending⟩ := busy
    exact turn_of_cook present ending outside fortune

/-- A change to one customer makes no other worker busy. -/
theorem Busy.of_setCustomer {shift next : State} {role : Role} {id position : Nat}
    {caller : Customer} (busy : next.Busy role id)
    (other : Thread.worker role id ≠ .worker .customer position)
    (customers : next.customers = shift.customers.set position caller)
    (cooks : next.cooks = shift.cooks) : shift.Busy role id := by
  cases role with
  | customer =>
    obtain ⟨customer, present, ending⟩ := busy
    rw [customers, List.getElem?_set_ne fun hid => other (by rw [hid])] at present
    exact ⟨customer, present, ending⟩
  | cook =>
    obtain ⟨cook, present, ending⟩ := busy
    exact ⟨cook, cooks ▸ present, ending⟩

/-- A change to one cook makes no other worker busy. -/
theorem Busy.of_setCook {shift next : State} {role : Role} {id position : Nat}
    {caller : Cook} (busy : next.Busy role id)
    (other : Thread.worker role id ≠ .worker .cook position)
    (customers : next.customers = shift.customers)
    (cooks : next.cooks = shift.cooks.set position caller) : shift.Busy role id := by
  cases role with
  | customer =>
    obtain ⟨customer, present, ending⟩ := busy
    exact ⟨customer, customers ▸ present, ending⟩
  | cook =>
    obtain ⟨cook, present, ending⟩ := busy
    rw [cooks, List.getElem?_set_ne fun hid => other (by rw [hid])] at present
    exact ⟨cook, present, ending⟩

/-- Who is busy depends on the workers only. -/
theorem Busy.congr {shift next : State} {role : Role} {id : Nat} (busy : next.Busy role id)
    (customers : next.customers = shift.customers) (cooks : next.cooks = shift.cooks) :
    shift.Busy role id := by
  cases role with
  | customer => rwa [Busy, ← customers]
  | cook => rwa [Busy, ← cooks]

end State

namespace Turn

variable {shift next : State} {move : Move} {role : Role} {id : Nat} {chance : Chance}

/-- The turns of workers are no turns of the lead thread. -/
theorem ne_lead (kind : move = .call role id chance ∨ move = .resume role id chance) :
    (∀ denial, move ≠ .lead denial) ∧ move.thread = .worker role id := by
  rcases kind with rfl | rfl <;> exact ⟨nofun, rfl⟩

/-- A call stays inside the queue through the turns of other threads. -/
theorem inside {thread : Thread} (h : Turn shift move next) (inside : shift.queue.Inside thread)
    (other : thread ≠ move.thread) : next.queue.Inside thread := by
  cases h with
  | close stage made => exact inside.step made other
  | failToClose stage made => exact inside.step made other
  | customer kind present busy same grants served =>
    rw [(ne_lead kind).2] at other
    rw [(State.hearCustomer_eq ..).1]
    refine inside.step (grants.step_eq.trans (congrArg some served)) ?_
    rwa [← grants.thread_eq]
  | cook kind present free busy grants served =>
    rw [(ne_lead kind).2] at other
    rw [(State.hearCook_eq shift _ present _).1]
    refine inside.step (grants.step_eq.trans (congrArg some served)) ?_
    rwa [← grants.thread_eq]
  | rouse present asleep => exact inside.step (Monitor.rouse_eq_some present asleep) other
  | _ => exact inside

/-- Who is there after a worker has been started was there before, or is the new one. -/
theorem present_of_hired {α : Type} {workers : List α} {hired worker : α}
    (present : (workers ++ [hired])[id]? = some worker) :
    workers[id]? = some worker ∨ id = workers.length := by
  have hid := (List.getElem?_eq_some_iff.mp present).1
  rw [List.length_append, List.length_singleton] at hid
  by_cases hold : id < workers.length
  · rw [List.getElem?_append_left hold] at present
    exact .inl present
  · exact .inr (by omega)

/-- Only the lead thread makes others busy, by starting them. -/
theorem busy (h : Turn shift move next) (busy : next.Busy role id)
    (other : .worker role id ≠ move.thread) :
    shift.Busy role id ∨ shift.Opening ∧ id < shift.config.workers role := by
  cases h with
  | startCustomer stage more =>
    cases role with
    | customer =>
      obtain ⟨customer, present, ending⟩ := busy
      rcases present_of_hired present with hold | rfl
      · exact .inl ⟨customer, hold, ending⟩
      · exact .inr ⟨.inl stage, more⟩
    | cook => exact .inl busy
  | startCook stage more =>
    cases role with
    | customer => exact .inl busy
    | cook =>
      obtain ⟨cook, present, ending⟩ := busy
      rcases present_of_hired present with hold | rfl
      · exact .inl ⟨cook, hold, ending⟩
      · exact .inr ⟨.inr stage, more⟩
  | customer kind present ending same grants served =>
    obtain ⟨-, -, hcooks, caller, hcustomers⟩ := State.hearCustomer_eq ..
    exact .inl (busy.of_setCustomer ((ne_lead kind).2 ▸ other) hcustomers hcooks)
  | cook kind present free ending grants served =>
    obtain ⟨-, -, hcustomers, caller, hcooks⟩ := State.hearCook_eq shift _ present _
    exact .inl (busy.of_setCook ((ne_lead kind).2 ▸ other) hcustomers hcooks)
  | note present holds => exact .inl (busy.of_setCook other rfl rfl)
  | _ => exact .inl (busy.congr rfl rfl)

/-- The lead thread starts all workers before it does anything else. -/
theorem opening (h : Turn shift move next) (opening : next.Opening) :
    shift.Opening ∧ ∀ denial, move = .lead denial → next.queue = shift.queue := by
  cases h with
  | startCustomer stage | customersStarted stage => exact ⟨.inl stage, fun _ _ => rfl⟩
  | startCook stage => exact ⟨.inr stage, fun _ _ => rfl⟩
  | customer kind =>
    rw [State.Opening, (State.hearCustomer_eq ..).2.1] at opening
    exact ⟨opening, fun denial hmove => absurd hmove ((ne_lead kind).1 denial)⟩
  | cook kind present =>
    rw [State.Opening, (State.hearCook_eq shift _ present _).2.1] at opening
    exact ⟨opening, fun denial hmove => absurd hmove ((ne_lead kind).1 denial)⟩
  | rouse | note => exact ⟨opening, nofun⟩
  | _ => rcases opening with stage | stage <;> cases stage

end Turn

/-- A thread that is woken makes the step of its roused call. -/
theorem State.step_of_wake {shift next : State} {fortune : Fortune} {thread : Thread}
    (woken : shift.wake fortune = some (thread, next)) :
    ∃ role id, thread = .worker role id ∧
      shift.step (.resume role id fortune.chance) = some next := by
  unfold State.wake at woken
  split at woken
  · next role id _ _ _ _ found =>
    obtain ⟨state, made, heq⟩ := Option.map_eq_some_iff.mp woken
    cases heq
    exact ⟨role, id, rfl, made⟩
  · cases woken

/-- Where everybody in the queue is asleep, no thread is woken. -/
theorem State.wake_of_asleep {shift : State}
    (asleep : ∀ waiter ∈ shift.queue.waiters, waiter.sleep = .asleep) (fortune : Fortune) :
    shift.wake fortune = none := by
  have hnobody : shift.queue.waiters.find? (·.sleep ≠ .asleep) = none :=
    List.find?_eq_none.mpr fun waiter hmem => by simp [asleep waiter hmem]
  simp only [State.wake, hnobody]

/-- When no thread is woken, everybody in the queue is asleep. -/
theorem Sound.asleep_of_wake {config : Config} {terms : Terms} {shift : State} {fortune : Fortune}
    (h : Sound config terms shift) (quiet : shift.wake fortune = none) :
    ∀ waiter ∈ shift.queue.waiters, waiter.sleep = .asleep := by
  intro waiter hmem
  by_contra hawake
  have hfound : (shift.queue.waiters.find? (·.sleep ≠ .asleep)).isSome = true :=
    List.find?_isSome.mpr ⟨waiter, hmem, decide_eq_true hawake⟩
  obtain ⟨first, found⟩ := Option.isSome_iff_exists.mp hfound
  have hfirst := List.mem_of_find?_eq_some found
  have hroused : first.sleep ≠ .asleep := by simpa using List.find?_some found
  cases awake : first.sleep with
  | asleep => exact hroused awake
  | roused signalled =>
    obtain ⟨role, id, next, hthread, made⟩ := h.step_of_roused hfirst awake fortune.chance
    obtain ⟨_, request, condition, deadline, sleep⟩ := first
    subst hthread
    simp only [State.wake, found, made, Option.map_some] at quiet
    cases quiet

/-- Only the lead thread makes the moves of the lead thread. -/
theorem Move.lead_of_thread {move : Move} (h : move.thread = .lead) :
    ∃ denial, move = .lead denial := by
  cases move with
  | lead denial => exact ⟨denial, rfl⟩
  | _ => cases h

/-- Every worker that could take a turn is on the agenda, and until all workers have been started
they are all on it, with the lead thread before them. -/
structure Scheduled (config : Config) (agenda : List Thread) (shift : State) : Prop where
  resting : ∀ role id, .worker role id ∉ agenda → shift.Busy role id →
    shift.queue.Inside (.worker role id)
  opening : shift.Opening → agenda.head? = some .lead ∧ shift.queue.waiters = [] ∧
    ∀ role, ∀ id < config.workers role, .worker role id ∈ agenda

namespace Scheduled

variable {config : Config} {terms : Terms} {shift next : State} {agenda others : List Thread}
  {thread : Thread} {fortune : Fortune}

/-- When a shift starts, all of its threads are on the agenda, if the cooks can be listed. -/
theorem start {config : Config} (storable : config.cooks.toNat * handleBytes < blockLimit)
    (validate : Bool) (generators : Generators) (terms : Terms) :
    Scheduled config (State.agenda config) (State.start config validate generators terms) where
  resting := by
    rintro role id - busy
    cases role with
    | customer | cook => obtain ⟨worker, present, -⟩ := busy; cases present
  opening := by
    intro _
    refine ⟨rfl, rfl, fun role id hid => ?_⟩
    cases role with
    | customer =>
      have hmem : Thread.worker .customer id ∈
          (List.range config.customers.toNat).map (.worker .customer) :=
        List.mem_map_of_mem (List.mem_range.mpr hid)
      simp [State.agenda, hmem]
    | cook =>
      have hmem : Thread.worker .cook id ∈
          (List.range config.cooks.toNat).map (.worker .cook) :=
        List.mem_map_of_mem (List.mem_range.mpr hid)
      have hall : State.startableCooks config = config.cooks.toNat := if_pos storable
      simp [State.agenda, hall, hmem]

/-- The agenda is kept by the step of a thread on it. Until all workers have been started that is
the lead thread. -/
theorem step {move : Move} (scheduled : Scheduled config agenda shift)
    (h : Sound config terms shift) (made : shift.step move = some next) (more : agenda ⊆ others)
    (mine : move.thread ∈ others)
    (first : shift.Opening → (∃ denial, move = .lead denial) ∧ others = agenda) :
    Scheduled config others next := by
  have turn := turn_of_step h.waiting made
  constructor
  · intro role id hnot busy
    have hother : .worker role id ≠ move.thread := fun heq => hnot (heq ▸ mine)
    rcases turn.busy busy hother with hbusy | ⟨opening, hid⟩
    · exact turn.inside (scheduled.resting role id (fun hmem => hnot (more hmem)) hbusy) hother
    · rw [h.staffed.config_eq] at hid
      exact absurd (more ((scheduled.opening opening).2.2 role id hid)) hnot
  · intro opening
    obtain ⟨hopening, hqueue⟩ := turn.opening opening
    obtain ⟨⟨denial, hmove⟩, rfl⟩ := first hopening
    rw [hqueue denial hmove]
    exact scheduled.opening hopening

/-- A woken thread goes on the agenda. -/
theorem wake (scheduled : Scheduled config agenda shift) (h : Sound config terms shift)
    (woken : shift.wake fortune = some (thread, next)) :
    Scheduled config (thread :: agenda) next := by
  obtain ⟨role, id, rfl, made⟩ := State.step_of_wake woken
  refine scheduled.step h made (List.subset_cons_self _ _) List.mem_cons_self fun opening => ?_
  obtain ⟨-, hnobody, -⟩ := scheduled.opening opening
  rw [State.wake_of_asleep (by simp [hnobody])] at woken
  cases woken

/-- A thread that has had its turn stays on the agenda. -/
theorem turn (scheduled : Scheduled config (thread :: others) shift)
    (h : Sound config terms shift) (taken : shift.turn fortune thread = some next) :
    Scheduled config (thread :: others) next := by
  obtain ⟨move, hthread, -, -, made⟩ := State.step_of_turn taken
  refine scheduled.step h made (List.Subset.refl _) (hthread ▸ List.mem_cons_self) fun opening => ?_
  obtain ⟨hhead, -, -⟩ := scheduled.opening opening
  rw [← hthread] at hhead
  exact ⟨Move.lead_of_thread (Option.some.inj hhead), rfl⟩

/-- A thread that cannot take its turn is not needed on the agenda. -/
theorem drop (scheduled : Scheduled config (thread :: others) shift)
    (untaken : shift.turn fortune thread = none) : Scheduled config others shift := by
  constructor
  · intro role id hnot busy
    by_cases hthread : .worker role id = thread
    · by_contra outside
      obtain ⟨next, taken⟩ := 
        State.turn_of_busy busy (Monitor.waiting?_of_not_inside outside) fortune
      rw [hthread, untaken] at taken
      cases taken
    · exact scheduled.resting role id (by simp [hthread, hnot]) busy
  · intro opening
    obtain ⟨hhead, -, -⟩ := scheduled.opening opening
    obtain ⟨next, taken⟩ := State.turn_of_opening opening fortune
    rw [← Option.some.inj hhead, untaken] at taken
    cases taken

/-- When the agenda is empty, and nobody is woken, and the lead thread cannot take its turn though
nothing is denied, then nobody can go on. -/
theorem stuck (scheduled : Scheduled config [] shift) (h : Sound config terms shift)
    (granted : fortune.Granted)
    (asleep : ∀ waiter ∈ shift.queue.waiters, waiter.sleep = .asleep)
    (untaken : shift.turn fortune .lead = none) : ¬ shift.CanMove := by
  rintro ⟨move, next, hmove, hgranted, made⟩
  by_cases hlead : ∃ denial, move = .lead denial
  · obtain ⟨denial, rfl⟩ := hlead
    obtain rfl : denial = .nothing := hgranted
    rw [← granted.2] at made
    simp [State.turn, State.movesOf, made] at untaken
  · cases turn_of_step h.waiting made with
    | customer kind present busy same grants served =>
      have inside := scheduled.resting .customer _ List.not_mem_nil ⟨_, present, busy⟩
      exact grants.not_inside asleep inside
    | cook kind present free busy grants served =>
      have inside := scheduled.resting .cook _ List.not_mem_nil ⟨_, present, busy⟩
      exact grants.not_inside asleep inside
    | note present holds =>
      obtain ⟨busy, absent⟩ := h.busy_of_held present holds
      have inside := scheduled.resting .cook _ List.not_mem_nil ⟨_, present, busy⟩
      obtain ⟨waiter, hmem, hthread⟩ := List.mem_map.mp inside
      exact absent waiter hmem hthread
    | rouse => cases hmove
    | _ => exact hlead ⟨_, rfl⟩

end Scheduled

/-- Where nobody is woken and the agenda is empty, the schedule is at its end. -/
theorem State.follow_nil {shift : State} (fortune : Nat → Fortune)
    (asleep : ∀ waiter ∈ shift.queue.waiters, waiter.sleep = .asleep) (turns : Nat) :
    State.follow fortune turns [] shift = shift := by
  cases turns with
  | zero => rfl
  | succ turns =>
    simp only [State.follow, wake_of_asleep asleep]
    split <;> rfl

/-- A lead thread with an outcome is done. -/
theorem State.lead_of_outcome {shift : State} {outcome : Except Failure Report}
    (h : shift.outcome? = some outcome) : shift.lead = .done outcome := by
  unfold State.outcome? at h
  split at h
  · next stage => exact stage.trans (congrArg Lead.done (Option.some.inj h))
  · cases h

/-- With enough turns in which nothing is denied, the schedule is followed until the lead thread has
its report.

The lead thread is the last one on the agenda. A step leaves less to do and puts at most one thread
on the agenda, so what is left to do counts twice. -/
theorem Sound.follow {config : Config} {terms : Terms} {shift : State} {fortune : Nat → Fortune}
    (ample : Ample config terms) (valid : config.validate = .ok ())
    (granted : ∀ turn, (fortune turn).Granted) (h : Sound config terms shift) {turns : Nat}
    {others : List Thread} (scheduled : Scheduled config (others ++ [.lead]) shift)
    (enough : 2 * shift.rank + others.length + 1 < turns) :
    ∃ report, (State.follow fortune turns (others ++ [.lead]) shift).outcome? =
      some (.ok report) := by
  induction turns generalizing shift others with
  | zero => omega
  | succ turns ih =>
    cases ended : shift.outcome? with
    | some outcome =>
      obtain ⟨report, rfl⟩ := h.staffed.outcome outcome (State.lead_of_outcome ended)
      exact ⟨report, by simp only [State.follow, ended, Option.isSome_some, if_true]⟩
    | none =>
      -- A step leaves less to do, so there are enough turns for what is left.
      have onward {move : Move} {next : State} (hmove : move.isRouse = false)
          (hgranted : move.Granted) (made : shift.step move = some next) {later : List Thread}
          (hscheduled : Scheduled config (later ++ [.lead]) next)
          (hlength : later.length ≤ others.length + 1) :
          ∃ report, (State.follow fortune turns (later ++ [.lead]) next).outcome? =
            some (.ok report) := by
        have hless := (h.rank_step ample hgranted made).1 hmove
        exact ih (h.step ample hgranted made) hscheduled (by omega)
      simp only [State.follow, ended, Option.isSome_none, Bool.false_eq_true, if_false]
      cases woken : shift.wake (fortune turns) with
      | some woke =>
        obtain ⟨thread, next⟩ := woke
        obtain ⟨role, id, -, made⟩ := State.step_of_wake woken
        have hscheduled : Scheduled config (thread :: others ++ [.lead]) next :=
          scheduled.wake h woken
        have hgranted : (Move.resume role id (fortune turns).chance).Granted := (granted turns).1
        exact onward rfl hgranted made hscheduled (Nat.le_refl _)
      | none =>
        cases others with
        | nil =>
          simp only [List.nil_append]
          cases taken : shift.turn (fortune turns) .lead with
          | some next =>
            obtain ⟨move, -, hmove, hgranted, made⟩ := State.step_of_turn taken
            have hscheduled : Scheduled config ([] ++ [.lead]) next := scheduled.turn h taken
            exact onward hmove (hgranted (granted turns)) made hscheduled (Nat.zero_le _)
          | none =>
            have asleep := h.asleep_of_wake woken
            have hstuck := (scheduled.drop taken).stuck h (granted turns) asleep taken
            simp only [State.follow_nil fortune asleep]
            exact (h.ended valid hstuck).1
        | cons thread others =>
          simp only [List.cons_append]
          cases taken : shift.turn (fortune turns) thread with
          | some next =>
            obtain ⟨move, -, hmove, hgranted, made⟩ := State.step_of_turn taken
            have hscheduled : Scheduled config (thread :: others ++ [.lead]) next :=
              scheduled.turn h taken
            exact onward hmove (hgranted (granted turns)) made hscheduled (Nat.le_succ _)
          | none =>
            rw [List.length_cons] at enough
            exact ih h (scheduled.drop taken) (by omega)

/-- What is prepared is the queue that is opened. -/
theorem openQueue_of_prepare {config : Config} {validate : Bool} {refusals : Refusals}
    {terms : Terms} (prepared : (prepare config validate refusals).terms = .ok terms) :
    openQueue config = .ok terms := by
  unfold prepare at prepared
  split at prepared
  · cases prepared
  · next opened =>
    dsimp only at prepared
    split at prepared
    · cases prepared
    · dsimp only at prepared
      cases listed : reserve refusals.customers config.customers.toNat handleBytes with
      | error failure =>
        rw [listed] at prepared
        cases prepared
      | ok =>
        rw [listed] at prepared
        exact opened.trans prepared

/-- A shift is run to its end: if it can be prepared, its sizes leave room, and nothing is denied,
the lead thread has its report when the schedule has been followed. -/
theorem run_ends {config : Config} {validate : Bool} {surroundings : Surroundings} {terms : Terms}
    (prepared : (prepare config validate surroundings.refusals).terms = .ok terms)
    (ample : Ample config terms) (granted : ∀ turn, (surroundings.fortune turn).Granted) :
    ∃ report, (run config validate surroundings).outcome = .ok report := by
  obtain ⟨valid, hexpected⟩ := openQueue_cases (openQueue_of_prepare prepared)
  have hstart := Sound.start config validate surroundings.generators terms hexpected
  have hscheduled := Scheduled.start ample.storable validate surroundings.generators terms
  obtain ⟨others, hagenda, hlength⟩ : ∃ others, State.agenda config = others ++ [.lead] ∧
      others.length = State.startableCooks config + config.customers.toNat + 1 :=
    ⟨_, rfl, by simp⟩
  have hcooks : State.startableCooks config = config.cooks.toNat := if_pos ample.storable
  have henough : 2 * (State.start config validate surroundings.generators terms).rank +
      others.length + 1 < State.turnBound config := by
    rw [rank_start config validate surroundings.generators terms hexpected, hlength, hcooks,
      State.turnBound]
    omega
  rw [hagenda] at hscheduled
  obtain ⟨report, houtcome⟩ := hstart.follow ample valid granted hscheduled henough
  refine ⟨report, ?_⟩
  simp only [run, prepared, hagenda, houtcome]
  rfl

end OrderRail.Shift
