import OrderRail.Proofs.Queue.Ledger
import OrderRail.Proofs.Shift.Sound

/-!
# How a shift deals with its queue

Some moves of a shift are moves of its queue, and the others leave the queue alone. So every
execution of a shift makes a run of the queue, and what the history of that run tells is told of the
shift: which customer offered what, and which cook took what.

What goes wrong stays wrong. So a shift that is whole in the end has been sound all the way, however
many orders were expected and whatever the system might have denied. The lead thread only has a
report if it could close the queue, which it does last.
-/

namespace OrderRail.Shift

open Queue (Terms Monitor Request Answer Transition)

namespace State

/-- What a move of a shift does to the queue: one step of it, or nothing. -/
def dealing (shift : State) (move : Move) : List (Transition Thread Dish) :=
  match shift.queueMove? move with
  | none => []
  | some request =>
    match shift.queue.step request with
    | none => []
    | some (queue, answer) => [⟨shift.queue, request, answer, queue⟩]

/-- The steps that the queue makes while a shift makes some moves. -/
def dealings (shift : State) : List Move → List (Transition Thread Dish)
  | [] => []
  | move :: moves =>
    match shift.step move with
    | none => []
    | some next => shift.dealing move ++ next.dealings moves

variable {shift next : State} {move : Move}

/-- A move that does not concern the queue does nothing to it. -/
theorem dealing_of_none (asks : shift.queueMove? move = none) : shift.dealing move = [] := by
  simp only [dealing, asks]

/-- A move that is a move of the queue does the step of the queue. -/
theorem dealing_of_some {request : Queue.Move Thread Dish} {queue : Monitor Thread Dish}
    {answer : Option (Answer Dish)} (asks : shift.queueMove? move = some request)
    (made : shift.queue.step request = some (queue, answer)) :
    shift.dealing move = [⟨shift.queue, request, answer, queue⟩] := by
  simp only [dealing, asks, made]

/-- What is offered with a move of a shift is what its move of the queue offers. -/
theorem offers_dealing {request : Queue.Move Thread Dish} {queue : Monitor Thread Dish}
    {answer : Option (Answer Dish)} (asks : shift.queueMove? move = some request)
    (made : shift.queue.step request = some (queue, answer)) :
    Queue.offers (shift.dealing move) = request.offer?.toList := by
  rw [dealing_of_some asks made, Queue.offers, List.filterMap_cons]
  cases request.offer? <;> rfl

/-- The call that ends with a move of a worker is the one that has had the lock. -/
theorem calls_dealing {request : Queue.Move Thread Dish} {attempt : Queue.Attempt Thread Dish}
    {base queue : Monitor Thread Dish} {answer : Option (Answer Dish)}
    (asks : shift.queueMove? move = some request)
    (grants : shift.queue.Grants request attempt base)
    (served : base.serve attempt = (queue, answer)) :
    Queue.calls (shift.dealing move) =
      (answer.map (⟨attempt.thread, attempt.request, ·⟩)).toList := by
  rw [dealing_of_some asks (grants.step_eq.trans (congrArg some served)), Queue.calls,
    List.filterMap_cons, grants.call?_eq]
  cases answer <;> rfl

/-- No call ends when a sleeping call wakes up without a signal. -/
theorem calls_rouse {role : Role} {id : Nat} {waiter : Queue.Waiter Thread Dish}
    (inside : shift.queue.waiting? (.worker role id) = some waiter)
    (asleep : waiter.sleep = .asleep) : Queue.calls (shift.dealing (.rouse role id)) = [] := by
  have asks : shift.queueMove? (.rouse role id) = some (.rouse (.worker role id)) := rfl
  rw [dealing_of_some asks (Monitor.rouse_eq_some inside asleep)]
  rfl

/-- The call of the lead thread ends when it closes the queue. -/
theorem calls_close (denial : Denial) {queue : Monitor Thread Dish} {answer : Answer Dish}
    (stage : shift.lead = .closing)
    (made : shift.queue.step (.enter .lead .close 0 0 .calm) = some (queue, some answer)) :
    Queue.calls (shift.dealing (.lead denial)) = [⟨.lead, .close, answer⟩] := by
  rw [dealing_of_some (queueMove?_of_closing stage) made]
  rfl

end State

namespace Execution

variable {start shift : State} {moves : List Move} {config : Config} {terms : Terms}

/-- The steps that the queue makes in an execution, and then in further moves. -/
theorem dealings_append (execution : Execution start moves shift) (more : List Move) :
    start.dealings (moves ++ more) = start.dealings moves ++ shift.dealings more := by
  induction execution generalizing more with
  | nil => rfl
  | @step moves move shift next execution made ih =>
    have hmore : shift.dealings (move :: more) = shift.dealing move ++ next.dealings more := by
      simp only [State.dealings, made]
    have hone : shift.dealings [move] = shift.dealing move := by
      simp only [State.dealings, made, List.append_nil]
    rw [List.append_assoc, List.singleton_append, ih, ih, hmore, hone, List.append_assoc]

/-- One more step adds what it does to the queue. -/
theorem dealings_step (execution : Execution start moves shift) {move : Move} {next : State}
    (made : shift.step move = some next) :
    start.dealings (moves ++ [move]) = start.dealings moves ++ shift.dealing move := by
  rw [execution.dealings_append]
  simp only [State.dealings, made, List.append_nil]

/-- An execution of a shift makes a run of its queue. -/
theorem run (execution : Execution start moves shift) (opened : start.queue = .opened terms)
    (waiting : ∀ waiter ∈ start.queue.waiters, start.Awaits waiter) :
    Queue.Run terms (start.dealings moves) shift.queue := by
  induction execution with
  | nil => exact opened ▸ .opened
  | @step moves move shift next execution made ih =>
    rw [execution.dealings_step made]
    rcases (turn_of_step (execution.waiting waiting) made).queue with
      ⟨asks, hqueue⟩ | ⟨request, answer, asks, hstep⟩
    · rw [State.dealing_of_none asks, List.append_nil, hqueue]
      exact ih
    · rw [State.dealing_of_some asks hstep]
      exact ih.step hstep

/-- A shift that starts sound, and is whole in the end, is sound all the way. -/
theorem sound_of_whole (execution : Execution start moves shift) (h : Sound config terms start)
    (whole : shift.Whole) : Sound config terms shift := by
  induction execution with
  | nil => exact h
  | step execution made ih =>
    have turn := turn_of_step (execution.waiting h.waiting) made
    exact (ih (turn.whole whole)).turn_of_whole turn whole

/-- What holds when a sound shift starts, and is kept by the turns that leave sound shifts whole,
holds at the end of an execution that leaves the shift whole. It may refer to the steps that the
queue has made. -/
theorem keeps {motive : List (Transition Thread Dish) → State → Prop}
    (execution : Execution start moves shift) (h : Sound config terms start)
    (whole : shift.Whole) (first : motive [] start)
    (kept : ∀ {history shift move next}, Sound config terms shift → Turn shift move next →
      next.Whole → motive history shift → motive (history ++ shift.dealing move) next) :
    motive (start.dealings moves) shift := by
  induction execution with
  | nil => exact first
  | step execution made ih =>
    have turn := turn_of_step (execution.waiting h.waiting) made
    have before := turn.whole whole
    have sound := execution.sound_of_whole h before
    rw [execution.dealings_step made]
    exact kept sound turn whole (ih before)

end Execution

/-- Once the lead thread is done, nobody in a sound shift can make a step. -/
theorem Sound.step_of_done {config : Config} {terms : Terms} {shift : State}
    {outcome : Except Failure Report} (h : Sound config terms shift)
    (done : shift.lead = .done outcome) (move : Move) : shift.step move = none := by
  have hdone : shift.outcome? ≠ none := by simp [State.outcome?, done]
  cases made : shift.step move with
  | none => rfl
  | some next =>
    exfalso
    cases turn_of_step h.waiting made with
    | customer kind present busy => exact hdone (h.undone_of_customer present busy)
    | cook kind present free busy => exact hdone (h.undone_of_cook present busy)
    | note present holds =>
      exact hdone (h.undone_of_cook present (h.busy_of_held present holds).1)
    | rouse inside asleep =>
      cases h.waiting _ (List.mem_of_find?_eq_some inside) with
      | customer present busy => exact hdone (h.undone_of_customer present busy)
      | cook present free busy => exact hdone (h.undone_of_cook present busy)
    | refused refused => exact refused.stage.2 _ done
    | startCustomer stage | customersStarted stage | startCook stage | cooksStarted stage
    | joinCustomer stage | joinFailedCustomer stage | customersJoined stage | joinCook stage
    | joinCrashedCook stage | cooksJoined stage | close stage | failToClose stage =>
      simp [done] at stage

/-- The lead thread has a report only by closing the queue. -/
theorem Turn.close_of_ok {shift next : State} {denial : Denial} {report : Report}
    (h : Turn shift (.lead denial) next) (ok : next.outcome? = some (.ok report)) :
    ∃ queue accounts, shift.lead = .closing ∧
      shift.queue.step (.enter .lead .close 0 0 .calm) = some (queue, some (.report accounts)) ∧
      next = shift.closed queue accounts := by
  cases h with
  | close stage made => exact ⟨_, _, stage, made, rfl⟩
  | startCustomer stage => simp [State.startCustomer, State.outcome?, stage] at ok
  | startCook stage => simp [State.startCook, State.outcome?, stage] at ok
  | refused | joinFailedCustomer | joinCrashedCook | failToClose =>
    simp [State.conclude, State.outcome?] at ok
  | customersStarted | cooksStarted | joinCustomer | customersJoined | joinCook | cooksJoined =>
    simp [State.outcome?] at ok
  | customer kind => simp at kind
  | cook kind => simp at kind

/-- What the lead thread comes to at the end of an execution: it finds a sound shift, closes the
queue, and nobody makes a step after that. -/
structure Closed (config : Config) (terms : Terms) (start : State) (moves : List Move)
    (shift before : State) (accounts : Queue.CloseReport) : Prop where
  sound : Sound config terms before
  whole : before.Whole
  stage : before.lead = .closing
  earlier : ∃ others denial, moves = others ++ [.lead denial] ∧ Execution start others before ∧
    before.step (.lead denial) = some shift
  made : before.queue.step (.enter .lead .close 0 0 .calm) =
    some (shift.queue, some (.report accounts))
  closed : shift = before.closed shift.queue accounts

/-- A shift in which the queue has been closed is sound. -/
theorem Closed.sound_last {config : Config} {terms : Terms} {start shift before : State}
    {moves : List Move} {accounts : Queue.CloseReport}
    (h : Closed config terms start moves shift before accounts) : Sound config terms shift := by
  have turn : Turn before (.lead .nothing) (before.closed shift.queue accounts) :=
    .close h.stage h.made
  rw [h.closed]
  exact h.sound.leadOn (fun failure refused => absurd h.stage refused.stage.1) turn

/-- A shift that starts sound has a report only if it was sound until the lead thread closed the
queue, which was the last step. -/
theorem Execution.closed_of_ok {config : Config} {terms : Terms} {start shift : State}
    {moves : List Move} {report : Report} (execution : Execution start moves shift)
    (h : Sound config terms start) (undone : start.outcome? = none)
    (ok : shift.outcome? = some (.ok report)) :
    ∃ before accounts, Closed config terms start moves shift before accounts := by
  induction execution with
  | nil => simp [undone] at ok
  | @step moves move shift next execution made ih =>
    by_cases hbefore : shift.outcome? = some (.ok report)
    -- Nobody makes a step once the lead thread is done.
    · obtain ⟨before, accounts, hclosed⟩ := ih hbefore
      have hstep := hclosed.sound_last.step_of_done (congrArg State.lead hclosed.closed) move
      rw [hstep] at made
      cases made
    · have turn := turn_of_step (execution.waiting h.waiting) made
      rcases turn.lead_eq with ⟨denial, rfl⟩ | hlead
      · obtain ⟨queue, accounts, stage, hstep, rfl⟩ := turn.close_of_ok ok
        have whole : shift.Whole :=
          { unbroken := (Monitor.whole_of_answer hstep nofun).1
            unfailed := by simp [stage]
            served := by simp [stage, Lead.Ahead] }
        have sound := execution.sound_of_whole h whole
        exact ⟨shift, accounts, sound, whole, stage, ⟨moves, denial, rfl, execution, made⟩, hstep,
          rfl⟩
      · rw [State.outcome?, hlead] at ok
        exact absurd ok hbefore

end OrderRail.Shift
