import OrderRail.Proofs.Queue.Unwinding
import OrderRail.Queue.Script

/-!
# Scripts come to rest

The unrest of a queue goes down with every call that goes on, and it is never more than the steps
that a script allows for. So whoever still waits when a row is drawn up is asleep, and stays asleep
until somebody makes the next call.

Everything that a script does to its queue is a step of the queue. The script keeps one invariant
from step to step: the queue has been reached by a run, all waiting calls are asleep, and each of
them was made by an earlier step. The invariant also makes every move of a script possible, because
the thread that it is made on is never inside the queue.
-/

namespace OrderRail.Queue.Script

variable {P : Type} {terms : Terms} {history : List (Transition (Option Nat) P)}
  {queue : Monitor (Option Nat) P}

/-- What calls that go on bring about: a longer run, and nobody has joined those who wait. -/
structure Continues (terms : Terms) (history : List (Transition (Option Nat) P))
    (queue : Monitor (Option Nat) P) (more : List (Transition (Option Nat) P))
    (last : Monitor (Option Nat) P) : Prop where
  run : Run terms (history ++ more) last
  left : last.waiters.map Waiter.lying ⊆ queue.waiters.map Waiter.lying

namespace Continues

/-- Nothing has to go on. -/
theorem done (run : Run terms history queue) : Continues terms history queue [] queue :=
  ⟨by rwa [List.append_nil], List.Subset.refl _⟩

/-- A step that brings nobody new comes first. -/
theorem step {next last : Monitor (Option Nat) P} {move : Move (Option Nat) P}
    {answer : Option (Answer P)} {more : List (Transition (Option Nat) P)}
    (left : next.waiters.map Waiter.lying ⊆ queue.waiters.map Waiter.lying)
    (later : Continues terms (history ++ [⟨queue, move, answer, next⟩]) next more last) :
    Continues terms history queue (⟨queue, move, answer, next⟩ :: more) last :=
  ⟨by rw [List.append_cons]; exact later.run, List.Subset.trans later.left left⟩

end Continues

/-- Roused calls go on until everybody who waits is asleep, if as many steps are allowed as the
queue has unrest, and the answers are those of the steps that were made. -/
theorem settleWithin_rests (now : Instant) (run : Run terms history queue) {steps : Nat}
    (enough : queue.unrest ≤ steps) :
    ∃ more, Continues terms history queue more (settleWithin now steps queue).1 ∧
      (settleWithin now steps queue).2 = more.filterMap (·.answer) ∧
      ∀ waiter ∈ (settleWithin now steps queue).1.waiters, waiter.sleep = .asleep := by
  induction steps generalizing history queue with
  | zero =>
    have rest : awake queue.waiters = 0 := by
      rw [Monitor.unrest] at enough
      omega
    exact ⟨[], .done run, rfl, awake_eq_zero.mp rest⟩
  | succ steps ih =>
    cases found : queue.waiters.find? (·.sleep ≠ .asleep) with
    | none =>
      have asleep : ∀ waiter ∈ queue.waiters, waiter.sleep = .asleep := by
        simpa using List.find?_eq_none.mp found
      simp only [settleWithin, found]
      exact ⟨[], .done run, rfl, asleep⟩
    | some waiter =>
      have isAwake : waiter.sleep ≠ .asleep := by simpa using List.find?_some found
      have grants := Monitor.grants_of_awake run.orderly (List.mem_of_find?_eq_some found) isAwake
        now .calm
      obtain ⟨⟨next, answer⟩, made⟩ : ∃ result,
          queue.step (.resume waiter.thread now .calm) = some result := ⟨_, grants.step_eq⟩
      have less := Monitor.unrest_lt run.orderly made
      obtain ⟨more, continued, answers, asleep⟩ := ih (run.step made) (by omega)
      have resumed : queue.resume waiter.thread now .calm = some (next, answer) := made
      simp only [settleWithin, found, resumed]
      refine ⟨_, .step (Monitor.lying_of_resume run.orderly made) continued, ?_, asleep⟩
      rw [answers]
      cases answer <;> rfl

/-- The steps that a script allows for are enough. -/
theorem settle_rests (now : Instant) (run : Run terms history queue) :
    ∃ more, Continues terms history queue more (settle now queue).1 ∧
      (settle now queue).2 = more.filterMap (·.answer) ∧
      ∀ waiter ∈ (settle now queue).1.waiters, waiter.sleep = .asleep := by
  refine settleWithin_rests now run ?_
  have part : awake queue.waiters ≤ queue.waiters.length := List.countP_le_length
  rw [Monitor.unrest, Nat.mul_add, Nat.mul_add]
  omega

/-- A call that is waited for wakes up and goes on. -/
theorem awaitDeadline_continues (session : Session P) (thread : Option Nat) (deadline : Instant)
    (run : Run terms history session.queue) :
    ∃ more, Continues terms history session.queue more
      (awaitDeadline session thread deadline).1.queue := by
  cases roused : session.queue.rouse thread with
  | none =>
    simp only [awaitDeadline, roused, Option.bind_none]
    exact ⟨[], .done run⟩
  | some queue =>
    have woken : session.queue.step (.rouse thread) = some (queue, none) := by
      simp [Monitor.step, roused]
    cases resumed : queue.resume thread deadline .calm with
    | none =>
      simp only [awaitDeadline, roused, Option.bind_some, resumed]
      exact ⟨[], .done run⟩
    | some result =>
      obtain ⟨next, answer⟩ := result
      have made : queue.step (.resume thread deadline .calm) = some (next, answer) := resumed
      have same : queue.waiters.map Waiter.lying = session.queue.waiters.map Waiter.lying := by
        rcases Monitor.step_cases woken with
          ⟨_, _, -, -, -, rfl, -⟩ | ⟨attempt, base, grants, -⟩
        · exact session.queue.map_lying_rousing _
        · cases grants
      have hrun := run.step woken
      simp only [awaitDeadline, roused, Option.bind_some, resumed]
      exact ⟨_, .step (same ▸ List.Subset.refl _)
        (.step (Monitor.lying_of_resume hrun.orderly made) (.done (hrun.step made)))⟩

/-- A call is made by steps of the queue. Only its own thread may have joined those who wait, and
only if its request can wait. -/
theorem Session.call_reaches (session : Session P) (thread : Option Nat) (request : Request P)
    (run : Run terms history session.queue) :
    (∃ history, Run terms history (session.call thread request).1.queue) ∧
      ∀ waiter ∈ (session.call thread request).1.queue.waiters,
        session.queue.Inside waiter.thread ∨ waiter.thread = thread ∧ mayWait request = true := by
  have present : ∀ waiter ∈ session.queue.waiters,
      session.queue.Inside waiter.thread ∨ waiter.thread = thread ∧ mayWait request = true :=
    fun waiter hmem => .inl (List.mem_map_of_mem hmem)
  cases entered : session.queue.enter thread request session.clock session.clock .calm with
  | none =>
    simp only [Session.call, entered]
    exact ⟨⟨history, run⟩, present⟩
  | some result =>
    obtain ⟨queue, answer⟩ := result
    have made : session.queue.step (.enter thread request session.clock session.clock .calm) =
        some (queue, answer) := entered
    have hrun := run.step made
    have joined : ∀ waiter ∈ queue.waiters,
        session.queue.Inside waiter.thread ∨ waiter.thread = thread ∧ mayWait request = true := by
      refine Monitor.forall_of_step made
        (fun waiter other same h => by rwa [Waiter.thread_of_lying same]) (fun _ _ => present)
        (fun waiter hmem _ => present waiter hmem) ?_
      intro attempt base condition grants decision
      cases grants
      have waits := decision.condition?_eq
      refine .inr ⟨rfl, ?_⟩
      cases request with
      | submit | take => rfl
      | _ => cases waits
    cases answer with
    | some answer =>
      simp only [Session.call, entered]
      exact ⟨⟨_, hrun⟩, joined⟩
    | none =>
      simp only [Session.call, entered]
      split
      · obtain ⟨more, continued⟩ := awaitDeadline_continues { session with queue } thread _ hrun
        refine ⟨⟨_, continued.run⟩, forall_of_lying_subset continued.left ?_ joined⟩
        exact fun waiter other same h => by rwa [Waiter.thread_of_lying same]
      · exact ⟨⟨_, hrun⟩, joined⟩

/-- A script before its `n`-th step: its queue is in a run and at rest, and whoever waits there was
sent by an earlier step. -/
structure Session.Rests (terms : Terms) (n : Nat) (session : Session P) : Prop where
  reached : ∃ history, Run terms history session.queue
  asleep : ∀ waiter ∈ session.queue.waiters, waiter.sleep = .asleep
  earlier : ∀ waiter ∈ session.queue.waiters, ∃ step < n, waiter.thread = some step

/-- What the row of a step shows: how many calls are asleep in the queue, and the counters of its
board, or that its lock is broken. -/
def Row.Shows (terms : Terms) (queue : Monitor (Option Nat) P) (row : Row P) : Prop :=
  row.waiting = queue.waiters.length ∧
    row.state = some (if queue.broken then .fault .lockBroken else .stats (queue.board.stats terms))

/-- While a script rests, its own thread can read the counters. -/
theorem Session.Rests.state_eq {n : Nat} {session : Session P} (h : session.Rests terms n) :
    session.state = some (if session.queue.broken then .fault .lockBroken
      else .stats (session.queue.board.stats terms)) := by
  obtain ⟨history, run⟩ := h.reached
  have outside : session.queue.waiting? none = none := by
    refine Monitor.waiting?_of_not_inside fun inside => ?_
    obtain ⟨waiter, hmem, hthread⟩ := List.mem_map.mp inside
    obtain ⟨step, -, hstep⟩ := h.earlier waiter hmem
    cases hthread.symm.trans hstep
  cases hbroken : session.queue.broken with
  | true => simp [Session.state, Monitor.enter, outside, hbroken]
  | false =>
    simp [Session.state, Monitor.enter, outside, hbroken, Monitor.proceed, Request.attempt,
      run.terms_eq]

/-- When a queue has come to rest, so has the script, and its row shows the queue. -/
theorem Session.rest_rests {n : Nat} {session : Session P} (answer : Option (Answer P))
    (reached : ∃ history, Run terms history session.queue)
    (earlier : ∀ waiter ∈ session.queue.waiters, ∃ step < n, waiter.thread = some step) :
    (session.rest answer).1.Rests terms n ∧
      (session.rest answer).2.Shows terms (session.rest answer).1.queue := by
  obtain ⟨history, run⟩ := reached
  obtain ⟨more, ⟨hrun, left⟩, -, asleep⟩ := settle_rests session.clock run
  have rests : (session.rest answer).1.Rests terms n := by
    refine ⟨⟨_, hrun⟩, asleep, forall_of_lying_subset left ?_ earlier⟩
    exact fun waiter other same h => by rwa [Waiter.thread_of_lying same]
  exact ⟨rests, rfl, rests.state_eq⟩

/-- Every step leaves a script at rest, and its row shows the queue. -/
theorem Session.Rests.perform {n : Nat} {session : Session P} (h : session.Rests terms n)
    (step : Step P) :
    (session.perform n step).1.Rests terms (n + 1) ∧
      (session.perform n step).2.Shows terms (session.perform n step).1.queue := by
  have later : ∀ waiter ∈ session.queue.waiters, ∃ step < n + 1, waiter.thread = some step := by
    intro waiter hmem
    obtain ⟨step, hstep, hthread⟩ := h.earlier waiter hmem
    exact ⟨step, by omega, hthread⟩
  cases step with
  | capacity => exact Session.rest_rests _ h.reached later
  | expected => exact Session.rest_rests _ h.reached later
  | call request =>
    obtain ⟨history, run⟩ := h.reached
    obtain ⟨reached, joined⟩ :=
      session.call_reaches (if mayWait request then some n else none) request run
    have earlier : ∀ waiter ∈ (session.call (if mayWait request then some n else none)
        request).1.queue.waiters, ∃ step < n + 1, waiter.thread = some step := by
      intro waiter hmem
      rcases joined waiter hmem with inside | ⟨hthread, waits⟩
      · obtain ⟨other, hother, hthread⟩ := List.mem_map.mp inside
        exact hthread ▸ later other hother
      · exact ⟨n, by omega, by rw [hthread, if_pos waits]⟩
    -- What is written into the journal does not concern the queue.
    have recorded (session : Session P) (answer : Option (Answer P)) :
        (session.record answer).queue = session.queue := by
      unfold Session.record
      split <;> rfl
    refine Session.rest_rests _ ?_ ?_
    · rw [recorded]
      exact reached
    · rw [recorded]
      exact earlier

/-- All rows of a script are drawn up at rest. -/
theorem Session.Rests.performAll {n : Nat} {session : Session P} (h : session.Rests terms n)
    (steps : List (Step P)) :
    (session.performAll n steps).1.Rests terms (n + steps.length) ∧
      (session.performAll n steps).2.length = steps.length ∧
      ∀ row ∈ (session.performAll n steps).2,
        ∃ m, ∃ resting : Session P, resting.Rests terms m ∧ row.Shows terms resting.queue := by
  induction steps generalizing n session with
  | nil => exact ⟨h, rfl, by simp [Session.performAll]⟩
  | cons step steps ih =>
    obtain ⟨hnext, shows⟩ := h.perform step
    obtain ⟨hlast, hlength, rows⟩ := ih hnext
    refine ⟨?_, congrArg (· + 1) hlength, ?_⟩
    · rw [List.length_cons, Nat.add_comm steps.length, ← Nat.add_assoc]
      exact hlast
    · exact List.forall_mem_cons.mpr ⟨⟨_, _, hnext, shows⟩, rows⟩

/-- A script has one row for each step. Each row shows a queue that a run has reached and in which
everybody who waits is asleep: their number, and the counters. -/
theorem rows_at_rest (terms : Terms) (steps : List (Step P)) :
    (run terms steps).1.length = steps.length ∧
      ∀ row ∈ (run terms steps).1, ∃ history queue, Run terms history queue ∧
        (∀ waiter ∈ queue.waiters, waiter.sleep = .asleep) ∧ row.Shows terms queue := by
  have start : Session.Rests (P := P) terms 0
      { queue := .opened terms, clock := 0, journal := [⟨.lead, openedEvent terms⟩] } :=
    ⟨⟨[], .opened⟩, nofun, nofun⟩
  obtain ⟨-, hlength, rows⟩ := start.performAll steps
  refine ⟨hlength, fun row hrow => ?_⟩
  obtain ⟨m, resting, ⟨⟨history, hrun⟩, asleep, -⟩, shows⟩ := rows row hrow
  exact ⟨history, resting.queue, hrun, asleep, shows⟩

end OrderRail.Queue.Script
