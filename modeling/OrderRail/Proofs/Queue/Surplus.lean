import OrderRail.Proofs.Queue.Delivery
import OrderRail.Proofs.Queue.Wakeup

/-!
# Surplus submissions

Once every expected order has been accepted, a submission that gets the lock is refused. One that
was asleep by then gets the lock only after it has been woken, and accepting the last order wakes a
taker and no submission. From then on nobody else falls asleep for want of room, and every order
that is handed out wakes one of the sleepers. So the submissions that were asleep when the last
order was accepted, less one for every order handed out since, sleep on. If they were more than
there were orders left to hand out, some of them are never refused.
-/

namespace OrderRail.Queue

variable {T P : Type}

section

variable {terms : Terms} {late : Bool} {shortage : Option StorageError} {board next : Board P}
  {request : Request P}

/-- A submission to an open queue that has accepted all expected orders is refused. -/
theorem Decision.eq_refuse {payload : P} {patience : Patience} {decided : Section P (Answer P)}
    (isOpen : board.closed = false) (all : terms.expected ≤ board.submitted)
    (h : Decision terms late shortage board (.submit payload patience) decided) :
    decided = .finish (.rejected ⟨payload, .oversubscribed terms.expected⟩) board [] := by
  cases h with
  | refuse _ unwanted => rfl
  | accept _ wanted | lack _ wanted | leave _ _ wanted | awaitRoom _ _ wanted
  | numberOverflow _ wanted => omega
  | handOut _ takes | endWork _ takes | countOverflow _ takes => cases takes
  | read reads => cases reads
  | misuse isClosed => simp [isOpen] at isClosed

/-- Where nothing more is wanted, an answered call wakes one sleeping submission if it hands out an
order, and none otherwise. -/
theorem Decision.sleepers_notFull {answer : Answer P} {signals : List Signal}
    (h : Decision terms late shortage board request (.finish answer next signals))
    (all : terms.expected ≤ board.submitted) (isOpen : next.closed = false) (choice : Nat)
    (waiters : List (Waiter T P)) :
    board.handled ≤ next.handled ∧
      sleepers .notFull (signals.foldl (Signal.deliver choice) waiters) =
        sleepers .notFull waiters - (next.handled - board.handled) := by
  cases h with
  | accept _ wanted => omega
  | handOut _ takes pops fits =>
    obtain ⟨⟨hsleepers, -⟩, -⟩ := counts_takerSignals terms (board.handled + 1) choice waiters
    refine ⟨Nat.le_succ _, hsleepers.trans ?_⟩
    rw [Board.handingOut, Nat.add_sub_cancel_left]
  | endWork =>
    obtain ⟨hsleepers, -⟩ := counts_deliver_all_of_ne choice
      (show Condition.notFull ≠ .notEmpty by decide) waiters
    refine ⟨Nat.le_refl _, hsleepers.trans ?_⟩
    rw [Nat.sub_self, Nat.sub_zero]
  | close => cases isOpen
  | lack | refuse | leave | giveUp | decline | read =>
    exact ⟨Nat.le_refl _, by rw [Nat.sub_self, Nat.sub_zero, List.foldl_nil]⟩

/-- Where nothing more is wanted, a call waits for orders only. -/
theorem Decision.wait_notEmpty {condition : Condition}
    (h : Decision terms late shortage board request (.wait condition))
    (all : terms.expected ≤ board.submitted) : condition = .notEmpty := by
  cases h with
  | awaitRoom _ _ wanted => omega
  | awaitOrder => rfl

/-- A section that fails hands nothing out. -/
theorem Decision.handled_eq_of_fail {fault : Fault}
    (h : Decision terms late shortage board request (.fail fault next)) :
    next.handled = board.handled := by
  cases h <;> rfl

end

/-- Where nothing more is wanted, a call that has the lock wakes one sleeping submission for every
order that it hands out, and does not fall asleep for want of room. -/
theorem Monitor.Yields.sleepers_notFull {base next : Monitor T P} {attempt : Attempt T P}
    {answer : Option (Answer P)} (h : base.Yields attempt next answer)
    (all : base.terms.expected ≤ base.board.submitted) (isOpen : next.board.closed = false) :
    base.board.handled ≤ next.board.handled ∧
      sleepers .notFull next.waiters =
        sleepers .notFull base.waiters - (next.board.handled - base.board.handled) := by
  cases h with
  | broken isBroken => exact ⟨Nat.le_refl _, by rw [Nat.sub_self, Nat.sub_zero]⟩
  | finish unbroken decision => exact decision.sleepers_notFull all isOpen _ _
  | wait unbroken decision =>
    refine ⟨Nat.le_refl _, ?_⟩
    rw [decision.wait_notEmpty all, sleepers_append, Nat.sub_self]
    rfl
  | fail unbroken decision =>
    exact ⟨decision.handled_eq_of_fail.ge, by rw [decision.handled_eq_of_fail, Nat.sub_self]; rfl⟩

/-- The submissions among some requests are those with a payload. -/
theorem countP_isSubmission (requests : List (Request P)) :
    requests.countP Request.isSubmission = (requests.filterMap Request.payload?).length := by
  rw [List.length_filterMap_eq_countP]
  apply List.countP_congr
  intro request _
  cases request <;> simp [Request.isSubmission, Request.payload?]

/-- The waiting submissions are those that hold a payload. -/
theorem length_held (waiters : List (Waiter T P)) :
    (held waiters).length = waiters.countP (·.request.isSubmission) := by
  have hmap : held waiters = (waiters.map (·.request)).filterMap Request.payload? := by
    rw [List.filterMap_map]
    rfl
  rw [hmap, ← countP_isSubmission, List.countP_map]
  rfl

/-- Where everybody sleeps, the waiting submissions are those that sleep for want of room. -/
theorem Orderly.sleepers_notFull {waiters : List (Waiter T P)} (h : Orderly waiters)
    (asleep : ∀ waiter ∈ waiters, waiter.sleep = .asleep) :
    waiters.countP (·.request.isSubmission) = sleepers .notFull waiters := by
  apply List.countP_congr
  intro waiter hmem
  rw [(Request.kind_of_condition? (h.apt waiter hmem)).2]
  simp [Waiter.sleepsOn, asleep waiter hmem]

section

variable [DecidableEq T] {terms : Terms} {history : List (Transition T P)} {queue : Monitor T P}

/-- Where nothing more is wanted, a step wakes one sleeping submission for every order that it hands
out, and otherwise submissions only leave the sleepers, by waking up for no reason. -/
theorem step_sleepers {next : Monitor T P} {move : Move T P} {answer : Option (Answer P)}
    (orderly : Orderly queue.waiters) (made : queue.step move = some (next, answer))
    (all : queue.terms.expected ≤ queue.board.submitted) (isOpen : next.board.closed = false) :
    queue.board.handled ≤ next.board.handled ∧
      sleepers .notFull next.waiters ≤
        sleepers .notFull queue.waiters - (next.board.handled - queue.board.handled) ∧
      ((∀ thread, move ≠ .rouse thread) → sleepers .notFull next.waiters =
        sleepers .notFull queue.waiters - (next.board.handled - queue.board.handled)) := by
  rcases Monitor.step_cases made with
    ⟨thread, waiter, rfl, inside, asleep, rfl, -⟩ | ⟨attempt, base, grants, yields⟩
  · obtain ⟨hsleepers, -⟩ := counts_rousing orderly inside asleep .notFull
    have hhandled : (queue.rousing thread).board.handled = queue.board.handled := rfl
    exact ⟨hhandled.ge, by omega, fun other => absurd rfl (other thread)⟩
  · obtain ⟨hterms, hboard, -⟩ := grants.base_eq
    obtain ⟨hsleepers, -⟩ := grants.counts orderly .notFull
    rw [← hterms, ← hboard] at all
    have hyields := yields.sleepers_notFull all isOpen
    rw [hboard, hsleepers] at hyields
    exact ⟨hyields.1, hyields.2.le, fun _ => hyields.2⟩

/-- The count of accepted orders never falls. -/
theorem Run.submitted_le (run : Run terms history queue) :
    ∀ transition ∈ history, transition.before.board.submitted ≤ queue.board.submitted := by
  induction run with
  | opened => simp
  | @step history queue next move answer run made ih =>
    have hflow := step_flow (run.terms_eq ▸ run.tallied) made
    have hnumber := hflow.nextNumber
    have hstep : queue.board.submitted ≤ next.board.submitted := by
      simp only [Board.submitted]
      omega
    intro transition hmem
    rcases List.mem_append.mp hmem with hold | hnew
    · exact (ih transition hold).trans hstep
    · rw [List.mem_singleton.mp hnew]
      exact hstep

/-- A run splits at the state in which all expected orders have been accepted for the first time. -/
structure FullAt (terms : Terms) (earlier later : List (Transition T P))
    (full queue : Monitor T P) : Prop where
  run : Run terms earlier full
  all : full.board.submitted = terms.expected
  first : ∀ transition ∈ earlier, transition.before.board.submitted < terms.expected
  handled_le : full.board.handled ≤ queue.board.handled
  /-- Each order handed out since then has woken one of the submissions that slept. -/
  sleepers_le : sleepers .notFull queue.waiters ≤
    sleepers .notFull full.waiters - (queue.board.handled - full.board.handled)
  /-- Nobody else has woken but for no reason. -/
  sleepers_eq : (∀ transition ∈ later, ∀ thread, transition.move ≠ .rouse thread) →
    sleepers .notFull queue.waiters =
      sleepers .notFull full.waiters - (queue.board.handled - full.board.handled)

/-- An open queue that has accepted all expected orders came to that in some state of its run. -/
theorem Run.exists_fullAt (run : Run terms history queue) (isOpen : queue.board.closed = false)
    (all : queue.board.submitted = terms.expected) :
    ∃ earlier later full, history = earlier ++ later ∧ FullAt terms earlier later full queue := by
  induction run with
  | opened =>
    have hfirst : ∀ transition ∈ ([] : List (Transition T P)),
        transition.before.board.submitted < terms.expected := by simp
    exact ⟨[], [], .opened terms, rfl, .opened, all, hfirst, Nat.le_refl _, Nat.zero_le _,
      fun _ => rfl⟩
  | @step history queue next move answer run made ih =>
    have hopen := open_of_step made isOpen
    have htallied := run.tallied hopen
    have hsubmitted := htallied.submitted_eq
    have hwanted := htallied.wanted
    -- Either the last order was accepted before, and the split stays where it is, or just now.
    by_cases hbefore : queue.board.submitted = terms.expected
    · obtain ⟨earlier, later, full, rfl, hfull⟩ := ih hopen hbefore
      obtain ⟨hhandled, hle, heq⟩ :=
        step_sleepers run.orderly made (run.terms_eq ▸ hbefore.ge) isOpen
      have hfullHandled := hfull.handled_le
      have hfullLe := hfull.sleepers_le
      refine ⟨earlier, later ++ [⟨queue, move, answer, next⟩], full, List.append_assoc .., ?_⟩
      refine ⟨hfull.run, hfull.all, hfull.first, by omega, by omega, fun quiet => ?_⟩
      have hfullEq := hfull.sleepers_eq fun transition hmem =>
        quiet transition (List.mem_append_left _ hmem)
      have hnow := heq (quiet _ (List.mem_append_right _ (List.mem_singleton_self _)))
      omega
    · refine ⟨history ++ [⟨queue, move, answer, next⟩], [], next, (List.append_nil _).symm,
        run.step made, all, ?_, Nat.le_refl _, ?_, fun _ => ?_⟩
      · intro transition hmem
        rcases List.mem_append.mp hmem with hold | hnew
        · have := run.submitted_le transition hold
          omega
        · rw [List.mem_singleton.mp hnew]
          change queue.board.submitted < terms.expected
          omega
      · rw [Nat.sub_self, Nat.sub_zero]
      · rw [Nat.sub_self, Nat.sub_zero]

/-- The submissions that were made have been accepted, or handed back, or lost, or wait. -/
theorem Run.submissions_eq (run : Run terms history queue) :
    (entries history).countP Request.isSubmission =
      queue.board.submitted + (refunds history).length + (losses history).length +
        queue.waiters.countP (·.request.isSubmission) := by
  have hconserved := run.payloads_conserved.length_eq
  have hnumber := run.counters.1
  have hsubmitted : queue.board.submitted = (receipts history).length := by
    rw [Board.submitted, hnumber, Nat.add_sub_cancel]
  rw [offers_map] at hconserved
  simp only [List.length_append, List.length_map] at hconserved
  rw [countP_isSubmission, hconserved, length_held, hsubmitted]

/-- Every submission that was made to an unbroken queue has been accepted, or handed back, or
waits. -/
theorem Run.length_offers (run : Run terms history queue) (unbroken : queue.broken = false) :
    (offers history).length = queue.board.submitted + (refunds history).length +
      queue.waiters.countP (·.request.isSubmission) := by
  have hoffers : (offers history).length = (entries history).countP Request.isSubmission := by
    rw [countP_isSubmission, ← offers_map, List.length_map]
  rw [hoffers, run.submissions_eq, run.losses_of_unbroken unbroken, List.length_nil, Nat.add_zero]

/-- Surplus submissions are refused as soon as they get the lock, but those that sleep when the last
expected order is accepted may never get it.

In an open and unbroken queue that has accepted all expected orders, every submission that gets the
lock is refused, and all submissions beyond the expected ones have been handed back or wait. Where
everybody sleeps, as many of them wait as slept when the last order was accepted, less one for every
order that has been handed out since; fewer, if some have woken up for no reason. So none waits if
no more of them slept then than orders have been handed out since. -/
theorem surplus_refused_or_asleep (run : Run terms history queue)
    (isOpen : queue.board.closed = false) (unbroken : queue.broken = false)
    (all : queue.board.submitted = terms.expected) :
    (∀ move next answer payload patience, queue.step move = some (next, answer) →
      queue.request? move = some (.submit payload patience) →
        answer = some (.rejected ⟨payload, .oversubscribed terms.expected⟩) ∧
          next.board = queue.board) ∧
    (offers history).length = terms.expected + (refunds history).length +
      queue.waiters.countP (·.request.isSubmission) ∧
    ∃ earlier later full, history = earlier ++ later ∧ FullAt terms earlier later full queue ∧
      ((∀ waiter ∈ queue.waiters, waiter.sleep = .asleep) →
        queue.waiters.countP (·.request.isSubmission) = sleepers .notFull queue.waiters ∧
        (sleepers .notFull full.waiters ≤ queue.board.handled - full.board.handled →
          ∀ waiter ∈ queue.waiters, waiter.request.isSubmission = false)) := by
  refine ⟨?_, all ▸ run.length_offers unbroken, ?_⟩
  · intro move next answer payload patience made hrequest
    rcases Monitor.step_cases made with
      ⟨thread, waiter, rfl, -⟩ | ⟨attempt, base, grants, yields⟩
    · cases hrequest
    · obtain ⟨hterms, hboard, hbroken⟩ := grants.base_eq
      have hattempt : attempt.request = .submit payload patience :=
        Option.some.inj (grants.request?_eq.symm.trans hrequest)
      have hterms' := hterms.trans run.terms_eq
      have hrefused {decided : Section P (Answer P)}
          (decision : Decision base.terms attempt.late attempt.chance.shortage base.board
            attempt.request decided) :
          decided =
            .finish (.rejected ⟨payload, .oversubscribed terms.expected⟩) queue.board [] := by
        rw [hattempt, hterms', hboard] at decision
        exact decision.eq_refuse isOpen all.ge
      cases yields with
      | broken isBroken => simp [hbroken, unbroken] at isBroken
      | finish _ decision =>
        cases hrefused decision
        exact ⟨rfl, rfl⟩
      | wait _ decision => cases hrefused decision
      | fail _ decision => cases hrefused decision
  · obtain ⟨earlier, later, full, hsplit, hfull⟩ := run.exists_fullAt isOpen all
    refine ⟨earlier, later, full, hsplit, hfull, fun asleep => ?_⟩
    have hcount := run.orderly.sleepers_notFull asleep
    refine ⟨hcount, fun enough => ?_⟩
    have hnone : queue.waiters.countP (·.request.isSubmission) = 0 := by
      have := hfull.sleepers_le
      omega
    intro waiter hmem
    simpa using List.countP_eq_zero.mp hnone waiter hmem

end

/-- Terms for a queue of one place that expects two orders. -/
def twoOrders : Terms := { onePlace with expected := 2, expected_lt := by decide }

/-- Of four submissions the first one gets the only place, and the second one gets it when the
order there has been taken. -/
def overrun : List (Move Nat Nat) :=
  [.enter 1 (.submit 10 .endless) 0 0 .calm, .enter 2 (.submit 20 .endless) 0 0 .calm,
    .enter 3 (.submit 30 .endless) 0 0 .calm, .enter 4 (.submit 40 .endless) 0 0 .calm,
    .enter 5 (.take .endless) 0 0 .calm, .resume 2 0 .calm]

/-- After the overrun the two surplus submissions are asleep, and none has been handed back. -/
theorem surplus_of_overrun :
    ∃ history queue, Run twoOrders history queue ∧
      (Monitor.opened twoOrders).replay overrun = some (history, queue) ∧
      queue.board.closed = false ∧ queue.broken = false ∧ queue.board.submitted = 2 ∧
      refunds history = [] ∧ queue.waiters.map (·.sleep) = [.asleep, .asleep] ∧
      (offers history).length = 2 + (refunds history).length +
        queue.waiters.countP (·.request.isSubmission) ∧
      ∃ earlier later full, history = earlier ++ later ∧
        FullAt twoOrders earlier later full queue := by
  obtain ⟨history, queue, hreplay, isOpen, unbroken, hsubmitted, hrefunds, hsleep⟩ :
      ∃ history queue,
        (Monitor.opened twoOrders).replay overrun = some (history, queue) ∧
        queue.board.closed = false ∧ queue.broken = false ∧ queue.board.submitted = 2 ∧
        refunds history = [] ∧ queue.waiters.map (·.sleep) = [.asleep, .asleep] :=
    ⟨_, _, rfl, rfl, rfl, rfl, rfl, rfl⟩
  have run : Run twoOrders history queue := Run.opened.replay hreplay
  obtain ⟨-, hoffers, earlier, later, full, hsplit, hfull, -⟩ :=
    surplus_refused_or_asleep run isOpen unbroken hsubmitted
  exact ⟨history, queue, run, hreplay, isOpen, unbroken, hsubmitted, hrefunds, hsleep, hoffers,
    earlier, later, full, hsplit, hfull⟩

/-- When the last order has been handed out and the submission that this has woken is refused, the
other one sleeps on, though nothing is wanted and nothing is left to hand out. -/
theorem surplus_left_asleep :
    ∃ history queue, Run twoOrders history queue ∧
      (Monitor.opened twoOrders).replay
          (overrun ++ [.enter 6 (.take .endless) 0 0 .calm, .resume 3 0 .calm]) =
        some (history, queue) ∧
      queue.board.closed = false ∧ queue.broken = false ∧
      queue.board.submitted = twoOrders.expected ∧ queue.board.handled = twoOrders.expected ∧
      refunds history = [30] ∧
      queue.waiters = [⟨4, .submit 40 .endless, .notFull, none, .asleep⟩] := by
  obtain ⟨history, queue, hreplay, hrest⟩ :
      ∃ history queue,
        (Monitor.opened twoOrders).replay
            (overrun ++ [.enter 6 (.take .endless) 0 0 .calm, .resume 3 0 .calm]) =
          some (history, queue) ∧
        queue.board.closed = false ∧ queue.broken = false ∧
        queue.board.submitted = twoOrders.expected ∧ queue.board.handled = twoOrders.expected ∧
        refunds history = [30] ∧
        queue.waiters = [⟨4, .submit 40 .endless, .notFull, none, .asleep⟩] :=
    ⟨_, _, rfl, rfl, rfl, rfl, rfl, rfl, rfl⟩
  exact ⟨history, queue, Run.opened.replay hreplay, hreplay, hrest⟩

end OrderRail.Queue
