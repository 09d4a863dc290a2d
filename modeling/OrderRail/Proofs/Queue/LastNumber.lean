import OrderRail.Proofs.Queue.Delivery
import OrderRail.Proofs.Queue.Wakeup

/-!
# The last order number

A queue counts ahead: its board holds the number of the next order, and accepting an order asks for
the number behind that, once there is room for the order. While a queue is open nothing else can
fail, so its lock stays whole as long
as fewer orders are expected than a counter can count to. A queue that is opened for as many orders
as that has one number too few: the submission that would be accepted last fails, although its own
number exists, and breaks the lock for everybody.
-/

namespace OrderRail.Queue

variable {T P : Type}

/-- A request asks for the last number if it is a submission that is wanted and has room, and whose
own number is the largest one that a counter can hold. -/
structure Board.AsksLast (terms : Terms) (board : Board P) (request : Request P) : Prop where
  submission : request.isSubmission = true
  room : board.pending.size < terms.capacity
  last : board.submitted + 1 = terms.expected
  largest : terms.expected + 1 = Count.wordSize

section

variable {terms : Terms} {late : Bool} {shortage : Option StorageError} {board next : Board P}
  {request : Request P}

/-- On an open board with its accounts in order only a request for the last number fails, and it
leaves the board as it was. -/
theorem Decision.asksLast_of_fail {fault : Fault} (isOpen : board.closed = false)
    (tallied : Tallied terms board)
    (h : Decision terms late shortage board request (.fail fault next)) :
    fault = .addOverflow ∧ next = board ∧ board.AsksLast terms request := by
  have hnext := tallied.nextNumber_eq
  have hsubmitted := tallied.submitted_eq
  have hexpected := terms.expected_lt
  cases h with
  | misuse isClosed => simp [isOpen] at isClosed
  | numberOverflow _ wanted room granted tooLarge => exact ⟨rfl, rfl, rfl, room, by omega, by omega⟩
  | countOverflow _ takes pops tooLarge =>
    have := tallied.handled_fits pops
    omega

/-- A request for the last number fails if there is room for an order. -/
theorem Decision.eq_fail {decided : Section P (Answer P)} (isOpen : board.closed = false)
    (granted : board.lacks shortage = none) (tallied : Tallied terms board)
    (last : board.AsksLast terms request)
    (h : Decision terms late shortage board request decided) :
    decided = .fail .addOverflow board := by
  obtain ⟨submission, hroom, hlast, hlargest⟩ := last
  have hnext := tallied.nextNumber_eq
  have hsubmitted := tallied.submitted_eq
  cases h with
  | numberOverflow _ wanted room granted tooLarge => rfl
  | accept _ wanted room granted fits => omega
  | lack _ _ _ denied => simp [granted] at denied
  | refuse _ unwanted => omega
  | leave _ _ _ full | awaitRoom _ _ _ full => omega
  | handOut _ takes | endWork _ takes | countOverflow _ takes =>
    cases request <;> simp_all [Request.takes, Request.isSubmission]
  | read reads => cases request <;> simp_all [Request.reads, Request.isSubmission]
  | misuse isClosed => simp [isOpen] at isClosed
  | giveUp | decline | awaitOrder | close => cases submission

/-- An answered section leaves a next number that a counter can hold. -/
theorem Decision.nextNumber_lt {answer : Answer P} {signals : List Signal}
    (bounded : board.nextNumber < Count.wordSize)
    (h : Decision terms late shortage board request (.finish answer next signals)) :
    next.nextNumber < Count.wordSize := by
  cases h with
  | accept _ _ _ _ fits => exact fits
  | handOut | close | lack | refuse | leave | endWork | giveUp | decline | read => exact bounded

/-- A submission that is wanted and has room is accepted, provided that there is memory for it and a
number behind its own. -/
theorem Decision.eq_accept {payload : P} {patience : Patience} {decided : Section P (Answer P)}
    (isOpen : board.closed = false) (wanted : board.submitted < terms.expected)
    (room : board.pending.size < terms.capacity) (granted : board.lacks shortage = none)
    (fits : board.nextNumber + 1 < Count.wordSize)
    (h : Decision terms late shortage board (.submit payload patience) decided) :
    decided = .finish (.accepted board.nextNumber) (board.accepting payload) [.one .notEmpty] := by
  cases h with
  | accept => rfl
  | lack _ _ _ denied => simp [granted] at denied
  | refuse _ unwanted => omega
  | leave _ _ _ full | awaitRoom _ _ _ full => omega
  | numberOverflow _ _ _ _ tooLarge => omega
  | handOut _ takes | endWork _ takes | countOverflow _ takes => cases takes
  | read reads => cases reads
  | misuse isClosed => simp [isOpen] at isClosed

/-- An immediate attempt to take gets the oldest order if there is one. -/
theorem Decision.eq_handOut {order : Order P} {rest : Fifo (Order P)}
    {decided : Section P (Answer P)} (isOpen : board.closed = false)
    (tallied : Tallied terms board) (pops : board.pending.pop? = some (order, rest))
    (h : Decision terms late shortage board .tryTake decided) :
    decided = .finish (.order order) (board.handingOut rest)
      (takerSignals terms (board.handled + 1)) := by
  have hsize := size_of_pop? pops
  have hfits := tallied.handled_fits pops
  cases h with
  | handOut _ _ popped =>
    cases popped.symm.trans pops
    rfl
  | endWork _ _ empty | decline _ empty => omega
  | countOverflow _ _ _ tooLarge => omega
  | read reads => cases reads
  | misuse isClosed => simp [isOpen] at isClosed

end

/-- If something is pending, there is an oldest order. -/
theorem exists_pop? {pending : Fifo (Order P)} (h : 0 < pending.size) :
    ∃ order rest, pending.pop? = some (order, rest) := by
  cases hpop : pending.pop? with
  | some popped => exact ⟨popped.1, popped.2, rfl⟩
  | none =>
    rw [size_of_pop?_eq_none hpop] at h
    cases h

/-- Where nobody waits, signals reach nobody. -/
theorem foldl_deliver_nil (choice : Nat) (signals : List Signal) :
    signals.foldl (Signal.deliver choice) ([] : List (Waiter T P)) = [] :=
  List.map_eq_nil_iff.mp (map_lying_foldl_deliver choice signals [])

/-- A call whose section can only end with one answer gets that answer, if the lock is whole. -/
theorem Monitor.Yields.of_finish {base next : Monitor T P} {attempt : Attempt T P}
    {answer : Option (Answer P)} {value : Answer P} {board : Board P} {signals : List Signal}
    (h : base.Yields attempt next answer) (unbroken : base.broken = false)
    (only : ∀ decided, Decision base.terms attempt.late attempt.chance.shortage base.board
      attempt.request decided → decided = .finish value board signals) :
    next = { base with
        board, waiters := signals.foldl (Signal.deliver attempt.chance.sleeper) base.waiters } ∧
      answer = some value := by
  cases h with
  | broken isBroken => simp [unbroken] at isBroken
  | finish _ decision =>
    cases only _ decision
    exact ⟨rfl, rfl⟩
  | wait _ decision => cases only _ decision
  | fail _ decision => cases only _ decision

/-- A call whose section can only fail breaks the lock. -/
theorem Monitor.Yields.of_fail {base next : Monitor T P} {attempt : Attempt T P}
    {answer : Option (Answer P)} {fault : Fault} {board : Board P}
    (h : base.Yields attempt next answer) (unbroken : base.broken = false)
    (only : ∀ decided, Decision base.terms attempt.late attempt.chance.shortage base.board
      attempt.request decided → decided = .fail fault board) :
    next = { base with board, broken := true } ∧ answer = some (.fault fault) := by
  cases h with
  | broken isBroken => simp [unbroken] at isBroken
  | finish _ decision => cases only _ decision
  | wait _ decision => cases only _ decision
  | fail _ decision =>
    cases only _ decision
    exact ⟨rfl, rfl⟩

/-- A call that finds the lock broken changes nothing. -/
theorem Monitor.Yields.eq_of_broken {base next : Monitor T P} {attempt : Attempt T P}
    {answer : Option (Answer P)} (h : base.Yields attempt next answer)
    (isBroken : base.broken = true) : next = base ∧ answer = some (.fault attempt.poison) := by
  cases h with
  | broken => exact ⟨rfl, rfl⟩
  | finish unbroken | wait unbroken | fail unbroken => simp [isBroken] at unbroken

/-- A call that breaks a whole lock, or fails in it, asks for the last number. -/
theorem Monitor.Yields.asksLast {base next : Monitor T P} {attempt : Attempt T P}
    {answer : Option (Answer P)} (h : base.Yields attempt next answer)
    (unbroken : base.broken = false) (isOpen : base.board.closed = false)
    (tallied : Tallied base.terms base.board)
    (failed : next.broken = true ∨ ∃ fault, answer = some (.fault fault)) :
    next.board = base.board ∧ base.board.AsksLast base.terms attempt.request := by
  cases h with
  | broken isBroken => simp [unbroken] at isBroken
  | finish _ decision =>
    rcases failed with isBroken | ⟨fault, hfault⟩
    · simp [unbroken] at isBroken
    · exact absurd (Option.some.inj hfault) decision.ne_fault
  | wait _ decision => simp [unbroken] at failed
  | fail _ decision => exact (decision.asksLast_of_fail isOpen tallied).2

/-- A queue that so many orders have passed through: none is pending, and nobody waits. -/
structure Monitor.PassedOn (count : Nat) (queue : Monitor T P) : Prop where
  nextNumber : queue.board.nextNumber = count + 1
  handled : queue.board.handled = count
  empty : queue.board.pending.size = 0
  isOpen : queue.board.closed = false
  unbroken : queue.broken = false
  waiters : queue.waiters = []

section

variable [DecidableEq T] {terms : Terms} {history : List (Transition T P)} {queue : Monitor T P}

/-- What breaks the lock of an open queue is a request for the last number. -/
theorem Run.last_of_broken (run : Run terms history queue) (isOpen : queue.board.closed = false)
    (isBroken : queue.broken = true) :
    queue.board.submitted + 1 = terms.expected ∧ terms.expected + 1 = Count.wordSize := by
  induction run with
  | opened => cases isBroken
  | @step history queue next move answer run made ih =>
    have hopen := open_of_step made isOpen
    rcases Monitor.step_cases made with
      ⟨thread, waiter, -, -, -, rfl, -⟩ | ⟨attempt, base, grants, yields⟩
    · exact ih hopen isBroken
    · obtain ⟨hterms, hboard, hbroken⟩ := grants.base_eq
      have hterms := hterms.trans run.terms_eq
      cases hbase : queue.broken with
      | true =>
        obtain ⟨rfl, -⟩ := yields.eq_of_broken (hbroken.trans hbase)
        exact hboard.symm ▸ ih hopen hbase
      | false =>
        have tallied : Tallied base.terms base.board := hterms ▸ hboard ▸ run.tallied hopen
        obtain ⟨hnext, last⟩ :=
          yields.asksLast (hbroken.trans hbase) (hboard ▸ hopen) tallied (.inl isBroken)
        rw [hterms] at last
        exact hnext ▸ ⟨last.last, last.largest⟩

/-- A thread outside the queue can make any call, and that is one more step of the run. -/
theorem Run.enter (run : Run terms history queue) (thread : T) (request : Request P)
    (outside : queue.waiting? thread = none) :
    ∃ next answer, queue.step (.enter thread request 0 0 .calm) = some (next, answer) ∧
      Run terms (history ++ [⟨queue, .enter thread request 0 0 .calm, answer, next⟩]) next ∧
      queue.Yields ⟨thread, request, request.deadline 0, 0, .calm, .lockBroken⟩ next answer := by
  have grants : queue.Grants (.enter thread request 0 0 .calm) _ queue := .enter outside
  exact ⟨_, _, grants.step_eq, run.step grants.step_eq, queue.serve_yields _⟩

/-- One more order passes through a queue, if it is wanted and its number is not the last one. -/
theorem Run.passOn (run : Run terms history queue) {count : Nat} (h : queue.PassedOn count)
    (wanted : count < terms.expected) (fits : count + 2 < Count.wordSize) (thread : T)
    (payload : P) :
    ∃ (longer : List (Transition T P)) (last : Monitor T P),
      Run terms longer last ∧ last.PassedOn (count + 1) := by
  obtain ⟨hnumber, hhandled, hempty, isOpen, unbroken, hwaiters⟩ := h
  have hsubmitted : queue.board.submitted < queue.terms.expected := by
    rw [Board.submitted, hnumber, run.terms_eq]
    omega
  have hroom : queue.board.pending.size < queue.terms.capacity :=
    hempty ▸ queue.terms.capacity_pos
  -- The order comes in.
  obtain ⟨full, _, -, submitted, yields⟩ :=
    run.enter thread (.submit payload .endless) (by simp [Monitor.waiting?, hwaiters])
  obtain ⟨rfl, -⟩ := yields.of_finish unbroken fun decided decision =>
    decision.eq_accept isOpen hsubmitted hroom (Board.lacks_none _) (by omega)
  -- The same thread takes it.
  have hsize : (queue.board.accepting payload).pending.size = 1 := congrArg (· + 1) hempty
  obtain ⟨order, rest, pops⟩ := exists_pop? (hsize ▸ Nat.one_pos)
  have tallied := submitted.tallied isOpen
  rw [hwaiters, foldl_deliver_nil] at submitted
  obtain ⟨last, _, -, taken, yields⟩ := submitted.enter thread .tryTake rfl
  rw [← submitted.terms_eq] at tallied
  obtain ⟨rfl, -⟩ := yields.of_finish unbroken fun decided decision =>
    Decision.eq_handOut (show (queue.board.accepting payload).closed = false from isOpen) tallied
      pops decision
  have hrest := size_of_pop? pops
  refine ⟨_, _, taken, congrArg (· + 1) hnumber, congrArg (· + 1) hhandled, ?_, isOpen, unbroken,
    foldl_deliver_nil ..⟩
  change rest.size = 0
  omega

/-- All orders that have a number pass through a queue, but for the last one. -/
theorem exists_passedOn (terms : Terms) (thread : T) (payload : P) (count : Nat)
    (wanted : count ≤ terms.expected) (fits : count + 1 < Count.wordSize) :
    ∃ (history : List (Transition T P)) (queue : Monitor T P),
      Run terms history queue ∧ queue.PassedOn count := by
  induction count with
  | zero => exact ⟨[], .opened terms, .opened, rfl, rfl, rfl, rfl, rfl, rfl⟩
  | succ count ih =>
    obtain ⟨history, queue, run, passed⟩ := ih (by omega) (by omega)
    exact run.passOn passed (by omega) (by omega) thread payload

/-- A counter can hold the next number of every state of a run. -/
theorem Run.nextNumber_lt (run : Run terms history queue) :
    queue.board.nextNumber < Count.wordSize := by
  induction run with
  | opened => exact show 1 < Count.wordSize by decide
  | step run made ih =>
    rcases Monitor.step_board made with
      ⟨hboard, -⟩ | ⟨late, shortage, request, value, signals, -, decision⟩ |
        ⟨late, shortage, request, fault, -, decision⟩
    · rwa [hboard]
    · exact decision.nextNumber_lt ih
    · rwa [Tallied.fail (run.terms_eq ▸ run.tallied) decision]

/-- While a queue is open, nothing but a request for the last number fails, and that one does.

The next number is positive and can be held, and so can the count of handed out orders. The lock is
whole unless as many orders are expected as a counter can count to and all of them but one have been
accepted. If it is whole, a step fails exactly if it asks for the last number, which changes nothing
but that the lock is broken from then on; every other submission that is wanted and has room is
accepted under the next number. Both need memory for the order. -/
theorem fails_only_at_last_number (run : Run terms history queue)
    (isOpen : queue.board.closed = false) :
    0 < queue.board.nextNumber ∧ queue.board.nextNumber < Count.wordSize ∧
    (∀ order rest, queue.board.pending.pop? = some (order, rest) →
      queue.board.handled + 1 < Count.wordSize) ∧
    (queue.broken = true →
      queue.board.submitted + 1 = terms.expected ∧ terms.expected + 1 = Count.wordSize) ∧
    (queue.broken = false → ∀ move next answer, queue.step move = some (next, answer) →
      ((next.broken = true ∨ ∃ fault, answer = some (.fault fault)) →
        ∃ request, queue.request? move = some request ∧ queue.board.AsksLast terms request) ∧
      ∀ request, queue.request? move = some request →
        queue.board.lacks move.shortage = none →
        (queue.board.AsksLast terms request →
          answer = some (.fault .addOverflow) ∧ next.broken = true ∧ next.board = queue.board) ∧
        ∀ payload patience, request = .submit payload patience →
          queue.board.submitted < terms.expected → queue.board.pending.size < terms.capacity →
          ¬ queue.board.AsksLast terms request →
            answer = some (.accepted queue.board.nextNumber)) := by
  have tallied := run.tallied isOpen
  have hnext := tallied.nextNumber_eq
  refine ⟨by omega, run.nextNumber_lt, fun order rest => tallied.handled_fits,
    run.last_of_broken isOpen, ?_⟩
  intro unbroken move next answer made
  rcases Monitor.step_cases made with
    ⟨thread, waiter, rfl, -, -, rfl, rfl⟩ | ⟨attempt, base, grants, yields⟩
  · refine ⟨?_, fun request hrequest => by cases hrequest⟩
    rintro (isBroken | ⟨fault, hfault⟩)
    · simp [Monitor.rousing, unbroken] at isBroken
    · cases hfault
  · obtain ⟨hterms, hboard, hbroken⟩ := grants.base_eq
    have hterms := hterms.trans run.terms_eq
    rw [← hbroken] at unbroken
    rw [← hboard] at isOpen tallied ⊢
    rw [← hterms] at tallied ⊢
    refine ⟨fun failed => ?_, fun request hrequest granted => ?_⟩
    · exact ⟨_, grants.request?_eq, (yields.asksLast unbroken isOpen tallied failed).2⟩
    · obtain rfl : attempt.request = request :=
        Option.some.inj (grants.request?_eq.symm.trans hrequest)
      rw [← grants.shortage_eq] at granted
      refine ⟨fun last => ?_, fun payload patience hrequest wanted room others => ?_⟩
      · obtain ⟨rfl, hanswer⟩ := yields.of_fail unbroken fun decided decision =>
          decision.eq_fail isOpen granted tallied last
        exact ⟨hanswer, rfl, rfl⟩
      · have hexpected := base.terms.expected_lt
        have hsubmitted : base.board.submitted = base.board.nextNumber - 1 := rfl
        have fits : base.board.nextNumber + 1 < Count.wordSize := by
          by_contra tooLarge
          exact others ⟨by rw [hrequest]; rfl, room, by omega, by omega⟩
        exact (yields.of_finish unbroken fun decided decision =>
          (hrequest ▸ decision).eq_accept isOpen wanted room granted fits).2

end

/-- The second submission of the rush is accepted under the next number. -/
theorem number_in_rush :
    ∃ history queue next answer, Run twoPlaces history queue ∧
      (Monitor.opened twoPlaces).replay (rush.take 1) = some (history, queue) ∧
      queue.board.closed = false ∧ queue.broken = false ∧
      queue.board.nextNumber < Count.wordSize ∧
      queue.step (.enter 2 (.submit 20 .endless) 0 0 .calm) = some (next, answer) ∧
      answer = some (.accepted queue.board.nextNumber) := by
  obtain ⟨history, queue, next, answer, hreplay, isOpen, unbroken, hsubmitted, hsize, made⟩ :
      ∃ history queue next answer,
        (Monitor.opened twoPlaces).replay (rush.take 1) = some (history, queue) ∧
        queue.board.closed = false ∧ queue.broken = false ∧ queue.board.submitted = 1 ∧
        queue.board.pending.size = 1 ∧
        queue.step (.enter 2 (.submit 20 .endless) 0 0 .calm) = some (next, answer) :=
    ⟨_, _, _, _, rfl, rfl, rfl, rfl, rfl, rfl⟩
  have run : Run twoPlaces history queue := Run.opened.replay hreplay
  obtain ⟨-, hnumber, -, -, hsteps⟩ := fails_only_at_last_number run isOpen
  refine ⟨history, queue, next, answer, run, hreplay, isOpen, unbroken, hnumber, made, ?_⟩
  refine ((hsteps unbroken _ next answer made).2 _ rfl (Board.lacks_none _)).2 20 .endless rfl
    ?_ ?_ ?_
  · rw [hsubmitted]
    decide
  · rw [hsize]
    decide
  · intro last
    exact absurd last.largest (by decide)

/-- Terms for a queue of one place that expects as many orders as a counter can count to. -/
def mostOrders : Terms := { onePlace with expected := Count.wordSize - 1, expected_lt := by decide }

/-- When all orders but the last one have passed through, the last one is still wanted and has room,
but submitting it fails, and from then on nobody can even ask for the counters. -/
theorem last_number_breaks_lock :
    ∃ (history : List (Transition Nat Nat)) (queue next : Monitor Nat Nat),
      Run mostOrders history queue ∧ queue.board.closed = false ∧ queue.broken = false ∧
      queue.waiters = [] ∧ queue.board.submitted < mostOrders.expected ∧
      queue.board.pending.size < mostOrders.capacity ∧
      queue.step (.enter 1 (.submit 10 .endless) 0 0 .calm) =
        some (next, some (.fault .addOverflow)) ∧
      next.board = queue.board ∧ next.broken = true ∧
      next.step (.enter 1 .stats 0 0 .calm) = some (next, some (.fault .lockBroken)) := by
  obtain ⟨history, queue, run, passed⟩ :=
    exists_passedOn mostOrders 1 10 (Count.wordSize - 2) (by decide) (by decide)
  have hterms := run.terms_eq
  have hsubmitted : queue.board.submitted = Count.wordSize - 2 := by
    rw [Board.submitted, passed.nextNumber, Nat.add_sub_cancel]
  have hroom : queue.board.pending.size < mostOrders.capacity :=
    passed.empty ▸ mostOrders.capacity_pos
  have last : queue.board.AsksLast queue.terms (.submit 10 .endless) := by
    rw [hterms]
    exact ⟨rfl, hroom, by rw [hsubmitted]; rfl, rfl⟩
  have outside : queue.waiting? 1 = none := by simp [Monitor.waiting?, passed.waiters]
  obtain ⟨next, answer, made, -, yields⟩ := run.enter 1 (.submit 10 .endless) outside
  obtain ⟨rfl, rfl⟩ := yields.of_fail passed.unbroken fun decided decision =>
    decision.eq_fail passed.isOpen (Board.lacks_none _) (hterms ▸ run.tallied passed.isOpen) last
  refine ⟨history, queue, _, run, passed.isOpen, passed.unbroken, passed.waiters, ?_, hroom, made,
    rfl, rfl, ?_⟩
  · rw [hsubmitted]
    decide
  · simp only [Monitor.step, Monitor.enter, Monitor.waiting?, passed.waiters, List.find?_nil,
      Option.isSome_none, Bool.false_eq_true, if_false, if_true]

end OrderRail.Queue
