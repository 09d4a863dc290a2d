import OrderRail.Proofs.Queue.Ledger
import OrderRail.Proofs.Queue.Wakeup

/-!
# Closing is final

Closing reports the accounts, drops what is pending and wakes everybody. From then on the board
never changes, and every call that gets the lock ends with it: nobody falls asleep any more. As long
as the lock is whole the counters can be read. The first call that asks for more, be it a newcomer
or one of those that closing has woken, finds the queue closed and breaks the lock, and all calls
after it, whatever they ask for, find the lock broken.
-/

namespace OrderRail.Queue

variable {T P : Type}

/-- The fault of a call that finds the lock broken, by the move with which it asks for the lock. -/
def Move.poison : Move T P → Fault
  | .resume .. => .waitBroken
  | _ => .lockBroken

/-- The text of the fault that a step has brought. -/
def Transition.text? (transition : Transition T P) : Option String :=
  match transition.answer with
  | some (.fault fault) => some fault.message
  | _ => none

/-- Whether a step has brought a fault. -/
def Transition.failed (transition : Transition T P) : Bool := transition.text?.isSome

/-- A step has failed if its answer is a fault. -/
theorem Transition.failed_iff {transition : Transition T P} :
    transition.failed = true ↔ ∃ fault, transition.answer = some (.fault fault) := by
  unfold Transition.failed Transition.text?
  split
  · rename_i fault hanswer
    exact iff_of_true rfl ⟨fault, hanswer⟩
  · rename_i hnone
    exact iff_of_false nofun fun ⟨fault, hanswer⟩ => hnone fault hanswer

/-- A step that brings a fault brings its text. -/
theorem Transition.text?_of_fault {transition : Transition T P} {fault : Fault}
    (h : transition.answer = some (.fault fault)) : transition.text? = some fault.message := by
  simp only [Transition.text?, h]

/-- Requests that can wait need an open queue, and are not requests to close it. -/
theorem Request.misuse_of_condition? {request : Request P} {condition : Condition}
    (h : request.condition? = some condition) :
    request.reads = false ∧ request.misuse = .usedAfterClose := by
  cases request with
  | submit payload patience => exact ⟨rfl, rfl⟩
  | take patience => exact ⟨rfl, rfl⟩
  | _ => cases h

/-- Requests other than to close the queue are misuses because it has been closed. -/
theorem Request.misuse_of_ne {request : Request P} (h : request ≠ .close) :
    request.misuse = .usedAfterClose := by
  cases request with
  | close => exact absurd rfl h
  | _ => rfl

/-- On a closed board a section reads the counters or fails. -/
theorem Decision.of_closed {terms : Terms} {late : Bool} {shortage : Option StorageError}
    {board : Board P} {request : Request P} {decided : Section P (Answer P)}
    (isClosed : board.closed = true)
    (h : Decision terms late shortage board request decided) :
    (request.reads = true ∧ decided = .finish (request.reading terms board) board []) ∨
      (request.reads = false ∧ decided = .fail request.misuse board) := by
  cases h with
  | read reads => exact .inl ⟨reads, rfl⟩
  | misuse _ needsOpen => exact .inr ⟨needsOpen, rfl⟩
  | accept isOpen | lack isOpen | refuse isOpen | leave isOpen | awaitRoom isOpen
  | handOut isOpen | endWork isOpen | giveUp isOpen | decline isOpen | awaitOrder isOpen
  | close isOpen | numberOverflow isOpen | countOverflow isOpen => simp [isClosed] at isOpen

namespace Monitor

/-- A closed queue, with the board that closing has left, in which nobody sleeps. -/
structure Shut (board : Board P) (queue : Monitor T P) : Prop where
  board_eq : queue.board = board
  isClosed : queue.board.closed = true
  awake : ∀ waiter ∈ queue.waiters, waiter.sleep ≠ .asleep
  orderly : Orderly queue.waiters

/-- What a call that has the lock of a closed queue is told. -/
def answerOfClosed (base : Monitor T P) (attempt : Attempt T P) : Answer P :=
  if base.broken then .fault attempt.poison
  else if attempt.request.reads then attempt.request.reading base.terms base.board
  else .fault attempt.request.misuse

/-- A call that has the lock of a closed queue changes nothing but that it may break the lock. -/
theorem Yields.of_closed {base next : Monitor T P} {attempt : Attempt T P}
    {answer : Option (Answer P)} (isClosed : base.board.closed = true)
    (h : base.Yields attempt next answer) :
    next.board = base.board ∧ next.waiters = base.waiters ∧
      answer = some (base.answerOfClosed attempt) := by
  cases h with
  | broken isBroken => exact ⟨rfl, rfl, by rw [answerOfClosed, if_pos isBroken]⟩
  | finish unbroken decision =>
    rcases decision.of_closed isClosed with ⟨reads, h⟩ | ⟨-, h⟩
    · cases h
      exact ⟨rfl, rfl, by simp [answerOfClosed, unbroken, reads]⟩
    · cases h
  | wait unbroken decision => rcases decision.of_closed isClosed with ⟨-, h⟩ | ⟨-, h⟩ <;> cases h
  | fail unbroken decision =>
    rcases decision.of_closed isClosed with ⟨-, h⟩ | ⟨needsOpen, h⟩
    · cases h
    · cases h
      exact ⟨rfl, rfl, by simp [answerOfClosed, unbroken, needsOpen]⟩

/-- A call that has waited and goes on in a closed queue fails. -/
theorem answerOfClosed_of_condition? {base : Monitor T P} {attempt : Attempt T P}
    {condition : Condition} (h : attempt.request.condition? = some condition) :
    base.answerOfClosed attempt =
      .fault (if base.broken then attempt.poison else .usedAfterClose) := by
  obtain ⟨needsOpen, hmisuse⟩ := Request.misuse_of_condition? h
  cases hbroken : base.broken <;> simp [answerOfClosed, hbroken, needsOpen, hmisuse]

variable [DecidableEq T] {queue base next last : Monitor T P} {move : Move T P}
  {attempt : Attempt T P} {answer : Option (Answer P)} {board : Board P}

/-- The fault of a call that finds the lock broken is that of its move. -/
theorem Grants.poison_eq (h : queue.Grants move attempt base) : attempt.poison = move.poison := by
  cases h <;> rfl

/-- Every step of a shut queue ends a call, and leaves the queue shut. -/
theorem Shut.step (h : queue.Shut board) (made : queue.step move = some (next, answer)) :
    next.Shut board ∧ ∃ attempt base, queue.Grants move attempt base ∧
      next.waiters = base.waiters ∧ answer = some (base.answerOfClosed attempt) := by
  rcases step_cases made with
    ⟨thread, waiter, -, inside, asleep, -, -⟩ | ⟨attempt, base, grants, yields⟩
  · exact absurd asleep (h.awake waiter (List.mem_of_find?_eq_some inside))
  · obtain ⟨-, hboard, -⟩ := grants.base_eq
    obtain ⟨hnext, hwaiters, hanswer⟩ := yields.of_closed (hboard ▸ h.isClosed)
    rw [hboard] at hnext
    refine ⟨⟨hnext.trans h.board_eq, hnext ▸ h.isClosed, ?_, h.orderly.step made⟩, attempt, base,
      grants, hwaiters, hanswer⟩
    intro waiter hmem
    exact h.awake waiter (grants.subset (hwaiters ▸ hmem))

/-- A queue that has been shut stays shut. -/
theorem Shut.stays (h : queue.Shut board) {moves : List (Move T P)}
    {more : List (Transition T P)} (made : queue.replay moves = some (more, last)) :
    last.Shut board :=
  replay_keeps (fun _ _ _ _ hshut hstep => (hshut.step hstep).1) h made

/-- A call that goes on in a shut queue leaves it, and leaves the lock broken. -/
theorem Shut.resume (h : queue.Shut board) (resumes : move.resumes = true)
    (made : queue.step move = some (next, answer)) :
    next.waiters.length + 1 = queue.waiters.length ∧ next.broken = true ∧
      answer = some (.fault (if queue.broken then .waitBroken else .usedAfterClose)) := by
  obtain ⟨-, attempt, base, grants, hwaiters, hanswer⟩ := h.step made
  have hfault : base.answerOfClosed attempt =
      .fault (if queue.broken then .waitBroken else .usedAfterClose) := by
    cases grants with
    | enter outside => cases resumes
    | resume inside awake =>
      exact answerOfClosed_of_condition? (h.orderly.apt _ (List.mem_of_find?_eq_some inside))
  rw [hfault] at hanswer
  refine ⟨?_, (broken_iff_of_step made).mpr (.inr ⟨_, hanswer⟩), hanswer⟩
  cases grants with
  | enter outside => cases resumes
  | resume inside awake =>
    rw [hwaiters, (perm_without h.orderly inside).length_eq, List.length_cons]

/-- Every waiting call of a shut queue can go on, and fails when it does. -/
theorem Shut.fails (h : queue.Shut board) {waiter : Waiter T P} (hmem : waiter ∈ queue.waiters)
    (now : Instant) (chance : Chance) :
    ∃ next fault, queue.step (.resume waiter.thread now chance) =
      some (next, some (.fault fault)) := by
  cases hsleep : waiter.sleep with
  | asleep => exact absurd hsleep (h.awake waiter hmem)
  | roused signalled =>
    have grants : queue.Grants (.resume waiter.thread now chance) _ (queue.without waiter.thread) :=
      .resume (waiting?_of_mem h.orderly hmem) hsleep
    cases made : queue.step (.resume waiter.thread now chance) with
    | none => cases made.symm.trans grants.step_eq
    | some result =>
      obtain ⟨next, answer⟩ := result
      obtain ⟨-, -, hanswer⟩ := h.resume rfl made
      exact ⟨next, _, by rw [hanswer]⟩

/-- The lock is broken after some steps exactly if it was broken before or one of them has
failed. -/
theorem replay_broken {moves : List (Move T P)} {more : List (Transition T P)}
    (made : queue.replay moves = some (more, last)) :
    last.broken = (queue.broken || more.any Transition.failed) := by
  induction moves generalizing queue more with
  | nil =>
    obtain ⟨rfl, rfl⟩ := replay_nil made
    simp
  | cons move moves ih =>
    obtain ⟨next, answer, rest, hstep, hrest, rfl⟩ := replay_cons made
    have hnext : next.broken =
        (queue.broken || Transition.failed ⟨queue, move, answer, next⟩) := by
      rw [Bool.eq_iff_iff, Bool.or_eq_true, Transition.failed_iff]
      exact broken_iff_of_step hstep
    rw [ih hrest, hnext, List.any_cons, Bool.or_assoc]

/-- Calls that go on one after another in a shut queue whose lock is broken find it broken. -/
theorem Shut.resumed (h : queue.Shut board) (isBroken : queue.broken = true)
    {moves : List (Move T P)} {more : List (Transition T P)}
    (resumes : ∀ move ∈ moves, move.resumes = true)
    (made : queue.replay moves = some (more, last)) :
    more.map Transition.text? = List.replicate more.length (some (Fault.message .waitBroken)) ∧
      more.length + last.waiters.length = queue.waiters.length := by
  induction moves generalizing queue more with
  | nil =>
    obtain ⟨rfl, rfl⟩ := replay_nil made
    simp
  | cons move moves ih =>
    obtain ⟨next, answer, rest, hstep, hrest, rfl⟩ := replay_cons made
    obtain ⟨hfirst, hlater⟩ := List.forall_mem_cons.mp resumes
    obtain ⟨hlength, hbroken, hanswer⟩ := h.resume hfirst hstep
    obtain ⟨htexts, hleft⟩ := ih (h.step hstep).1 hbroken hlater hrest
    rw [isBroken, if_pos rfl] at hanswer
    refine ⟨?_, ?_⟩
    · rw [List.map_cons, htexts, Transition.text?_of_fault hanswer, List.length_cons,
        List.replicate_succ]
    · rw [List.length_cons]
      omega

/-- Where nobody else comes, the first of the calls that go on in a shut queue finds it closed, and
all others find the lock broken. -/
theorem Shut.texts (h : queue.Shut board) (unbroken : queue.broken = false)
    {moves : List (Move T P)} {more : List (Transition T P)}
    (resumes : ∀ move ∈ moves, move.resumes = true)
    (made : queue.replay moves = some (more, last)) {others : Nat}
    (waiting : queue.waiters.length = others + 1) (left : last.waiters = []) :
    more.map Transition.text? = some (Fault.message .usedAfterClose) ::
      List.replicate others (some (Fault.message .waitBroken)) := by
  cases moves with
  | nil =>
    obtain ⟨-, rfl⟩ := replay_nil made
    rw [left] at waiting
    cases waiting
  | cons move moves =>
    obtain ⟨next, answer, rest, hstep, hrest, rfl⟩ := replay_cons made
    obtain ⟨hfirst, hlater⟩ := List.forall_mem_cons.mp resumes
    obtain ⟨hlength, hbroken, hanswer⟩ := h.resume hfirst hstep
    obtain ⟨htexts, hleft⟩ := (h.step hstep).1.resumed hbroken hlater hrest
    rw [left, List.length_nil, Nat.add_zero] at hleft
    have hothers : rest.length = others := by omega
    rw [unbroken, if_neg Bool.false_ne_true] at hanswer
    rw [List.map_cons, htexts, Transition.text?_of_fault hanswer, hothers]

end Monitor

/-- The signals of closing leave nobody asleep. -/
theorem awake_of_close (choice : Nat) (waiters : List (Waiter T P)) :
    ∀ waiter ∈ [.all .notFull, .all .notEmpty].foldl (Signal.deliver choice) waiters,
      waiter.sleep ≠ .asleep := by
  intro waiter hmem asleep
  have hpos := sleepers_pos hmem asleep
  have hfull := sleepers_deliver_all choice .notFull waiters
  have hempty := sleepers_deliver_all choice .notEmpty
    (Signal.deliver choice waiters (.all .notFull))
  obtain ⟨hsame, -⟩ := counts_deliver_all_of_ne choice
    (show Condition.notFull ≠ .notEmpty by decide) (Signal.deliver choice waiters (.all .notFull))
  simp only [List.foldl_cons, List.foldl_nil] at hpos
  cases hcondition : waiter.condition with
  | notFull =>
    rw [hcondition] at hpos
    omega
  | notEmpty =>
    rw [hcondition] at hpos
    omega

section

variable [DecidableEq T] {terms : Terms} {history : List (Transition T P)} {queue : Monitor T P}

/-- Closing an open queue that is not broken brings its accounts and leaves a shut queue, in which
the same calls wait. -/
theorem Run.close (run : Run terms history queue) (isOpen : queue.board.closed = false)
    (unbroken : queue.broken = false) {thread : T} (outside : queue.waiting? thread = none)
    (start now : Instant) (chance : Chance) :
    ∃ closed, queue.step (.enter thread .close start now chance) =
        some (closed, some (.report (queue.board.accounts terms))) ∧
      closed.Shut queue.board.closing ∧ closed.broken = false ∧
      closed.waiters.map Waiter.lying = queue.waiters.map Waiter.lying := by
  have hlying :=
    map_lying_foldl_deliver chance.sleeper [.all .notFull, .all .notEmpty] queue.waiters
  have made := close_reports start now chance outside unbroken isOpen
  rw [congrArg queue.board.accounts run.terms_eq] at made
  exact ⟨_, made, ⟨rfl, rfl, awake_of_close chance.sleeper queue.waiters, run.orderly.congr hlying⟩,
    unbroken, hlying⟩

/-- Closing is final, whatever calls are made afterwards and in whatever order they get the lock.

A call that closes an open and unbroken queue gets the accounts. From then on the counters stay as
they were, nothing is pending, and every call that waits is awake and can only fail. Every step that
is made ends a call. As long as none has failed, a call that reads the counters is told that nothing
is pending and what the counters were, and any other call fails because the queue has been closed.
Once one has failed the lock is broken, and every call that needs it fails because of that. So if
nobody else comes, one of the blocked calls fails because the queue has been closed and all others
because the lock is broken. -/
theorem closing_is_final (run : Run terms history queue) (isOpen : queue.board.closed = false)
    (unbroken : queue.broken = false) {thread : T} (outside : queue.waiting? thread = none)
    (start now : Instant) (chance : Chance) :
    ∃ closed, queue.step (.enter thread .close start now chance) =
        some (closed, some (.report (queue.board.accounts terms))) ∧
      closed.waiters.map Waiter.lying = queue.waiters.map Waiter.lying ∧
      ∀ moves more last, closed.replay moves = some (more, last) →
        last.board.closed = true ∧ last.board.pending.toList = [] ∧
        last.board.submitted = queue.board.submitted ∧
        last.board.handled = queue.board.handled ∧ last.board.peak = queue.board.peak ∧
        last.broken = more.any Transition.failed ∧
        (∀ waiter ∈ last.waiters, ∀ now chance, ∃ next fault,
          last.step (.resume waiter.thread now chance) = some (next, some (.fault fault))) ∧
        (∀ before transition after, more = before ++ transition :: after →
          ∃ request, transition.before.request? transition.move = some request ∧
            (before.any Transition.failed = false →
              (request = .length → transition.answer = some (.count 0)) ∧
              (request = .isEmpty → transition.answer = some (.isEmpty true)) ∧
              (request = .stats → transition.answer = some (.stats
                { submitted := queue.board.submitted, handled := queue.board.handled,
                  expected := terms.expected, pending := 0, peak := queue.board.peak,
                  capacity := terms.capacity })) ∧
              (request.reads = false → request ≠ .close →
                transition.text? = some "order queue used after close") ∧
              (request = .close → transition.text? = some "order queue closed twice")) ∧
            (before.any Transition.failed = true →
              transition.text? = some (if transition.move.resumes
                then "condvar wait failed: PoisonError \x7b .. \x7d"
                else "order queue mutex poisoned: PoisonError \x7b .. \x7d"))) ∧
        ∀ others, queue.waiters.length = others + 1 → (∀ move ∈ moves, move.resumes = true) →
          last.waiters = [] →
          more.map Transition.text? = some "order queue used after close" ::
            List.replicate others (some "condvar wait failed: PoisonError \x7b .. \x7d") := by
  obtain ⟨closed, made, shut, whole, hlying⟩ := run.close isOpen unbroken outside start now chance
  refine ⟨closed, made, hlying, fun moves more last later => ?_⟩
  have hlast := shut.stays later
  have hbroken := Monitor.replay_broken later
  rw [whole, Bool.false_or] at hbroken
  have hboard := hlast.board_eq
  refine ⟨hboard ▸ rfl, hboard ▸ rfl, hboard ▸ rfl, hboard ▸ rfl, hboard ▸ rfl, hbroken,
    fun waiter hmem now chance => hlast.fails hmem now chance, ?_, ?_⟩
  · rintro before transition after rfl
    obtain ⟨earlier, hearlier, hstep⟩ := Monitor.replay_split later
    have hbefore := Monitor.replay_broken hearlier
    rw [whole, Bool.false_or] at hbefore
    obtain ⟨-, attempt, base, grants, -, hanswer⟩ := (shut.stays hearlier).step hstep
    obtain ⟨hterms, hboard, hbase⟩ := grants.base_eq
    rw [((run.step made).replay hearlier).terms_eq] at hterms
    rw [(shut.stays hearlier).board_eq] at hboard
    rw [hbefore] at hbase
    rw [Monitor.answerOfClosed, hterms, hboard, hbase, grants.poison_eq] at hanswer
    refine ⟨attempt.request, grants.request?_eq, fun none => ?_, fun one => ?_⟩
    · rw [none, if_neg Bool.false_ne_true] at hanswer
      refine ⟨fun reads => ?_, fun reads => ?_, fun reads => ?_, fun needsOpen other => ?_,
        fun closes => ?_⟩
      · rw [hanswer, reads]
        rfl
      · rw [hanswer, reads]
        rfl
      · rw [hanswer, reads]
        rfl
      · rw [needsOpen, if_neg Bool.false_ne_true] at hanswer
        rw [Transition.text?_of_fault hanswer, Request.misuse_of_ne other]
        rfl
      · rw [closes] at hanswer
        exact Transition.text?_of_fault hanswer
    · rw [one, if_pos rfl] at hanswer
      rw [Transition.text?_of_fault hanswer]
      cases transition.move <;> rfl
  · intro others waiting resumes left
    exact shut.texts whole resumes later ((length_of_map_lying hlying).trans waiting) left

end

/-- Two submissions, one of them with a time limit, wait for the only place. -/
def standstill : List (Move Nat Nat) :=
  [.enter 1 (.submit 10 .endless) 0 0 .calm, .enter 2 (.submit 20 .endless) 0 0 .calm,
    .enter 3 (.submit 30 (.limited .hour)) 0 0 .calm]

/-- After the standstill the queue is closed, and somebody looks at the counters. The submission
with the time limit goes on before the other one, and so it is the one that finds the queue
closed. -/
theorem closing_of_standstill :
    ∃ history queue closed first second third seen more last, Run onePlace history queue ∧
      (Monitor.opened onePlace).replay standstill = some (history, queue) ∧
      queue.step (.enter 4 .close 0 0 .calm) = some (closed, some (.report ⟨3, 1, 0, 1⟩)) ∧
      closed.replay [.enter 5 .length 0 0 .calm, .enter 5 .isEmpty 0 0 .calm,
        .enter 5 .stats 0 0 .calm] = some ([first, second, third], seen) ∧
      first.answer = some (.count 0) ∧ second.answer = some (.isEmpty true) ∧
      third.answer = some (.stats ⟨1, 0, 3, 0, 1, 1⟩) ∧
      closed.replay [.resume 3 0 .calm, .resume 2 0 .calm] = some (more, last) ∧
      last.board.submitted = 1 ∧ last.board.handled = 0 ∧ last.board.pending.toList = [] ∧
      last.broken = true ∧
      more.map Transition.text? = [some "order queue used after close",
        some "condvar wait failed: PoisonError \x7b .. \x7d"] := by
  obtain ⟨history, queue, closed, first, second, third, seen, more, last, hreplay, isOpen, unbroken,
      outside, hlength, hsubmitted, hhandled, hpeak, made, looks, hfirst, hsecond, hthird, hcount,
      hempty, later, left⟩ :
      ∃ history queue closed first second third seen more last,
        (Monitor.opened onePlace).replay standstill = some (history, queue) ∧
        queue.board.closed = false ∧ queue.broken = false ∧ queue.waiting? 4 = none ∧
        queue.waiters.length = 1 + 1 ∧ queue.board.submitted = 1 ∧ queue.board.handled = 0 ∧
        queue.board.peak = 1 ∧
        queue.step (.enter 4 .close 0 0 .calm) = some (closed, some (.report ⟨3, 1, 0, 1⟩)) ∧
        closed.replay [.enter 5 .length 0 0 .calm, .enter 5 .isEmpty 0 0 .calm,
          .enter 5 .stats 0 0 .calm] = some ([first, second, third], seen) ∧
        first.before.request? first.move = some .length ∧
        second.before.request? second.move = some .isEmpty ∧
        third.before.request? third.move = some .stats ∧
        first.failed = false ∧ second.failed = false ∧
        closed.replay [.resume 3 0 .calm, .resume 2 0 .calm] = some (more, last) ∧
        last.waiters = [] :=
    ⟨_, _, _, _, _, _, _, _, _, rfl, rfl, rfl, rfl, rfl, rfl, rfl, rfl, rfl, rfl, rfl, rfl, rfl,
      rfl, rfl, rfl, rfl⟩
  have run : Run onePlace history queue := Run.opened.replay hreplay
  obtain ⟨shut, hshut, -, final⟩ := closing_is_final run isOpen unbroken outside 0 0 .calm
  obtain rfl : shut = closed := congrArg Prod.fst (Option.some.inj (hshut.symm.trans made))
  -- Nobody has failed while the counters are looked at.
  obtain ⟨-, -, -, -, -, -, -, told, -⟩ := final _ _ _ looks
  obtain ⟨_, hrequest, calm, -⟩ := told [] first [second, third] rfl
  have hlength' := (calm rfl).1 (Option.some.inj (hrequest.symm.trans hfirst))
  obtain ⟨_, hrequest, calm, -⟩ := told [first] second [third] rfl
  have hempty' := (calm (by simp [hcount])).2.1 (Option.some.inj (hrequest.symm.trans hsecond))
  obtain ⟨_, hrequest, calm, -⟩ := told [first, second] third [] rfl
  have hstats := (calm (by simp [hcount, hempty])).2.2.1
    (Option.some.inj (hrequest.symm.trans hthird))
  rw [hsubmitted, hhandled, hpeak] at hstats
  -- Then the two calls go on.
  obtain ⟨-, hnone, hsame, hsame', -, hbroken, -, -, htexts⟩ := final _ more last later
  have htexts := htexts 1 hlength (by simp [Move.resumes]) left
  refine ⟨history, queue, shut, first, second, third, seen, more, last, run, hreplay, made, looks,
    hlength', hempty', hstats, later, hsame.trans hsubmitted, hsame'.trans hhandled, hnone, ?_,
    htexts⟩
  have hfailed : more.any Transition.failed = (more.map Transition.text?).any Option.isSome :=
    List.any_map.symm
  rw [hbroken, hfailed, htexts]
  rfl

end OrderRail.Queue
