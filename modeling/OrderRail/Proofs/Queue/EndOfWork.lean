import OrderRail.Proofs.Queue.LastNumber
import OrderRail.Proofs.Queue.Surplus

/-!
# The end of work

A taker is told that work has ended when it finds nothing pending and as many orders handed out as
are expected. It never looks at the producers, and it need not: the accounts say that all expected
orders have been accepted by then, so nobody can bring another one.

From the first such state on the board never changes again but by closing. Whoever gets the lock of
the open queue is told the same: a taker that work has ended, and a submission that it is too late.
The last order wakes all takers, and none of them falls asleep after it.
-/

namespace OrderRail.Queue

variable {T P : Type}

/-- All expected orders have been accepted and handed out, and none is pending. -/
structure Board.Done (terms : Terms) (board : Board P) : Prop where
  submitted : board.submitted = terms.expected
  handled : board.handled = terms.expected
  empty : board.pending.toList = []

/-- On a tallied board that has handed out all expected orders the work is done. -/
theorem Tallied.done {terms : Terms} {board : Board P} (h : Tallied terms board)
    (all : terms.expected ≤ board.handled) : board.Done terms := by
  have hsubmitted := h.submitted_eq
  have hwanted := h.wanted
  refine ⟨by omega, by omega, ?_⟩
  rw [← List.length_eq_zero_iff, Fifo.length_toList]
  omega

section

variable {terms : Terms} {late : Bool} {shortage : Option StorageError} {board next : Board P}
  {request : Request P}

/-- Where the work is done, no order can be taken. -/
theorem Board.Done.pop?_eq_none (h : board.Done terms) : board.pending.pop? = none :=
  Fifo.pop?_eq_none_iff.mpr h.empty

/-- A taker is told that work has ended only where it is done. -/
theorem Decision.done_of_endOfWork {signals : List Signal}
    (tallied : board.closed = false → Tallied terms board)
    (h : Decision terms late shortage board request (.finish .endOfWork next signals)) :
    board.Done terms := by
  generalize hanswer : Answer.endOfWork = answer at h
  cases h with
  | endWork isOpen takes empty done => exact (tallied isOpen).done done
  | read reads => cases request <;> cases hanswer
  | accept | lack | refuse | leave | handOut | giveUp | decline | close => cases hanswer

/-- Where the work of an open queue is done, a taker is told so. -/
theorem Decision.eq_endWork {decided : Section P (Answer P)} (isOpen : board.closed = false)
    (done : board.Done terms) (takes : request.takes = true)
    (h : Decision terms late shortage board request decided) :
    decided = .finish .endOfWork board [.all .notEmpty] := by
  have hhandled := done.handled
  cases h with
  | endWork => rfl
  | handOut _ _ pops | countOverflow _ _ pops => cases pops.symm.trans done.pop?_eq_none
  | giveUp _ _ _ undone | decline _ _ undone | awaitOrder _ _ _ undone => omega
  | read reads =>
    cases request with
    | take | tryTake => cases reads
    | _ => cases takes
  | misuse isClosed => simp [isOpen] at isClosed
  | accept | lack | refuse | leave | awaitRoom | close | numberOverflow => cases takes

/-- An answered section accepts nothing where the work is done, and leaves it done. -/
theorem Decision.done_of_finish {answer : Answer P} {signals : List Signal}
    (done : board.Done terms)
    (h : Decision terms late shortage board request (.finish answer next signals)) :
    next.Done terms ∧ next.peak = board.peak ∧ ∀ number, answer ≠ .accepted number := by
  have hsubmitted := done.submitted
  cases h with
  | accept _ wanted => omega
  | handOut _ _ pops => cases pops.symm.trans done.pop?_eq_none
  | close => exact ⟨⟨hsubmitted, done.handled, rfl⟩, rfl, fun number => nofun⟩
  | read reads => exact ⟨done, rfl, by cases request <;> exact fun number => nofun⟩
  | lack | refuse | leave | endWork | giveUp | decline => exact ⟨done, rfl, fun number => nofun⟩

end

section

variable [DecidableEq T] {terms : Terms} {history : List (Transition T P)} {queue : Monitor T P}

/-- A run that has handed out all expected orders has its work done, even if the queue has been
closed since. -/
theorem Run.done (run : Run terms history queue) (all : queue.board.handled = terms.expected) :
    queue.board.Done terms := by
  cases hclosed : queue.board.closed with
  | false => exact (run.tallied hclosed).done all.ge
  | true =>
    obtain ⟨transition, hmem, report, hanswer⟩ := run.closed_iff.mp hclosed
    obtain ⟨hopen, -, hboard⟩ := run.closed_by hmem hanswer
    obtain ⟨earlier, hearlier⟩ := run.before_mem hmem
    rw [hboard] at all ⊢
    have hdone := (hearlier.tallied hopen).done all.ge
    exact ⟨hdone.submitted, hdone.handled, rfl⟩

/-- An open queue whose work is done has a whole lock. -/
theorem Run.unbroken_of_done (run : Run terms history queue) (isOpen : queue.board.closed = false)
    (done : queue.board.Done terms) : queue.broken = false := by
  cases hbroken : queue.broken with
  | false => rfl
  | true =>
    have hlast := (run.last_of_broken isOpen hbroken).1
    have hsubmitted := done.submitted
    omega

/-- In an open queue whose work is done no take sleeps. -/
theorem Run.awake_of_done (run : Run terms history queue) (isOpen : queue.board.closed = false)
    (done : queue.board.Done terms) {waiter : Waiter T P} (hmem : waiter ∈ queue.waiters)
    (htake : waiter.request.isTake = true) : waiter.sleep ≠ .asleep := by
  intro asleep
  obtain ⟨hkind, -⟩ := Request.kind_of_condition? (run.orderly.apt waiter hmem)
  have hcondition : waiter.condition = .notEmpty := by simpa [htake] using hkind
  have hsleepers := sleepers_pos hmem asleep
  rw [hcondition] at hsleepers
  have htakers :=
    (run.balanced isOpen (run.unbroken_of_done isOpen done)).takers hsleepers
  have hhandled := done.handled
  omega

/-- A step accepts nothing where the work is done, and leaves it done. -/
theorem step_done {next : Monitor T P} {move : Move T P} {answer : Option (Answer P)}
    (run : Run terms history queue) (done : queue.board.Done terms)
    (made : queue.step move = some (next, answer)) :
    next.board.Done terms ∧ next.board.peak = queue.board.peak ∧
      ∀ number, answer ≠ some (.accepted number) := by
  rcases Monitor.step_board made with
    ⟨hboard, hanswer⟩ | ⟨late, shortage, request, value, signals, rfl, decision⟩ |
      ⟨late, shortage, request, fault, rfl, decision⟩
  · refine ⟨hboard ▸ done, congrArg Board.peak hboard, fun number => ?_⟩
    rcases hanswer with rfl | ⟨fault, rfl⟩ <;> nofun
  · rw [run.terms_eq] at decision
    obtain ⟨hdone, hpeak, hanswer⟩ := decision.done_of_finish done
    exact ⟨hdone, hpeak, fun number haccepted => hanswer number (Option.some.inj haccepted)⟩
  · have hboard := Tallied.fail (run.terms_eq ▸ run.tallied) decision
    exact ⟨hboard ▸ done, congrArg Board.peak hboard, fun number => nofun⟩

/-- Where the work is done it stays done, and the peak stays what it is. -/
theorem Run.stays_done (run : Run terms history queue) (done : queue.board.Done terms)
    {moves : List (Move T P)} {more : List (Transition T P)} {last : Monitor T P}
    (later : queue.replay moves = some (more, last)) :
    last.board.Done terms ∧ last.board.peak = queue.board.peak := by
  refine (Monitor.replay_keeps (p := fun state => (∃ history, Run terms history state) ∧
    state.board.Done terms ∧ state.board.peak = queue.board.peak) ?_ ⟨⟨_, run⟩, done, rfl⟩ later).2
  rintro state move answer next ⟨⟨earlier, hearlier⟩, hdone, hpeak⟩ made
  obtain ⟨hnext, hsame, -⟩ := step_done hearlier hdone made
  exact ⟨⟨_, hearlier.step made⟩, hnext, hsame.trans hpeak⟩

/-- A step tells that work has ended only where it is done. -/
theorem Run.done_of_endOfWork (run : Run terms history queue) {next : Monitor T P}
    {move : Move T P} (made : queue.step move = some (next, some .endOfWork)) :
    queue.board.Done terms := by
  rcases Monitor.step_board made with
    ⟨-, h | ⟨fault, h⟩⟩ | ⟨late, shortage, request, value, signals, h, decision⟩ |
      ⟨late, shortage, request, fault, h, decision⟩
  · cases h
  · cases h
  · cases h
    rw [run.terms_eq] at decision
    exact decision.done_of_endOfWork run.tallied
  · cases h

/-- In an open queue whose work is done, a call that has the lock gets the only answer that its
section can bring. -/
theorem Run.answer_of_done (run : Run terms history queue) (isOpen : queue.board.closed = false)
    (done : queue.board.Done terms) {move : Move T P} {attempt : Attempt T P} {base : Monitor T P}
    (grants : queue.Grants move attempt base) {value : Answer P} {signals : List Signal}
    (only : ∀ decided, Decision terms attempt.late attempt.chance.shortage queue.board
      attempt.request decided → decided = .finish value queue.board signals) :
    ∃ next, queue.step move = some (next, some value) := by
  obtain ⟨hterms, hboard, hbroken⟩ := grants.base_eq
  have unbroken := hbroken.trans (run.unbroken_of_done isOpen done)
  have yields := Monitor.serve_yields base attempt
  rw [← hterms.trans run.terms_eq, ← hboard] at only
  obtain ⟨-, hanswer⟩ := yields.of_finish unbroken only
  exact ⟨_, grants.step_eq.trans (congrArg some (Prod.ext rfl hanswer))⟩

/-- The end of work is told only when it has come, and it never goes away.

In any state of any run, a step that tells it finds all expected orders accepted and handed out, and
none pending. Once as many orders have been handed out as are expected, the counters stay as they
are and nothing more is accepted, whatever moves are made. As long as the queue is open, no take
sleeps, every call that takes and gets the lock is told that work has ended, and every submission
that gets the lock is refused as one too many. -/
theorem end_of_work_lasts (run : Run terms history queue) :
    (∀ move next, queue.step move = some (next, some .endOfWork) → queue.board.Done terms) ∧
    (queue.board.handled = terms.expected →
      ∀ moves more last, queue.replay moves = some (more, last) →
        last.board.Done terms ∧ last.board.peak = queue.board.peak ∧
        (∀ transition ∈ more, ∀ number, transition.answer ≠ some (.accepted number)) ∧
        (last.board.closed = false →
          (∀ waiter ∈ last.waiters, waiter.request.isTake = true → waiter.sleep ≠ .asleep) ∧
          ∀ move attempt base, last.Grants move attempt base →
            (attempt.request.takes = true →
              ∃ next, last.step move = some (next, some .endOfWork)) ∧
            ∀ payload patience, attempt.request = .submit payload patience →
              ∃ next, last.step move =
                some (next, some (.rejected ⟨payload, .oversubscribed terms.expected⟩)))) := by
  refine ⟨fun move next made => run.done_of_endOfWork made, fun all moves more last later => ?_⟩
  have done := run.done all
  have hlast := run.replay later
  obtain ⟨hdone, hpeak⟩ := run.stays_done done later
  refine ⟨hdone, hpeak, ?_, fun isOpen => ⟨?_, ?_⟩⟩
  · intro transition hmem
    obtain ⟨before, after, rfl⟩ := List.append_of_mem hmem
    obtain ⟨earlier, hearlier, made⟩ := Monitor.replay_split later
    exact (step_done (run.replay hearlier) (run.stays_done done hearlier).1 made).2.2
  · intro waiter hmem htake
    exact hlast.awake_of_done isOpen hdone hmem htake
  · intro move attempt base grants
    refine ⟨fun takes => ?_, fun payload patience hrequest => ?_⟩
    · exact hlast.answer_of_done isOpen hdone grants fun decided decision =>
        decision.eq_endWork isOpen hdone takes
    · exact hlast.answer_of_done isOpen hdone grants fun decided decision =>
        (hrequest ▸ decision).eq_refuse isOpen hdone.submitted.ge

end

/-- Two takers fall asleep at once. The first order goes to the one that it wakes, and the second
one is taken by somebody else before the other taker can go on. -/
def theft : List (Move Nat Nat) :=
  [.enter 1 (.take .endless) 0 0 .calm, .enter 2 (.take .endless) 0 0 .calm,
    .enter 3 (.submit 10 .endless) 0 0 .calm, .resume 1 0 .calm,
    .enter 3 (.submit 20 .endless) 0 0 .calm, .enter 4 .tryTake 0 0 .calm]

/-- After the theft the taker that was robbed is awake and is told that work has ended. -/
theorem work_ended_by_theft :
    ∃ history queue next, Run twoOrders history queue ∧
      (Monitor.opened twoOrders).replay theft = some (history, queue) ∧
      queue.board.handled = 2 ∧ queue.board.Done twoOrders ∧
      queue.waiters = [⟨2, .take .endless, .notEmpty, none, .roused true⟩] ∧
      queue.step (.resume 2 0 .calm) = some (next, some .endOfWork) := by
  obtain ⟨history, queue, hreplay, isOpen, hhandled, hwaiters⟩ :
      ∃ history queue,
        (Monitor.opened twoOrders).replay theft = some (history, queue) ∧
        queue.board.closed = false ∧ queue.board.handled = 2 ∧
        queue.waiters = [⟨2, .take .endless, .notEmpty, none, .roused true⟩] :=
    ⟨_, _, rfl, rfl, rfl, rfl⟩
  have run : Run twoOrders history queue := Run.opened.replay hreplay
  obtain ⟨hdone, -, -, hanswers⟩ := (end_of_work_lasts run).2 hhandled [] [] queue rfl
  have grants : queue.Grants (.resume 2 0 .calm) _ (queue.without 2) :=
    .resume (by rw [Monitor.waiting?, hwaiters]; rfl) rfl
  obtain ⟨next, made⟩ := ((hanswers isOpen).2 _ _ _ grants).1 rfl
  exact ⟨history, queue, next, run, hreplay, hhandled, hdone, hwaiters, made⟩

end OrderRail.Queue
