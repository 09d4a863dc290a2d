import OrderRail.Proofs.Queue.Accounting

/-!
# No wakeup is lost

Most signals are meant for a single sleeper, and the call that such a signal reaches may find that
another one was faster, give up, or go back to sleep. Nobody is forgotten all the same: as long as a
taker sleeps, every pending order has a called taker that has not gone on yet, and as long as a
submission sleeps that is still wanted, every free place has a called submission.

A call that is granted the lock is not counted any more. Until its section has ended the balance may
be off by one on the condition on which it waits, and every way in which its section can end
restores the balance. A submission that finds a free place and no memory for it would not, but
nobody depends on it: whoever sleeps for room has seen every place filled, and memory that has been
used is kept.
-/

namespace OrderRail.Queue

variable {T P : Type}

/-- Whether a request submits a payload. -/
def Request.isSubmission : Request P → Bool
  | .submit .. => true
  | _ => false

/-- Whether a request waits for an order. -/
def Request.isTake : Request P → Bool
  | .take _ => true
  | _ => false

/-- How many waiting calls of a kind have been signalled and have not gone on yet. -/
def signalledCalls (kind : Request P → Bool) (waiters : List (Waiter T P)) : Nat :=
  waiters.countP fun waiter => waiter.sleep == .roused true && kind waiter.request

/-- Takes wait for orders, and submissions wait for room. -/
theorem Request.kind_of_condition? {request : Request P} {condition : Condition}
    (h : request.condition? = some condition) :
    request.isTake = (condition == .notEmpty) ∧ request.isSubmission = (condition == .notFull) := by
  cases request with
  | submit payload patience => cases h; exact ⟨rfl, rfl⟩
  | take patience => cases h; exact ⟨rfl, rfl⟩
  | _ => cases h

/-- Among orderly waiters, those called for orders are the signalled takes. -/
theorem Orderly.called_notEmpty {waiters : List (Waiter T P)} (h : Orderly waiters) :
    called .notEmpty waiters = signalledCalls Request.isTake waiters := by
  apply List.countP_congr
  intro waiter hmem
  rw [Waiter.calledOn, (Request.kind_of_condition? (h.apt waiter hmem)).1]

/-- Among orderly waiters, those called for room are the signalled submissions. -/
theorem Orderly.called_notFull {waiters : List (Waiter T P)} (h : Orderly waiters) :
    called .notFull waiters = signalledCalls Request.isSubmission waiters := by
  apply List.countP_congr
  intro waiter hmem
  rw [Waiter.calledOn, (Request.kind_of_condition? (h.apt waiter hmem)).2]

/-- A call that sleeps is one of the sleepers on its condition. -/
theorem sleepers_pos {waiters : List (Waiter T P)} {waiter : Waiter T P} (hmem : waiter ∈ waiters)
    (asleep : waiter.sleep = .asleep) : 0 < sleepers waiter.condition waiters :=
  List.countP_pos_iff.mpr ⟨waiter, hmem, Waiter.sleepsOn_iff.mpr ⟨asleep, rfl⟩⟩

/-- Where everybody sleeps, nobody has been called. -/
theorem called_of_asleep {waiters : List (Waiter T P)}
    (asleep : ∀ waiter ∈ waiters, waiter.sleep = .asleep) (condition : Condition) :
    called condition waiters = 0 := by
  apply List.countP_eq_zero.mpr
  intro waiter hmem hcalled
  simp [Waiter.calledOn, asleep waiter hmem] at hcalled

/-- The call that has the lock, counted on one condition. -/
def spare (condition : Condition) (request : Option (Request P)) : Nat :=
  if request.bind Request.condition? = some condition then 1 else 0

/-- The balance between what sleepers wait for and the calls that have been called for it, where a
call that has the lock may be one of them. -/
structure Balanced (terms : Terms) (board : Board P) (waiters : List (Waiter T P))
    (current : Option (Request P)) : Prop where
  takers : 0 < sleepers .notEmpty waiters → board.handled < terms.expected ∧
    board.pending.size ≤ called .notEmpty waiters + spare .notEmpty current
  submitters : 0 < sleepers .notFull waiters → board.submitted < terms.expected →
    terms.capacity ≤ board.pending.size + called .notFull waiters + spare .notFull current

/-- Without a call that has the lock nothing is spared. -/
@[simp]
theorem spare_none (condition : Condition) : spare condition (none : Option (Request P)) = 0 := rfl

/-- One more sleeper on a condition. -/
theorem sleepers_append (condition : Condition) (waiters : List (Waiter T P))
    (attempt : Attempt T P) (other : Condition) :
    sleepers condition (waiters ++ [attempt.waiter other]) =
      sleepers condition waiters + if other = condition then 1 else 0 := by
  by_cases h : other = condition <;>
    simp [sleepers, Waiter.sleepsOn, Attempt.waiter, h]

/-- A call that falls asleep is not called. -/
theorem called_append (condition : Condition) (waiters : List (Waiter T P))
    (attempt : Attempt T P) (other : Condition) :
    called condition (waiters ++ [attempt.waiter other]) = called condition waiters := by
  simp [called, Waiter.calledOn, Attempt.waiter]

/-- What the signals of a taker do to the counts: one submission is called, and nobody is left
sleeping for orders once all of them have been handed out. -/
theorem counts_takerSignals (terms : Terms) (handled choice : Nat) (waiters : List (Waiter T P)) :
    (sleepers .notFull ((takerSignals terms handled).foldl (Signal.deliver choice) waiters) =
        sleepers .notFull waiters - 1 ∧
      called .notFull ((takerSignals terms handled).foldl (Signal.deliver choice) waiters) =
        called .notFull waiters + min 1 (sleepers .notFull waiters)) ∧
      (terms.expected ≤ handled ∧
          sleepers .notEmpty ((takerSignals terms handled).foldl (Signal.deliver choice) waiters) =
            0 ∨
        handled < terms.expected ∧
          sleepers .notEmpty ((takerSignals terms handled).foldl (Signal.deliver choice) waiters) =
            sleepers .notEmpty waiters ∧
          called .notEmpty ((takerSignals terms handled).foldl (Signal.deliver choice) waiters) =
            called .notEmpty waiters) := by
  have hone := counts_deliver_one choice .notFull waiters
  have hother := counts_deliver_one_of_ne choice (show Condition.notEmpty ≠ .notFull by decide)
    waiters
  by_cases hdone : terms.expected ≤ handled
  · have hsignals : takerSignals terms handled = [.one .notFull, .all .notEmpty] := by
      simp [takerSignals, hdone]
    have hall := counts_deliver_all_of_ne choice (show Condition.notFull ≠ .notEmpty by decide)
      (Signal.deliver choice waiters (.one .notFull))
    rw [hsignals]
    simp only [List.foldl_cons, List.foldl_nil]
    rw [hall.1, hall.2]
    exact ⟨hone, .inl ⟨hdone, sleepers_deliver_all choice .notEmpty _⟩⟩
  · have hsignals : takerSignals terms handled = [.one .notFull] := by
      simp [takerSignals, hdone]
    rw [hsignals]
    exact ⟨hone, .inr ⟨by omega, hother⟩⟩

/-- Requests that take an order do not wait for room. -/
theorem spare_notFull_of_takes {request : Request P} (takes : request.takes = true) :
    spare .notFull (some request) = 0 := by
  cases request <;> first | rfl | cases takes

/-- Requests that only read do not wait. -/
theorem spare_of_reads (condition : Condition) {request : Request P}
    (reads : request.reads = true) : spare condition (some request) = 0 := by
  cases request <;> first | rfl | cases reads

/-- A call that has the lock and is counted for at most one waiter. -/
theorem spare_le (condition : Condition) (request : Option (Request P)) :
    spare condition request ≤ 1 := by
  unfold spare
  split <;> omega

namespace Balanced

variable {terms : Terms} {board : Board P} {waiters : List (Waiter T P)} {request : Request P}

/-- A section that ends with an answer restores the balance on a board that it leaves open, provided
that nobody sleeps for room before all places have been filled once. -/
theorem finish {late : Bool} {shortage : Option StorageError} {answer : Answer P} {next : Board P}
    {signals : List Signal} (h : Balanced terms board waiters (some request)) (choice : Nat)
    (filled : 0 < sleepers .notFull waiters → terms.capacity ≤ board.peak)
    (decision : Decision terms late shortage board request (.finish answer next signals))
    (isOpen : next.closed = false) :
    Balanced terms next (signals.foldl (Signal.deliver choice) waiters) none := by
  obtain ⟨htakers, hsubmitters⟩ := h
  cases decision with
  | @accept payload patience _ wanted room granted fits =>
    obtain ⟨hsleepers, hcalled⟩ := counts_deliver_one choice .notEmpty waiters
    obtain ⟨hothers, hcalledOthers⟩ := counts_deliver_one_of_ne choice
      (show Condition.notFull ≠ .notEmpty by decide) waiters
    have hspare : spare .notEmpty (some (.submit payload patience)) = 0 := rfl
    have hspare' := spare_le .notFull (some (.submit payload patience))
    have hsubmitted : (board.accepting payload).submitted = board.nextNumber := rfl
    have hbefore : board.submitted = board.nextNumber - 1 := rfl
    have hsize : (board.accepting payload).pending.size = board.pending.size + 1 := rfl
    have hhandled : (board.accepting payload).handled = board.handled := rfl
    simp only [List.foldl_cons, List.foldl_nil]
    constructor
    · intro hsleep
      have := htakers (by omega)
      rw [spare_none]
      omega
    · intro hsleep hwanted
      have := hsubmitters (by omega) (by omega)
      rw [spare_none]
      omega
  | @lack payload patience cause _ wanted room denied =>
    have := (Board.peak_le_of_lacks denied).1
    refine ⟨htakers, fun hsleep hwanted => ?_⟩
    have := filled hsleep
    omega
  | @refuse payload patience _ unwanted =>
    refine ⟨htakers, fun hsleep hwanted => ?_⟩
    omega
  | @leave payload limit _ isLate wanted full =>
    refine ⟨htakers, fun hsleep hwanted => ?_⟩
    exact full.trans (Nat.le_add_right _ _)
  | @handOut request order rest _ takes pops fits =>
    obtain ⟨⟨hfull, hfullCalled⟩, hempty⟩ :=
      counts_takerSignals terms (board.handled + 1) choice waiters
    have hspare := spare_notFull_of_takes takes
    have hspare' := spare_le .notEmpty (some request)
    have hsize := size_of_pop? pops
    have hhandled : (board.handingOut rest).handled = board.handled + 1 := rfl
    have hrest : (board.handingOut rest).pending.size = rest.size := rfl
    have hsubmitted : (board.handingOut rest).submitted = board.submitted := rfl
    constructor
    · intro hsleep
      rw [spare_none]
      rcases hempty with ⟨hdone, hnone⟩ | ⟨hundone, hsame, hcalled⟩
      · omega
      · have := htakers (by omega)
        omega
    · intro hsleep hwanted
      have := hsubmitters (by omega) (by omega)
      rw [spare_none]
      omega
  | endWork _ takes empty done =>
    obtain ⟨hothers, hcalledOthers⟩ := counts_deliver_all_of_ne choice
      (show Condition.notFull ≠ .notEmpty by decide) waiters
    have hnone := sleepers_deliver_all choice .notEmpty waiters
    have hspare := spare_notFull_of_takes takes
    simp only [List.foldl_cons, List.foldl_nil]
    constructor
    · intro hsleep
      omega
    · intro hsleep hwanted
      have := hsubmitters (by omega) hwanted
      rw [spare_none]
      omega
  | giveUp _ isLate empty undone =>
    refine ⟨fun hsleep => ⟨undone, ?_⟩, hsubmitters⟩
    exact empty.le.trans (Nat.zero_le _)
  | decline _ empty undone => exact ⟨htakers, hsubmitters⟩
  | close => cases isOpen
  | read reads =>
    rw [spare_of_reads _ reads] at htakers hsubmitters
    exact ⟨htakers, hsubmitters⟩

/-- A call that has to wait restores the balance before it falls asleep. -/
theorem wait {late : Bool} {shortage : Option StorageError} {attempt : Attempt T P}
    {condition : Condition} (h : Balanced terms board waiters (some attempt.request))
    (decision : Decision terms late shortage board attempt.request (.wait condition)) :
    Balanced terms board (waiters ++ [attempt.waiter condition]) none := by
  obtain ⟨htakers, hsubmitters⟩ := h
  generalize attempt.request = request at decision htakers hsubmitters
  cases decision with
  | awaitRoom _ patient wanted full =>
    constructor
    · intro hsleep
      rw [sleepers_append] at hsleep
      rw [called_append]
      exact htakers (by simpa using hsleep)
    · intro hsleep hwanted
      rw [spare_none]
      omega
  | awaitOrder _ patient empty undone =>
    constructor
    · intro hsleep
      exact ⟨undone, empty.le.trans (Nat.zero_le _)⟩
    · intro hsleep hwanted
      rw [sleepers_append] at hsleep
      rw [called_append]
      exact hsubmitters (by simpa using hsleep) hwanted

end Balanced

section

variable [DecidableEq T] {queue base next : Monitor T P} {move : Move T P} {attempt : Attempt T P}
  {answer : Option (Answer P)}

/-- A call that is granted the lock has not been asleep, and if it had been called, then on the
condition of its request. -/
theorem Monitor.Grants.counts (h : queue.Grants move attempt base)
    (orderly : Orderly queue.waiters) (condition : Condition) :
    sleepers condition base.waiters = sleepers condition queue.waiters ∧
      called condition queue.waiters ≤
        called condition base.waiters + spare condition (some attempt.request) := by
  cases h with
  | enter outside => exact ⟨rfl, Nat.le_add_right _ _⟩
  | @resume thread waiter signalled now chance inside awake =>
    have hperm := perm_without orderly inside
    have hmem : waiter ∈ queue.waiters := List.mem_of_find?_eq_some inside
    have hsleeps : waiter.sleepsOn condition = false := by simp [Waiter.sleepsOn, awake]
    rw [sleepers, sleepers, called, called, hperm.countP_eq, hperm.countP_eq, List.countP_cons,
      List.countP_cons, hsleeps]
    refine ⟨rfl, Nat.add_le_add_left ?_ _⟩
    by_cases hcalled : waiter.calledOn condition = true
    · have hcondition := (Waiter.calledOn_iff.mp hcalled).2
      have hrequest := orderly.apt waiter hmem
      simp [spare, hrequest, hcondition, hcalled]
    · simp [hcalled]

/-- Waking up without a signal takes a sleeper away and calls nobody. -/
theorem counts_rousing {thread : T} {waiter : Waiter T P} (orderly : Orderly queue.waiters)
    (inside : queue.waiting? thread = some waiter) (asleep : waiter.sleep = .asleep)
    (condition : Condition) :
    sleepers condition (queue.rousing thread).waiters ≤ sleepers condition queue.waiters ∧
      called condition (queue.rousing thread).waiters = called condition queue.waiters := by
  obtain ⟨before, after, hsplit, hrousing⟩ := Monitor.rousing_split orderly inside
  rw [hsplit, hrousing]
  constructor
  · have hroused : Waiter.sleepsOn condition { waiter with sleep := .roused false } = false := rfl
    simp only [sleepers, List.countP_append, List.countP_cons, hroused, Bool.false_eq_true,
      if_false]
    omega
  · simp [called, Waiter.calledOn, asleep]

/-- A call that is granted the lock puts the balance off by at most itself. -/
theorem Balanced.grant (h : Balanced queue.terms queue.board queue.waiters none)
    (orderly : Orderly queue.waiters) (grants : queue.Grants move attempt base) :
    Balanced base.terms base.board base.waiters (some attempt.request) := by
  obtain ⟨htakers, hsubmitters⟩ := h
  obtain ⟨hterms, hboard, -⟩ := grants.base_eq
  obtain ⟨hsleepers, hcalled⟩ := grants.counts orderly .notEmpty
  obtain ⟨hsleepers', hcalled'⟩ := grants.counts orderly .notFull
  rw [hterms, hboard]
  rw [spare_none] at htakers hsubmitters
  constructor
  · intro hsleep
    have := htakers (by omega)
    omega
  · intro hsleep hwanted
    have := hsubmitters (by omega) hwanted
    omega

/-- Whoever waits for room has seen all places filled. -/
theorem Run.filled {terms : Terms} {history : List (Transition T P)}
    (run : Run terms history queue) :
    ∀ waiter ∈ queue.waiters, waiter.condition = .notFull →
      terms.capacity ≤ queue.board.peak := by
  induction run with
  | opened => nofun
  | @step history queue next move answer run made ih =>
    have bounded := run.isPeak.1 queue run.mem_states
    have raised := peak_le_of_step made
    refine Monitor.forall_of_step made ?_ ?_ ?_ ?_
    · intro waiter other same h hcondition
      exact h (congrArg Waiter.condition same ▸ hcondition)
    · exact fun thread _ waiter hmem hcondition => (ih waiter hmem hcondition).trans raised
    · exact fun waiter hmem _ hcondition => (ih waiter hmem hcondition).trans raised
    · intro attempt base condition grants decision hcondition
      obtain rfl : condition = .notFull := hcondition
      obtain ⟨hterms, hboard, -⟩ := grants.base_eq
      have full : terms.capacity ≤ queue.board.pending.size := by
        rw [hterms, hboard, run.terms_eq] at decision
        generalize attempt.request = request at decision
        cases decision with
        | awaitRoom _ _ _ full => exact full
      exact (full.trans bounded).trans raised

/-- Every step that leaves the queue open and unbroken keeps the balance, provided that nobody waits
for room before all places have been filled once. -/
theorem step_balanced (orderly : Orderly queue.waiters)
    (filled : ∀ waiter ∈ queue.waiters, waiter.condition = .notFull →
      queue.terms.capacity ≤ queue.board.peak)
    (h : queue.board.closed = false → queue.broken = false →
      Balanced queue.terms queue.board queue.waiters none)
    (made : queue.step move = some (next, answer)) (isOpen : next.board.closed = false)
    (unbroken : next.broken = false) :
    Balanced next.terms next.board next.waiters none := by
  have hopen : queue.board.closed = false := by
    cases hclosed : queue.board.closed with
    | false => rfl
    | true =>
      rw [(step_of_closed hclosed made).1, hclosed] at isOpen
      cases isOpen
  have hbalanced := h hopen (Monitor.step_unbroken made unbroken).1
  rcases Monitor.step_cases made with
    ⟨thread, waiter, -, inside, asleep, rfl, -⟩ | ⟨attempt, base, grants, yields⟩
  · obtain ⟨htakers, hsubmitters⟩ := hbalanced
    obtain ⟨hsleepers, hcalled⟩ := counts_rousing orderly inside asleep .notEmpty
    obtain ⟨hsleepers', hcalled'⟩ := counts_rousing orderly inside asleep .notFull
    constructor
    · intro hsleep
      rw [hcalled]
      exact htakers (by omega)
    · intro hsleep hwanted
      rw [hcalled']
      exact hsubmitters (by omega) hwanted
  · have hbase := hbalanced.grant orderly grants
    cases yields with
    | broken isBroken => simp [isBroken] at unbroken
    | finish hbroken decision =>
      refine hbase.finish attempt.chance.sleeper (fun hsleep => ?_) decision isOpen
      obtain ⟨hterms, hboard, -⟩ := grants.base_eq
      obtain ⟨waiter, hmem, hsleeps⟩ := List.countP_pos_iff.mp hsleep
      rw [hterms, hboard]
      exact filled waiter (grants.subset hmem) (Waiter.sleepsOn_iff.mp hsleeps).2
    | wait hbroken decision => exact hbase.wait decision
    | fail hbroken decision => cases unbroken

/-- In a run the balance is kept while the queue is open and unbroken. -/
theorem Run.balanced {terms : Terms} {history : List (Transition T P)}
    (run : Run terms history queue) :
    queue.board.closed = false → queue.broken = false →
      Balanced terms queue.board queue.waiters none := by
  rw [← run.terms_eq]
  induction run with
  | opened =>
    intro isOpen unbroken
    exact ⟨fun hsleep => absurd hsleep (Nat.lt_irrefl 0),
      fun hsleep => absurd hsleep (Nat.lt_irrefl 0)⟩
  | step run made ih =>
    intro isOpen unbroken
    exact step_balanced run.orderly (run.terms_eq ▸ run.filled) ih made isOpen unbroken

/-- Where everybody sleeps, a take sleeps only while there is nothing to take and more to come, and
a submission sleeps only while there is no room or nothing more is wanted. -/
theorem Run.sleeping {terms : Terms} {history : List (Transition T P)}
    (run : Run terms history queue) (isOpen : queue.board.closed = false)
    (unbroken : queue.broken = false) (asleep : ∀ waiter ∈ queue.waiters, waiter.sleep = .asleep)
    {waiter : Waiter T P} (hmem : waiter ∈ queue.waiters) :
    (waiter.condition = .notEmpty →
        queue.board.pending.size = 0 ∧ queue.board.handled < terms.expected) ∧
      (waiter.condition = .notFull →
        queue.board.pending.size = terms.capacity ∨ queue.board.submitted = terms.expected) := by
  obtain ⟨htakers, hsubmitters⟩ := run.balanced isOpen unbroken
  have htallied := run.tallied isOpen
  have hpos := sleepers_pos hmem (asleep waiter hmem)
  rw [called_of_asleep asleep, spare_none] at htakers hsubmitters
  constructor
  · intro hcondition
    rw [hcondition] at hpos
    have := htakers hpos
    omega
  · intro hcondition
    rw [hcondition] at hpos
    have hroom := htallied.room
    have hwanted := htallied.wanted
    have hsubmitted := htallied.submitted_eq
    by_cases hmore : queue.board.submitted < terms.expected
    · have := hsubmitters hpos hmore
      omega
    · omega

/-- In a queue at rest a take waits only at an empty queue that is to hand out more, and a
submission only at a full one or at one that needs no more orders. -/
theorem Run.waits_at_rest {terms : Terms} {history : List (Transition T P)}
    (run : Run terms history queue) (isOpen : queue.board.closed = false)
    (unbroken : queue.broken = false) (asleep : ∀ waiter ∈ queue.waiters, waiter.sleep = .asleep)
    {waiter : Waiter T P} (hmem : waiter ∈ queue.waiters) :
    (waiter.request.isTake = true →
        queue.board.pending.size = 0 ∧ queue.board.handled < terms.expected) ∧
      (waiter.request.isSubmission = true →
        queue.board.pending.size = terms.capacity ∨ queue.board.submitted = terms.expected) := by
  obtain ⟨htake, hsubmission⟩ := Request.kind_of_condition? (run.orderly.apt waiter hmem)
  rw [htake, hsubmission, beq_iff_eq, beq_iff_eq]
  exact run.sleeping isOpen unbroken asleep hmem

/-- No wakeup is lost, in any state of any run that leaves the queue open and unbroken.

As long as a take sleeps, more orders are to be handed out, and there are no more orders pending
than takes that have been signalled and have not gone on yet. As long as a submission sleeps and
more orders are expected, there are no more free places than submissions that have been signalled
and have not gone on yet. So if everybody who waits is asleep, the takes wait at an empty queue, and
the submissions wait at a full one or at one that needs no more orders. -/
theorem no_lost_wakeup {terms : Terms} {history : List (Transition T P)}
    (run : Run terms history queue) (isOpen : queue.board.closed = false)
    (unbroken : queue.broken = false) :
    ((∃ waiter ∈ queue.waiters, waiter.sleep = .asleep ∧ waiter.request.isTake = true) →
      queue.board.handled < terms.expected ∧
        queue.board.pending.size ≤ signalledCalls Request.isTake queue.waiters) ∧
    ((∃ waiter ∈ queue.waiters, waiter.sleep = .asleep ∧ waiter.request.isSubmission = true) →
      queue.board.submitted < terms.expected →
        terms.capacity - queue.board.pending.size ≤
          signalledCalls Request.isSubmission queue.waiters) ∧
    ((∀ waiter ∈ queue.waiters, waiter.sleep = .asleep) → ∀ waiter ∈ queue.waiters,
      (waiter.request.isTake = true ∨ waiter.request.isSubmission = true) ∧
      (waiter.request.isTake = true →
        queue.board.pending.toList = [] ∧ queue.board.handled < terms.expected) ∧
      (waiter.request.isSubmission = true →
        queue.board.pending.size = terms.capacity ∨
          queue.board.submitted = terms.expected)) := by
  have orderly := run.orderly
  obtain ⟨htakers, hsubmitters⟩ := run.balanced isOpen unbroken
  rw [orderly.called_notEmpty, spare_none] at htakers
  rw [orderly.called_notFull, spare_none] at hsubmitters
  refine ⟨?_, ?_, ?_⟩
  · rintro ⟨waiter, hmem, asleep, htake⟩
    obtain ⟨hkind, -⟩ := Request.kind_of_condition? (orderly.apt waiter hmem)
    have hcondition : waiter.condition = .notEmpty := by simpa [htake] using hkind
    exact htakers (hcondition ▸ sleepers_pos hmem asleep)
  · rintro ⟨waiter, hmem, asleep, hsubmission⟩ hwanted
    obtain ⟨-, hkind⟩ := Request.kind_of_condition? (orderly.apt waiter hmem)
    have hcondition : waiter.condition = .notFull := by simpa [hsubmission] using hkind
    have := hsubmitters (hcondition ▸ sleepers_pos hmem asleep) hwanted
    omega
  · intro asleep waiter hmem
    obtain ⟨htake, hsubmission⟩ := Request.kind_of_condition? (orderly.apt waiter hmem)
    obtain ⟨hempty, hfull⟩ := run.sleeping isOpen unbroken asleep hmem
    rw [htake, hsubmission, beq_iff_eq, beq_iff_eq, ← List.length_eq_zero_iff,
      Fifo.length_toList]
    refine ⟨?_, hempty, hfull⟩
    cases waiter.condition with
    | notEmpty => exact .inl rfl
    | notFull => exact .inr rfl

end

/-- Terms for a queue of one place that expects as many orders. -/
def onePlace : Terms := { twoPlaces with capacity := 1, capacity_pos := Nat.one_pos }

/-- Two submissions wait for the only place when the order there is taken. -/
def crowd : List (Move Nat Nat) :=
  [.enter 1 (.submit 10 .endless) 0 0 .calm, .enter 2 (.submit 20 .endless) 0 0 .calm,
    .enter 3 (.submit 30 .endless) 0 0 .calm, .enter 4 .tryTake 0 0 .calm]

/-- One of the crowd is called for the free place, while the other one sleeps on. -/
theorem wakeup_in_crowd :
    ∃ history queue, Run onePlace history queue ∧
      (Monitor.opened onePlace).replay crowd = some (history, queue) ∧
      queue.board.closed = false ∧ queue.broken = false ∧ queue.board.submitted = 1 ∧
      queue.waiters.map (·.sleep) = [.roused true, .asleep] ∧
      1 - queue.board.pending.size ≤ signalledCalls Request.isSubmission queue.waiters := by
  obtain ⟨history, queue, hreplay, isOpen, unbroken, hsubmitted, hsleep, hasleep⟩ :
      ∃ history queue,
        (Monitor.opened onePlace).replay crowd = some (history, queue) ∧
        queue.board.closed = false ∧ queue.broken = false ∧ queue.board.submitted = 1 ∧
        queue.waiters.map (·.sleep) = [.roused true, .asleep] ∧
        ∃ waiter ∈ queue.waiters, waiter.sleep = .asleep ∧ waiter.request.isSubmission = true :=
    ⟨_, _, rfl, rfl, rfl, rfl, rfl, _, List.mem_cons_of_mem _ List.mem_cons_self, rfl, rfl⟩
  have run : Run onePlace history queue := Run.opened.replay hreplay
  obtain ⟨-, hroom, -⟩ := no_lost_wakeup run isOpen unbroken
  have hwanted : queue.board.submitted < 3 := by omega
  exact ⟨history, queue, run, hreplay, isOpen, unbroken, hsubmitted, hsleep, hroom hasleep hwanted⟩

end OrderRail.Queue
