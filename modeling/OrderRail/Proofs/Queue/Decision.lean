import OrderRail.Queue.Monitor

/-!
# What a section can decide

The section of a request is a case analysis on the board. This file says once what each case finds
and what it does: `Decision terms late shortage board request decided` lists the ways in which a
section can end, with everything it has checked on the way. The section of every request is such a
decision, and what holds of a queue is proved by cases on decisions from here on.

A section can also fail under the lock. It fails on a closed board, and it fails if a counter would
pass its largest value; whether the counters can come that far is not decided here. Nor is it
decided whether the allocator has room for an order: `shortage` is what it would answer.
-/

namespace OrderRail.Queue

variable {P : Type}

/-- The condition on which a request waits if it has to. -/
def Request.condition? : Request P → Option Condition
  | .submit .. => some .notFull
  | .take _ => some .notEmpty
  | _ => none

/-- Whether a request takes an order if there is one. -/
def Request.takes : Request P → Bool
  | .take _ => true
  | .tryTake => true
  | _ => false

/-- Whether a request only reads the counters. -/
def Request.reads : Request P → Bool
  | .length => true
  | .isEmpty => true
  | .stats => true
  | _ => false

/-- The fault of a request that needs an open queue and finds a closed one. -/
def Request.misuse : Request P → Fault
  | .close => .closedTwice
  | _ => .usedAfterClose

/-- What a request that only reads the counters is told. -/
def Request.reading (terms : Terms) (board : Board P) : Request P → Answer P
  | .length => .count board.pending.size
  | .isEmpty => .isEmpty board.pending.isEmpty
  | _ => .stats (board.stats terms)

namespace Board

/-- The board after a payload has been accepted. -/
def accepting (board : Board P) (payload : P) : Board P :=
  { board with
    pending := board.pending.push ⟨board.nextNumber, payload⟩
    nextNumber := board.nextNumber + 1
    peak := max board.peak (board.pending.size + 1) }

/-- The board after the oldest order has been handed out, of which `rest` is left. -/
def handingOut (board : Board P) (rest : Fifo (Order P)) : Board P :=
  { board with pending := rest, handled := board.handled + 1 }

/-- The board after the queue has been closed. -/
def closing (board : Board P) : Board P := { board with pending := .empty, closed := true }

end Board

/-- Whom a taker wakes who leaves the count of handed out orders at `handled`. -/
def takerSignals (terms : Terms) (handled : Nat) : List Signal :=
  .one .notFull :: if terms.expected ≤ handled then [.all .notEmpty] else []

/-- The ways in which the section of a request can end on a board, with what it has checked. The
call is late if its time limit has passed. -/
inductive Decision (terms : Terms) (late : Bool) (shortage : Option StorageError)
    (board : Board P) : Request P → Section P (Answer P) → Prop where
  | accept {payload : P} {patience : Patience} (isOpen : board.closed = false)
      (wanted : board.submitted < terms.expected) (room : board.pending.size < terms.capacity)
      (granted : board.lacks shortage = none) (fits : board.nextNumber + 1 < Count.wordSize) :
      Decision terms late shortage board (.submit payload patience)
        (.finish (.accepted board.nextNumber) (board.accepting payload) [.one .notEmpty])
  | lack {payload : P} {patience : Patience} {cause : StorageError}
      (isOpen : board.closed = false) (wanted : board.submitted < terms.expected)
      (room : board.pending.size < terms.capacity)
      (denied : board.lacks shortage = some cause) :
      Decision terms late shortage board (.submit payload patience)
        (.finish (.rejected ⟨payload, .allocation cause⟩) board [])
  | refuse {payload : P} {patience : Patience} (isOpen : board.closed = false)
      (unwanted : terms.expected ≤ board.submitted) :
      Decision terms late shortage board (.submit payload patience)
        (.finish (.rejected ⟨payload, .oversubscribed terms.expected⟩) board [])
  | leave {payload : P} {limit : Duration} (isOpen : board.closed = false) (isLate : late = true)
      (wanted : board.submitted < terms.expected) (full : terms.capacity ≤ board.pending.size) :
      Decision terms late shortage board (.submit payload (.limited limit))
        (.finish (.rejected ⟨payload, .timedOut limit⟩) board [])
  | awaitRoom {payload : P} {patience : Patience} (isOpen : board.closed = false)
      (patient : patience = .endless ∨ late = false)
      (wanted : board.submitted < terms.expected) (full : terms.capacity ≤ board.pending.size) :
      Decision terms late shortage board (.submit payload patience) (.wait .notFull)
  | handOut {request : Request P} {order : Order P} {rest : Fifo (Order P)}
      (isOpen : board.closed = false) (takes : request.takes = true)
      (pops : board.pending.pop? = some (order, rest))
      (fits : board.handled + 1 < Count.wordSize) :
      Decision terms late shortage board request
        (.finish (.order order) (board.handingOut rest) (takerSignals terms (board.handled + 1)))
  | endWork {request : Request P} (isOpen : board.closed = false) (takes : request.takes = true)
      (empty : board.pending.size = 0) (done : terms.expected ≤ board.handled) :
      Decision terms late shortage board request (.finish .endOfWork board [.all .notEmpty])
  | giveUp {limit : Duration} (isOpen : board.closed = false) (isLate : late = true)
      (empty : board.pending.size = 0) (undone : board.handled < terms.expected) :
      Decision terms late shortage board (.take (.limited limit))
        (.finish (.timedOut limit) board [])
  | decline (isOpen : board.closed = false) (empty : board.pending.size = 0)
      (undone : board.handled < terms.expected) :
      Decision terms late shortage board .tryTake (.finish .wouldBlock board [])
  | awaitOrder {patience : Patience} (isOpen : board.closed = false)
      (patient : patience = .endless ∨ late = false) (empty : board.pending.size = 0)
      (undone : board.handled < terms.expected) :
      Decision terms late shortage board (.take patience) (.wait .notEmpty)
  | close (isOpen : board.closed = false) :
      Decision terms late shortage board .close
        (.finish (.report (board.accounts terms)) board.closing [.all .notFull, .all .notEmpty])
  | read {request : Request P} (reads : request.reads = true) :
      Decision terms late shortage board request (.finish (request.reading terms board) board [])
  | misuse {request : Request P} (isClosed : board.closed = true)
      (needsOpen : request.reads = false) :
      Decision terms late shortage board request (.fail request.misuse board)
  | numberOverflow {payload : P} {patience : Patience} (isOpen : board.closed = false)
      (wanted : board.submitted < terms.expected) (room : board.pending.size < terms.capacity)
      (granted : board.lacks shortage = none)
      (tooLarge : Count.wordSize ≤ board.nextNumber + 1) :
      Decision terms late shortage board (.submit payload patience) (.fail .addOverflow board)
  | countOverflow {request : Request P} {order : Order P} {rest : Fifo (Order P)}
      (isOpen : board.closed = false) (takes : request.takes = true)
      (pops : board.pending.pop? = some (order, rest))
      (tooLarge : Count.wordSize ≤ board.handled + 1) :
      Decision terms late shortage board request (.fail .addOverflow { board with pending := rest })

/-- The count after `n`, if a counter can hold it. -/
theorem next?_cases (n : Nat) :
    (Count.next? n = some (n + 1) ∧ n + 1 < Count.wordSize) ∨
      (Count.next? n = none ∧ Count.wordSize ≤ n + 1) := by
  by_cases h : n + 1 < Count.wordSize
  · exact .inl ⟨Count.fit?_eq_some_iff.mpr ⟨h, rfl⟩, h⟩
  · exact .inr ⟨Count.fit?_eq_none_iff.mpr (by omega), by omega⟩

/-- A queue from which an order is taken held one more. -/
theorem size_of_pop? {pending rest : Fifo (Order P)} {order : Order P}
    (h : pending.pop? = some (order, rest)) : pending.size = rest.size + 1 := by
  rw [← Fifo.length_toList, Fifo.toList_of_pop? h, List.length_cons, Fifo.length_toList]

/-- A queue from which no order can be taken is empty. -/
theorem size_of_pop?_eq_none {pending : Fifo (Order P)} (h : pending.pop? = none) :
    pending.size = 0 := by
  rw [← Fifo.length_toList, Fifo.pop?_eq_none_iff.mp h, List.length_nil]

/-- A section that is denied room has as many orders pending as there have ever been at once. -/
theorem Board.peak_le_of_lacks {board : Board P} {shortage : Option StorageError}
    {cause : StorageError} (h : board.lacks shortage = some cause) :
    board.peak ≤ board.pending.size ∧ shortage = some cause := by
  unfold Board.lacks at h
  split at h
  · cases h
  · exact ⟨by omega, h⟩

/-- Where the allocator has room, no section is denied it. -/
@[simp]
theorem Board.lacks_none (board : Board P) : board.lacks none = none := by
  simp [Board.lacks]

/-- An open board lets a section go on. -/
theorem Board.whileOpen_of_open {α : Type} {board : Board P} (isOpen : board.closed = false)
    (decided : Section P α) : board.whileOpen decided = decided := by
  simp [Board.whileOpen, isOpen]

/-- A closed board stops a section. -/
theorem Board.whileOpen_of_closed {α : Type} {board : Board P} (isClosed : board.closed = true)
    (decided : Section P α) : board.whileOpen decided = .fail .usedAfterClose board := by
  simp [Board.whileOpen, isClosed]

/-- Accepting a payload for which there is a place ends in one of three ways. -/
theorem decision_accept {terms : Terms} {board : Board P} (late : Bool)
    (shortage : Option StorageError) (payload : P) (patience : Patience)
    (isOpen : board.closed = false) (wanted : board.submitted < terms.expected)
    (room : board.pending.size < terms.capacity) :
    Decision terms late shortage board (.submit payload patience)
      ((board.accept shortage payload).map .ofSubmit) := by
  cases hlacks : board.lacks shortage with
  | some cause =>
    simp only [Board.accept, hlacks, Section.map]
    exact .lack isOpen wanted room hlacks
  | none =>
    rcases next?_cases board.nextNumber with ⟨hnext, fits⟩ | ⟨hnext, tooLarge⟩
    · simp only [Board.accept, hlacks, hnext, Section.map]
      exact .accept isOpen wanted room hlacks fits
    · simp only [Board.accept, hlacks, hnext, Section.map]
      exact .numberOverflow isOpen wanted room hlacks tooLarge

/-- The section of a submission that waits as long as it has to. -/
theorem decision_submit (terms : Terms) (late : Bool) (shortage : Option StorageError)
    {board : Board P} (payload : P) {patience : Patience} (isOpen : board.closed = false)
    (patient : patience = .endless ∨ late = false) :
    Decision terms late shortage board (.submit payload patience)
      ((board.submit terms shortage payload).map .ofSubmit) := by
  by_cases unwanted : terms.expected ≤ board.submitted
  · rw [Board.submit, if_pos unwanted]
    exact .refuse isOpen unwanted
  · have wanted : board.submitted < terms.expected := by omega
    rw [Board.submit, if_neg unwanted]
    by_cases room : board.pending.size < terms.capacity
    · rw [if_pos room]
      exact decision_accept late shortage payload patience isOpen wanted room
    · rw [if_neg room]
      exact .awaitRoom isOpen patient wanted (by omega)

/-- The section of a submission with a deadline. -/
theorem decision_submitTimeout (terms : Terms) (deadline now : Instant) (limit : Duration)
    (shortage : Option StorageError) {board : Board P} (payload : P)
    (isOpen : board.closed = false) :
    Decision terms (reached now (some deadline)) shortage board (.submit payload (.limited limit))
      ((board.submitTimeout terms deadline now limit shortage payload).map .ofSubmit) := by
  by_cases unwanted : terms.expected ≤ board.submitted
  · rw [Board.submitTimeout, if_pos unwanted]
    exact .refuse isOpen unwanted
  · have wanted : board.submitted < terms.expected := by omega
    rw [Board.submitTimeout, if_neg unwanted]
    by_cases room : board.pending.size < terms.capacity
    · rw [if_pos room]
      exact decision_accept _ shortage payload _ isOpen wanted room
    · have full : terms.capacity ≤ board.pending.size := by omega
      rw [if_neg room]
      by_cases passed : deadline ≤ now
      · rw [if_pos passed]
        exact .leave isOpen (decide_eq_true passed) wanted full
      · rw [if_neg passed]
        exact .awaitRoom isOpen (.inr (decide_eq_false passed)) wanted full

/-- What a taker finds: an order, or the end of the work, or nothing yet. -/
theorem takeReady_cases (terms : Terms) (board : Board P) :
    (∃ order rest, board.pending.pop? = some (order, rest) ∧ board.handled + 1 < Count.wordSize ∧
        board.takeReady terms = some (.finish (.order order) (board.handingOut rest)
          (takerSignals terms (board.handled + 1)))) ∨
      (∃ order rest, board.pending.pop? = some (order, rest) ∧
        Count.wordSize ≤ board.handled + 1 ∧
        board.takeReady terms = some (.fail .addOverflow { board with pending := rest })) ∨
      (board.pending.size = 0 ∧ terms.expected ≤ board.handled ∧
        board.takeReady terms = some (.finish .endOfWork board [.all .notEmpty])) ∨
      (board.pending.size = 0 ∧ board.handled < terms.expected ∧
        board.takeReady terms = none) := by
  cases hpop : board.pending.pop? with
  | some popped =>
    obtain ⟨order, rest⟩ := popped
    rcases next?_cases board.handled with ⟨hnext, fits⟩ | ⟨hnext, tooLarge⟩
    · exact .inl ⟨order, rest, rfl, fits, by simp only [Board.takeReady, hpop, hnext]; rfl⟩
    · exact .inr (.inl ⟨order, rest, rfl, tooLarge, by simp only [Board.takeReady, hpop, hnext]⟩)
  | none =>
    have empty := size_of_pop?_eq_none hpop
    by_cases done : terms.expected ≤ board.handled
    · exact .inr (.inr (.inl ⟨empty, done, by simp only [Board.takeReady, hpop, if_pos done]⟩))
    · exact .inr (.inr (.inr ⟨empty, by omega, by simp only [Board.takeReady, hpop, if_neg done]⟩))

/-- What a taker decides who finds something ready, whatever is made of it. -/
theorem decision_takeReady {α : Type} (terms : Terms) (late : Bool)
    (shortage : Option StorageError) {board : Board P} (request : Request P)
    (isOpen : board.closed = false) (takes : request.takes = true) {ready : Section P (Take P)}
    (found : board.takeReady terms = some ready) (f : Take P → α) (g : α → Answer P)
    (told : ∀ taken, g (f taken) = .ofTake taken) :
    Decision terms late shortage board request ((ready.map f).map g) := by
  rcases takeReady_cases terms board with
    ⟨order, rest, pops, fits, h⟩ | ⟨order, rest, pops, tooLarge, h⟩ | ⟨empty, done, h⟩ |
      ⟨empty, undone, h⟩
  · obtain rfl := Option.some.inj (found.symm.trans h)
    rw [Section.map, Section.map, told]
    exact .handOut isOpen takes pops fits
  · obtain rfl := Option.some.inj (found.symm.trans h)
    exact .countOverflow isOpen takes pops tooLarge
  · obtain rfl := Option.some.inj (found.symm.trans h)
    rw [Section.map, Section.map, told]
    exact .endWork isOpen takes empty done
  · simp [h] at found

/-- A taker who finds nothing ready finds the queue empty and more to come. -/
theorem undone_of_takeReady {terms : Terms} {board : Board P}
    (found : board.takeReady terms = none) :
    board.pending.size = 0 ∧ board.handled < terms.expected := by
  rcases takeReady_cases terms board with
    ⟨order, rest, pops, fits, h⟩ | ⟨order, rest, pops, tooLarge, h⟩ | ⟨empty, done, h⟩ |
      ⟨empty, undone, -⟩
  · simp [h] at found
  · simp [h] at found
  · simp [h] at found
  · exact ⟨empty, undone⟩

/-- Nothing is made of a section by changing its value into itself. -/
theorem Section.map_self {α : Type} (decided : Section P α) :
    decided.map (fun a => a) = decided := by
  cases decided <;> rfl

/-- The section of a taker who waits as long as it has to. -/
theorem decision_take (terms : Terms) (late : Bool) (shortage : Option StorageError)
    {board : Board P} {patience : Patience} (isOpen : board.closed = false)
    (patient : patience = .endless ∨ late = false) :
    Decision terms late shortage board (.take patience) ((board.take terms).map .ofTake) := by
  cases found : board.takeReady terms with
  | some ready =>
    have h := decision_takeReady terms late shortage (.take patience) isOpen rfl found
      (fun taken => taken) .ofTake fun _ => rfl
    rw [Section.map_self] at h
    simpa only [Board.take, found] using h
  | none =>
    obtain ⟨empty, undone⟩ := undone_of_takeReady found
    simp only [Board.take, found, Section.map]
    exact .awaitOrder isOpen patient empty undone

/-- The section of a taker with a deadline. -/
theorem decision_takeTimeout (terms : Terms) (deadline now : Instant) (limit : Duration)
    (shortage : Option StorageError) {board : Board P} (isOpen : board.closed = false) :
    Decision terms (reached now (some deadline)) shortage board (.take (.limited limit))
      ((board.takeTimeout terms deadline now limit).map .ofTakeTimeout) := by
  cases found : board.takeReady terms with
  | some ready =>
    simp only [Board.takeTimeout, found]
    exact decision_takeReady terms _ shortage (.take (.limited limit)) isOpen rfl found .ok
      .ofTakeTimeout fun _ => rfl
  | none =>
    obtain ⟨empty, undone⟩ := undone_of_takeReady found
    simp only [Board.takeTimeout, found]
    by_cases passed : deadline ≤ now
    · rw [if_pos passed]
      exact .giveUp isOpen (decide_eq_true passed) empty undone
    · rw [if_neg passed]
      exact .awaitOrder isOpen (.inr (decide_eq_false passed)) empty undone

/-- The section of a taker who does not wait. -/
theorem decision_tryTake (terms : Terms) (late : Bool) (shortage : Option StorageError)
    {board : Board P} (isOpen : board.closed = false) :
    Decision terms late shortage board .tryTake ((board.tryTake terms).map .ofTryTake) := by
  cases found : board.takeReady terms with
  | some ready =>
    simp only [Board.tryTake, found]
    exact decision_takeReady terms late shortage .tryTake isOpen rfl found some .ofTryTake
      fun _ => rfl
  | none =>
    obtain ⟨empty, undone⟩ := undone_of_takeReady found
    simp only [Board.tryTake, found]
    exact .decline isOpen empty undone

/-- The section of a request is one of its decisions. -/
theorem attempt_decision (terms : Terms) (deadline : Option Instant) (now : Instant)
    (shortage : Option StorageError) (board : Board P) (request : Request P) :
    Decision terms (reached now deadline) shortage board request
      (request.attempt terms deadline now shortage board) := by
  cases isOpen : board.closed with
  | true =>
    cases request with
    | submit payload patience =>
      cases patience <;> cases deadline <;>
        simpa only [Request.attempt, Board.whileOpen_of_closed isOpen] using .misuse isOpen rfl
    | take patience =>
      cases patience <;> cases deadline <;>
        simpa only [Request.attempt, Board.whileOpen_of_closed isOpen] using .misuse isOpen rfl
    | tryTake =>
      simpa only [Request.attempt, Board.whileOpen_of_closed isOpen] using .misuse isOpen rfl
    | close => simpa only [Request.attempt, Board.close, isOpen] using .misuse isOpen rfl
    | length | isEmpty | stats => exact .read rfl
  | false =>
    cases request with
    | submit payload patience =>
      cases patience with
      | endless =>
        simp only [Request.attempt, Board.whileOpen_of_open isOpen]
        exact decision_submit terms _ shortage payload isOpen (.inl rfl)
      | limited limit =>
        cases deadline with
        | none =>
          simp only [Request.attempt, Board.whileOpen_of_open isOpen]
          exact decision_submit terms _ shortage payload isOpen (.inr rfl)
        | some deadline =>
          simp only [Request.attempt, Board.whileOpen_of_open isOpen]
          exact decision_submitTimeout terms deadline now limit shortage payload isOpen
    | take patience =>
      cases patience with
      | endless =>
        simp only [Request.attempt, Board.whileOpen_of_open isOpen]
        exact decision_take terms _ shortage isOpen (.inl rfl)
      | limited limit =>
        cases deadline with
        | none =>
          simp only [Request.attempt, Board.whileOpen_of_open isOpen]
          exact decision_take terms _ shortage isOpen (.inr rfl)
        | some deadline =>
          simp only [Request.attempt, Board.whileOpen_of_open isOpen]
          exact decision_takeTimeout terms deadline now limit shortage isOpen
    | tryTake =>
      simp only [Request.attempt, Board.whileOpen_of_open isOpen]
      exact decision_tryTake terms _ shortage isOpen
    | close =>
      simp only [Request.attempt, Board.close, isOpen, Bool.false_eq_true, if_false]
      exact .close isOpen
    | length | isEmpty | stats => exact .read rfl

end OrderRail.Queue
