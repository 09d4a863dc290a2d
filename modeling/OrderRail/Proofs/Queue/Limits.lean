import OrderRail.Proofs.Queue.Run

/-!
# Time limits

There are two ways to submit and three ways to take, each with a section of its own. This file
compares the impatient ones with their patient counterparts, which wait as long as they have to.
Whatever the board, the clock and the allocator, the section of a call ends as that of its
counterpart, with the same answer, the same board and the same signals, unless the counterpart has
to wait. Only then does it matter whether the call is out of time.

A call gives up only if its limit has passed when it gets the lock, so a call that is in time does
not. Every call that waits has been in time when it fell asleep, and so its limit leaves some time.
-/

namespace OrderRail.Queue

variable {T P : Type}

/-- A section that gives up with an excuse, if there is one, where it would wait. -/
def Section.excused {α : Type} (board : Board P) (excuse : Option α) :
    Section P α → Section P α
  | .wait condition => excuse.elim (.wait condition) (.finish · board [])
  | decided => decided

namespace Section

variable {α β : Type}

/-- A section that ends with a value does not give up. -/
@[simp]
theorem excused_finish (board next : Board P) (value : α) (signals : List Signal)
    (excuse : Option α) :
    (Section.finish value next signals).excused board excuse = .finish value next signals := rfl

/-- A section that fails does not give up. -/
@[simp]
theorem excused_fail (board next : Board P) (fault : Fault) (excuse : Option α) :
    (Section.fail fault next).excused board excuse = .fail fault next := rfl

/-- A section without an excuse does not give up. -/
@[simp]
theorem excused_none (board : Board P) (decided : Section P α) :
    decided.excused board none = decided := by
  cases decided <;> rfl

/-- A value can be changed in two steps. -/
theorem map_map {γ : Type} (f : α → β) (g : β → γ) (decided : Section P α) :
    (decided.map f).map g = decided.map (g ∘ f) := by
  cases decided <;> rfl

/-- A section gives up with a value that is changed as any other value is. -/
theorem map_excused (f : α → β) (board : Board P) (excuse : Option α) (decided : Section P α) :
    (decided.excused board excuse).map f = (decided.map f).excused board (excuse.map f) := by
  cases decided <;> cases excuse <;> rfl

/-- A section is what it would be without an excuse, unless it gives up. -/
theorem excused_cases (board : Board P) (excuse : Option α) (decided : Section P α) :
    decided.excused board excuse = decided ∨
      ∃ value, excuse = some value ∧ decided.excused board excuse = .finish value board [] := by
  cases excuse with
  | none => exact .inl (decided.excused_none board)
  | some value =>
    cases decided with
    | finish | fail => exact .inl rfl
    | wait => exact .inr ⟨value, rfl, rfl⟩

end Section

namespace Board

variable (terms : Terms) (deadline now : Instant) (limit : Duration)
  (shortage : Option StorageError) (board : Board P)

/-- Changing the value needs no open queue. -/
theorem map_whileOpen {α β : Type} (f : α → β) (decided : Section P α) :
    (board.whileOpen decided).map f = board.whileOpen (decided.map f) := by
  unfold whileOpen
  split <;> rfl

/-- Giving up needs an open queue as well. -/
theorem whileOpen_excused {α : Type} (excuse : Option α) (decided : Section P α) :
    board.whileOpen (decided.excused board excuse) =
      (board.whileOpen decided).excused board excuse := by
  unfold whileOpen
  split <;> rfl

/-- Accepting a payload never waits. -/
theorem accept_excused (payload : P) (excuse : Option (Except (Rejected P) Nat)) :
    (board.accept shortage payload).excused board excuse = board.accept shortage payload := by
  unfold accept
  split
  · rfl
  · split <;> rfl

/-- What is ready to be taken is not waited for. -/
theorem takeReady_excused {α : Type} {board : Board P} {ready : Section P (Take P)}
    (found : board.takeReady terms = some ready) (f : Take P → α) (excuse : Option α) :
    (ready.map f).excused board excuse = ready.map f := by
  rcases takeReady_cases terms board with
    ⟨_, _, -, -, h⟩ | ⟨_, _, -, -, h⟩ | ⟨-, -, h⟩ | ⟨-, -, h⟩
  · cases found.symm.trans h
    rfl
  · cases found.symm.trans h
    rfl
  · cases found.symm.trans h
    rfl
  · cases found.symm.trans h

/-- A submission with a deadline decides as one without, but that it hands the payload back where
that one would wait and the deadline has passed. -/
theorem submitTimeout_eq_excused (payload : P) :
    board.submitTimeout terms deadline now limit shortage payload =
      (board.submit terms shortage payload).excused board
        (if deadline ≤ now then some (.error ⟨payload, .timedOut limit⟩) else none) := by
  unfold submitTimeout submit
  by_cases unwanted : terms.expected ≤ board.submitted
  · rw [if_pos unwanted, if_pos unwanted, Section.excused_finish]
  · rw [if_neg unwanted, if_neg unwanted]
    by_cases room : board.pending.size < terms.capacity
    · rw [if_pos room, if_pos room, accept_excused]
    · rw [if_neg room, if_neg room]
      by_cases passed : deadline ≤ now
      · rw [if_pos passed, if_pos passed]
        rfl
      · rw [if_neg passed, if_neg passed, Section.excused_none]

/-- A taker with a deadline decides as one without, but that it gives up where that one would wait
and the deadline has passed. -/
theorem takeTimeout_eq_excused :
    board.takeTimeout terms deadline now limit =
      ((board.take terms).map .ok).excused board
        (if deadline ≤ now then some (.error limit) else none) := by
  cases found : board.takeReady terms with
  | some ready =>
    simp only [takeTimeout, take, found]
    rw [takeReady_excused terms found]
  | none =>
    simp only [takeTimeout, take, found]
    by_cases passed : deadline ≤ now
    · rw [if_pos passed, if_pos passed]
      rfl
    · rw [if_neg passed, if_neg passed, Section.excused_none]
      rfl

/-- A taker who does not wait decides as one who does, but that it gets nothing where that one would
wait. -/
theorem tryTake_eq_excused :
    board.tryTake terms = ((board.take terms).map some).excused board (some none) := by
  cases found : board.takeReady terms with
  | some ready =>
    simp only [tryTake, take, found]
    rw [takeReady_excused terms found]
  | none =>
    simp only [tryTake, take, found]
    rfl

end Board

namespace Request

/-- The request without its time limit. -/
def endless : Request P → Request P
  | .submit payload _ => .submit payload .endless
  | .take _ => .take .endless
  | request => request

/-- The counterpart of a request that waits as long as it has to. -/
def patient : Request P → Request P
  | .tryTake => .take .endless
  | request => request.endless

/-- What a request is told in place of having to wait. One that brings no time limit, or is in time,
is told nothing. -/
def excuse? (late : Bool) : Request P → Option (Answer P)
  | .submit payload (.limited limit) =>
    if late then some (.rejected ⟨payload, .timedOut limit⟩) else none
  | .take (.limited limit) => if late then some (.timedOut limit) else none
  | .tryTake => some .wouldBlock
  | _ => none

/-- The section of a request is that of its patient counterpart, but that it gives up with an excuse
where its counterpart would wait. -/
theorem attempt_eq_excused (terms : Terms) (deadline : Option Instant) (now : Instant)
    (shortage : Option StorageError) (board : Board P) (request : Request P) :
    request.attempt terms deadline now shortage board =
      (request.patient.attempt terms none 0 shortage board).excused board
        (request.excuse? (reached now deadline)) := by
  cases request with
  | submit payload patience =>
    cases patience with
    | endless => exact (Section.excused_none ..).symm
    | limited limit =>
      cases deadline with
      | none => exact (Section.excused_none ..).symm
      | some deadline =>
        simp only [attempt, patient, endless, excuse?, reached, decide_eq_true_eq]
        rw [Board.submitTimeout_eq_excused, Board.whileOpen_excused, Section.map_excused]
        congr 1
        split <;> rfl
  | take patience =>
    cases patience with
    | endless => exact (Section.excused_none ..).symm
    | limited limit =>
      cases deadline with
      | none => exact (Section.excused_none ..).symm
      | some deadline =>
        simp only [attempt, patient, endless, excuse?, reached, decide_eq_true_eq]
        rw [Board.takeTimeout_eq_excused, Board.whileOpen_excused, Section.map_excused,
          Board.map_whileOpen, Section.map_map, Board.map_whileOpen]
        congr 1
        split <;> rfl
  | tryTake =>
    simp only [attempt, patient, excuse?]
    rw [Board.tryTake_eq_excused, Board.whileOpen_excused, Section.map_excused,
      Board.map_whileOpen, Section.map_map, Board.map_whileOpen]
    rfl
  | close | length | isEmpty | stats => exact (Section.excused_none ..).symm

end Request

/-- Whether an answer tells that a time limit has passed. -/
def Answer.isTimeout : Answer P → Bool
  | .timedOut _ => true
  | .rejected ⟨_, .timedOut _⟩ => true
  | _ => false

/-- What a call is told in place of having to wait is that its time limit has passed, unless it
never waits. -/
theorem Request.isTimeout_of_excuse? {late : Bool} {request : Request P} {excuse : Answer P}
    (h : request.excuse? late = some excuse) : request = .tryTake ∨ excuse.isTimeout = true := by
  cases request with
  | submit payload patience | take patience =>
    cases patience with
    | endless => cases h
    | limited limit => cases late <;> cases h; exact .inr rfl
  | tryTake => exact .inl rfl
  | close | length | isEmpty | stats => cases h

/-- The section of a request is what it would be without a time limit, unless the call gives up. -/
theorem Request.attempt_cases (terms : Terms) (deadline : Option Instant) (now : Instant)
    (shortage : Option StorageError) (board : Board P) (request : Request P) :
    request.attempt terms deadline now shortage board =
        request.endless.attempt terms none 0 shortage board ∨
      ∃ answer, answer.isTimeout = true ∧
        request.attempt terms deadline now shortage board = .finish answer board [] := by
  cases request with
  | submit | take =>
    rw [attempt_eq_excused]
    rcases Section.excused_cases _ _ _ with h | ⟨answer, hexcuse, h⟩
    · exact .inl h
    · exact .inr ⟨answer, (isTimeout_of_excuse? hexcuse).resolve_left nofun, h⟩
  | tryTake | close | length | isEmpty | stats => exact .inl rfl

/-- A call that is in time does not give up. -/
theorem Decision.not_isTimeout {terms : Terms} {shortage : Option StorageError}
    {board next : Board P} {request : Request P} {answer : Answer P} {signals : List Signal}
    (h : Decision terms false shortage board request (.finish answer next signals)) :
    answer.isTimeout = false := by
  cases h with
  | leave _ isLate | giveUp _ isLate => cases isLate
  | read reads => cases request <;> rfl
  | accept | lack | refuse | handOut | endWork | decline | close => rfl

/-- A call that has to wait has no time limit, or is in time. -/
theorem Decision.in_time {terms : Terms} {late : Bool} {shortage : Option StorageError}
    {board : Board P} {request : Request P} {condition : Condition}
    (h : Decision terms late shortage board request (.wait condition)) :
    late = false ∨ ∀ start, request.deadline start = none := by
  cases h with
  | awaitRoom _ patient =>
    rcases patient with rfl | hlate
    · exact .inr fun start => rfl
    · exact .inl hlate
  | awaitOrder _ patient =>
    rcases patient with rfl | hlate
    · exact .inr fun start => rfl
    · exact .inl hlate

/-- A limit that leaves some time now has left some time before. -/
theorem early_of_early {now : Instant} {deadline : Option Instant}
    (h : reached now deadline = false) : reached 0 deadline = false := by
  cases deadline with
  | none => rfl
  | some deadline =>
    have hlater : now < deadline := by simpa [reached] using h
    simpa [reached] using Nat.ne_of_gt (Nat.zero_lt_of_lt hlater)

namespace Monitor

/-- A call that does not give up does what it would do without a time limit. -/
theorem attempt_of_patient {base : Monitor T P} {attempt : Attempt T P}
    (unbroken : base.broken = false)
    (patient : (base.serve attempt).2.any Answer.isTimeout = false) :
    attempt.request.attempt base.terms attempt.deadline attempt.now attempt.chance.shortage
        base.board =
      attempt.request.endless.attempt base.terms none 0 attempt.chance.shortage base.board := by
  rcases attempt.request.attempt_cases base.terms attempt.deadline attempt.now
    attempt.chance.shortage base.board with h | ⟨answer, htimeout, h⟩
  · exact h
  · simp [serve, unbroken, proceed, h, htimeout] at patient

/-- A call that is in time does not give up. -/
theorem patient_of_early (base : Monitor T P) {attempt : Attempt T P}
    (early : attempt.late = false) : (base.serve attempt).2.any Answer.isTimeout = false := by
  have yields := serve_yields base attempt
  generalize base.serve attempt = result at yields
  obtain ⟨next, answer⟩ := result
  cases yields with
  | broken | wait | fail => rfl
  | finish unbroken decision => exact (early ▸ decision).not_isTimeout

variable [DecidableEq T] {queue next : Monitor T P} {move : Move T P} {answer : Option (Answer P)}

/-- A step keeps that the limit of every waiting call leaves some time. -/
theorem step_deadlines
    (h : ∀ waiter ∈ queue.waiters, reached 0 waiter.deadline = false)
    (made : queue.step move = some (next, answer)) :
    ∀ waiter ∈ next.waiters, reached 0 waiter.deadline = false := by
  refine forall_of_step made (fun waiter other hlying hearly => ?_) (fun _ _ => h)
    (fun waiter hmem _ => h waiter hmem) fun attempt base condition grants decision => ?_
  · have hdeadline : other.deadline = waiter.deadline := congrArg (·.deadline) hlying
    rwa [hdeadline]
  · rcases decision.in_time with early | endless
    · exact early_of_early early
    · cases grants with
      | enter outside =>
        change reached 0 (Request.deadline _ _) = false
        rw [endless]
        rfl
      | @resume _ waiter _ _ _ inside _ => exact h waiter (List.mem_of_find?_eq_some inside)

end Monitor

/-- In a run the limit of every waiting call leaves some time. -/
theorem Run.deadlines [DecidableEq T] {terms : Terms} {history : List (Transition T P)}
    {queue : Monitor T P} (run : Run terms history queue) :
    ∀ waiter ∈ queue.waiters, reached 0 waiter.deadline = false := by
  induction run with
  | opened => simp [Monitor.opened]
  | step run made ih => exact Monitor.step_deadlines ih made

/-- Five nanoseconds. -/
def fiveNanos : Duration := { seconds := 0, nanos := 5 }

end OrderRail.Queue
