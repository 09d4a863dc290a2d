import OrderRail.Proofs.Queue.Surplus
import OrderRail.Proofs.Queue.Unwinding

/-!
# The choice of waiters cannot be observed

A signal for a single sleeper may reach any of those on its condition, and calls that are awake get
the lock in any order. If the queue is at rest and all submissions that wait hold the same payload,
none of this can be seen in what comes of the next call: whoever is chosen, the queue comes to rest
after finitely many steps, with the same board, the same answers and as many calls waiting.

At rest, takes and submissions do not wait at the same time, so all waiting calls ask for the same,
up to their time limits. Then a step depends on how many calls sleep on each condition only, and not
on which of them do. Two queues that agree in these numbers stay in agreement when in each of them
some call that is awake goes on. The allocator has no say in this: a submission that has waited is
accepted into memory that has been used before.
-/

namespace OrderRail.Queue

variable {T P : Type}

/-- Only submissions and takes can wait. -/
theorem Request.submit_or_take {request : Request P} {condition : Condition}
    (h : request.condition? = some condition) :
    (∃ payload patience, request = .submit payload patience) ∨
      ∃ patience, request = .take patience := by
  cases request with
  | submit payload patience => exact .inl ⟨payload, patience, rfl⟩
  | take patience => exact .inr ⟨patience, rfl⟩
  | _ => cases h

/-- Among orderly waiters, those that do not submit take. -/
theorem Orderly.countP_isTake {waiters : List (Waiter T P)} (h : Orderly waiters) :
    waiters.countP (·.request.isSubmission) + waiters.countP (·.request.isTake) =
      waiters.length := by
  rw [List.length_eq_countP_add_countP (·.request.isSubmission)]
  congr 1
  apply List.countP_congr
  intro waiter hmem
  obtain ⟨htake, hsubmission⟩ := Request.kind_of_condition? (h.apt waiter hmem)
  rw [htake, hsubmission]
  cases waiter.condition <;> decide

/-- How many calls sleep after some signals depends on how many have slept before, but not on who
is chosen. -/
theorem sleepers_deliver_congr {waiters others : List (Waiter T P)}
    (same : ∀ condition, sleepers condition others = sleepers condition waiters)
    (choice other : Nat) (signals : List Signal) (condition : Condition) :
    sleepers condition (signals.foldl (Signal.deliver other) others) =
      sleepers condition (signals.foldl (Signal.deliver choice) waiters) := by
  induction signals generalizing waiters others with
  | nil => exact same condition
  | cons signal rest ih =>
    refine ih fun condition => ?_
    cases signal with
    | one target =>
      by_cases h : condition = target
      · rw [h, (counts_deliver_one ..).1, (counts_deliver_one ..).1, same]
      · rw [(counts_deliver_one_of_ne _ h _).1, (counts_deliver_one_of_ne _ h _).1, same]
    | all target =>
      by_cases h : condition = target
      · rw [h, sleepers_deliver_all, sleepers_deliver_all]
      · rw [(counts_deliver_all_of_ne _ h _).1, (counts_deliver_all_of_ne _ h _).1, same]

/-- Where all places have been filled once, the allocator makes no difference to a submission, nor
does it to any other call. -/
theorem Request.attempt_of_filled {terms : Terms} {board : Board P} {request : Request P}
    {shortage : Option StorageError}
    (filled : request.condition? = some .notFull → terms.capacity ≤ board.peak) :
    request.endless.attempt terms none 0 shortage board =
      request.endless.attempt terms none 0 none board := by
  cases request with
  | submit payload patience =>
    have hsubmit : board.submit terms shortage payload = board.submit terms none payload := by
      have hpeak := filled rfl
      unfold Board.submit
      by_cases room : board.pending.size < terms.capacity
      · have used : board.pending.size < board.peak := Nat.lt_of_lt_of_le room hpeak
        simp only [Board.accept, Board.lacks, if_pos used]
      · rw [if_neg room, if_neg room]
    simp only [endless, attempt, hsubmit]
  | take | tryTake | close | length | isEmpty | stats => rfl

namespace Monitor

/-- Two queues that agree in all but who waits: as many calls wait in both of them, and as many of
these sleep on each condition. -/
structure Alike (queue other : Monitor T P) : Prop where
  terms_eq : other.terms = queue.terms
  board_eq : other.board = queue.board
  broken_eq : other.broken = queue.broken
  length_eq : other.waiters.length = queue.waiters.length
  sleepers_eq : ∀ condition,
    sleepers condition other.waiters = sleepers condition queue.waiters

/-- As many calls are awake in queues that are alike. -/
theorem Alike.awake_eq {queue other : Monitor T P} (h : queue.Alike other) :
    awake other.waiters = awake queue.waiters := by
  have hqueue := length_eq_awake_add queue.waiters
  have hother := length_eq_awake_add other.waiters
  have hlength := h.length_eq
  have hfull := h.sleepers_eq .notFull
  have hempty := h.sleepers_eq .notEmpty
  omega

/-- In queues that are alike, calls that ask for the same and do not give up get the same answer,
and leave the queues alike, if the allocator makes no difference to them. -/
theorem Alike.serve {base other next following : Monitor T P} (h : base.Alike other)
    {attempt rival : Attempt T P} {answer rivalAnswer : Option (Answer P)}
    (served : base.serve attempt = (next, answer))
    (rivalServed : other.serve rival = (following, rivalAnswer))
    (same : rival.request.endless = attempt.request.endless)
    (supply : attempt.request.endless.attempt base.terms none 0 rival.chance.shortage base.board =
      attempt.request.endless.attempt base.terms none 0 attempt.chance.shortage base.board)
    (poison : rival.poison = attempt.poison) (patient : answer.any Answer.isTimeout = false)
    (rivalPatient : rivalAnswer.any Answer.isTimeout = false) :
    next.Alike following ∧ rivalAnswer = answer := by
  obtain rfl : (base.serve attempt).1 = next := congrArg Prod.fst served
  obtain rfl : (base.serve attempt).2 = answer := congrArg Prod.snd served
  obtain rfl : (other.serve rival).1 = following := congrArg Prod.fst rivalServed
  obtain rfl : (other.serve rival).2 = rivalAnswer := congrArg Prod.snd rivalServed
  cases hbroken : base.broken with
  | true =>
    have hother : other.broken = true := h.broken_eq.trans hbroken
    simp only [Monitor.serve, hbroken, hother, if_true, poison, and_true]
    exact h
  | false =>
    have hother : other.broken = false := h.broken_eq.trans hbroken
    have hattempt := attempt_of_patient hbroken patient
    have hrival : rival.request.attempt other.terms rival.deadline rival.now rival.chance.shortage
          other.board =
        attempt.request.endless.attempt base.terms none 0 attempt.chance.shortage base.board := by
      rw [attempt_of_patient hother rivalPatient, h.terms_eq, h.board_eq, same, supply]
    simp only [Monitor.serve, hbroken, hother, Bool.false_eq_true, if_false, proceed, hattempt,
      hrival]
    cases attempt.request.endless.attempt base.terms none 0 attempt.chance.shortage base.board with
    | finish answer board signals =>
      refine ⟨⟨h.terms_eq, rfl, rfl, ?_, sleepers_deliver_congr h.sleepers_eq _ _ signals⟩, rfl⟩
      exact (length_of_map_lying (map_lying_foldl_deliver _ _ _)).trans
        (h.length_eq.trans (length_of_map_lying (map_lying_foldl_deliver _ _ _)).symm)
    | wait condition =>
      refine ⟨⟨h.terms_eq, h.board_eq, rfl, ?_, fun target => ?_⟩, rfl⟩
      · rw [List.length_append, List.length_append, h.length_eq]
        rfl
      · exact (sleepers_append target other.waiters rival condition).trans
          (h.sleepers_eq target ▸ (sleepers_append target base.waiters attempt condition).symm)
    | fail fault board =>
      exact ⟨⟨h.terms_eq, rfl, rfl, h.length_eq, h.sleepers_eq⟩, rfl⟩

/-- A queue whose waiting calls all ask for the same, up to their time limits, and have seen all
places filled if they ask for room. -/
structure Uniform (request : Request P) (queue : Monitor T P) : Prop where
  orderly : Orderly queue.waiters
  same : ∀ waiter ∈ queue.waiters, waiter.request.endless = request
  filled : ∀ waiter ∈ queue.waiters, waiter.condition = .notFull →
    queue.terms.capacity ≤ queue.board.peak

variable [DecidableEq T] {queue other base next following last : Monitor T P} {thread rival : T}
  {now rivalNow : Instant} {chance rivalChance : Chance} {answer rivalAnswer : Option (Answer P)}
  {attempt : Attempt T P} {request : Request P} {shortage : Option StorageError}
  {more others : List (Transition T P)}

/-- A queue that a step leaves with some of the calls of a uniform one is uniform. -/
theorem Uniform.of_step (h : queue.Uniform request) {move : Move T P}
    (made : queue.step move = some (next, answer))
    (left : next.waiters.map Waiter.lying ⊆ queue.waiters.map Waiter.lying) :
    next.Uniform request := by
  refine ⟨h.orderly.step made, ?_, ?_⟩
  · refine forall_of_lying_subset left (fun waiter other heq hsame => ?_) h.same
    rw [Waiter.request_of_lying heq, hsame]
  · refine forall_of_lying_subset left (fun waiter other heq hfilled hcondition => ?_)
      fun waiter hmem hcondition => ?_
    · exact hfilled (congrArg (·.condition) heq ▸ hcondition)
    · rw [step_terms made]
      exact (h.filled waiter hmem hcondition).trans (peak_le_of_step made)

/-- In queues that are alike and uniform, whoever goes on gets the same answer, and the queues stay
alike. -/
theorem Alike.resume (h : queue.Alike other) (uniform : queue.Uniform request)
    (rivalUniform : other.Uniform request)
    (made : queue.step (.resume thread now chance) = some (next, answer))
    (rivalMade : other.step (.resume rival rivalNow rivalChance) = some (following, rivalAnswer))
    (patient : answer.any Answer.isTimeout = false)
    (rivalPatient : rivalAnswer.any Answer.isTimeout = false) :
    next.Alike following ∧ rivalAnswer = answer := by
  obtain ⟨attempt, base, grants, -, served⟩ := exists_grant made nofun
  obtain ⟨attempt', base', grants', -, served'⟩ := exists_grant rivalMade nofun
  obtain ⟨hpoison, ⟨waiter, hmem, hrequest⟩, hlength, -⟩ := grants.resumed uniform.orderly
  obtain ⟨hpoison', ⟨waiter', hmem', hrequest'⟩, hlength', -⟩ :=
    grants'.resumed rivalUniform.orderly
  obtain ⟨hterms, hboard, hbroken⟩ := grants.base_eq
  obtain ⟨hterms', hboard', hbroken'⟩ := grants'.base_eq
  have alike : base.Alike base' := by
    refine ⟨?_, ?_, ?_, ?_, fun condition => ?_⟩
    · rw [hterms, hterms', h.terms_eq]
    · rw [hboard, hboard', h.board_eq]
    · rw [hbroken, hbroken', h.broken_eq]
    · have := h.length_eq
      omega
    · rw [(grants.counts uniform.orderly condition).1,
        (grants'.counts rivalUniform.orderly condition).1, h.sleepers_eq]
  have same : attempt'.request.endless = attempt.request.endless := by
    rw [← hrequest, ← hrequest', uniform.same waiter hmem, rivalUniform.same waiter' hmem']
  have supply (some : Option StorageError) :
      attempt.request.endless.attempt base.terms none 0 some base.board =
        attempt.request.endless.attempt base.terms none 0 none base.board := by
    refine Request.attempt_of_filled fun hcondition => ?_
    rw [hterms, hboard]
    exact uniform.filled waiter hmem
      (Option.some.inj ((uniform.orderly.apt waiter hmem).symm.trans (hrequest ▸ hcondition)))
  exact alike.serve served served' same ((supply _).trans (supply _).symm)
    (hpoison'.trans hpoison.symm) patient rivalPatient

/-- A uniform queue stays uniform when a call goes on. -/
theorem Uniform.resume (h : queue.Uniform request)
    (made : queue.step (.resume thread now chance) = some (next, answer)) :
    next.Uniform request :=
  h.of_step made (lying_of_resume h.orderly made)

/-- Two queues that are alike and uniform come to rest alike, with the same answers. -/
theorem Unwinds.alike (h : queue.Unwinds more last) {final : Monitor T P}
    (rivalUnwinds : other.Unwinds others final) (alike : queue.Alike other)
    (uniform : queue.Uniform request) (rivalUniform : other.Uniform request)
    (rest : awake last.waiters = 0) (rivalRest : awake final.waiters = 0) :
    last.Alike final ∧ others.map (·.answer) = more.map (·.answer) := by
  -- Both go on side by side. As many calls are awake in both, so both come to rest at once.
  induction h generalizing other others with
  | done =>
    cases rivalUnwinds with
    | done => exact ⟨alike, rfl⟩
    | step rivalMade =>
      have hawake := awake_of_resume rivalUniform.orderly rivalMade
      have heq := alike.awake_eq
      omega
  | step made patient later ih =>
    cases rivalUnwinds with
    | done =>
      have hawake := awake_of_resume uniform.orderly made
      have heq := alike.awake_eq
      omega
    | step rivalMade rivalPatient rivalLater =>
      obtain ⟨hnext, hanswer⟩ :=
        alike.resume uniform rivalUniform made rivalMade patient rivalPatient
      obtain ⟨hlast, hanswers⟩ :=
        ih rivalLater hnext (uniform.resume made) (rivalUniform.resume rivalMade) rest
      exact ⟨hlast, by rw [List.map_cons, List.map_cons, hanswer, hanswers]⟩

/-- Calls that ask the same of one queue and of the allocator and do not give up get the same
answer, and leave queues that are alike. -/
theorem enter_alike {start rivalStart : Instant}
    (made : queue.step (.enter thread request start now chance) = some (next, answer))
    (rivalMade : queue.step (.enter thread request rivalStart rivalNow rivalChance) =
      some (following, rivalAnswer))
    (supply : rivalChance.shortage = chance.shortage)
    (patient : answer.any Answer.isTimeout = false)
    (rivalPatient : rivalAnswer.any Answer.isTimeout = false) :
    next.Alike following ∧ rivalAnswer = answer := by
  obtain ⟨attempt, base, grants, -, served⟩ := exists_grant made nofun
  obtain ⟨attempt', base', grants', -, served'⟩ := exists_grant rivalMade nofun
  cases grants with
  | enter outside =>
    cases grants' with
    | enter =>
      have alike : queue.Alike queue := ⟨rfl, rfl, rfl, rfl, fun _ => rfl⟩
      exact alike.serve served served' rfl (congrArg
        (request.endless.attempt queue.terms none 0 · queue.board) supply) rfl patient rivalPatient

/-- Where the waiting calls ask for the same, whatever comes of a call that is made comes of it
whoever is chosen. -/
theorem Plays.alike {first start : Transition T P} {final : Monitor T P} {same : Request P}
    (h : queue.Plays thread request shortage (first :: more) last)
    (rival : queue.Plays thread request shortage (start :: others) final)
    (uniform : queue.Uniform same) (rest : awake queue.waiters = 0)
    (lastRest : awake last.waiters = 0) (finalRest : awake final.waiters = 0) :
    last.Alike final ∧ start.answer = first.answer ∧
      others.map (·.answer) = more.map (·.answer) := by
  obtain @⟨_, _, _, next, _, _, _, made, patient, later⟩ := h
  obtain ⟨rivalMade, rivalPatient, rivalLater⟩ := rival
  obtain ⟨halike, hanswer⟩ := enter_alike made rivalMade rfl patient rivalPatient
  -- If the call falls asleep, the payload that it may hold need not be that of the others, but then
  -- nobody goes on.
  have hawake := halike.awake_eq
  have orderly := uniform.orderly.step made
  have rivalOrderly := uniform.orderly.step rivalMade
  by_cases hrest : awake next.waiters = 0
  · obtain ⟨rfl, rfl⟩ := later.of_rest orderly hrest
    obtain ⟨rfl, rfl⟩ := rivalLater.of_rest rivalOrderly (hawake.trans hrest)
    exact ⟨halike, hanswer, rfl⟩
  · have hsame := (enter_cases rest made).resolve_left hrest
    have hrivalSame := (enter_cases rest rivalMade).resolve_left (hawake ▸ hrest)
    obtain ⟨hlast, hanswers⟩ := later.alike rivalLater halike
      (uniform.of_step made (hsame ▸ List.Subset.refl _))
      (uniform.of_step rivalMade (hrivalSame ▸ List.Subset.refl _)) lastRest finalRest
    exact ⟨hlast, hanswer, hanswers⟩

end Monitor

section

variable [DecidableEq T] {terms : Terms} {history : List (Transition T P)} {queue : Monitor T P}

/-- At rest, takes and submissions do not wait at the same time. -/
theorem Run.apart_at_rest (run : Run terms history queue) (isOpen : queue.board.closed = false)
    (unbroken : queue.broken = false) (asleep : ∀ waiter ∈ queue.waiters, waiter.sleep = .asleep)
    {waiter other : Waiter T P} (hmem : waiter ∈ queue.waiters) (hother : other ∈ queue.waiters)
    (take : waiter.request.isTake = true) : other.request.isSubmission = false := by
  cases submission : other.request.isSubmission with
  | false => rfl
  | true =>
    have htake := (run.waits_at_rest isOpen unbroken asleep hmem).1 take
    have hsubmission := (run.waits_at_rest isOpen unbroken asleep hother).2 submission
    have hsubmitted := (run.tallied isOpen).submitted_eq
    have hcapacity := terms.capacity_pos
    omega

/-- At rest all waiting calls ask for the same, if the submissions among them hold the same
payload. -/
theorem Run.uniform (run : Run terms history queue) (isOpen : queue.board.closed = false)
    (unbroken : queue.broken = false) (asleep : ∀ waiter ∈ queue.waiters, waiter.sleep = .asleep)
    (equal : ∀ payload ∈ held queue.waiters, ∀ other ∈ held queue.waiters, other = payload) :
    ∃ request, queue.Uniform request := by
  have orderly := run.orderly
  cases hwaiters : queue.waiters with
  | nil => exact ⟨.close, orderly, by simp [hwaiters], by simp [hwaiters]⟩
  | cons first rest =>
    refine ⟨first.request.endless, orderly, fun waiter hmem => ?_, run.terms_eq ▸ run.filled⟩
    have hfirst : first ∈ queue.waiters := hwaiters ▸ List.mem_cons_self
    rcases Request.submit_or_take (orderly.apt first hfirst) with
      ⟨payload, patience, hrequest⟩ | ⟨patience, hrequest⟩ <;>
    rcases Request.submit_or_take (orderly.apt waiter hmem) with
      ⟨other, otherPatience, hother⟩ | ⟨otherPatience, hother⟩
    · have hpayload : payload ∈ held queue.waiters :=
        List.mem_filterMap.mpr ⟨first, hfirst, by rw [hrequest]; rfl⟩
      have hheld : other ∈ held queue.waiters :=
        List.mem_filterMap.mpr ⟨waiter, hmem, by rw [hother]; rfl⟩
      rw [hrequest, hother, equal payload hpayload other hheld]
      rfl
    · have := run.apart_at_rest isOpen unbroken asleep hmem hfirst (by rw [hother]; rfl)
      simp [hrequest, Request.isSubmission] at this
    · have := run.apart_at_rest isOpen unbroken asleep hfirst hmem (by rw [hrequest]; rfl)
      simp [hother, Request.isSubmission] at this
    · rw [hrequest, hother]
      rfl

/-- Which waiter a signal reaches, and in which order calls that are awake go on, cannot be
observed.

Let a queue be open, unbroken and at rest, and let the submissions that wait hold the same payload.
Whatever call is made next, and whatever the allocator would answer to it, the queue comes to rest
again as long as nobody gives up: the number of steps is bounded, and until then every call that is
awake can go on. In whatever way the queue comes to rest, the board is the same, and so are the
state of the lock, the answer to the call, the answers to the calls that have been waiting, and how
many submissions and takes wait then. -/
theorem choice_unobservable (run : Run terms history queue) (isOpen : queue.board.closed = false)
    (unbroken : queue.broken = false) (asleep : ∀ waiter ∈ queue.waiters, waiter.sleep = .asleep)
    (equal : ∀ payload ∈ held queue.waiters, ∀ other ∈ held queue.waiters, other = payload)
    (thread : T) (request : Request P) (shortage : Option StorageError) :
    (∀ more last, queue.Plays thread request shortage more last →
      more.length ≤ (queue.waiters.length + 1) * (queue.waiters.length + 1) ∧
      (∀ waiter ∈ last.waiters, waiter.sleep ≠ .asleep →
        (∃ now, reached now waiter.deadline = false) ∧
        ∀ now chance, reached now waiter.deadline = false → ∃ next answer,
          queue.Plays thread request shortage
            (more ++ [⟨last, .resume waiter.thread now chance, answer, next⟩]) next) ∧
      ∃ later final, queue.Plays thread request shortage (more ++ later) final ∧
        ∀ waiter ∈ final.waiters, waiter.sleep = .asleep) ∧
    ∀ first rest last start others final,
      queue.Plays thread request shortage (first :: rest) last →
      (∀ waiter ∈ last.waiters, waiter.sleep = .asleep) →
      queue.Plays thread request shortage (start :: others) final →
      (∀ waiter ∈ final.waiters, waiter.sleep = .asleep) →
        final.board = last.board ∧ final.broken = last.broken ∧ start.answer = first.answer ∧
        (∀ transition ∈ rest, transition.move.thread ≠ thread) ∧
        others.map (·.answer) = rest.map (·.answer) ∧
        final.waiters.countP (·.request.isSubmission) =
          last.waiters.countP (·.request.isSubmission) ∧
        final.waiters.countP (·.request.isTake) = last.waiters.countP (·.request.isTake) := by
  have orderly := run.orderly
  have atRest := awake_eq_zero.mpr asleep
  obtain ⟨same, uniform⟩ := run.uniform isOpen unbroken asleep equal
  refine ⟨fun more last plays => ⟨plays.length_le orderly atRest, fun waiter hmem isAwake => ?_,
    run.comes_to_rest atRest plays⟩, ?_⟩
  · exact ⟨⟨0, run.deadlines_of_plays plays waiter hmem⟩,
      fun now chance early => run.goes_on plays hmem isAwake early chance⟩
  · intro first rest last start others final plays lastRest rivalPlays finalRest
    obtain ⟨hlast, hanswer, hanswers⟩ := plays.alike rivalPlays uniform atRest
      (awake_eq_zero.mpr lastRest) (awake_eq_zero.mpr finalRest)
    have lastOrderly := plays.orderly orderly
    have finalOrderly := rivalPlays.orderly orderly
    have hsubmissions : final.waiters.countP (·.request.isSubmission) =
        last.waiters.countP (·.request.isSubmission) := by
      rw [lastOrderly.sleepers_notFull lastRest, finalOrderly.sleepers_notFull finalRest,
        hlast.sleepers_eq]
    refine ⟨hlast.board_eq, hlast.broken_eq, hanswer, plays.others_go_on orderly atRest, hanswers,
      hsubmissions, ?_⟩
    have hlength := hlast.length_eq
    have htakes := lastOrderly.countP_isTake
    have hothers := finalOrderly.countP_isTake
    omega

end

/-- Two submissions of the same payload, one of them with a time limit, wait for the only place. -/
def twins : List (Move Nat Nat) :=
  [.enter 1 (.submit 10 .endless) 0 0 .calm, .enter 2 (.submit 20 .endless) 0 0 .calm,
    .enter 3 (.submit 20 (.limited fiveNanos)) 0 0 .calm]

/-- When the only order is taken, either of the twins may be called for the place. Another one is
left waiting then, but the board is the same, and so are the answers. -/
theorem choice_among_twins :
    ∃ history queue first rest last start others final, Run onePlace history queue ∧
      (Monitor.opened onePlace).replay twins = some (history, queue) ∧
      queue.Plays 4 (.take .endless) none (first :: rest) last ∧
      queue.Plays 4 (.take .endless) none (start :: others) final ∧
      rest.map (·.move.thread) = [2] ∧ others.map (·.move.thread) = [3] ∧
      last.waiters.map (·.thread) = [3] ∧ final.waiters.map (·.thread) = [2] ∧
      final.board = last.board ∧ start.answer = first.answer ∧
      others.map (·.answer) = rest.map (·.answer) := by
  obtain ⟨history, queue, next, last, following, hreplay, isOpen, unbroken, asleep, hheld, made,
      resumed, rivalMade, hlast, lastRest, hrival⟩ :
      ∃ history queue next last following,
        (Monitor.opened onePlace).replay twins = some (history, queue) ∧
        queue.board.closed = false ∧ queue.broken = false ∧ awake queue.waiters = 0 ∧
        held queue.waiters = [20, 20] ∧
        queue.step (.enter 4 (.take .endless) 0 0 .calm) = some (next, some (.order ⟨1, 10⟩)) ∧
        next.step (.resume 2 0 .calm) = some (last, some (.accepted 2)) ∧
        queue.step (.enter 4 (.take .endless) 0 0 ⟨1, none⟩) =
          some (following, some (.order ⟨1, 10⟩)) ∧
        last.waiters.map (·.thread) = [3] ∧ awake last.waiters = 0 ∧
        (following.step (.resume 3 0 .calm)).map (fun (final, answer) =>
            (answer, final.waiters.map (·.thread), awake final.waiters)) =
          some (some (.accepted 2), [2], 0) :=
    ⟨_, _, _, _, _, rfl, rfl, rfl, rfl, rfl, rfl, rfl, rfl, rfl, rfl, by decide⟩
  obtain ⟨⟨final, answer⟩, rivalResumed, hfinal⟩ := Option.map_eq_some_iff.mp hrival
  simp only [Prod.mk.injEq] at hfinal
  obtain ⟨rfl, hfinal, finalRest⟩ := hfinal
  have run : Run onePlace history queue := Run.opened.replay hreplay
  have plays := Monitor.Plays.enter made rfl (.step resumed rfl .done)
  have rivalPlays := Monitor.Plays.enter rivalMade rfl (.step rivalResumed rfl .done)
  obtain ⟨hboard, -, hanswer, -, hanswers, -⟩ :=
    (choice_unobservable run isOpen unbroken (awake_eq_zero.mp asleep) (by simp [hheld]) 4
      (.take .endless) none).2 _ _ _ _ _ _ plays (awake_eq_zero.mp lastRest) rivalPlays
      (awake_eq_zero.mp finalRest)
  exact ⟨history, queue, _, _, last, _, _, final, run, hreplay, plays, rivalPlays, rfl, rfl, hlast,
    hfinal, hboard, hanswer, hanswers⟩

end OrderRail.Queue
