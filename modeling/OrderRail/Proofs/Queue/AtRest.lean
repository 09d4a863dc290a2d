import OrderRail.Proofs.Queue.LastNumber
import OrderRail.Proofs.Queue.Surplus

/-!
# A queue at rest

A queue is at rest when everybody who waits is asleep. In which order the calls came, who stole a
place or an order from whom and which sleeper a signal reached is forgotten by then: if no more
submissions were made than orders are expected, and nobody gives up, the counters and the numbers of
calls that still wait are determined by how many submissions and how many takes were made.

Orders go as far as the scarcer kind of calls lets them, and behind them the queue fills up. Two
facts decide this. Calls are conserved: each one that was made has ended or waits. And at rest
nobody waits in vain: takes wait only at an empty queue, and submissions only at a full one.
-/

namespace OrderRail.Queue

variable {T P : Type}

/-- The requests that give up for no lapse of time: they submit or take without a time limit, or
only read the counters. -/
inductive Request.Untimed : Request P → Prop where
  | submit (payload : P) : Request.Untimed (.submit payload .endless)
  | take : Request.Untimed (.take .endless)
  | read {request : Request P} (reads : request.reads = true) : Request.Untimed request

/-- Whether an answer tells that work has ended. -/
def Answer.isEndOfWork : Answer P → Bool
  | .endOfWork => true
  | _ => false

/-- An untimed call that is answered takes an order, or learns that work has ended, exactly if it is
a take. If there is memory, it is refused only where all expected orders have been accepted. It
learns that work has ended only where all of them have been handed out, and it does not close the
queue. -/
theorem Decision.untimed {terms : Terms} {late : Bool} {shortage : Option StorageError}
    {board next : Board P} {request : Request P} {answer : Answer P} {signals : List Signal}
    (thread : T) (untimed : request.Untimed)
    (h : Decision terms late shortage board request (.finish answer next signals)) :
    request.isTake =
        ((Call.delivery? ⟨thread, request, answer⟩).isSome || answer.isEndOfWork) ∧
      (∀ rejection, answer = .rejected rejection → board.lacks shortage = none →
        terms.expected ≤ board.submitted) ∧
      (answer = .endOfWork → terms.expected ≤ board.handled) ∧
      ∀ report, answer ≠ .report report := by
  cases untimed with
  | submit payload =>
    cases h with
    | accept => exact ⟨rfl, fun rejection => nofun, nofun, fun report => nofun⟩
    | refuse isOpen unwanted => exact ⟨rfl, fun _ _ _ => unwanted, nofun, fun report => nofun⟩
    | lack _ _ _ denied =>
      refine ⟨rfl, fun _ _ granted => ?_, nofun, fun report => nofun⟩
      simp [granted] at denied
    | handOut _ takes | endWork _ takes => cases takes
    | read reads => cases reads
  | take =>
    cases h with
    | handOut => exact ⟨rfl, fun rejection => nofun, nofun, fun report => nofun⟩
    | endWork _ _ _ done => exact ⟨rfl, fun rejection => nofun, fun _ => done, fun report => nofun⟩
    | read reads => cases reads
  | read reads =>
    cases h with
    | read =>
      cases request with
      | length | isEmpty | stats => exact ⟨rfl, fun rejection => nofun, nofun, fun report => nofun⟩
      | _ => cases reads
    | handOut _ takes | endWork _ takes =>
      cases request with
      | length | isEmpty | stats => cases takes
      | _ => cases reads
    | accept | lack | refuse | leave | giveUp | decline | close => cases reads

/-- What is either of two things that exclude each other is counted by the sum. -/
theorem countP_eq_add {α : Type} {p q r : α → Bool} (items : List α)
    (either : ∀ a ∈ items, p a = (q a || r a)) (apart : ∀ a ∈ items, (q a && r a) = false) :
    items.countP p = items.countP q + items.countP r := by
  induction items with
  | nil => rfl
  | cons a rest ih =>
    obtain ⟨ha, hrest⟩ := List.forall_mem_cons.mp either
    obtain ⟨haApart, hrestApart⟩ := List.forall_mem_cons.mp apart
    rw [List.countP_cons, List.countP_cons, List.countP_cons, ih hrest hrestApart, ha]
    cases hq : q a <;> cases hr : r a
    · rfl
    · simp only [Bool.false_or, Bool.false_eq_true, if_true, if_false]
      omega
    · simp only [Bool.or_false, Bool.false_eq_true, if_true, if_false]
      omega
    · simp [hq, hr] at haApart

/-- Whenever a section asked the allocator for room for one more order, there was room. -/
def Provided (history : List (Transition T P)) : Prop :=
  ∀ transition ∈ history, transition.before.board.lacks transition.move.shortage = none

section

variable [DecidableEq T] {terms : Terms} {history : List (Transition T P)} {queue : Monitor T P}

/-- A call that has ended failed, or its answer is that of a section on a board that the run has
gone through, where there was memory if there always was; the counters have not fallen since. -/
theorem Run.decided (run : Run terms history queue) : ∀ call ∈ calls history,
    (∃ fault, call.answer = .fault fault) ∨ ∃ late shortage board next signals,
      Decision terms late shortage board call.request (.finish call.answer next signals) ∧
        (Provided history → board.lacks shortage = none) ∧
        board.submitted ≤ queue.board.submitted ∧ board.handled ≤ queue.board.handled := by
  induction run with
  | opened => simp [calls]
  | @step history queue next move answer run made ih =>
    have hflow := step_flow (run.terms_eq ▸ run.tallied) made
    have hnumber := hflow.nextNumber
    have hhandled := hflow.handled
    have hsubmitted : queue.board.submitted ≤ next.board.submitted := by
      simp only [Board.submitted]
      omega
    intro call hcall
    rw [calls_append] at hcall
    rcases List.mem_append.mp hcall with hold | hnew
    · rcases ih call hold with
        hfault | ⟨late, shortage, board, after, signals, decision, granted, hboard⟩
      · exact .inl hfault
      · refine .inr ⟨late, shortage, board, after, signals, decision, ?_, by omega, by omega⟩
        exact fun provided => granted fun earlier hmem =>
          provided earlier (List.mem_append_left _ hmem)
    · rcases Monitor.step_cases made with
        ⟨thread, waiter, rfl, -, -, rfl, rfl⟩ | ⟨attempt, base, grants, yields⟩
      · simp [Transition.call?] at hnew
      · obtain ⟨hterms, hboard, -⟩ := grants.base_eq
        rw [grants.call?_eq] at hnew
        cases yields with
        | broken isBroken =>
          rw [List.mem_singleton.mp hnew]
          exact .inl ⟨_, rfl⟩
        | finish unbroken decision =>
          rw [List.mem_singleton.mp hnew]
          rw [hterms, hboard, run.terms_eq] at decision
          refine .inr ⟨_, _, _, _, _, decision, fun provided => ?_, hsubmitted, by omega⟩
          rw [grants.shortage_eq]
          exact provided _ (List.mem_append_right _ (List.mem_singleton_self _))
        | wait unbroken decision => simp at hnew
        | fail unbroken decision =>
          rw [List.mem_singleton.mp hnew]
          exact .inl ⟨_, rfl⟩

/-- What breaks the lock of an open queue loses a payload. -/
theorem Run.losses_of_broken (run : Run terms history queue) (isOpen : queue.board.closed = false)
    (isBroken : queue.broken = true) : losses history ≠ [] := by
  induction run with
  | opened => cases isBroken
  | @step history queue next move answer run made ih =>
    have hopen := open_of_step made isOpen
    have hlosses : losses (history ++ [⟨queue, move, answer, next⟩]) =
        losses history ++ (Transition.call? ⟨queue, move, answer, next⟩).toList.filterMap
          Call.loss? := by
      rw [losses, calls_append, List.filterMap_append]
      rfl
    rw [hlosses]
    cases hbroken : queue.broken with
    | true => exact List.append_ne_nil_of_left_ne_nil (ih hopen hbroken) _
    | false =>
      apply List.append_ne_nil_of_right_ne_nil
      rcases Monitor.step_cases made with
        ⟨thread, waiter, -, -, -, rfl, -⟩ | ⟨attempt, base, grants, yields⟩
      · simp [Monitor.rousing, hbroken] at isBroken
      · obtain ⟨hterms, hboard, hbase⟩ := grants.base_eq
        have tallied : Tallied base.terms base.board :=
          hterms.trans run.terms_eq ▸ hboard ▸ run.tallied hopen
        have unbroken := hbase.trans hbroken
        obtain ⟨-, last⟩ := yields.asksLast unbroken (hboard ▸ hopen) tallied (.inl isBroken)
        rw [grants.call?_eq]
        cases yields with
        | broken hbroken | finish hbroken | wait hbroken => simp [unbroken] at isBroken
        | fail _ decision =>
          have submission := last.submission
          cases hrequest : attempt.request with
          | submit payload patience => simp [Call.loss?, Request.payload?]
          | _ => simp [hrequest, Request.isSubmission] at submission

/-- The calls that have ended were made. -/
theorem Run.request_mem (run : Run terms history queue) {call : Call T P}
    (hcall : call ∈ calls history) : call.request ∈ entries history :=
  run.entries_perm.mem_iff.mpr (List.mem_append_left _ (List.mem_map_of_mem hcall))

/-- A queue that was called by untimed requests only is open. -/
theorem Run.isOpen_of_untimed (run : Run terms history queue)
    (untimed : ∀ request ∈ entries history, request.Untimed) : queue.board.closed = false := by
  cases hclosed : queue.board.closed with
  | false => rfl
  | true =>
    obtain ⟨transition, hmem, report, hanswer⟩ := run.closed_iff.mp hclosed
    obtain ⟨call, hcall, hreport⟩ := run.call_of_answer hmem hanswer
    rcases run.decided call hcall with
      ⟨fault, hfault⟩ | ⟨late, shortage, board, next, signals, decision, -⟩
    · cases hreport.symm.trans hfault
    · have hdecided := decision.untimed call.thread (untimed _ (run.request_mem hcall))
      exact absurd hreport (hdecided.2.2.2 report)

/-- Untimed takes that have ended in an unbroken queue have taken an order each, or have learnt that
work has ended. -/
theorem Run.takes_ended (run : Run terms history queue) (unbroken : queue.broken = false)
    (untimed : ∀ request ∈ entries history, request.Untimed) :
    (calls history).countP (·.request.isTake) =
      queue.board.handled + (calls history).countP (·.answer.isEndOfWork) := by
  rw [run.counters.2, deliveries, List.length_filterMap_eq_countP]
  refine countP_eq_add _ (fun call hcall => ?_) (fun call _ => ?_)
  · rcases run.decided call hcall with
      ⟨fault, hfault⟩ | ⟨late, shortage, board, next, signals, decision, -⟩
    · exact absurd hfault (run.no_fault unbroken call hcall fault)
    · exact (decision.untimed call.thread (untimed _ (run.request_mem hcall))).1
  · obtain ⟨thread, request, answer⟩ := call
    cases answer <;> rfl

/-- Untimed takes learn that work has ended only when all expected orders have been handed out. -/
theorem Run.done_of_learnt (run : Run terms history queue)
    (untimed : ∀ request ∈ entries history, request.Untimed)
    (learnt : 0 < (calls history).countP (·.answer.isEndOfWork)) :
    terms.expected ≤ queue.board.handled := by
  obtain ⟨call, hcall, hend⟩ := List.countP_pos_iff.mp learnt
  have hanswer : call.answer = .endOfWork := by
    cases hanswer : call.answer with
    | endOfWork => rfl
    | _ => simp [hanswer, Answer.isEndOfWork] at hend
  rcases run.decided call hcall with
    ⟨fault, hfault⟩ | ⟨late, shortage, board, next, signals, decision, -, -, hhandled⟩
  · cases hanswer.symm.trans hfault
  · have hdecided := decision.untimed call.thread (untimed _ (run.request_mem hcall))
    exact (hdecided.2.2.1 hanswer).trans hhandled

/-- Fewer submissions than a counter can count to leave an open queue unbroken. -/
theorem Run.unbroken_of_few (run : Run terms history queue) (isOpen : queue.board.closed = false)
    (fits : (entries history).countP Request.isSubmission + 1 < Count.wordSize) :
    queue.broken = false := by
  cases hbroken : queue.broken with
  | false => rfl
  | true =>
    have hlosses := List.length_pos_iff.mpr (run.losses_of_broken isOpen hbroken)
    obtain ⟨hlast, hlargest⟩ := run.last_of_broken isOpen hbroken
    have hsubmissions := run.submissions_eq
    omega

/-- As long as there is memory and no more submissions are made than orders are expected, none is
refused. -/
theorem Run.refunds_of_few (run : Run terms history queue) (provided : Provided history)
    (untimed : ∀ request ∈ entries history, request.Untimed)
    (wanted : (entries history).countP Request.isSubmission ≤ terms.expected) :
    refunds history = [] := by
  by_contra hrefunds
  have hpos := List.length_pos_iff.mpr hrefunds
  obtain ⟨payload, hpayload⟩ := List.exists_mem_of_ne_nil _ hrefunds
  obtain ⟨call, hcall, hrefund⟩ := List.mem_filterMap.mp hpayload
  obtain ⟨rejection, hanswer⟩ : ∃ rejection, call.answer = .rejected rejection := by
    obtain ⟨thread, request, answer⟩ := call
    cases answer with
    | rejected rejection => exact ⟨rejection, rfl⟩
    | _ => cases hrefund
  rcases run.decided call hcall with
    ⟨fault, hfault⟩ | ⟨late, shortage, board, next, signals, decision, granted, hsubmitted, -⟩
  · cases hanswer.symm.trans hfault
  · have hdecided := decision.untimed call.thread (untimed _ (run.request_mem hcall))
    have hall := hdecided.2.1 rejection hanswer (granted provided)
    have hsubmissions := run.submissions_eq
    omega

/-- What has become of a queue at rest depends on the numbers of calls only.

If there was memory for every order, every call was a submission or a take without a time limit, or
only read the counters, and no more submissions were made than orders are expected, then the lock is
whole and no submission was refused. If everybody who waits is asleep, as many orders have been
handed out as there were calls of the scarcer kind, and as many have been accepted beyond them as
there are places, or all. The other submissions wait. The other takes wait as long as more orders
are expected, and have learnt that work has ended if none are. -/
theorem rest_depends_on_counts (run : Run terms history queue) (provided : Provided history)
    (untimed : ∀ request ∈ entries history, request.Untimed)
    (asleep : ∀ waiter ∈ queue.waiters, waiter.sleep = .asleep) {submissions takes : Nat}
    (hsubmissions : (entries history).countP Request.isSubmission = submissions)
    (htakes : (entries history).countP Request.isTake = takes)
    (wanted : submissions ≤ terms.expected) (fits : submissions + 1 < Count.wordSize) :
    queue.board.closed = false ∧ queue.broken = false ∧ refunds history = [] ∧
    queue.board.handled = min submissions takes ∧
    queue.board.submitted = min submissions (min submissions takes + terms.capacity) ∧
    queue.waiters.countP (·.request.isSubmission) = submissions - queue.board.submitted ∧
    (queue.board.handled < terms.expected →
      queue.waiters.countP (·.request.isTake) = takes - min submissions takes) ∧
    (queue.board.handled = terms.expected →
      queue.waiters.countP (·.request.isTake) = 0 ∧
        (calls history).countP (·.answer.isEndOfWork) = takes - terms.expected) := by
  have isOpen := run.isOpen_of_untimed untimed
  have unbroken := run.unbroken_of_few isOpen (by omega)
  have hrefunds := run.refunds_of_few provided untimed (by omega)
  refine ⟨isOpen, unbroken, hrefunds, ?_⟩
  -- Calls are conserved.
  have hplaced := run.submissions_eq
  rw [hsubmissions, hrefunds, run.losses_of_unbroken unbroken, List.length_nil] at hplaced
  have htaken := run.entries_perm.countP_eq Request.isTake
  rw [htakes, List.countP_append, List.countP_map, List.countP_map] at htaken
  have hended := run.takes_ended unbroken untimed
  have hlearnt := run.done_of_learnt untimed
  -- Nobody waits in vain.
  have hfull : 0 < queue.waiters.countP (·.request.isSubmission) →
      queue.board.pending.size = terms.capacity ∨ queue.board.submitted = terms.expected := by
    intro some
    obtain ⟨waiter, hmem, hsubmission⟩ := List.countP_pos_iff.mp some
    exact (run.waits_at_rest isOpen unbroken asleep hmem).2 hsubmission
  have hempty : 0 < queue.waiters.countP (·.request.isTake) →
      queue.board.pending.size = 0 ∧ queue.board.handled < terms.expected := by
    intro some
    obtain ⟨waiter, hmem, htake⟩ := List.countP_pos_iff.mp some
    exact (run.waits_at_rest isOpen unbroken asleep hmem).1 htake
  have tallied := run.tallied isOpen
  have hsubmitted := tallied.submitted_eq
  have hroom := tallied.room
  have hwanted := tallied.wanted
  have hcapacity := terms.capacity_pos
  simp only [Function.comp_def] at htaken
  refine ⟨?_, ?_, ?_, ?_, ?_⟩ <;> omega

end

/-- One of three submissions gets the only place, and the next one gets it when the order there has
been taken. -/
def queueing : List (Move Nat Nat) :=
  [.enter 1 (.submit 10 .endless) 0 0 .calm, .enter 2 (.submit 20 .endless) 0 0 .calm,
    .enter 3 (.submit 30 .endless) 0 0 .calm, .enter 4 (.take .endless) 0 0 .calm,
    .resume 2 0 .calm]

/-- After three submissions and one take, one order has been handed out, the place is taken again,
and the third submission waits. -/
theorem rest_after_queueing :
    ∃ history queue, Run onePlace history queue ∧
      (Monitor.opened onePlace).replay queueing = some (history, queue) ∧
      (entries history).countP Request.isSubmission = 3 ∧
      (entries history).countP Request.isTake = 1 ∧
      queue.board.handled = min 3 1 ∧ queue.board.submitted = min 3 (min 3 1 + 1) ∧
      queue.waiters.countP (·.request.isSubmission) = 3 - queue.board.submitted ∧
      queue.waiters.countP (·.request.isTake) = 1 - min 3 1 := by
  obtain ⟨history, queue, hreplay, provided, hentries, hsleep, hhandled⟩ :
      ∃ history queue,
        (Monitor.opened onePlace).replay queueing = some (history, queue) ∧ Provided history ∧
        entries history = [.submit 10 .endless, .submit 20 .endless, .submit 30 .endless,
          .take .endless] ∧
        (∀ waiter ∈ queue.waiters, waiter.sleep = .asleep) ∧ queue.board.handled = 1 :=
    ⟨_, _, rfl, by simp [Provided, Move.shortage, Chance.calm], rfl,
      List.forall_mem_singleton.mpr rfl, rfl⟩
  have run : Run onePlace history queue := Run.opened.replay hreplay
  have untimed : ∀ request ∈ entries history, request.Untimed := by
    simp only [hentries, List.forall_mem_cons]
    exact ⟨.submit 10, .submit 20, .submit 30, .take, by simp⟩
  have hsubmissions : (entries history).countP Request.isSubmission = 3 := by
    rw [hentries]
    rfl
  have htakes : (entries history).countP Request.isTake = 1 := by
    rw [hentries]
    rfl
  obtain ⟨-, -, -, hmin, hsubmitted, hplaces, hwaits, -⟩ :=
    rest_depends_on_counts run provided untimed hsleep hsubmissions htakes (by decide) (by decide)
  have hmore : queue.board.handled < onePlace.expected := by
    rw [hhandled]
    decide
  exact ⟨history, queue, run, hreplay, hsubmissions, htakes, hmin, hsubmitted, hplaces,
    hwaits hmore⟩

end OrderRail.Queue
