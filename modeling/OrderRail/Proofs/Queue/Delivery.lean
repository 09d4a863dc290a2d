import OrderRail.Proofs.Queue.Accounting
import OrderRail.Proofs.Queue.Payloads

/-!
# Every order is delivered once and in order

A step moves orders between the ends of the queue: what was pending and what is accepted are, in
this order, what is handed out, what is dropped, and what is pending afterwards. Over a run the
accepted orders are therefore those handed out, those dropped and those still pending, in the order
in which they were accepted, and their numbers count from one.

Offered payloads are followed from call to call as well. A call that ends has either brought its
payload into the queue, or handed it back, or lost it with a fault, and every other payload is held
by a call that still waits.
-/

namespace OrderRail.Queue

variable {T P : Type}

/-- What a step does to the pending orders and the counters, given what it accepts, hands out and
drops. -/
structure Flow (before after : Board P) (accepted handed dropped : List (Order P)) : Prop where
  pending : before.pending.toList ++ accepted = handed ++ dropped ++ after.pending.toList
  numbers : accepted.map (·.number) = List.range' before.nextNumber accepted.length
  nextNumber : after.nextNumber = before.nextNumber + accepted.length
  handled : after.handled = before.handled + handed.length
  isOpen : handed ≠ [] → before.closed = false

/-- A step that leaves the board alone moves nothing. -/
theorem Flow.refl (board : Board P) : Flow board board [] [] [] where
  pending := by simp
  numbers := rfl
  nextNumber := rfl
  handled := rfl
  isOpen := fun h => absurd rfl h

/-- The orders that an answered section drops from the board that it finds. -/
def Answer.dropped (board : Board P) : Answer P → List (Order P)
  | .report _ => board.pending.toList
  | _ => []

/-- An answered section moves what its answer says. -/
theorem Decision.flow {terms : Terms} {late : Bool} {shortage : Option StorageError}
    {board next : Board P} {request : Request P}
    {answer : Answer P} {signals : List Signal} (thread : T)
    (h : Decision terms late shortage board request (.finish answer next signals)) :
    Flow board next ((Call.receipt? ⟨thread, request, answer⟩).toList.map (·.order))
      (Call.delivery? ⟨thread, request, answer⟩).toList (answer.dropped board) := by
  cases h with
  | @accept payload patience isOpen wanted room granted fits =>
    refine ⟨?_, rfl, rfl, rfl, fun h => absurd rfl h⟩
    exact (Fifo.toList_push board.pending ⟨board.nextNumber, payload⟩).symm
  | @handOut request order rest isOpen takes pops fits =>
    refine ⟨?_, rfl, rfl, rfl, fun _ => isOpen⟩
    rw [Fifo.toList_of_pop? pops]
    exact List.append_nil _
  | close isOpen =>
    refine ⟨?_, rfl, rfl, rfl, fun h => absurd rfl h⟩
    change board.pending.toList ++ [] = [] ++ board.pending.toList ++ []
    simp
  | @read request reads => cases request <;> exact .refl board
  | lack | refuse | leave | endWork | giveUp | decline => exact .refl board

section

variable [DecidableEq T] {terms : Terms} {history : List (Transition T P)} {queue : Monitor T P}

/-- A step moves what it gives a receipt for, hands out and drops. -/
theorem step_flow {next : Monitor T P} {move : Move T P} {answer : Option (Answer P)}
    (htallied : queue.board.closed = false → Tallied queue.terms queue.board)
    (made : queue.step move = some (next, answer)) :
    Flow queue.board next.board
      ((Transition.given ⟨queue, move, answer, next⟩).map (·.order))
      (Transition.handed ⟨queue, move, answer, next⟩)
      (Transition.dropped ⟨queue, move, answer, next⟩) := by
  rcases Monitor.step_cases made with
    ⟨thread, waiter, rfl, -, -, rfl, rfl⟩ | ⟨attempt, base, grants, yields⟩
  · exact .refl queue.board
  · obtain ⟨hterms, hboard, -⟩ := grants.base_eq
    rw [Transition.given, Transition.handed, grants.call?_eq]
    cases yields with
    | broken isBroken =>
      rw [hboard]
      exact .refl queue.board
    | @finish answer board signals unbroken decision =>
      have hflow := decision.flow attempt.thread
      rw [hboard] at hflow
      cases answer <;> exact hflow
    | wait unbroken decision =>
      change Flow queue.board base.board [] [] []
      rw [hboard]
      exact .refl queue.board
    | @fail fault board unbroken decision =>
      rw [hterms, hboard] at decision
      change Flow queue.board board [] [] []
      rw [Tallied.fail htallied decision]
      exact .refl queue.board

/-- As long as a queue is open, nothing has been dropped. -/
theorem Run.drops_of_open (run : Run terms history queue) (isOpen : queue.board.closed = false) :
    drops history = [] := by
  apply List.flatMap_eq_nil_iff.mpr
  intro transition hmem
  cases hanswer : transition.answer with
  | none => simp [Transition.dropped, hanswer]
  | some answer =>
    cases answer with
    | report report =>
      have isClosed := run.closed_iff.mpr ⟨transition, hmem, report, hanswer⟩
      simp [isOpen] at isClosed
    | _ => simp [Transition.dropped, hanswer]

/-- The orders that closing has dropped are those that its report counts as left over. -/
theorem Run.length_drops (run : Run terms history queue) {transition : Transition T P}
    (hmem : transition ∈ history) {report : CloseReport}
    (hanswer : transition.answer = some (.report report)) :
    (drops history).length = report.leftover := by
  induction run with
  | opened => simp at hmem
  | @step history queue next move answer run made ih =>
    rw [drops_append, List.length_append]
    rcases List.mem_append.mp hmem with hold | hnew
    · have isClosed : queue.board.closed = true := run.closed_iff.mpr ⟨_, hold, report, hanswer⟩
      have hnone : Transition.dropped ⟨queue, move, answer, next⟩ = [] := by
        cases answer with
        | none => rfl
        | some answer =>
          cases answer with
          | report other => exact absurd rfl ((step_of_closed isClosed made).2 other)
          | _ => rfl
      rw [ih hold, hnone, List.length_nil, Nat.add_zero]
    · have hlast := (run.step made).closed_by hmem hanswer
      rw [List.mem_singleton.mp hnew] at hanswer hlast
      change answer = some (.report report) at hanswer
      subst hanswer
      rw [run.drops_of_open hlast.1, hlast.2.1]
      exact (Nat.zero_add _).trans (Fifo.length_toList queue.board.pending)

/-- The accepted orders are those handed out, those dropped and those pending, in this order. -/
theorem Run.receipts_eq (run : Run terms history queue) :
    (receipts history).map (·.order) =
      deliveries history ++ drops history ++ queue.board.pending.toList := by
  induction run with
  | opened => rfl
  | @step history queue next move answer run made ih =>
    have hflow := step_flow (run.terms_eq ▸ run.tallied) made
    have hswap : drops history ++ Transition.handed ⟨queue, move, answer, next⟩ =
        Transition.handed ⟨queue, move, answer, next⟩ ++ drops history := by
      by_cases hnone : Transition.handed ⟨queue, move, answer, next⟩ = []
      · simp [hnone]
      · simp [run.drops_of_open (hflow.isOpen hnone)]
    rw [receipts_append, deliveries_append, drops_append, List.map_append, ih]
    calc deliveries history ++ drops history ++ queue.board.pending.toList ++
          (Transition.given ⟨queue, move, answer, next⟩).map (·.order)
        = deliveries history ++ (drops history ++
            Transition.handed ⟨queue, move, answer, next⟩) ++
            Transition.dropped ⟨queue, move, answer, next⟩ ++ next.board.pending.toList := by
          simp only [List.append_assoc] at hflow ⊢
          rw [hflow.pending]
          simp
      _ = _ := by rw [hswap]; simp

/-- The counters count what the history tells. -/
theorem Run.counters (run : Run terms history queue) :
    queue.board.nextNumber = (receipts history).length + 1 ∧
      queue.board.handled = (deliveries history).length := by
  induction run with
  | opened => exact ⟨rfl, rfl⟩
  | @step history queue next move answer run made ih =>
    have hflow := step_flow (run.terms_eq ▸ run.tallied) made
    have hnumber := hflow.nextNumber
    have hhandled := hflow.handled
    rw [List.length_map] at hnumber
    rw [receipts_append, deliveries_append, List.length_append, List.length_append]
    omega

/-- The accepted orders are numbered from one. -/
theorem Run.numbers_eq (run : Run terms history queue) :
    (receipts history).map (·.order.number) = List.range' 1 queue.board.submitted := by
  induction run with
  | opened => rfl
  | @step history queue next move answer run made ih =>
    have hflow := step_flow (run.terms_eq ▸ run.tallied) made
    have hcounters := run.counters
    have hnumbers := hflow.numbers
    have hnext := hflow.nextNumber
    simp only [List.map_map, List.length_map, Function.comp_def] at hnumbers hnext
    have hsubmitted : next.board.submitted = queue.board.submitted +
        (Transition.given ⟨queue, move, answer, next⟩).length := by
      simp only [Board.submitted]
      omega
    have hfirst : queue.board.nextNumber = 1 + queue.board.submitted := by
      simp only [Board.submitted]
      omega
    rw [receipts_append, List.map_append, ih, hsubmitted, hnumbers, hfirst, List.range'_append_1]

/-- The orders that have been handed out are those of the first receipts. -/
theorem Run.deliveries_eq (run : Run terms history queue) :
    deliveries history = ((receipts history).take queue.board.handled).map (·.order) := by
  rw [List.map_take, run.receipts_eq, List.append_assoc, run.counters.2, List.take_left]

/-- The orders that have been handed out are numbered from one. -/
theorem Run.delivered_numbers (run : Run terms history queue) :
    (deliveries history).map (·.number) = List.range' 1 queue.board.handled := by
  have hreceipts := congrArg List.length run.receipts_eq
  have hcounters := run.counters
  simp only [List.length_map, List.length_append] at hreceipts
  have hle : queue.board.handled ≤ queue.board.submitted := by
    simp only [Board.submitted]
    omega
  have hnumbers : (deliveries history).map (·.number) =
      ((receipts history).map (·.order.number)).take queue.board.handled := by
    rw [run.deliveries_eq, List.map_map, ← List.map_take]
    rfl
  rw [hnumbers, run.numbers_eq, List.take_range'_of_length_ge hle]

/-- The numbers that the calls of a thread return are increasing. -/
theorem Run.numbers_increasing (run : Run terms history queue) (thread : T) :
    ((receiptsOf thread history).map (·.order.number)).Pairwise (· < ·) := by
  have hsublist : ((receiptsOf thread history).map (·.order.number)).Sublist
      (List.range' 1 queue.board.submitted) := by
    rw [← run.numbers_eq]
    exact List.filter_sublist.map _
  exact List.Pairwise.sublist hsublist List.pairwise_lt_range'

/-- A receipt has the place among the receipts that its number says. -/
theorem Run.receipt_at (run : Run terms history queue) {receipt : Receipt T P}
    (h : receipt ∈ receipts history) :
    (receipts history)[receipt.order.number - 1]? = some receipt := by
  obtain ⟨place, hreceipt⟩ := List.mem_iff_getElem?.mp h
  have hnumber : (List.range' 1 queue.board.submitted)[place]? = some receipt.order.number := by
    rw [← run.numbers_eq, List.getElem?_map, hreceipt]
    rfl
  obtain ⟨hplace, hvalue⟩ := List.getElem?_eq_some_iff.mp hnumber
  rw [List.getElem_range'] at hvalue
  have hindex : receipt.order.number - 1 = place := by omega
  rw [hindex, hreceipt]

/-- Orders are delivered once each and in the order in which they were accepted, and payloads are
conserved, however the calls of any threads are interleaved.

The orders handed out are numbered from one and are those of the first receipts, where the call that
returned a number has the place that the number says. The numbers of a thread increase, its accepted
payloads are in the order in which it offered them, and those handed out are the first of them. The
offered payloads are those handed out, those dropped by closing, which its report counts as left
over, those pending, those handed back to their own calls, those lost with calls that failed, of
which there are none unless the lock is broken, and those held by calls that wait. -/
theorem orders_delivered_once (run : Run terms history queue) :
    (deliveries history).map (·.number) = List.range' 1 queue.board.handled ∧
    deliveries history = ((receipts history).take queue.board.handled).map (·.order) ∧
    (∀ call ∈ calls history, ∀ number, call.answer = .accepted number →
      ∃ payload, call.request.payload? = some payload ∧
        (receipts history)[number - 1]? = some ⟨call.thread, ⟨number, payload⟩⟩) ∧
    (∀ thread,
      ((receiptsOf thread history).map (·.order.number)).Pairwise (· < ·) ∧
      ((receiptsOf thread history).map (·.order.payload)).Sublist (offersOf thread history) ∧
      ((receipts history).take queue.board.handled).filter (·.thread = thread) <+:
        receiptsOf thread history) ∧
    ((offers history).map (·.2)).Perm
      ((deliveries history ++ drops history ++ queue.board.pending.toList).map (·.payload) ++
        refunds history ++ losses history ++ held queue.waiters) ∧
    (∀ call ∈ calls history, ∀ rejection, call.answer = .rejected rejection →
      call.request.payload? = some rejection.payload) ∧
    (∀ transition ∈ history, ∀ report, transition.answer = some (.report report) →
      (drops history).length = report.leftover) ∧
    (queue.board.closed = false → drops history = []) ∧
    (queue.broken = false → losses history = []) := by
  refine ⟨run.delivered_numbers, run.deliveries_eq, ?_, ?_, ?_, ?_, ?_, run.drops_of_open,
    run.losses_of_unbroken⟩
  · intro call hcall number hanswer
    obtain ⟨payload, hpayload, hreceipt⟩ :=
      (run.settled call hcall).receipt_of_accepted hanswer
    exact ⟨payload, hpayload,
      run.receipt_at (List.mem_filterMap.mpr ⟨call, hcall, hreceipt⟩)⟩
  · intro thread
    refine ⟨run.numbers_increasing thread, run.accepted_sublist thread, ?_⟩
    exact (List.take_prefix _ _).filter _
  · have hpayloads := congrArg (List.map (·.payload)) run.receipts_eq
    rw [List.map_map] at hpayloads
    rw [← hpayloads]
    exact run.payloads_conserved
  · intro call hcall rejection hanswer
    exact (run.settled call hcall).payload_of_rejected hanswer
  · intro transition hmem report hanswer
    exact run.length_drops hmem hanswer

end

/-- There is no memory for a first payload. After the rush one more is refused, the second order is
taken, and the queue is closed over the third one. -/
def rushAndClose : List (Move Nat Nat) :=
  [.enter 1 (.submit 5 .endless) 0 0 ⟨0, some .exhausted⟩] ++ rush ++
    [.enter 1 (.submit 40 .endless) 0 0 .calm, .enter 4 .tryTake 0 0 .calm,
      .enter 5 .close 0 0 .calm]

/-- Of the five payloads offered in the rush, two are delivered, one is dropped by closing and two
are handed back. -/
theorem delivered_after_rush :
    ∃ history queue, Run twoPlaces history queue ∧
      (Monitor.opened twoPlaces).replay rushAndClose =
        some (history, queue) ∧
      deliveries history = [⟨1, 10⟩, ⟨2, 20⟩] ∧ drops history = [⟨3, 30⟩] ∧
      refunds history = [5, 40] ∧
      (deliveries history).map (·.number) = List.range' 1 queue.board.handled ∧
      ((offers history).map (·.2)).Perm
        ((deliveries history ++ drops history ++ queue.board.pending.toList).map (·.payload) ++
          refunds history ++ losses history ++ held queue.waiters) := by
  obtain ⟨history, queue, hreplay, hdeliveries, hdrops, hrefunds⟩ :
      ∃ history queue,
        (Monitor.opened twoPlaces).replay rushAndClose =
          some (history, queue) ∧
        deliveries history = [⟨1, 10⟩, ⟨2, 20⟩] ∧ drops history = [⟨3, 30⟩] ∧
        refunds history = [5, 40] :=
    ⟨_, _, rfl, rfl, rfl, rfl⟩
  have run : Run twoPlaces history queue := Run.opened.replay hreplay
  obtain ⟨hnumbers, -, -, -, hpayloads, -⟩ := orders_delivered_once run
  exact ⟨history, queue, run, hreplay, hdeliveries, hdrops, hrefunds, hnumbers, hpayloads⟩

end OrderRail.Queue
