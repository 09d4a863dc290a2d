import Mathlib.Data.List.Range
import OrderRail.Proofs.Queue.Run

/-!
# The accounts of a queue

While a queue is open its pending orders carry one block of consecutive numbers, which starts behind
the orders that have been handed out and ends with the last one that was accepted. The block is
never longer than the queue has places, and it never goes beyond the expected number. Every section
keeps this, whoever runs it and however it ends.

The peak is a fact about the whole run: it is the largest number of orders that were pending in any
state so far. Closing freezes the board. A section that would overflow a counter fails and accepts
nothing; handing out never comes to that, because more orders are never handed out than expected.
-/

namespace OrderRail.Queue

variable {T P : Type}

/-- The accounts of an open board: the pending orders are numbered in one block behind the handed
out ones, and the block respects both limits. -/
structure Tallied (terms : Terms) (board : Board P) : Prop where
  nextNumber_eq : board.nextNumber = board.handled + board.pending.size + 1
  wanted : board.handled + board.pending.size ≤ terms.expected
  room : board.pending.size ≤ terms.capacity
  numbers : board.pending.toList.map (·.number) =
    List.range' (board.handled + 1) board.pending.size

namespace Tallied

variable {terms : Terms} {board : Board P}

/-- The accepted orders are those handed out and those pending. -/
theorem submitted_eq (h : Tallied terms board) :
    board.submitted = board.handled + board.pending.size := by
  rw [Board.submitted, h.nextNumber_eq, Nat.add_sub_cancel]

/-- The accounts of a queue that has just been opened. -/
theorem fresh (terms : Terms) : Tallied terms (.fresh : Board P) :=
  ⟨rfl, Nat.zero_le _, Nat.zero_le _, rfl⟩

/-- Accepting an order adds the next number to the block. -/
theorem accepting (h : Tallied terms board) (wanted : board.submitted < terms.expected)
    (room : board.pending.size < terms.capacity) (payload : P) :
    Tallied terms (board.accepting payload) := by
  have hsubmitted := h.submitted_eq
  refine ⟨?_, ?_, room, ?_⟩
  · change board.nextNumber + 1 = board.handled + (board.pending.size + 1) + 1
    rw [h.nextNumber_eq]
    omega
  · change board.handled + (board.pending.size + 1) ≤ terms.expected
    omega
  · change (board.pending.push ⟨board.nextNumber, payload⟩).toList.map (·.number) =
      List.range' (board.handled + 1) (board.pending.size + 1)
    rw [Fifo.toList_push, List.map_append, h.numbers, List.range'_1_concat, h.nextNumber_eq]
    simp only [List.map_cons, List.map_nil]
    congr 2
    omega

/-- The order that is handed out carries the first number of the block. -/
theorem pop (h : Tallied terms board) {order : Order P} {rest : Fifo (Order P)}
    (pops : board.pending.pop? = some (order, rest)) :
    order.number = board.handled + 1 ∧
      rest.toList.map (·.number) = List.range' (board.handled + 1 + 1) rest.size := by
  have hnumbers := h.numbers
  rw [Fifo.toList_of_pop? pops, size_of_pop? pops, List.map_cons, List.range'_succ,
    List.cons.injEq] at hnumbers
  exact hnumbers

/-- Handing out an order removes the first number of the block. -/
theorem handingOut (h : Tallied terms board) {order : Order P} {rest : Fifo (Order P)}
    (pops : board.pending.pop? = some (order, rest)) :
    Tallied terms (board.handingOut rest) := by
  have hsize := size_of_pop? pops
  have hnext := h.nextNumber_eq
  have hwanted := h.wanted
  have hroom := h.room
  refine ⟨?_, ?_, ?_, (h.pop pops).2⟩
  · change board.nextNumber = board.handled + 1 + rest.size + 1
    omega
  · change board.handled + 1 + rest.size ≤ terms.expected
    omega
  · change rest.size ≤ terms.capacity
    omega

/-- The count of handed out orders never overflows: one more order is still expected. -/
theorem handled_fits (h : Tallied terms board) {order : Order P} {rest : Fifo (Order P)}
    (pops : board.pending.pop? = some (order, rest)) : board.handled + 1 < Count.wordSize := by
  have hsize := size_of_pop? pops
  have hwanted := h.wanted
  have hexpected := terms.expected_lt
  omega

/-- A section that ends with an answer keeps the accounts of a board that it leaves open. -/
theorem finish {late : Bool} {shortage : Option StorageError} {request : Request P}
    {answer : Answer P} {next : Board P} {signals : List Signal}
    (h : board.closed = false → Tallied terms board)
    (decision : Decision terms late shortage board request (.finish answer next signals)) :
    next.closed = false → Tallied terms next := by
  cases decision with
  | accept isOpen wanted room granted fits => exact fun _ => (h isOpen).accepting wanted room _
  | handOut isOpen takes pops fits => exact fun _ => (h isOpen).handingOut pops
  | close isOpen => exact fun hclosed => nomatch hclosed
  | lack | refuse | leave | endWork | giveUp | decline | read => exact h

/-- A section that fails leaves the board as it was. -/
theorem fail {late : Bool} {shortage : Option StorageError} {request : Request P} {fault : Fault}
    {next : Board P}
    (h : board.closed = false → Tallied terms board)
    (decision : Decision terms late shortage board request (.fail fault next)) : next = board := by
  cases decision with
  | misuse isClosed needsOpen => rfl
  | numberOverflow isOpen wanted room granted tooLarge => rfl
  | countOverflow isOpen takes pops tooLarge =>
    have hfits := (h isOpen).handled_fits pops
    omega

end Tallied

/-- The accounts are kept by every step. -/
theorem step_tallied [DecidableEq T] {queue next : Monitor T P} {move : Move T P}
    {answer : Option (Answer P)}
    (h : queue.board.closed = false → Tallied queue.terms queue.board)
    (made : queue.step move = some (next, answer)) :
    next.board.closed = false → Tallied next.terms next.board := by
  rw [Monitor.step_terms made]
  rcases Monitor.step_board made with
    ⟨hboard, -⟩ | ⟨late, shortage, request, value, signals, -, decision⟩ |
      ⟨late, shortage, request, fault, -, decision⟩
  · rwa [hboard]
  · exact Tallied.finish h decision
  · rwa [Tallied.fail h decision]

/-- In a run the accounts are kept while the queue is open. -/
theorem Run.tallied [DecidableEq T] {terms : Terms} {history : List (Transition T P)}
    {queue : Monitor T P} (run : Run terms history queue) :
    queue.board.closed = false → Tallied terms queue.board := by
  rw [← run.terms_eq]
  induction run with
  | opened => exact fun _ => .fresh terms
  | step run made ih => exact step_tallied ih made

/-- `peak` is the largest number of orders that are pending in one of the states. -/
def IsPeak (states : List (Monitor T P)) (peak : Nat) : Prop :=
  (∀ state ∈ states, state.board.pending.size ≤ peak) ∧
    ∃ state ∈ states, state.board.pending.size = peak

/-- One more state raises the peak to the number of orders pending there. -/
theorem IsPeak.append {states : List (Monitor T P)} {peak : Nat} (h : IsPeak states peak)
    (state : Monitor T P) : IsPeak (states ++ [state]) (max peak state.board.pending.size) := by
  obtain ⟨hbound, highest, hmem, hhighest⟩ := h
  refine ⟨?_, ?_⟩
  · intro other hother
    rcases List.mem_append.mp hother with hold | hnew
    · exact (hbound other hold).trans (Nat.le_max_left _ _)
    · rw [List.mem_singleton.mp hnew]
      exact Nat.le_max_right _ _
  · by_cases hraised : peak ≤ state.board.pending.size
    · exact ⟨state, by simp, (Nat.max_eq_right hraised).symm⟩
    · refine ⟨highest, List.mem_append_left _ hmem, ?_⟩
      rw [hhighest, Nat.max_eq_left (by omega)]

/-- An answered section keeps the peak up to date. -/
theorem Decision.peak_eq {terms : Terms} {late : Bool} {shortage : Option StorageError}
    {board next : Board P} {request : Request P}
    {answer : Answer P} {signals : List Signal} (bounded : board.pending.size ≤ board.peak)
    (h : Decision terms late shortage board request (.finish answer next signals)) :
    next.peak = max board.peak next.pending.size := by
  cases h with
  | accept isOpen wanted room granted fits => rfl
  | @handOut request order rest isOpen takes pops fits =>
    have hsize := size_of_pop? pops
    have hrest : rest.size ≤ board.peak := by omega
    exact (Nat.max_eq_left hrest).symm
  | close isOpen => exact (Nat.max_eq_left (Nat.zero_le _)).symm
  | lack | refuse | leave | endWork | giveUp | decline | read =>
    exact (Nat.max_eq_left bounded).symm

/-- An answered section that accepts an order leaves a positive peak. -/
theorem Decision.peak_pos {terms : Terms} {late : Bool} {shortage : Option StorageError}
    {board next : Board P} {request : Request P} {answer : Answer P} {signals : List Signal}
    (before : 0 < board.submitted → 0 < board.peak)
    (h : Decision terms late shortage board request (.finish answer next signals))
    (some : 0 < next.submitted) : 0 < next.peak := by
  cases h with
  | accept isOpen wanted room granted fits =>
    exact Nat.lt_of_lt_of_le (Nat.succ_pos _) (Nat.le_max_right board.peak _)
  | handOut | close | lack | refuse | leave | endWork | giveUp | decline | read => exact before some

/-- An answered section leaves a closed board as it was. -/
theorem Decision.board_eq_of_closed {terms : Terms} {late : Bool} {shortage : Option StorageError}
    {board next : Board P} {request : Request P} {answer : Answer P} {signals : List Signal}
    (isClosed : board.closed = true)
    (h : Decision terms late shortage board request (.finish answer next signals)) :
    next = board := by
  cases h with
  | read reads => rfl
  | accept isOpen | lack isOpen | refuse isOpen | leave isOpen | handOut isOpen | endWork isOpen
  | giveUp isOpen | decline isOpen | close isOpen => simp [isClosed] at isOpen

/-- A section that fails leaves a closed board closed and an open one open. -/
theorem Decision.closed_eq_of_fail {terms : Terms} {late : Bool} {shortage : Option StorageError}
    {board next : Board P} {request : Request P} {fault : Fault}
    (h : Decision terms late shortage board request (.fail fault next)) :
    next.closed = board.closed := by
  cases h <;> rfl

/-- An open board is closed by nothing but the report of closing. -/
theorem Decision.report_of_closed {terms : Terms} {late : Bool} {shortage : Option StorageError}
    {board next : Board P} {request : Request P} {answer : Answer P} {signals : List Signal}
    (isOpen : board.closed = false) (isClosed : next.closed = true)
    (h : Decision terms late shortage board request (.finish answer next signals)) :
    ∃ report, answer = .report report := by
  cases h with
  | close => exact ⟨_, rfl⟩
  | accept | handOut =>
    change board.closed = true at isClosed
    simp [isOpen] at isClosed
  | lack | refuse | leave | endWork | giveUp | decline | read => simp [isOpen] at isClosed

/-- Only closing an open queue brings a report, which is drawn up from the board that it finds. -/
theorem Decision.report_eq {terms : Terms} {late : Bool} {shortage : Option StorageError}
    {board next : Board P} {request : Request P} {report : CloseReport} {signals : List Signal}
    (h : Decision terms late shortage board request (.finish (.report report) next signals)) :
    board.closed = false ∧ report = board.accounts terms ∧ next = board.closing := by
  generalize hanswer : Answer.report report = answer at h
  cases h with
  | close isOpen => exact ⟨isOpen, Answer.report.inj hanswer, rfl⟩
  | read reads => cases request <;> simp [Request.reading] at hanswer reads
  | accept | lack | refuse | leave | handOut | endWork | giveUp | decline => cases hanswer

section

variable [DecidableEq T] {terms : Terms} {history : List (Transition T P)} {queue : Monitor T P}

/-- The peak never falls. -/
theorem peak_le_of_step {next : Monitor T P} {move : Move T P} {answer : Option (Answer P)}
    (made : queue.step move = some (next, answer)) : queue.board.peak ≤ next.board.peak := by
  rcases Monitor.step_board made with
    ⟨hboard, -⟩ | ⟨late, shortage, request, value, signals, -, decision⟩ |
      ⟨late, shortage, request, fault, -, decision⟩
  · exact hboard ▸ Nat.le_refl _
  · generalize next.board = board at decision
    cases decision with
    | accept => exact Nat.le_max_left _ _
    | _ => exact Nat.le_refl _
  · generalize next.board = board at decision
    cases decision <;> exact Nat.le_refl _

/-- A step keeps the peak up to date. -/
theorem peak_of_step {next : Monitor T P} {move : Move T P} {answer : Option (Answer P)}
    (tallied : queue.board.closed = false → Tallied queue.terms queue.board)
    (bounded : queue.board.pending.size ≤ queue.board.peak)
    (made : queue.step move = some (next, answer)) :
    next.board.peak = max queue.board.peak next.board.pending.size := by
  rcases Monitor.step_board made with
    ⟨hboard, -⟩ | ⟨late, shortage, request, value, signals, -, decision⟩ |
      ⟨late, shortage, request, fault, -, decision⟩
  · rw [hboard, Nat.max_eq_left bounded]
  · exact decision.peak_eq bounded
  · rw [Tallied.fail tallied decision, Nat.max_eq_left bounded]

/-- The peak of the board is the peak of the run. -/
theorem Run.isPeak (run : Run terms history queue) :
    IsPeak (states terms history) queue.board.peak := by
  induction run with
  | opened =>
    refine ⟨?_, .opened terms, List.mem_cons_self, rfl⟩
    intro state hstate
    rw [List.mem_singleton.mp hstate]
    exact Nat.le_refl 0
  | @step history queue next move answer run made ih =>
    have bounded := ih.1 queue run.mem_states
    rw [peak_of_step (run.terms_eq ▸ run.tallied) bounded made, states_append]
    exact ih.append next

/-- A closed board does not change any more, and no report comes from it. -/
theorem step_of_closed {next : Monitor T P} {move : Move T P} {answer : Option (Answer P)}
    (isClosed : queue.board.closed = true) (made : queue.step move = some (next, answer)) :
    next.board = queue.board ∧ ∀ report, answer ≠ some (.report report) := by
  rcases Monitor.step_board made with
    ⟨hboard, rfl | ⟨fault, rfl⟩⟩ | ⟨late, shortage, request, value, signals, rfl, decision⟩ |
      ⟨late, shortage, request, fault, rfl, decision⟩
  · exact ⟨hboard, fun report => nofun⟩
  · exact ⟨hboard, fun report => nofun⟩
  · refine ⟨decision.board_eq_of_closed isClosed, ?_⟩
    rintro report ⟨⟩
    simp [decision.report_eq.1] at isClosed
  · have htallied : queue.board.closed = false → Tallied queue.terms queue.board := by
      intro isOpen
      simp [isClosed] at isOpen
    exact ⟨Tallied.fail htallied decision, fun report => nofun⟩

/-- A queue that is open after a step was open before. -/
theorem open_of_step {next : Monitor T P} {move : Move T P} {answer : Option (Answer P)}
    (made : queue.step move = some (next, answer)) (isOpen : next.board.closed = false) :
    queue.board.closed = false := by
  cases hclosed : queue.board.closed with
  | false => rfl
  | true =>
    rw [(step_of_closed hclosed made).1, hclosed] at isOpen
    cases isOpen

/-- After the report of closing, the board stays what closing has left. -/
theorem Run.closed_by (run : Run terms history queue) {transition : Transition T P}
    (hmem : transition ∈ history) {report : CloseReport}
    (hanswer : transition.answer = some (.report report)) :
    transition.before.board.closed = false ∧ report = transition.before.board.accounts terms ∧
      queue.board = transition.before.board.closing := by
  induction run with
  | opened => simp at hmem
  | @step history queue next move answer run made ih =>
    rcases List.mem_append.mp hmem with hold | hnew
    · obtain ⟨hopen, hreport, hboard⟩ := ih hold
      have isClosed : queue.board.closed = true := by rw [hboard]; rfl
      exact ⟨hopen, hreport, (step_of_closed isClosed made).1.trans hboard⟩
    · rw [List.mem_singleton.mp hnew] at hanswer ⊢
      change answer = some (.report report) at hanswer
      subst hanswer
      rcases Monitor.step_board made with
        ⟨-, h | ⟨fault, h⟩⟩ | ⟨late, shortage, request, value, signals, h, decision⟩ |
          ⟨late, shortage, request, fault, h, decision⟩
      · cases h
      · cases h
      · cases h
        exact run.terms_eq ▸ decision.report_eq
      · cases h

/-- A queue is closed exactly if closing has reported. -/
theorem Run.closed_iff (run : Run terms history queue) :
    queue.board.closed = true ↔
      ∃ transition ∈ history, ∃ report, transition.answer = some (.report report) := by
  constructor
  · intro isClosed
    induction run with
    | opened => cases isClosed
    | @step history queue next move answer run made ih =>
      cases hclosed : queue.board.closed with
      | true =>
        obtain ⟨transition, hmem, hreport⟩ := ih hclosed
        exact ⟨transition, List.mem_append_left _ hmem, hreport⟩
      | false =>
        refine ⟨_, List.mem_append_right _ (List.mem_singleton_self _), ?_⟩
        change ∃ report, answer = some (.report report)
        rcases Monitor.step_board made with
          ⟨hboard, -⟩ | ⟨late, shortage, request, value, signals, rfl, decision⟩ |
            ⟨late, shortage, request, fault, -, decision⟩
        · simp [hboard, hclosed] at isClosed
        · obtain ⟨report, rfl⟩ := decision.report_of_closed hclosed isClosed
          exact ⟨report, rfl⟩
        · simp [decision.closed_eq_of_fail, hclosed] at isClosed
  · rintro ⟨transition, hmem, report, hanswer⟩
    rw [(run.closed_by hmem hanswer).2.2]
    rfl

/-- A thread outside the queue that closes an open queue gets the accounts of the board. -/
theorem close_reports {thread : T} (start now : Instant) (chance : Chance)
    (outside : queue.waiting? thread = none) (unbroken : queue.broken = false)
    (isOpen : queue.board.closed = false) :
    queue.step (.enter thread .close start now chance) =
      some ({ queue with
          board := queue.board.closing
          waiters := [.all .notFull, .all .notEmpty].foldl (Signal.deliver chance.sleeper)
            queue.waiters },
        some (.report (queue.board.accounts queue.terms))) := by
  have hsection (deadline : Option Instant) :
      Request.attempt queue.terms deadline now chance.shortage queue.board .close =
        .finish (.report (queue.board.accounts queue.terms)) queue.board.closing
          [.all .notFull, .all .notEmpty] := by
    simp only [Request.attempt, Board.close, isOpen, Bool.false_eq_true, if_false]
    rfl
  simp only [Monitor.step, Monitor.enter, outside, unbroken, Monitor.proceed, hsection,
    Option.isSome_none, Bool.false_eq_true, if_false]

/-- The accounts that are drawn up from a tallied board add up. -/
theorem Tallied.accounts {board : Board P} (h : Tallied terms board) :
    (board.accounts terms).submitted =
        (board.accounts terms).handled + (board.accounts terms).leftover ∧
      (board.accounts terms).submitted ≤ terms.expected ∧
      (board.accounts terms).leftover ≤ terms.capacity ∧
      ((board.accounts terms).balanced = true ↔
        (board.accounts terms).handled = (board.accounts terms).expected) := by
  have hsubmitted := h.submitted_eq
  have hwanted := h.wanted
  refine ⟨hsubmitted, ?_, h.room, ?_⟩
  · change board.submitted ≤ terms.expected
    omega
  · change (board.handled == terms.expected && board.pending.size == 0) = true ↔
      board.handled = terms.expected
    simp only [Bool.and_eq_true, beq_iff_eq]
    omega

/-- No state of a run has more orders pending than the queue has places or than are expected. -/
theorem Run.size_le (run : Run terms history queue) :
    queue.board.pending.size ≤ min terms.capacity terms.expected := by
  cases hclosed : queue.board.closed with
  | false =>
    have htallied := run.tallied hclosed
    have hwanted := htallied.wanted
    exact le_min htallied.room (by omega)
  | true =>
    obtain ⟨transition, hmem, report, hanswer⟩ := run.closed_iff.mp hclosed
    rw [(run.closed_by hmem hanswer).2.2]
    exact Nat.zero_le _

/-- The peak of a run respects both limits. -/
theorem Run.peak_le (run : Run terms history queue) :
    queue.board.peak ≤ min terms.capacity terms.expected := by
  obtain ⟨-, highest, hmem, hhighest⟩ := run.isPeak
  obtain ⟨earlier, hearlier⟩ := run.of_mem_states hmem
  exact hhighest ▸ hearlier.size_le

/-- Once an order has been accepted, the peak is positive. -/
theorem Run.peak_pos (run : Run terms history queue) (some : 0 < queue.board.submitted) :
    0 < queue.board.peak := by
  induction run with
  | opened => cases some
  | @step history queue next move answer run made ih =>
    rcases Monitor.step_board made with
      ⟨hboard, -⟩ | ⟨late, shortage, request, value, signals, -, decision⟩ |
        ⟨late, shortage, request, fault, -, decision⟩
    · rw [hboard] at some ⊢
      exact ih some
    · exact decision.peak_pos ih some
    · rw [Tallied.fail (run.terms_eq ▸ run.tallied) decision] at some ⊢
      exact ih some

/-- The accounts of a queue add up in every state of every run, the report of closing agrees with
them, and closing freezes them.

While the queue is open, the pending orders carry exactly the numbers behind those handed out, up to
the last one submitted, within both limits, and the peak is the largest number of orders that were
pending in any state of the run. -/
theorem accounts_add_up (run : Run terms history queue) :
    (queue.board.closed = false →
      queue.board.submitted = queue.board.handled + queue.board.pending.size ∧
      queue.board.submitted ≤ terms.expected ∧
      queue.board.pending.size ≤ terms.capacity ∧
      queue.board.pending.toList.map (·.number) =
        List.range' (queue.board.handled + 1) (queue.board.submitted - queue.board.handled) ∧
      IsPeak (states terms history) queue.board.peak ∧
      queue.board.peak ≤ min terms.capacity terms.expected ∧
      (queue.broken = false → ∀ thread start now chance, queue.waiting? thread = none →
        ∃ next report, queue.step (.enter thread .close start now chance) =
            some (next, some (.report report)) ∧
          report.expected = terms.expected ∧ report.submitted = queue.board.submitted ∧
          report.handled = queue.board.handled ∧
          report.leftover = queue.board.pending.size)) ∧
    (queue.board.closed = true ↔
      ∃ transition ∈ history, ∃ report, transition.answer = some (.report report)) ∧
    ∀ transition ∈ history, ∀ report, transition.answer = some (.report report) →
      report.expected = terms.expected ∧
      report.submitted = report.handled + report.leftover ∧
      report.submitted ≤ terms.expected ∧ report.leftover ≤ terms.capacity ∧
      (report.balanced = true ↔ report.handled = terms.expected) ∧
      queue.board.pending.toList = [] ∧ queue.board.submitted = report.submitted ∧
      queue.board.handled = report.handled ∧
      queue.board.peak = transition.before.board.peak := by
  refine ⟨?_, run.closed_iff, ?_⟩
  · intro isOpen
    have htallied := run.tallied isOpen
    have hsubmitted := htallied.submitted_eq
    have hwanted := htallied.wanted
    refine ⟨hsubmitted, by omega, htallied.room, ?_, run.isPeak, ?_, ?_⟩
    · rw [htallied.numbers, hsubmitted, Nat.add_sub_cancel_left]
    · obtain ⟨-, highest, hmem, hhighest⟩ := run.isPeak
      obtain ⟨earlier, hearlier⟩ := run.of_mem_states hmem
      exact hhighest ▸ hearlier.size_le
    · intro unbroken thread start now chance outside
      exact ⟨_, _, close_reports start now chance outside unbroken isOpen,
        congrArg Terms.expected run.terms_eq, rfl, rfl, rfl⟩
  · intro transition hmem report hanswer
    obtain ⟨hopen, rfl, hboard⟩ := run.closed_by hmem hanswer
    obtain ⟨earlier, hearlier⟩ := run.before_mem hmem
    obtain ⟨hsum, hexpected, hcapacity, hbalanced⟩ := (hearlier.tallied hopen).accounts
    rw [hboard]
    exact ⟨rfl, hsum, hexpected, hcapacity, hbalanced, rfl, rfl, rfl, rfl⟩

end

/-- Terms for a queue of two places that expects three orders. -/
def twoPlaces : Terms := ⟨2, 3, by decide, by decide⟩

/-- Three payloads go through two places: the third submission has to wait, is signalled when the
first order is taken, and is accepted then. -/
def rush : List (Move Nat Nat) :=
  [.enter 1 (.submit 10 .endless) 0 0 .calm, .enter 2 (.submit 20 .endless) 0 0 .calm,
    .enter 3 (.submit 30 .endless) 0 0 .calm, .enter 4 (.take .endless) 0 0 .calm,
    .resume 3 0 .calm]

/-- After the rush the queue is open, and its accounts are those of a board that is full again. -/
theorem accounts_of_rush :
    ∃ history queue, Run twoPlaces history queue ∧
      (Monitor.opened twoPlaces).replay rush = some (history, queue) ∧
      queue.board.closed = false ∧ queue.board.submitted = 3 ∧ queue.board.handled = 1 ∧
      queue.board.submitted = queue.board.handled + queue.board.pending.size ∧
      queue.board.pending.toList.map (·.number) =
        List.range' (queue.board.handled + 1) (queue.board.submitted - queue.board.handled) ∧
      IsPeak (states twoPlaces history) queue.board.peak := by
  obtain ⟨history, queue, hreplay, isOpen, hsubmitted, hhandled⟩ :
      ∃ history queue,
        (Monitor.opened twoPlaces).replay rush = some (history, queue) ∧
        queue.board.closed = false ∧ queue.board.submitted = 3 ∧ queue.board.handled = 1 :=
    ⟨_, _, rfl, rfl, rfl, rfl⟩
  have run : Run twoPlaces history queue := Run.opened.replay hreplay
  obtain ⟨hsum, -, -, hnumbers, hpeak, -⟩ := (accounts_add_up run).1 isOpen
  exact ⟨history, queue, run, hreplay, isOpen, hsubmitted, hhandled, hsum, hnumbers, hpeak⟩

end OrderRail.Queue
