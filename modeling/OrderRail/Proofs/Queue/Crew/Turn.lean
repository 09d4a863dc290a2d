import OrderRail.Proofs.Count
import OrderRail.Proofs.Queue.Unwinding
import OrderRail.Queue.Crew

/-!
# Turns in a crew

What a crew does is described turn by turn, for crews that bring exactly as many orders as are
expected. A turn either brings a submission, an order taken or a departure nearer, or it changes
nothing but whether its own hand waits. In the second case there was nothing to do for the hand: it
had finished, it was asleep, or the board had nothing for it. So a pause takes nothing away from
others.

The invariant says where every payload is. Those that have been submitted have the numbers from one
on, and for each lane they come before those that its producer still holds.
-/

namespace OrderRail.Queue.Crew

variable {P : Type} {terms : Terms} {lanes : List (List P)} {crew next : Crew P} {hand : Hand}
  {request : Request (Nat × P)}

/-- What a hand that has not finished asks of the queue when it gets a turn. -/
def request? (crew : Crew P) : Hand → Option (Request (Nat × P))
  | .lead => none
  | .producer lane =>
    match crew.lanes[lane]? with
    | some (payload :: _) => some (.submit (lane, payload) crew.patience)
    | _ => none
  | .consumer id =>
    match crew.consumers[id]? with
    | some (approach, true) => some approach.request
    | _ => none

/-- The orders that a crew has placed so far, in the order of their numbers. -/
def placed (crew : Crew P) : List (Order (Nat × P)) :=
  crew.taken.reverse ++ crew.queue.board.pending.toList

/-- How many submissions, takes and departures are still to come. -/
def left (terms : Terms) (crew : Crew P) : Nat :=
  crew.lanes.flatten.length + (terms.expected - crew.queue.board.handled) +
    crew.consumers.countP (·.2)

/-- A crew that brings as many orders as are expected, while it works. -/
structure Works (terms : Terms) (lanes : List (List P)) (crew : Crew P) : Prop where
  run : ∃ history, Run terms history crew.queue
  isOpen : crew.queue.board.closed = false
  unbroken : crew.queue.broken = false
  fits : terms.expected + 1 < Count.wordSize
  patient : reached 0 (crew.patience.deadline 0) = false
  /-- Whoever waits in the queue waits with the request of its next turn. -/
  asked : ∀ waiter ∈ crew.queue.waiters, crew.request? waiter.thread = some waiter.request
  exact : crew.queue.board.submitted + crew.lanes.flatten.length = terms.expected
  staffed : crew.consumers ≠ []
  /-- Nobody has left before the end of work. -/
  departed : ∀ entry ∈ crew.consumers, entry.2 = false →
    terms.expected ≤ crew.queue.board.handled
  welcome : crew.refused = 0
  numbers : crew.placed.map (·.number) = List.range' 1 crew.queue.board.submitted
  /-- What has gone through a lane and what is still to come is what was there at first. -/
  goods : ∀ lane, crew.placed.filterMap (ofLane? lane) ++ crew.lanes[lane]?.getD [] =
    lanes[lane]?.getD []
  width : crew.lanes.length = lanes.length

/-- The board has something for a request, so that it need not wait. -/
structure Served (terms : Terms) (board : Board (Nat × P)) (request : Request (Nat × P)) :
    Prop where
  room : request.isSubmission = true → board.pending.size < terms.capacity
  news : request.takes = true → 0 < board.pending.size ∨ terms.expected ≤ board.handled

/-- A hand that is not asleep and for which the board has something. -/
structure Ready (terms : Terms) (crew : Crew P) (hand : Hand) : Prop where
  served : ∃ request, crew.request? hand = some request ∧
    Served terms crew.queue.board request
  isAwake : ∀ waiter ∈ crew.queue.waiters, waiter.thread = hand → waiter.sleep ≠ .asleep

/-- `Elsewhere hand waiters others` says that the calls of all threads but one wait as before. -/
def Elsewhere (hand : Hand) (waiters others : List (Waiter Hand (Nat × P))) : Prop :=
  ∀ waiter, waiter.thread ≠ hand → (waiter ∈ others ↔ waiter ∈ waiters)

/-- A turn of a hand that has nothing to do, or has to wait. -/
structure Pauses (terms : Terms) (hand : Hand) (crew next : Crew P) : Prop where
  board_eq : next.queue.board = crew.queue.board
  lanes_eq : next.lanes = crew.lanes
  consumers_eq : next.consumers = crew.consumers
  patience_eq : next.patience = crew.patience
  elsewhere : Elsewhere hand crew.queue.waiters next.queue.waiters
  stuck : ¬ crew.Ready terms hand

/-- Requests depend on what is still to be done only. -/
theorem request?_congr (lanes_eq : next.lanes = crew.lanes)
    (consumers_eq : next.consumers = crew.consumers)
    (patience_eq : next.patience = crew.patience) (hand : Hand) :
    next.request? hand = crew.request? hand := by
  cases hand with
  | lead => rfl
  | producer lane => simp only [request?, lanes_eq, patience_eq]
  | consumer id => simp only [request?, consumers_eq]

/-- A pause leaves as much to be done. -/
theorem Pauses.left_eq (h : Pauses terms hand crew next) : next.left terms = crew.left terms := by
  rw [left, left, h.lanes_eq, h.consumers_eq, h.board_eq]

/-- A pause takes nothing from others. -/
theorem Pauses.ready (h : Pauses terms hand crew next) {other : Hand}
    (ready : crew.Ready terms other) : next.Ready terms other := by
  have ne : other ≠ hand := fun heq => h.stuck (heq ▸ ready)
  obtain ⟨⟨request, asks, served⟩, isAwake⟩ := ready
  refine ⟨⟨request, ?_, h.board_eq ▸ served⟩, fun waiter hmem hthread => ?_⟩
  · rwa [request?_congr h.lanes_eq h.consumers_eq h.patience_eq]
  · have before := (h.elsewhere waiter (hthread ▸ ne)).mp hmem
    exact isAwake waiter before hthread

/-- A hand that has finished has nothing to do. -/
theorem Pauses.refl (finished : crew.request? hand = none) : Pauses terms hand crew crew := by
  refine ⟨rfl, rfl, rfl, rfl, fun _ _ => Iff.rfl, fun ready => ?_⟩
  obtain ⟨request, asks, -⟩ := ready.served
  cases asks.symm.trans finished

/-- What a turn of a hand makes of a crew at work: it works on, with less left or after a pause. -/
structure Proceeds (terms : Terms) (lanes : List (List P)) (hand : Hand) (crew next : Crew P) :
    Prop where
  works : next.Works terms lanes
  nearer : next.left terms < crew.left terms ∨ Pauses terms hand crew next

/-- Whoever has a request gets a turn. -/
theorem mem_hands (asks : crew.request? hand = some request) : hand ∈ crew.hands := by
  cases hand with
  | lead => cases asks
  | producer lane =>
    cases found : crew.lanes[lane]? with
    | none => simp [request?, found] at asks
    | some payloads =>
      have bound := (List.getElem?_eq_some_iff.mp found).1
      exact List.mem_append_left _ (List.mem_map_of_mem (List.mem_range.mpr bound))
  | consumer id =>
    cases found : crew.consumers[id]? with
    | none => simp [request?, found] at asks
    | some entry =>
      have bound := (List.getElem?_eq_some_iff.mp found).1
      exact List.mem_append_right _ (List.mem_map_of_mem (List.mem_range.mpr bound))

/-- A consumer takes, however it asks. -/
theorem Approach.request_takes (approach : Approach) :
    (approach.request : Request (Nat × P)).takes = true := by
  cases approach <;> rfl

/-- A lane from which a payload is taken is one payload shorter. -/
theorem length_flatten_set {lanes : List (List P)} {lane : Nat} {payload : P} {rest : List P}
    (holds : lanes[lane]? = some (payload :: rest)) :
    (lanes.set lane rest).flatten.length + 1 = lanes.flatten.length := by
  have hsum := Count.sum_map_set List.length holds rest
  rw [List.length_cons] at hsum
  rw [List.length_flatten, List.length_flatten]
  omega

/-- What a lane has left concerns its own producer only. -/
theorem request?_set_lane {queue : Monitor Hand (Nat × P)} {lane : Nat} {rest : List P}
    (other : hand ≠ .producer lane) :
    ({ crew with queue, lanes := crew.lanes.set lane rest } : Crew P).request? hand =
      crew.request? hand := by
  cases hand with
  | producer position =>
    have ne : lane ≠ position := fun heq => other (heq ▸ rfl)
    simp only [request?, List.getElem?_set_ne ne]
  | lead | consumer => rfl

/-- Whether a consumer has left concerns nobody else. -/
theorem request?_set_consumer {queue : Monitor Hand (Nat × P)} {id : Nat}
    {entry : Approach × Bool} (other : hand ≠ .consumer id) :
    ({ crew with queue, consumers := crew.consumers.set id entry } : Crew P).request? hand =
      crew.request? hand := by
  cases hand with
  | consumer position =>
    have ne : id ≠ position := fun heq => other (heq ▸ rfl)
    simp only [request?, List.getElem?_set_ne ne]
  | lead | producer => rfl

/-- A submission that is wanted and in time, and that is answered, has been accepted. -/
theorem accepted_of_finish {board after : Board (Nat × P)} {item : Nat × P} {patience : Patience}
    {value : Answer (Nat × P)} {signals : List Signal} (wanted : board.submitted < terms.expected)
    (decision : Decision terms false none board (.submit item patience)
      (.finish value after signals)) :
    value = .accepted board.nextNumber ∧ after = board.accepting item := by
  cases decision with
  | accept => exact ⟨rfl, rfl⟩
  | lack isOpen _ room denied => simp at denied
  | refuse isOpen unwanted => omega
  | leave isOpen isLate => cases isLate
  | handOut isOpen takes | endWork isOpen takes => cases takes
  | read reads => cases reads

/-- A taker that is in time and is answered takes an order, or learns that work has ended, or has
asked without waiting and got nothing. -/
theorem taken_of_finish {board after : Board (Nat × P)} {value : Answer (Nat × P)}
    {signals : List Signal} (takes : request.takes = true)
    (decision : Decision terms false none board request (.finish value after signals)) :
    (∃ order rest, value = .order order ∧ board.pending.pop? = some (order, rest) ∧
        after = board.handingOut rest) ∨
      (value = .endOfWork ∧ after = board ∧ terms.expected ≤ board.handled) ∨
      (value = .wouldBlock ∧ after = board ∧ signals = [] ∧ ¬ Served terms board request) := by
  cases decision with
  | handOut isOpen _ pops => exact .inl ⟨_, _, rfl, pops, rfl⟩
  | endWork isOpen _ empty done => exact .inr (.inl ⟨rfl, rfl, done⟩)
  | giveUp isOpen isLate => cases isLate
  | decline isOpen empty undone =>
    refine .inr (.inr ⟨rfl, rfl, rfl, fun served => ?_⟩)
    have news := served.news rfl
    omega
  | read reads =>
    cases request with
    | take | tryTake => cases reads
    | _ => cases takes
  | accept | lack | refuse | leave | close => cases takes

/-- A hand whose section waits has not been ready. -/
theorem not_ready_of_wait {condition : Condition} (asks : crew.request? hand = some request)
    (decision : Decision terms false none crew.queue.board request (.wait condition)) :
    ¬ crew.Ready terms hand := by
  rintro ⟨⟨_, hasks, served⟩, -⟩
  cases hasks.symm.trans asks
  cases decision with
  | awaitRoom isOpen patient wanted full =>
    have room := served.room rfl
    omega
  | awaitOrder isOpen patient empty undone =>
    have news := served.news rfl
    omega

namespace Works

variable (works : crew.Works terms lanes)

include works

/-- The accounts of the board. -/
theorem tallied : Tallied terms crew.queue.board := by
  obtain ⟨history, run⟩ := works.run
  exact run.tallied works.isOpen

/-- At its turn a hand is in time. -/
theorem early (asks : crew.request? hand = some request) :
    reached 0 (request.deadline 0) = false := by
  cases hand with
  | lead => cases asks
  | producer lane =>
    simp only [request?] at asks
    split at asks
    · cases asks
      exact works.patient
    · cases asks
  | consumer id =>
    simp only [request?] at asks
    split at asks
    · next approach _ =>
      cases asks
      cases approach with
      | take | tryTake => rfl
      | takeLimited =>
        exact (by decide : reached 0 (Patience.deadline 0 (.limited .hour)) = false)
    · cases asks

/-- At its turn a hand sleeps on, or it is granted the lock in time and with its own request. -/
theorem grants_or_sleeps (asks : crew.request? hand = some request) :
    (crew.turn hand request = (crew, none) ∧
        ∃ waiter ∈ crew.queue.waiters, waiter.thread = hand ∧ waiter.sleep = .asleep) ∨
      ∃ move attempt base, crew.queue.Grants move attempt base ∧ attempt.thread = hand ∧
        attempt.request = request ∧ attempt.late = false ∧ attempt.chance.shortage = none ∧
        Elsewhere hand crew.queue.waiters base.waiters ∧
        crew.turn hand request =
          ({ crew with queue := (base.serve attempt).1 }, (base.serve attempt).2) := by
  obtain ⟨history, run⟩ := works.run
  cases inside : crew.queue.waiting? hand with
  | none =>
    -- The hand is outside the queue and enters.
    have grants : crew.queue.Grants (.enter hand request 0 0 .calm) _ crew.queue := .enter inside
    have entered := grants.step_eq
    rw [Monitor.step] at entered
    refine .inr ⟨_, _, _, grants, rfl, rfl, works.early asks, rfl, fun _ _ => Iff.rfl, ?_⟩
    simp only [turn, inside, entered, Option.isSome_none, Bool.false_eq_true, if_false]
  | some waiter =>
    have hmem := List.mem_of_find?_eq_some inside
    obtain rfl : waiter.thread = hand := by simpa using List.find?_some inside
    by_cases asleep : waiter.sleep = .asleep
    · refine .inl ⟨?_, waiter, hmem, rfl, asleep⟩
      have stays : crew.queue.resume waiter.thread 0 .calm = none := by
        obtain ⟨_, _, _, _, sleep⟩ := waiter
        obtain rfl : sleep = .asleep := asleep
        simp only [Monitor.resume, inside]
      simp only [turn, inside, stays, Option.isSome_some, if_true]
    · -- It has been roused and goes on with the request that it waits with.
      have grants := Monitor.grants_of_awake run.orderly hmem asleep 0 .calm
      have resumed := grants.step_eq
      rw [Monitor.step] at resumed
      have hrequest : waiter.request = request :=
        Option.some.inj ((works.asked waiter hmem).symm.trans asks)
      refine .inr ⟨_, _, _, grants, rfl, hrequest, run.deadlines waiter hmem, rfl, ?_, ?_⟩
      · intro other hother
        simp [Monitor.without, hother]
      · simp only [turn, inside, resumed, Option.isSome_some, if_true]

/-- The section of a hand cannot fail. -/
theorem no_fault {fault : Fault} {board : Board (Nat × P)} :
    ¬ Decision terms false none crew.queue.board request (.fail fault board) := by
  have tallied := works.tallied
  intro decision
  cases decision with
  | misuse isClosed => simp [works.isOpen] at isClosed
  | numberOverflow isOpen wanted room granted tooLarge =>
    have hnext := tallied.nextNumber_eq
    have hsubmitted := tallied.submitted_eq
    have hfits := works.fits
    omega
  | countOverflow isOpen takes pops tooLarge =>
    have hfits := tallied.handled_fits pops
    omega

/-- What a turn inside the queue brings. Either the section of the request ends with an answer, and
the hand waits no more, or there is no answer, and nothing has changed but how the hand waits. -/
theorem turn_cases (asks : crew.request? hand = some request) :
    ∃ queue answer, crew.turn hand request = ({ crew with queue }, answer) ∧
      (∃ history, Run terms history queue) ∧ queue.broken = false ∧
      (∀ waiter ∈ queue.waiters, crew.request? waiter.thread = some waiter.request) ∧
      ((∃ value signals, answer = some value ∧
          Decision terms false none crew.queue.board request (.finish value queue.board signals) ∧
          (∀ waiter ∈ queue.waiters, waiter.thread ≠ hand) ∧
          (signals = [] → Elsewhere hand crew.queue.waiters queue.waiters)) ∨
        answer = none ∧ queue.board = crew.queue.board ∧
          Elsewhere hand crew.queue.waiters queue.waiters ∧ ¬ crew.Ready terms hand) := by
  rcases works.grants_or_sleeps asks with
    ⟨hturn, waiter, hmem, hthread, asleep⟩ |
      ⟨move, attempt, base, grants, hthread, hrequest, late, shortage, elsewhere, hturn⟩
  · refine ⟨_, _, hturn, works.run, works.unbroken, works.asked, .inr ⟨rfl, rfl, ?_, ?_⟩⟩
    · exact fun _ _ => Iff.rfl
    · exact fun ready => ready.isAwake waiter hmem hthread asleep
  · obtain ⟨history, run⟩ := works.run
    obtain ⟨hterms, hboard, hbroken⟩ := grants.base_eq
    have hrun : Run terms (history ++ [⟨crew.queue, move, (base.serve attempt).2,
        (base.serve attempt).1⟩]) (base.serve attempt).1 := run.step grants.step_eq
    have yields := Monitor.serve_yields base attempt
    have unbroken := hbroken.trans works.unbroken
    have asked : ∀ waiter ∈ base.waiters, crew.request? waiter.thread = some waiter.request :=
      fun waiter hmem => works.asked waiter (grants.subset hmem)
    have absent : ∀ waiter ∈ base.waiters, waiter.thread ≠ hand := hthread ▸ grants.absent
    generalize base.serve attempt = result at hturn hrun yields
    obtain ⟨queue, answer⟩ := result
    refine ⟨queue, answer, hturn, ⟨_, hrun⟩, ?_⟩
    rw [← hrequest] at asks ⊢
    cases yields with
    | broken isBroken => cases isBroken.symm.trans unbroken
    | @finish value board signals _ decision =>
      rw [hterms, hboard, run.terms_eq, late, shortage] at decision
      have same := map_lying_foldl_deliver attempt.chance.sleeper signals base.waiters
      refine ⟨unbroken, ?_, .inl ⟨value, signals, rfl, decision, ?_, ?_⟩⟩
      · refine forall_of_map_lying same (fun waiter other heq h => ?_) asked
        rwa [Waiter.thread_of_lying heq, Waiter.request_of_lying heq]
      · refine forall_of_map_lying same (fun waiter other heq h => ?_) absent
        rwa [Waiter.thread_of_lying heq]
      · rintro rfl
        exact elsewhere
    | @wait condition _ decision =>
      rw [hterms, hboard, run.terms_eq, late, shortage] at decision
      refine ⟨unbroken, ?_, .inr ⟨rfl, hboard, ?_, not_ready_of_wait asks decision⟩⟩
      · exact List.forall_mem_append.mpr
          ⟨asked, List.forall_mem_singleton.mpr (by simpa [Attempt.waiter, hthread] using asks)⟩
      · intro waiter hwaiter
        rw [← elsewhere waiter hwaiter]
        simp only [List.mem_append, List.mem_singleton, or_iff_left_iff_imp]
        rintro rfl
        exact absurd hthread hwaiter
    | fail _ decision =>
      rw [hterms, hboard, run.terms_eq, late, shortage] at decision
      exact absurd decision (works.no_fault)

/-- A hand that has finished leaves the crew as it is. -/
theorem finished (finished : crew.request? hand = none) : Proceeds terms lanes hand crew crew :=
  ⟨works, .inr (.refl finished)⟩

/-- A hand that pauses changes nothing but how it waits. -/
theorem pause {queue : Monitor Hand (Nat × P)} (run : ∃ history, Run terms history queue)
    (unbroken : queue.broken = false) (board_eq : queue.board = crew.queue.board)
    (asked : ∀ waiter ∈ queue.waiters, crew.request? waiter.thread = some waiter.request)
    (elsewhere : Elsewhere hand crew.queue.waiters queue.waiters)
    (stuck : ¬ crew.Ready terms hand) :
    Proceeds terms lanes hand crew { crew with queue } := by
  have hplaced : ({ crew with queue } : Crew P).placed = crew.placed := by
    simp only [placed, board_eq]
  refine ⟨?_, .inr ⟨board_eq, rfl, rfl, rfl, elsewhere, stuck⟩⟩
  refine
    { works with
      run, isOpen := board_eq ▸ works.isOpen, unbroken, asked := fun waiter hmem => ?_
      exact := board_eq ▸ works.exact, departed := board_eq ▸ works.departed
      numbers := ?_, goods := hplaced ▸ works.goods }
  · exact (request?_congr rfl rfl rfl _).trans (asked waiter hmem)
  · rw [hplaced, board_eq]
    exact works.numbers

/-- A submission that is accepted takes the first payload from its lane. -/
theorem submission {queue : Monitor Hand (Nat × P)} {lane : Nat} {payload : P} {rest : List P}
    (holds : crew.lanes[lane]? = some (payload :: rest)) (run : ∃ history, Run terms history queue)
    (unbroken : queue.broken = false)
    (board_eq : queue.board = crew.queue.board.accepting (lane, payload))
    (asked : ∀ waiter ∈ queue.waiters, crew.request? waiter.thread = some waiter.request)
    (gone : ∀ waiter ∈ queue.waiters, waiter.thread ≠ .producer lane) :
    Proceeds terms lanes (.producer lane) crew
      { crew with queue, lanes := crew.lanes.set lane rest } := by
  have inside := (List.getElem?_eq_some_iff.mp holds).1
  have hlength := length_flatten_set holds
  have hnext : crew.queue.board.nextNumber = crew.queue.board.submitted + 1 := by
    have hnumber := works.tallied.nextNumber_eq
    have hsubmitted := works.tallied.submitted_eq
    omega
  have hsubmitted : queue.board.submitted = crew.queue.board.submitted + 1 := by
    rw [board_eq, ← hnext]
    rfl
  have hplaced : ({ crew with queue, lanes := crew.lanes.set lane rest } : Crew P).placed =
      crew.placed ++ [⟨crew.queue.board.nextNumber, (lane, payload)⟩] := by
    simp only [placed, board_eq, Board.accepting, Fifo.toList_push, List.append_assoc]
  refine ⟨?_, .inl ?_⟩
  · refine
      { works with
        run, isOpen := board_eq ▸ works.isOpen, unbroken, asked := fun waiter hmem => ?_
        exact := ?_, departed := board_eq ▸ works.departed, numbers := ?_
        goods := fun other => ?_, width := by rw [List.length_set, works.width] }
    · rw [← asked waiter hmem]
      exact request?_set_lane (gone waiter hmem)
    · have hexact := works.exact
      change queue.board.submitted + (crew.lanes.set lane rest).flatten.length = _
      omega
    · rw [hplaced, List.map_append, works.numbers, hsubmitted, List.range'_1_concat, hnext,
        Nat.add_comm 1]
      rfl
    · rw [hplaced, List.filterMap_append, ← works.goods other]
      by_cases heq : lane = other
      · -- The payload has gone from what is still to come to what has been placed.
        subst heq
        rw [List.getElem?_set_self inside, holds]
        simp [ofLane?]
      · simp [ofLane?, heq]
  · simp only [left, board_eq, Board.accepting]
    omega

/-- An order that is taken stays among those that have been placed. -/
theorem delivery {queue : Monitor Hand (Nat × P)} {id : Nat} {order : Order (Nat × P)}
    {rest : Fifo (Order (Nat × P))} (run : ∃ history, Run terms history queue)
    (unbroken : queue.broken = false)
    (pops : crew.queue.board.pending.pop? = some (order, rest))
    (board_eq : queue.board = crew.queue.board.handingOut rest)
    (asked : ∀ waiter ∈ queue.waiters, crew.request? waiter.thread = some waiter.request) :
    Proceeds terms lanes (.consumer id) crew
      { crew with queue, taken := order :: crew.taken } := by
  have hsize := size_of_pop? pops
  have hwanted := works.tallied.wanted
  have hhandled : queue.board.handled = crew.queue.board.handled + 1 := by
    rw [board_eq]
    rfl
  have hplaced : ({ crew with queue, taken := order :: crew.taken } : Crew P).placed =
      crew.placed := by
    simp only [placed, board_eq, Board.handingOut, Fifo.toList_of_pop? pops, List.reverse_cons,
      List.append_assoc, List.singleton_append]
  refine ⟨?_, .inl ?_⟩
  · refine
      { works with
        run, isOpen := board_eq ▸ works.isOpen, unbroken, asked := fun waiter hmem => ?_
        exact := board_eq ▸ works.exact, departed := fun entry hmem gone => ?_, numbers := ?_
        goods := hplaced ▸ works.goods }
    · exact (request?_congr rfl rfl rfl _).trans (asked waiter hmem)
    · have hdeparted := works.departed entry hmem gone
      omega
    · rw [hplaced, board_eq]
      exact works.numbers
  · simp only [left, hhandled]
    omega

/-- A consumer that is told that work has ended leaves. -/
theorem departure {queue : Monitor Hand (Nat × P)} {id : Nat} {approach : Approach}
    (asks : crew.consumers[id]? = some (approach, true)) (run : ∃ history, Run terms history queue)
    (unbroken : queue.broken = false) (board_eq : queue.board = crew.queue.board)
    (done : terms.expected ≤ crew.queue.board.handled)
    (asked : ∀ waiter ∈ queue.waiters, crew.request? waiter.thread = some waiter.request)
    (gone : ∀ waiter ∈ queue.waiters, waiter.thread ≠ .consumer id) :
    Proceeds terms lanes (.consumer id) crew
      { crew with queue, consumers := crew.consumers.set id (approach, false) } := by
  obtain ⟨inside, found⟩ := List.getElem?_eq_some_iff.mp asks
  have hplaced : ({ crew with
      queue, consumers := crew.consumers.set id (approach, false) } : Crew P).placed =
      crew.placed := by
    simp only [placed, board_eq]
  refine ⟨?_, .inl ?_⟩
  · refine
      { works with
        run, isOpen := board_eq ▸ works.isOpen, unbroken, asked := fun waiter hmem => ?_
        exact := board_eq ▸ works.exact, staffed := ?_, departed := fun _ _ _ => board_eq ▸ done
        numbers := ?_, goods := hplaced ▸ works.goods }
    · rw [← asked waiter hmem]
      exact request?_set_consumer (gone waiter hmem)
    · rw [ne_eq, List.set_eq_nil_iff]
      exact works.staffed
    · rw [hplaced, board_eq]
      exact works.numbers
  · have present : 0 < crew.consumers.countP (·.2) :=
      List.countP_pos_iff.mpr ⟨_, List.mem_of_getElem? asks, rfl⟩
    have fewer : (crew.consumers.set id (approach, false)).countP (·.2) + 1 =
        crew.consumers.countP (·.2) := by
      rw [List.countP_set inside, found]
      simp only [if_true, Bool.false_eq_true, if_false]
      omega
    simp only [left, board_eq]
    omega

/-- The turn of a producer. -/
theorem produce (lane : Nat) :
    Proceeds terms lanes (.producer lane) crew (crew.produce lane) := by
  cases holds : crew.lanes[lane]? with
  | none =>
    simp only [Crew.produce, holds]
    exact works.finished (by simp [request?, holds])
  | some payloads =>
    cases payloads with
    | nil =>
      simp only [Crew.produce, holds]
      exact works.finished (by simp [request?, holds])
    | cons payload rest =>
      have asks : crew.request? (.producer lane) =
          some (.submit (lane, payload) crew.patience) := by simp [request?, holds]
      obtain ⟨queue, answer, hturn, run, unbroken, asked, outcome⟩ := works.turn_cases asks
      simp only [Crew.produce, holds, hturn]
      rcases outcome with
        ⟨value, signals, rfl, decision, gone, -⟩ | ⟨rfl, board_eq, elsewhere, stuck⟩
      · have wanted : crew.queue.board.submitted < terms.expected := by
          have hexact := works.exact
          have hlength := length_flatten_set holds
          omega
        obtain ⟨rfl, board_eq⟩ := accepted_of_finish wanted decision
        exact works.submission holds run unbroken board_eq asked gone
      · exact works.pause run unbroken board_eq asked elsewhere stuck

/-- The turn of a consumer. -/
theorem consume (id : Nat) :
    Proceeds terms lanes (.consumer id) crew (crew.consume id) := by
  cases found : crew.consumers[id]? with
  | none =>
    simp only [Crew.consume, found]
    exact works.finished (by simp [request?, found])
  | some entry =>
    obtain ⟨approach, active⟩ := entry
    cases active with
    | false =>
      simp only [Crew.consume, found]
      exact works.finished (by simp [request?, found])
    | true =>
      have asks : crew.request? (.consumer id) = some approach.request := by
        simp [request?, found]
      obtain ⟨queue, answer, hturn, run, unbroken, asked, outcome⟩ := works.turn_cases asks
      simp only [Crew.consume, found, hturn]
      rcases outcome with
        ⟨value, signals, rfl, decision, gone, elsewhere⟩ | ⟨rfl, board_eq, elsewhere, stuck⟩
      · rcases taken_of_finish approach.request_takes decision with
          ⟨order, rest, rfl, pops, board_eq⟩ | ⟨rfl, board_eq, done⟩ |
            ⟨rfl, board_eq, quiet, unserved⟩
        · exact works.delivery run unbroken pops board_eq asked
        · exact works.departure found run unbroken board_eq done asked gone
        · -- It has asked without waiting and got nothing.
          refine works.pause run unbroken board_eq asked (elsewhere quiet) fun ready => ?_
          obtain ⟨_, hasks, served⟩ := ready.served
          cases hasks.symm.trans asks
          exact unserved served
      · exact works.pause run unbroken board_eq asked elsewhere stuck

/-- The turn of anybody. -/
theorem act (hand : Hand) : Proceeds terms lanes hand crew (crew.act hand) := by
  cases hand with
  | lead => exact works.finished rfl
  | producer lane => exact works.produce lane
  | consumer id => exact works.consume id

end Works

end OrderRail.Queue.Crew
