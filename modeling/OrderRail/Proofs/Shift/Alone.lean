import OrderRail.Proofs.Queue.LastNumber
import OrderRail.Proofs.Shift.Visits

/-!
# A queue used by one thread

Visits are told by what each section does to the board. Here they are made on a queue: one thread
makes the calls, and nobody else touches the queue. As long as every section ends, every call is
answered in the step with which it is made, the orders that guests place are those for which the
calls bring receipts, and the orders that a cook gets are those that the calls deliver.
-/

namespace OrderRail.Shift

open Queue (Board Terms Request Answer Transition calls receipts deliveries)

section

variable {terms : Terms} {thread : Thread} {history : List (Transition Thread Dish)}
  {queue : Queue.Monitor Thread Dish} {board next : Board Dish}

/-- A request that does not close the queue leaves it open. -/
theorem isOpen_of_attempt {request : Request Dish} {answer : Answer Dish}
    {signals : List Queue.Signal} (stays : request ≠ .close) (isOpen : board.closed = false)
    (h : request.attempt terms none 0 none board = .finish answer next signals) :
    next.closed = false := by
  have decision := Queue.attempt_decision terms none 0 none board request
  rw [h] at decision
  cases decision with
  | close => exact absurd rfl stays
  | accept | lack | refuse | leave | handOut | endWork | giveUp | decline | read => exact isOpen

/-- A thread has used an open queue alone and has been answered on every call, and the queue has the
given board now. -/
structure Played (terms : Terms) (thread : Thread) (history : List (Transition Thread Dish))
    (queue : Queue.Monitor Thread Dish) (board : Board Dish) : Prop where
  run : Queue.Run terms history queue
  answered : ∀ transition ∈ history,
    transition.move.thread = thread ∧ transition.answer.isSome = true
  alone : queue.waiters = []
  unbroken : queue.broken = false
  isOpen : board.closed = false
  board_eq : queue.board = board

namespace Played

/-- A queue that has just been opened has not been used by anybody. -/
theorem opened (terms : Terms) (thread : Thread) :
    Played terms thread [] (.opened terms) .fresh where
  run := .opened
  answered := by simp
  alone := rfl
  unbroken := rfl
  isOpen := rfl
  board_eq := rfl

/-- A call whose section ends is answered. -/
theorem call (h : Played terms thread history queue board) {request : Request Dish}
    {answer : Answer Dish} {signals : List Queue.Signal}
    (hdecided : request.attempt terms none 0 none board = .finish answer next signals)
    (stays : request ≠ .close) (endless : request.deadline 0 = none) :
    ∃ later after, Played terms thread later after next ∧
      calls later = calls history ++ [⟨thread, request, answer⟩] := by
  have outside : queue.waiting? thread = none := by simp [Queue.Monitor.waiting?, h.alone]
  have grants : queue.Grants (.enter thread request 0 0 .calm)
    ⟨thread, request, request.deadline 0, 0, .calm, .lockBroken⟩ queue := .enter outside
  rw [endless] at grants
  have hserve : queue.serve ⟨thread, request, none, 0, .calm, .lockBroken⟩ =
      ({ queue with board := next }, some answer) := by
    have hbroken : ¬ queue.broken = true := by simp [h.unbroken]
    have hattempt : request.attempt queue.terms none 0 Queue.Chance.calm.shortage queue.board =
        .finish answer next signals := by
      rw [h.run.terms_eq, h.board_eq]
      exact hdecided
    rw [Queue.Monitor.serve, if_neg hbroken, Queue.Monitor.proceed, hattempt]
    simp only [h.alone, Queue.foldl_deliver_nil]
  have made := grants.step_eq
  rw [hserve] at made
  have isOpen := isOpen_of_attempt stays h.isOpen hdecided
  refine ⟨_, _, ⟨h.run.step made, ?_, h.alone, h.unbroken, isOpen, rfl⟩, ?_⟩
  · exact List.forall_mem_append.mpr ⟨h.answered, List.forall_mem_singleton.mpr ⟨rfl, rfl⟩⟩
  · rw [Queue.calls_append, grants.call?_eq]
    rfl

/-- A visit that returns to its caller can be made by calls of the queue that are all answered, and
the orders that it places are those for which the calls bring receipts. -/
theorem placing (h : Played terms thread history queue board) (id : UInt64) {count : Nat}
    {words : Words} {report : VisitReport}
    (hreport : placeOrders terms id count words board = report)
    (returns : (report.visit.result? id).isSome = true) :
    ∃ later after, Played terms thread later after report.board ∧
      receipts later = receipts history ++ report.orders.map (⟨thread, ·⟩) ∧
      deliveries later = deliveries history := by
  induction count generalizing history queue words board report with
  | zero =>
    subst hreport
    exact ⟨history, queue, h, (List.append_nil _).symm, rfl⟩
  | succ count ih =>
    cases hsubmit : board.whileOpen (board.submit terms none ⟨(Menu.pick words).1, id⟩) with
    | wait condition =>
      simp only [placeOrders, hsubmit] at hreport
      subst hreport
      cases returns
    | fail fault next =>
      simp only [placeOrders, hsubmit] at hreport
      subst hreport
      cases returns
    | finish value next signals =>
      have hattempt : (Request.submit ⟨(Menu.pick words).1, id⟩ .endless).attempt terms none 0
          none board = .finish (.ofSubmit value) next signals := by
        simp only [Request.attempt, hsubmit]
        rfl
      obtain ⟨later, after, played, hcalls⟩ := h.call hattempt (by simp) rfl
      cases value with
      | ok number =>
        simp only [placeOrders, hsubmit] at hreport
        subst hreport
        obtain ⟨last, final, hplayed, hreceipts, hdeliveries⟩ := ih played rfl returns
        refine ⟨last, final, hplayed, ?_, ?_⟩
        · rw [hreceipts, receipts, hcalls, List.filterMap_append, List.append_assoc]
          rfl
        · rw [hdeliveries, deliveries, hcalls, List.filterMap_append]
          exact List.append_nil _
      | error rejection =>
        simp only [placeOrders, hsubmit] at hreport
        subst hreport
        refine ⟨later, after, played, ?_, ?_⟩
        · rw [receipts, hcalls, List.filterMap_append]
          rfl
        · rw [deliveries, hcalls, List.filterMap_append]
          exact List.append_nil _

/-- Visits that return to their callers can be made by calls of one queue that are all answered. -/
theorem visiting (h : Played terms thread history queue board) (generators : Generators)
    {guests : List Guest}
    (returns : ∀ (j : Nat) (guest : Guest), guests[j]? = some guest →
      ∃ report, (visits terms generators guests board)[j]? = some report ∧
        (report.visit.result? guest.id).isSome = true) :
    ∃ later after,
      Played terms thread later after (leftBy board (visits terms generators guests board)) ∧
      receipts later = receipts history ++
        ((visits terms generators guests board).flatMap (·.orders)).map (⟨thread, ·⟩) ∧
      deliveries later = deliveries history := by
  induction guests generalizing generators history queue board with
  | nil => exact ⟨history, queue, h, (List.append_nil _).symm, rfl⟩
  | cons guest guests ih =>
    obtain ⟨report, hreport, hreturns⟩ := returns 0 guest rfl
    change some (guest.visit terms generators board) = some report at hreport
    cases hreport
    obtain ⟨later, after, played, hreceipts, hdeliveries⟩ := h.placing guest.id rfl hreturns
    obtain ⟨last, final, hplayed, hgiven, hkept⟩ :=
      ih played generators.rest fun j other hother => returns (j + 1) other hother
    rw [visits, leftBy_cons]
    refine ⟨last, final, hplayed, ?_, hkept.trans hdeliveries⟩
    rw [hgiven, hreceipts, List.flatMap_cons, List.map_append, List.append_assoc]
    rfl

/-- If work ends for somebody who takes orders, that can be done by calls of the queue that are all
answered, and the orders that are handed out are those that the calls deliver. -/
theorem taking (h : Played terms thread history queue board) {count : Nat} {report : VisitReport}
    (hreport : takeOrders terms count board = report) (ends : report.visit = .complete) :
    ∃ later after, Played terms thread later after report.board ∧
      deliveries later = deliveries history ++ report.orders := by
  induction count generalizing history queue board report with
  | zero =>
    subst hreport
    cases ends
  | succ count ih =>
    cases htake : board.whileOpen (board.take terms) with
    | wait condition =>
      simp only [takeOrders, htake] at hreport
      subst hreport
      cases ends
    | fail fault next =>
      simp only [takeOrders, htake] at hreport
      subst hreport
      cases ends
    | finish value next signals =>
      have hattempt : (Request.take .endless).attempt terms none 0 none board =
          .finish (.ofTake value) next signals := by
        simp only [Request.attempt, htake]
        rfl
      obtain ⟨later, after, played, hcalls⟩ := h.call hattempt (by simp) rfl
      cases value with
      | order order =>
        simp only [takeOrders, htake] at hreport
        subst hreport
        obtain ⟨last, final, hplayed, hdeliveries⟩ := ih played rfl ends
        refine ⟨last, final, hplayed, ?_⟩
        rw [hdeliveries, deliveries, hcalls, List.filterMap_append, List.append_assoc]
        rfl
      | endOfWork =>
        simp only [takeOrders, htake] at hreport
        subst hreport
        refine ⟨later, after, played, ?_⟩
        rw [deliveries, hcalls, List.filterMap_append]
        rfl

end Played

end

/-- Guests who come one after another to a queue that has just been opened are never made to wait if
the queue has room for all that it is going to take. The wishes of each guest are the first picks
from a generator of its own, which its seed and its number determine, or its place if it has no
seed. Each guest places the part of its wishes that still fits, and is turned away exactly if that
is not all; what is pending then are the first of all wishes.

If there are enough of them, a cook gets them in that order and leaves when it has had as many as
are expected, with its books in order, however many more it might have taken. All this can be done
by calls of one queue that are all answered. -/
theorem guests_then_cook (terms : Terms) (generators : Generators) (guests : List Guest)
    (thread : Thread) (countable : terms.expected + 1 < Count.wordSize)
    (room : min terms.expected (guests.map (·.orders)).sum ≤ terms.capacity) :
    (visits terms generators guests .fresh).length = guests.length ∧
    (∀ (j : Nat) (guest : Guest), guests[j]? = some guest → ∃ report,
      (visits terms generators guests .fresh)[j]? = some report ∧
        Served terms (generators.skip j) ((guests.take j).map (·.orders)).sum guest report) ∧
    ∃ history queue,
      Played terms thread history queue (leftBy .fresh (visits terms generators guests .fresh)) ∧
      receipts history =
        (numbered 1 ((wishList generators guests).take terms.expected)).map (⟨thread, ·⟩) ∧
      queue.board.pending.toList = numbered 1 ((wishList generators guests).take terms.expected) ∧
      queue.board.pending.size = min terms.expected (guests.map (·.orders)).sum ∧
      (terms.expected ≤ (guests.map (·.orders)).sum → ∀ (id : Nat) (seen : Option (List Nat)),
        CooksAll terms id seen ((wishList generators guests).take terms.expected)
            (cookAll terms id seen queue.board) ∧
          (∀ count, terms.expected < count →
            cook terms id count (.blank seen) queue.board = cookAll terms id seen queue.board) ∧
          ∃ later after,
            Played terms thread later after (cookAll terms id seen queue.board).board ∧
            deliveries later = numbered 1 ((wishList generators guests).take terms.expected)) := by
  obtain ⟨inTurn, placed⟩ := guests_served countable generators guests room
  have hserved (j : Nat) (guest : Guest) (hguest : guests[j]? = some guest) : ∃ report,
      (visits terms generators guests .fresh)[j]? = some report ∧
        Served terms (generators.skip j) ((guests.take j).map (·.orders)).sum guest report := by
    simpa only [Nat.zero_add] using inTurn.served hguest
  have hlength : ((wishList generators guests).take terms.expected).length =
      min terms.expected (guests.map (·.orders)).sum := by
    rw [List.length_take, length_wishList]
  obtain ⟨history, queue, played, hreceipts, hdeliveries⟩ :=
    (Played.opened terms thread).visiting generators fun j guest hguest => by
      obtain ⟨report, hreport, served⟩ := hserved j guest hguest
      exact ⟨report, hreport, by rw [served.result]; rfl⟩
  have horders := inTurn.orders_eq
  rw [Nat.min_zero, Nat.zero_add, Nat.sub_zero] at horders
  refine ⟨inTurn.length_eq, hserved, history, queue, played, ?_, ?_, ?_, ?_⟩
  · rw [hreceipts, horders]
    rfl
  · rw [played.board_eq, placed.pending]
  · rw [played.board_eq, placed.size_eq, hlength]
  · intro enough id seen
    have hexact : ((wishList generators guests).take terms.expected).length = terms.expected := by
      rw [hlength, Nat.min_eq_left enough]
    obtain ⟨cooks, hbound⟩ := cookAll_eq placed hexact id seen
    obtain ⟨rest, -, htaken⟩ := placed.takeOrders_eq hexact
    have hcook := cook_eq terms id (terms.expected + 1) (.blank seen)
      (leftBy .fresh (visits terms generators guests .fresh))
    rw [hexact] at hbound htaken
    rw [hbound _ (Nat.lt_succ_self _), htaken _ (Nat.lt_succ_self _)] at hcook
    obtain ⟨later, after, hplayed, hhanded⟩ :=
      played.taking (htaken _ (Nat.lt_succ_self _)) rfl
    rw [played.board_eq]
    refine ⟨cooks, hbound, later, after, ?_, ?_⟩
    · rw [hcook]
      exact hplayed
    · rw [hhanded, hdeliveries]
      rfl

/-- Terms for a queue of three places that expects three orders. -/
def threeOrders : Terms := { Queue.twoPlaces with capacity := 3, capacity_pos := Nat.succ_pos 2 }

/-- Three guests, of whom the second one asks for more than is left, and the third one for
nothing. -/
def party : List Guest :=
  [{ id := 1, orders := 2, seed := some 5 }, { id := 2, orders := 2, seed := none },
    { id := 3, orders := 0, seed := some 5 }]

/-- The generators of seeds are those of the key stream. The others, one after another, give the
same word again and again, each a word of its own. -/
def partyGenerators : Generators where
  seeded seed := .ofKey (Seed.key seed)
  fresh place := .fresh fun _ => UInt32.ofNat (1000000000 * place)

/-- What the first two guests of the party wish for. -/
theorem wishes_of_party :
    Guest.wishes partyGenerators ⟨1, 2, some 5⟩ = [⟨.halfSmoke, 1⟩, ⟨.chilliCheeseFries, 1⟩] ∧
      Guest.wishes partyGenerators.rest ⟨2, 2, none⟩ = [⟨.hotDog, 2⟩, ⟨.hotDog, 2⟩] := by
  simp only [partyGenerators, Words.ofKey, funext (KeyStream.word_eq _)]
  decide +kernel

/-- The second guest gets one of its two dishes and is turned away, which does not concern the
third one. A cook gets three dishes then, and notes their numbers. -/
theorem party_served :
    ∃ first second third cooked,
      visits threeOrders partyGenerators party .fresh = [first, second, third] ∧
      first.visit.result? 1 = some (.ok ()) ∧
      first.orders = [⟨1, ⟨.halfSmoke, 1⟩⟩, ⟨2, ⟨.chilliCheeseFries, 1⟩⟩] ∧
      second.visit.result? 2 = some (.error (.rejected 2 (.oversubscribed 3))) ∧
      second.orders = [⟨3, ⟨.hotDog, 2⟩⟩] ∧
      third.visit.result? 3 = some (.ok ()) ∧ third.orders = [] ∧
      cookAll threeOrders 4 (some []) third.board = cooked ∧
      cooked.visit = .complete ∧ cooked.books.fulfilled = 3 ∧
      cooked.books.seen = some [1, 2, 3] ∧
      cooked.books.journal =
        [.cooking 4 ⟨1, ⟨.halfSmoke, 1⟩⟩, .cooking 4 ⟨2, ⟨.chilliCheeseFries, 1⟩⟩,
          .cooking 4 ⟨3, ⟨.hotDog, 2⟩⟩, .noMoreOrders 4 3] := by
  obtain ⟨-, hserved, history, queue, played, -, -, -, hcook⟩ :=
    guests_then_cook threeOrders partyGenerators party .lead (by decide) (by decide)
  obtain ⟨first, hfirst, gotAll⟩ := hserved 0 _ rfl
  obtain ⟨second, hsecond, gotSome⟩ := hserved 1 _ rfl
  obtain ⟨third, hthird, gotNone⟩ := hserved 2 _ rfl
  obtain ⟨cooks, -⟩ := hcook (by decide) 4 (some [])
  rw [played.board_eq] at cooks
  have hvisits : visits threeOrders partyGenerators party .fresh = [first, second, third] := by
    rw [← Option.some.inj hfirst, ← Option.some.inj hsecond, ← Option.some.inj hthird]
    rfl
  rw [hvisits] at cooks
  obtain ⟨hfirstWishes, hsecondWishes⟩ := wishes_of_party
  have hfirstOrders : first.orders =
      numbered 1 ((Guest.wishes partyGenerators ⟨1, 2, some 5⟩).take 3) := gotAll.orders
  have hsecondOrders : second.orders =
      numbered 3 ((Guest.wishes partyGenerators.rest ⟨2, 2, none⟩).take 1) := gotSome.orders
  have hjournal : (cookAll threeOrders 4 (some []) third.board).books.journal =
      (numbered 1 ((Guest.wishes partyGenerators ⟨1, 2, some 5⟩ ++
        (Guest.wishes partyGenerators.rest ⟨2, 2, none⟩ ++ [])).take 3)).map (.cooking 4) ++
      [.noMoreOrders 4 3] := cooks.journal
  rw [hfirstWishes] at hfirstOrders hjournal
  rw [hsecondWishes] at hsecondOrders hjournal
  exact ⟨first, second, third, _, hvisits, gotAll.result, hfirstOrders, gotSome.result,
    hsecondOrders, gotNone.result, gotNone.orders, rfl, cooks.ends, cooks.fulfilled, cooks.noted,
    hjournal⟩

end OrderRail.Shift
