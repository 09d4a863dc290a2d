import OrderRail.Proofs.Shift.Audit
import OrderRail.Proofs.Shift.Wishes
import OrderRail.Shift.Alone

/-!
# Guests one after another, and a cook at the end

When the guests of a queue come one after another, what each of them gets is decided by what those
before it have asked for. All their wishes in a row are one list. The queue takes as many dishes
from its front as are expected, numbers them in turn, and turns away whoever asks for more, so a
guest in the middle may get a part of its wishes, and one who wants nothing is never turned away.
If the queue has room for what it takes, nobody has to wait.

A cook who comes then gets the dishes in that order, and is told that work has ended after as many
as are expected.
-/

namespace OrderRail.Shift

open Queue (Board Terms)

/-- Payloads as orders that are numbered in turn from `first` on. -/
def numbered {P : Type} (first : Nat) (payloads : List P) : List (Order P) :=
  (payloads.zipIdx first).map fun (payload, number) => ⟨number, payload⟩

section

variable {P : Type}

/-- The numbers of further orders follow those of the first ones. -/
theorem numbered_append (first : Nat) (payloads more : List P) :
    numbered first (payloads ++ more) =
      numbered first payloads ++ numbered (first + payloads.length) more := by
  simp only [numbered, List.zipIdx_append, List.map_append]

/-- Every payload gets a number. -/
theorem length_numbered (first : Nat) (payloads : List P) :
    (numbered first payloads).length = payloads.length := by
  simp [numbered]

/-- The numbers are consecutive. -/
theorem number_numbered (first : Nat) (payloads : List P) :
    (numbered first payloads).map (·.number) = List.range' first payloads.length := by
  rw [numbered, List.map_map]
  exact List.zipIdx_map_snd first payloads

end

/-- The board on which some dishes have been ordered, and from which nothing has been taken. -/
structure Placed (dishes : List Dish) (board : Board Dish) : Prop where
  isOpen : board.closed = false
  pending : board.pending.toList = numbered 1 dishes
  nextNumber : board.nextNumber = dishes.length + 1
  handled : board.handled = 0

namespace Placed

variable {terms : Terms} {dishes : List Dish} {board : Board Dish}

/-- Nothing has been ordered on a fresh board. -/
theorem fresh : Placed [] .fresh := ⟨rfl, rfl, rfl, rfl⟩

/-- Every dish that has been ordered counts as submitted. -/
theorem submitted_eq (h : Placed dishes board) : board.submitted = dishes.length := by
  rw [Board.submitted, h.nextNumber, Nat.add_sub_cancel]

/-- Every dish that has been ordered is pending. -/
theorem size_eq (h : Placed dishes board) : board.pending.size = dishes.length := by
  rw [← Fifo.length_toList, h.pending, length_numbered]

/-- One more dish comes last. -/
theorem accepting (h : Placed dishes board) (dish : Dish) :
    Placed (dishes ++ [dish]) (board.accepting dish) where
  isOpen := h.isOpen
  pending := by
    rw [Board.accepting, Fifo.toList_push, h.pending, h.nextNumber, numbered_append, Nat.add_comm]
    rfl
  nextNumber := by simp [Board.accepting, h.nextNumber]
  handled := h.handled

/-- A dish that is still expected is accepted if there is room. -/
theorem submit_of_lt (h : Placed dishes board) (countable : terms.expected + 1 < Count.wordSize)
    (wanted : dishes.length < terms.expected) (room : dishes.length < terms.capacity)
    (dish : Dish) :
    board.whileOpen (board.submit terms none dish) =
      .finish (.ok (dishes.length + 1)) (board.accepting dish) [.one .notEmpty] := by
  have hwanted : ¬ terms.expected ≤ board.submitted := by rw [h.submitted_eq]; omega
  have hroom : board.pending.size < terms.capacity := by rwa [h.size_eq]
  have hnext : Count.next? board.nextNumber = some (board.nextNumber + 1) :=
    Count.fit?_eq_some_iff.mpr ⟨by rw [h.nextNumber]; omega, rfl⟩
  have granted : board.lacks none = none := ite_self none
  rw [Board.whileOpen_of_open h.isOpen, Board.submit, if_neg hwanted, if_pos hroom, Board.accept,
    granted, hnext, ← h.nextNumber]
  rfl

/-- A dish that is not expected any more is refused. -/
theorem submit_of_le (h : Placed dishes board) (full : terms.expected ≤ dishes.length)
    (dish : Dish) :
    board.whileOpen (board.submit terms none dish) =
      .finish (.error ⟨dish, .oversubscribed terms.expected⟩) board [] := by
  rw [Board.whileOpen_of_open h.isOpen]
  exact if_pos (by rwa [h.submitted_eq])

end Placed

/-- The first wish of a customer is its first pick, and the others are picked from what that
leaves. -/
theorem wishes_cons (words : Words) (customer : UInt64) (count : Nat) :
    wishes words customer (count + 1) =
      { item := (Menu.pick words).1, customer } :: wishes (Menu.pick words).2 customer count := rfl

/-- How a visit ends that asks for `orders` dishes after `before` others have been asked for. -/
def Visit.due (terms : Terms) (before orders : Nat) : Visit :=
  if orders = 0 ∨ before + orders ≤ terms.expected then .complete
  else .refused (.oversubscribed terms.expected)

/-- A guest who wants nothing leaves without having done anything. -/
theorem Visit.due_zero (terms : Terms) (before : Nat) : Visit.due terms before 0 = .complete :=
  if_pos (.inl rfl)

/-- After a dish that is still expected, a visit ends as one for the others would. -/
theorem Visit.due_succ {terms : Terms} {before : Nat} (wanted : before < terms.expected)
    (orders : Nat) : Visit.due terms before (orders + 1) = Visit.due terms (before + 1) orders := by
  refine if_congr ?_ rfl rfl
  omega

/-- A visit that asks for a dish that is not expected any more ends with a refusal. -/
theorem Visit.due_of_le {terms : Terms} {before : Nat} (full : terms.expected ≤ before)
    (orders : Nat) :
    Visit.due terms before (orders + 1) = .refused (.oversubscribed terms.expected) :=
  if_neg (by omega)

/-- Orders that are not accepted do not count. -/
theorem Visit.due_min (terms : Terms) (before orders : Nat) :
    Visit.due terms (min terms.expected before) orders = Visit.due terms before orders := by
  refine if_congr ?_ rfl rfl
  omega

/-- A guest places the first of its wishes, as many as are still expected. -/
theorem placeOrders_eq {terms : Terms} (countable : terms.expected + 1 < Count.wordSize)
    (id : UInt64) {count : Nat} (words : Words) {dishes : List Dish} {board : Board Dish}
    (h : Placed dishes board)
    (room : min terms.expected (dishes.length + count) ≤ terms.capacity) :
    ∃ next, Placed (dishes ++ (wishes words id count).take (terms.expected - dishes.length)) next ∧
      placeOrders terms id count words board =
        { orders := numbered (dishes.length + 1)
            ((wishes words id count).take (terms.expected - dishes.length))
          visit := .due terms dishes.length count
          board := next } := by
  induction count generalizing words dishes board with
  | zero =>
    have hwishes : (wishes words id 0).take (terms.expected - dishes.length) = [] := List.take_nil
    rw [hwishes, List.append_nil, Visit.due_zero]
    exact ⟨board, h, rfl⟩
  | succ count ih =>
    by_cases wanted : dishes.length < terms.expected
    · -- The first wish is accepted, and the others are placed behind it.
      have hroom : dishes.length < terms.capacity := by omega
      have hsubmit := h.submit_of_lt countable wanted hroom ⟨(Menu.pick words).1, id⟩
      have hleft : terms.expected - dishes.length = terms.expected - (dishes.length + 1) + 1 := by
        omega
      obtain ⟨next, hplaced, heq⟩ := ih (Menu.pick words).2 (h.accepting ⟨(Menu.pick words).1, id⟩)
        (by rw [List.length_append, List.length_singleton]; omega)
      rw [List.length_append, List.length_singleton] at hplaced heq
      rw [wishes_cons, hleft, List.take_succ_cons, Visit.due_succ wanted]
      refine ⟨next, by rwa [List.append_assoc] at hplaced, ?_⟩
      simp only [placeOrders, hsubmit, heq]
      rfl
    · -- The first wish is refused, and that ends the visit.
      have full : terms.expected ≤ dishes.length := by omega
      rw [Nat.sub_eq_zero_of_le full, List.take_zero, List.append_nil, Visit.due_of_le full]
      refine ⟨board, h, ?_⟩
      simp only [placeOrders, h.submit_of_le full]
      rfl

/-- The dishes that a guest wants. -/
def Guest.wishes (generators : Generators) (guest : Guest) : List Dish :=
  Shift.wishes (.ofCustomer guest.seed generators guest.id) guest.id guest.orders

/-- A guest has as many wishes as orders. -/
theorem Guest.length_wishes (generators : Generators) (guest : Guest) :
    (guest.wishes generators).length = guest.orders := Shift.length_wishes ..

/-- The wishes of several guests in a row. Each guest has a generator of its own, which depends on
its place among the guests if it has no seed. -/
def wishList (generators : Generators) (guests : List Guest) : List Dish :=
  (guests.mapIdx fun j guest => guest.wishes (generators.skip j)).flatten

/-- The wishes of the first guest come first. -/
theorem wishList_cons (generators : Generators) (guest : Guest) (guests : List Guest) :
    wishList generators (guest :: guests) =
      guest.wishes generators ++ wishList generators.rest guests := by
  rw [wishList, List.mapIdx_cons, List.flatten_cons]
  rfl

/-- Guests have as many wishes as orders. -/
theorem length_wishList (generators : Generators) (guests : List Guest) :
    (wishList generators guests).length = (guests.map (·.orders)).sum := by
  induction guests generalizing generators with
  | nil => rfl
  | cons guest guests ih =>
    rw [wishList_cons, List.length_append, guest.length_wishes, ih, List.map_cons, List.sum_cons]

/-- What a visit returns to its caller, unless it waits for ever or fails. -/
def Visit.result? (id : UInt64) : Visit → Option (Except RunError Unit)
  | .complete => some (.ok ())
  | .refused reason => some (.error (.rejected id.toNat reason))
  | .stuck => none
  | .crashed _ => none

/-- A visit returns to its caller if it ends as it is due. -/
theorem Visit.result?_due (id : UInt64) (terms : Terms) (before orders : Nat) :
    (Visit.due terms before orders).result? id =
      some (if orders = 0 ∨ before + orders ≤ terms.expected then .ok ()
        else .error (.rejected id.toNat (.oversubscribed terms.expected))) := by
  unfold due
  split <;> rfl

/-- The visit of a guest who comes after `before` dishes have been asked for: it places the first of
its wishes, as many as are still expected, under the next numbers, and it is turned away exactly if
not all of them are. -/
structure Served (terms : Terms) (generators : Generators) (before : Nat) (guest : Guest)
    (report : VisitReport) : Prop where
  orders : report.orders = numbered (min terms.expected before + 1)
    ((guest.wishes generators).take (terms.expected - before))
  result : report.visit.result? guest.id =
    some (if guest.orders = 0 ∨ before + guest.orders ≤ terms.expected then .ok ()
      else .error (.rejected guest.id.toNat (.oversubscribed terms.expected)))

/-- The visits of guests who come one after another, the first of them after `before` dishes have
been asked for. -/
inductive ServedInTurn (terms : Terms) :
    Generators → Nat → List Guest → List VisitReport → Prop where
  | nil {generators : Generators} {before : Nat} : ServedInTurn terms generators before [] []
  | cons {generators : Generators} {before : Nat} {guest : Guest} {report : VisitReport}
      {guests : List Guest} {reports : List VisitReport}
      (first : Served terms generators before guest report)
      (others : ServedInTurn terms generators.rest (before + guest.orders) guests reports) :
      ServedInTurn terms generators before (guest :: guests) (report :: reports)

namespace ServedInTurn

variable {terms : Terms} {generators : Generators} {before : Nat} {guests : List Guest}
  {reports : List VisitReport}

/-- There is one visit for each guest. -/
theorem length_eq (h : ServedInTurn terms generators before guests reports) :
    reports.length = guests.length := by
  induction h with
  | nil => rfl
  | cons _ _ ih => exact congrArg (· + 1) ih

/-- Every guest is served after the wishes of those before it. -/
theorem served (h : ServedInTurn terms generators before guests reports) {j : Nat} {guest : Guest}
    (hguest : guests[j]? = some guest) : ∃ report, reports[j]? = some report ∧
      Served terms (generators.skip j) (before + ((guests.take j).map (·.orders)).sum) guest
        report := by
  induction h generalizing j with
  | nil => cases hguest
  | @cons generators before first report guests reports served _ ih =>
    cases j with
    | zero =>
      cases hguest
      exact ⟨report, rfl, served⟩
    | succ j =>
      obtain ⟨other, hother, hserved⟩ := ih hguest
      rw [Nat.add_assoc] at hserved
      exact ⟨other, hother, hserved⟩

/-- Together the guests place the first of their wishes, as many as are still expected. -/
theorem orders_eq (h : ServedInTurn terms generators before guests reports) :
    reports.flatMap (·.orders) = numbered (min terms.expected before + 1)
      ((wishList generators guests).take (terms.expected - before)) := by
  induction h with
  | nil => simp [wishList, numbered]
  | @cons generators before guest report guests reports first _ ih =>
    have hlength := guest.length_wishes generators
    have hnumber : min terms.expected before + 1 +
        ((guest.wishes generators).take (terms.expected - before)).length =
          min terms.expected (before + guest.orders) + 1 := by
      rw [List.length_take, hlength]
      omega
    have hleft : terms.expected - before - (guest.wishes generators).length =
        terms.expected - (before + guest.orders) := by
      rw [hlength]
      omega
    rw [List.flatMap_cons, first.orders, ih, wishList_cons, List.take_append, numbered_append,
      hnumber, hleft]

end ServedInTurn

/-- The board that visits leave, which find the given one. -/
def leftBy (board : Board Dish) (reports : List VisitReport) : Board Dish :=
  (reports.getLast?.map (·.board)).getD board

/-- Further visits find the board that the first one has left. -/
theorem leftBy_cons (board : Board Dish) (report : VisitReport) (reports : List VisitReport) :
    leftBy board (report :: reports) = leftBy report.board reports := by
  cases h : reports.getLast? <;> simp [leftBy, List.getLast?_cons, h]

section

variable {terms : Terms} {asked : List Dish} {board : Board Dish}

/-- A guest is served, and the queue has taken the first of all wishes so far. -/
theorem visit_served (countable : terms.expected + 1 < Count.wordSize) (generators : Generators)
    (guest : Guest) (h : Placed (asked.take terms.expected) board)
    (room : min terms.expected (asked.length + guest.orders) ≤ terms.capacity) :
    Served terms generators asked.length guest (guest.visit terms generators board) ∧
      Placed ((asked ++ guest.wishes generators).take terms.expected)
        (guest.visit terms generators board).board := by
  have hlength : (asked.take terms.expected).length = min terms.expected asked.length :=
    List.length_take
  have hleft : terms.expected - min terms.expected asked.length =
      terms.expected - asked.length := by omega
  have hroom : min terms.expected (min terms.expected asked.length + guest.orders) ≤
      terms.capacity := by omega
  obtain ⟨next, hplaced, heq⟩ := placeOrders_eq countable guest.id
    (.ofCustomer guest.seed generators guest.id) h (hlength ▸ hroom)
  rw [hlength, hleft] at hplaced heq
  rw [Guest.visit, heq, Visit.due_min]
  refine ⟨⟨rfl, Visit.result?_due ..⟩, ?_⟩
  rw [List.take_append]
  exact hplaced

/-- Guests who come one after another are served in turn, and the queue has taken the first of all
wishes. -/
theorem visits_served (countable : terms.expected + 1 < Count.wordSize) (generators : Generators)
    (guests : List Guest) (h : Placed (asked.take terms.expected) board)
    (room : min terms.expected (asked.length + (guests.map (·.orders)).sum) ≤ terms.capacity) :
    ServedInTurn terms generators asked.length guests (visits terms generators guests board) ∧
      Placed ((asked ++ wishList generators guests).take terms.expected)
        (leftBy board (visits terms generators guests board)) := by
  induction guests generalizing generators asked board with
  | nil => exact ⟨.nil, by simpa [wishList, visits, leftBy] using h⟩
  | cons guest guests ih =>
    rw [List.map_cons, List.sum_cons] at room
    obtain ⟨first, hplaced⟩ := visit_served countable generators guest h (by omega)
    -- For the other guests these wishes have been asked for, whether they were accepted or not.
    have hlength : (asked ++ guest.wishes generators).length = asked.length + guest.orders := by
      rw [List.length_append, guest.length_wishes]
    obtain ⟨others, hlast⟩ := ih generators.rest hplaced (by rw [hlength]; omega)
    rw [hlength] at others
    rw [List.append_assoc, ← wishList_cons] at hlast
    rw [visits, leftBy_cons]
    exact ⟨.cons first others, hlast⟩

/-- The guests of a queue that has just been opened are served in turn. -/
theorem guests_served (countable : terms.expected + 1 < Count.wordSize) (generators : Generators)
    (guests : List Guest)
    (room : min terms.expected (guests.map (·.orders)).sum ≤ terms.capacity) :
    ServedInTurn terms generators 0 guests (visits terms generators guests .fresh) ∧
      Placed ((wishList generators guests).take terms.expected)
        (leftBy .fresh (visits terms generators guests .fresh)) := by
  have hfresh : Placed (([] : List Dish).take terms.expected) .fresh := by
    rw [List.take_nil]
    exact .fresh
  exact visits_served countable generators guests hfresh (by simpa using room)

end

/-- The orders that are handed out are those that are pending, and then work ends, if with them as
many orders are handed out as are expected. -/
theorem takeOrders_eq {terms : Terms} {orders : List (Order Dish)} {board : Board Dish}
    (isOpen : board.closed = false) (pending : board.pending.toList = orders)
    (exact : board.handled + orders.length = terms.expected) :
    ∃ rest, rest.pending.toList = [] ∧ rest.handled = terms.expected ∧
      rest.nextNumber = board.nextNumber ∧
      ∀ count, orders.length < count →
        takeOrders terms count board = { orders, visit := .complete, board := rest } := by
  induction orders generalizing board with
  | nil =>
    have hpop : board.pending.pop? = none := Fifo.pop?_eq_none_iff.mpr pending
    have done : terms.expected ≤ board.handled := exact.ge
    have htake : board.whileOpen (board.take terms) =
        .finish .endOfWork board [.all .notEmpty] := by
      simp only [Board.whileOpen_of_open isOpen, Board.take, Board.takeReady, hpop, if_pos done]
    refine ⟨board, pending, exact, rfl, fun count enough => ?_⟩
    cases count with
    | zero => cases enough
    | succ count =>
      simp only [takeOrders, htake]
      rfl
  | cons order orders ih =>
    cases hpop : board.pending.pop? with
    | none => simp [Fifo.pop?_eq_none_iff.mp hpop] at pending
    | some popped =>
      obtain ⟨oldest, others⟩ := popped
      have hlist := (Fifo.toList_of_pop? hpop).symm.trans pending
      obtain ⟨rfl, hothers⟩ := List.cons.inj hlist
      rw [List.length_cons] at exact
      have hnext : Count.next? board.handled = some (board.handled + 1) :=
        Count.fit?_eq_some_iff.mpr ⟨by have := terms.expected_lt; omega, rfl⟩
      have htake : board.whileOpen (board.take terms) =
          .finish (.order oldest) (board.handingOut others)
            (Queue.takerSignals terms (board.handled + 1)) := by
        simp only [Board.whileOpen_of_open isOpen, Board.take, Board.takeReady, hpop, hnext]
        rfl
      have hexact : (board.handingOut others).handled + orders.length = terms.expected := by
        simp only [Board.handingOut]
        omega
      have stays : (board.handingOut others).closed = false := isOpen
      obtain ⟨rest, hempty, hhandled, hnumber, heq⟩ := ih stays hothers hexact
      refine ⟨rest, hempty, hhandled, hnumber, fun count enough => ?_⟩
      cases count with
      | zero => cases enough
      | succ count =>
        simp only [takeOrders, htake, heq count (Nat.lt_of_succ_lt_succ enough)]
        rfl

/-- The books of a cook who goes on from some books and is handed the orders of a visit: it counts
them, notes their numbers behind those that are on its list, and tells of them in turn and of the
end of work. -/
def CookBooks.told (id : Nat) (books : CookBooks) (report : VisitReport) : CookBooks where
  fulfilled := books.fulfilled + report.orders.length
  seen := books.seen.map (· ++ report.orders.map (·.number))
  journal := books.journal ++ report.orders.map (.cooking id) ++
    if report.visit = .complete then [.noMoreOrders id (books.fulfilled + report.orders.length)]
    else []

/-- A cook who is handed nothing has its old books, and may have told that work has ended. -/
theorem CookBooks.told_ended (id : Nat) (books : CookBooks) (visit : Visit) (board : Board Dish) :
    books.told id (.ended visit board) =
      if visit = .complete then books.finished id else books := by
  obtain ⟨fulfilled, seen, journal⟩ := books
  cases visit <;> simp [told, finished, VisitReport.ended]

/-- A cook who is handed one more order first has cooked that one before the others. -/
theorem CookBooks.told_after (id : Nat) (books : CookBooks) (order : Order Dish)
    (report : VisitReport) :
    books.told id (report.after order) = (books.cooked id order).told id report := by
  have hfulfilled : books.fulfilled + (report.orders.length + 1) =
      books.fulfilled + 1 + report.orders.length := by omega
  simp [told, cooked, VisitReport.after, hfulfilled, Function.comp_def]

/-- A cook who begins with blank books tells of a visit what there is to tell of it. -/
theorem CookBooks.journal_told_blank (id : Nat) (seen : Option (List Nat)) (report : VisitReport) :
    ((blank seen).told id report).journal = report.cookedEvents id := by
  obtain ⟨orders, visit, board⟩ := report
  cases visit <;> simp [told, blank, VisitReport.cookedEvents]

/-- The loop of a cook takes the orders that are handed out, from whatever board it starts, and its
books tell of just these. -/
theorem cook_eq (terms : Terms) (id count : Nat) (books : CookBooks) (board : Board Dish) :
    cook terms id count books board =
      { books := books.told id (takeOrders terms count board)
        visit := (takeOrders terms count board).visit
        board := (takeOrders terms count board).board } := by
  induction count generalizing books board with
  | zero =>
    rw [takeOrders, CookBooks.told_ended]
    rfl
  | succ count ih =>
    cases htake : board.whileOpen (board.take terms) with
    | wait condition =>
      simp only [cook, takeOrders, htake, CookBooks.told_ended]
      rfl
    | fail fault next =>
      simp only [cook, takeOrders, htake, CookBooks.told_ended]
      rfl
    | finish value next signals =>
      cases value with
      | endOfWork =>
        simp only [cook, takeOrders, htake, CookBooks.told_ended]
        rfl
      | order order =>
        simp only [cook, takeOrders, htake, CookBooks.told_after, ih]
        rfl

/-- The visit of a cook who gets some dishes, numbered from one, and then leaves because work has
ended. It returns how many orders it has fulfilled, which are all that were expected. If it was
given a list, the numbers from one on are noted in it in turn, of which an audit finds nothing to
say. It has told of every dish in turn, and of the end of work last. -/
structure CooksAll (terms : Terms) (id : Nat) (seen : Option (List Nat)) (dishes : List Dish)
    (report : CookReport) : Prop where
  ends : report.visit = .complete
  fulfilled : report.books.fulfilled = terms.expected
  noted : report.books.seen = seen.map (· ++ List.range' 1 terms.expected)
  audited : seen = some [] → report.books.seen.map (Audit.ofNumbers · terms.expected) =
    some { duplicates := false, complete := true }
  journal : report.books.journal =
    (numbered 1 dishes).map (.cooking id) ++ [.noMoreOrders id terms.expected]
  accounts : report.board.accounts terms =
    { expected := terms.expected, submitted := terms.expected, handled := terms.expected
      leftover := 0 }

/-- A cook who comes when all expected dishes have been ordered is handed all of them, however many
it may take. -/
theorem Placed.takeOrders_eq {terms : Terms} {dishes : List Dish} {board : Board Dish}
    (h : Placed dishes board) (exact : dishes.length = terms.expected) :
    ∃ rest, rest.accounts terms =
        { expected := terms.expected, submitted := terms.expected, handled := terms.expected
          leftover := 0 } ∧
      ∀ count, dishes.length < count → takeOrders terms count board =
        { orders := numbered 1 dishes, visit := .complete, board := rest } := by
  have hlength := length_numbered 1 dishes
  have hall : board.handled + (numbered 1 dishes).length = terms.expected := by
    rw [h.handled, hlength, exact, Nat.zero_add]
  obtain ⟨rest, hempty, hhandled, hnumber, heq⟩ := Shift.takeOrders_eq h.isOpen h.pending hall
  have hsize : rest.pending.size = 0 := by rw [← Fifo.length_toList, hempty, List.length_nil]
  have hsubmitted : rest.submitted = terms.expected := by
    rw [Board.submitted, hnumber, h.nextNumber, Nat.add_sub_cancel, exact]
  refine ⟨rest, ?_, fun count enough => heq count (by rwa [hlength])⟩
  simp only [Board.accounts, hsubmitted, hhandled, hsize]

/-- A cook who comes when all expected dishes have been ordered cooks all of them, however many it
may take. -/
theorem cookAll_eq {terms : Terms} {dishes : List Dish} {board : Board Dish}
    (h : Placed dishes board) (exact : dishes.length = terms.expected) (id : Nat)
    (seen : Option (List Nat)) :
    CooksAll terms id seen dishes (cookAll terms id seen board) ∧
      ∀ count, dishes.length < count →
        cook terms id count (.blank seen) board = cookAll terms id seen board := by
  have hlength := length_numbered 1 dishes
  obtain ⟨rest, haccounts, htaken⟩ := h.takeOrders_eq exact
  have hcook (count : Nat) (enough : dishes.length < count) :
      cook terms id count (.blank seen) board =
        { books := (CookBooks.blank seen).told id
            { orders := numbered 1 dishes, visit := .complete, board := rest }
          visit := .complete
          board := rest } := by
    rw [cook_eq, htaken count enough]
  have hall : cookAll terms id seen board = _ :=
    hcook (board.pending.size + 1) (by rw [h.size_eq]; exact Nat.lt_succ_self _)
  have hnoted : (cookAll terms id seen board).books.seen =
      seen.map (· ++ List.range' 1 terms.expected) := by
    rw [hall, ← exact, ← number_numbered]
    rfl
  refine ⟨⟨?_, ?_, hnoted, ?_, ?_, ?_⟩, fun count enough => (hcook count enough).trans hall.symm⟩
  · rw [hall]
  · rw [hall, CookBooks.told, hlength, exact]
    exact Nat.zero_add _
  · rintro rfl
    rw [hnoted]
    exact congrArg some (Audit.ofNumbers_of_perm (List.Perm.refl _))
  · rw [hall, CookBooks.journal_told_blank]
    simp only [VisitReport.cookedEvents, hlength, exact]
  · rw [hall, haccounts]

end OrderRail.Shift
