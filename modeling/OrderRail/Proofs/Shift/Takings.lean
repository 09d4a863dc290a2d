import OrderRail.Proofs.Shift.Dealings

/-!
# The books of the cooks

A cook counts the orders that it has fulfilled, and if the shift is validated it notes their numbers
in a list that all cooks share. Both happen outside the queue, some time after the order was taken.
So at any moment the books lag behind the queue by the orders that the cooks have in their hands,
and by nothing else: what a cook has fulfilled and holds is what it has taken, and the numbers noted
and held are the numbers handed out.
-/

namespace OrderRail.Shift

open scoped List

open Queue (Terms Monitor Request Answer Transition takenBy deliveries calls)

/-- What a cook knows about the orders that it has taken. -/
structure Book where
  held : Option (Order Dish)
  fulfilled : Nat

/-- How many orders a cook has taken, the one in its hands included. -/
def Book.taken (book : Book) : Nat := book.fulfilled + book.held.toList.length

/-- The book of a cook. -/
def Cook.book (cook : Cook) : Book := { held := cook.held, fulfilled := cook.fulfilled }

/-- The books of all cooks. -/
def State.books (shift : State) : List Book := shift.cooks.map Cook.book

/-- The books agree with the history of the queue: with the orders that each cook has taken, with
all orders that were handed out, and, if numbers are noted, with their numbers. -/
structure Recorded (validate : Bool) (history : List (Transition Thread Dish)) (books : List Book)
    (noted : List Nat) : Prop where
  taken : ∀ id, (takenBy (.worker .cook id) history).length =
    ((books[id]?).map Book.taken).getD 0
  total : (books.map Book.taken).sum = (deliveries history).length
  noted : validate = true →
    (noted ++ books.filterMap (·.held.map (·.number))).Perm ((deliveries history).map (·.number))

/-- Replacing one item exchanges what is collected from it. -/
theorem perm_filterMap_set {α β : Type} (f : α → Option β) {items : List α} {position : Nat} {a : α}
    (present : items[position]? = some a) (b : α) :
    ((f a).toList ++ (items.set position b).filterMap f).Perm
      ((f b).toList ++ items.filterMap f) := by
  obtain ⟨hposition, rfl⟩ := List.getElem?_eq_some_iff.mp present
  obtain ⟨before, after, hitems, -, hset⟩ := List.exists_of_set hposition
  have hcons (c : α) : (before ++ c :: after).filterMap f ~
      (f c).toList ++ (before ++ after).filterMap f := by
    refine (List.perm_middle.filterMap f).trans (.of_eq ?_)
    cases hc : f c <;> simp [hc]
  calc (f items[position]).toList ++ (items.set position b).filterMap f
      ~ (f items[position]).toList ++ ((f b).toList ++ (before ++ after).filterMap f) := by
        rw [hset]
        exact (hcons b).append_left _
    _ ~ (f b).toList ++ ((f items[position]).toList ++ (before ++ after).filterMap f) :=
        List.perm_append_comm_assoc ..
    _ ~ (f b).toList ++ items.filterMap f := by
        conv => rhs; rw [hitems]
        exact (hcons items[position]).symm.append_left _

namespace Recorded

variable {validate : Bool} {history more : List (Transition Thread Dish)} {books : List Book}
  {noted : List Nat}

/-- Nothing has been taken when a shift starts. -/
theorem start (validate : Bool) : Recorded validate [] [] [] where
  taken := fun _ => rfl
  total := rfl
  noted := fun _ => .refl _

/-- The books stay as they are where nobody takes an order. -/
theorem quiet (h : Recorded validate history books noted)
    (nothing : ∀ call ∈ calls more, call.delivery? = none) :
    Recorded validate (history ++ more) books noted := by
  have hall : (calls more).filterMap Queue.Call.delivery? = [] :=
    List.filterMap_eq_nil_iff.mpr nothing
  have hmine (thread : Thread) :
      ((calls more).filter (·.thread = thread)).filterMap Queue.Call.delivery? = [] :=
    List.filterMap_eq_nil_iff.mpr fun call hcall => nothing call (List.mem_of_mem_filter hcall)
  constructor
  · intro id
    rw [Queue.takenBy_extend, hmine, List.append_nil]
    exact h.taken id
  · rw [Queue.deliveries_extend, hall, List.append_nil]
    exact h.total
  · rw [Queue.deliveries_extend, hall, List.append_nil]
    exact h.noted

/-- A new cook has an empty book. -/
theorem hire (h : Recorded validate history books noted) :
    Recorded validate history (books ++ [Cook.start.book]) noted := by
  constructor
  · intro id
    rw [h.taken id]
    by_cases hold : id < books.length
    · rw [List.getElem?_append_left hold]
    · rw [List.getElem?_eq_none (by omega), List.getElem?_append_right (by omega)]
      cases hnew : id - books.length <;> rfl
  · rw [List.map_append, List.sum_append_nat, h.total]
    rfl
  · rw [List.filterMap_append, ← List.append_assoc]
    exact fun validated => (List.append_nil _).symm ▸ h.noted validated

/-- A cook gets an order and holds it. -/
theorem take (h : Recorded validate history books noted) {id : Nat} {book : Book}
    {order : Order Dish} (present : books[id]? = some book) (free : book.held = none)
    (got : calls more = [⟨.worker .cook id, .take .endless, .order order⟩]) :
    Recorded validate (history ++ more) (books.set id { book with held := some order }) noted := by
  have hid := (List.getElem?_eq_some_iff.mp present).1
  have hbefore : book.taken = book.fulfilled := by simp [Book.taken, free]
  have hafter : Book.taken { book with held := some order } = book.fulfilled + 1 := rfl
  have hdelivery : Queue.Call.delivery?
    ⟨Thread.worker .cook id, .take .endless, .order order⟩ = some order := rfl
  constructor
  · intro other
    rw [Queue.takenBy_extend, got, List.length_append, h.taken other]
    by_cases hother : other = id
    · rw [hother, present, List.getElem?_set_self hid, Option.map_some, Option.map_some,
        Option.getD_some, Option.getD_some, hbefore, hafter]
      simp [hdelivery]
    · simp [Ne.symm hother, List.getElem?_set_ne (Ne.symm hother)]
  · have hsum := Count.sum_map_set Book.taken present { book with held := some order }
    rw [Queue.deliveries_extend, got, List.length_append, ← h.total]
    simp only [List.filterMap_cons, hdelivery, List.filterMap_nil, List.length_singleton]
    omega
  · intro validated
    have hperm := perm_filterMap_set (fun book : Book => book.held.map (·.number)) present
      { book with held := some order }
    simp only [free, Option.map_none, Option.toList_none, List.nil_append, Option.map_some,
      Option.toList_some, List.singleton_append] at hperm
    rw [Queue.deliveries_extend, got, List.map_append]
    calc noted ++ (books.set id { book with held := some order }).filterMap
          (·.held.map (·.number))
        ~ noted ++ order.number :: books.filterMap (·.held.map (·.number)) := hperm.append_left _
      _ ~ order.number :: (noted ++ books.filterMap (·.held.map (·.number))) := List.perm_middle
      _ ~ order.number :: (deliveries history).map (·.number) := (h.noted validated).cons _
      _ ~ (deliveries history).map (·.number) ++ [order.number] :=
        (List.perm_append_singleton ..).symm

/-- A cook fulfills the order that it holds, and notes its number if numbers are noted. -/
theorem note (h : Recorded validate history books noted) {id : Nat} {book : Book}
    {order : Order Dish} (present : books[id]? = some book) (holds : book.held = some order) :
    Recorded validate history
      (books.set id { held := none, fulfilled := book.fulfilled + 1 })
      (if validate then order.number :: noted else noted) := by
  have hid := (List.getElem?_eq_some_iff.mp present).1
  have hsame : Book.taken { held := none, fulfilled := book.fulfilled + 1 } = book.taken := by
    simp [Book.taken, holds]
  constructor
  · intro other
    rw [h.taken other]
    by_cases hother : other = id
    · rw [hother, present, List.getElem?_set_self hid, Option.map_some, Option.map_some,
        Option.getD_some, Option.getD_some, hsame]
    · rw [List.getElem?_set_ne (Ne.symm hother)]
  · have hsum := Count.sum_map_set Book.taken present
      { held := none, fulfilled := book.fulfilled + 1 }
    have htotal := h.total
    omega
  · intro validated
    have hperm := perm_filterMap_set (fun book : Book => book.held.map (·.number)) present
      { held := none, fulfilled := book.fulfilled + 1 }
    simp only [holds, Option.map_none, Option.toList_none, List.nil_append, Option.map_some,
      Option.toList_some, List.singleton_append] at hperm
    rw [if_pos validated]
    calc order.number :: noted ++
          (books.set id { held := none, fulfilled := book.fulfilled + 1 }).filterMap
            (·.held.map (·.number))
        ~ noted ++ order.number ::
          (books.set id { held := none, fulfilled := book.fulfilled + 1 }).filterMap
            (·.held.map (·.number)) := List.perm_middle.symm
      _ ~ noted ++ books.filterMap (·.held.map (·.number)) := hperm.append_left _
      _ ~ (deliveries history).map (·.number) := h.noted validated

end Recorded

/-- The book of a cook is where its number says. -/
theorem State.books_present {shift : State} {id : Nat} {cook : Cook}
    (present : shift.cooks[id]? = some cook) : shift.books[id]? = some cook.book := by
  rw [books, List.getElem?_map, present, Option.map_some]

/-- Every turn that leaves a sound shift whole keeps the books right. -/
theorem Sound.recorded {config : Config} {terms : Terms} {validate : Bool}
    {history : List (Transition Thread Dish)} {shift next : State} {move : Move}
    (h : Sound config terms shift) (turn : Turn shift move next)
    (whole : next.Whole)
    (record : shift.validate = validate ∧ Recorded validate history shift.books shift.noted) :
    next.validate = validate ∧
      Recorded validate (history ++ shift.dealing move) next.books next.noted := by
  obtain ⟨hvalidate, record⟩ := record
  cases turn with
  | startCook stage more =>
    refine ⟨hvalidate, ?_⟩
    rw [State.dealing_of_none (State.queueMove?_of_lead (by simp [stage])), List.append_nil,
      State.books, State.startCook, List.map_append]
    exact record.hire
  | customer kind present busy same grants served asks draws =>
    have fine := h.fine_of_whole present busy whole
    have hcalls := State.calls_dealing asks grants served
    rcases h.customer_cases present busy fine grants served with ⟨rfl, rfl⟩ | ⟨rfl, rfl⟩
    · exact ⟨hvalidate, record.quiet (by simp [hcalls, Queue.Call.delivery?])⟩
    · exact ⟨hvalidate, record.quiet (by simp [hcalls])⟩
  | @cook move request id chance poison cook base queue answer kind present free busy grants served
      asks =>
    have hcalls := State.calls_dealing asks grants served
    have hbook := State.books_present present
    rcases h.cook_cases present busy grants served with
      ⟨order, rest, pops, rfl, rfl⟩ | ⟨done, rfl, rfl⟩ | ⟨rfl, rfl⟩
    · refine ⟨hvalidate, ?_⟩
      change Recorded validate _ ((shift.cooks.set id _).map Cook.book) shift.noted
      rw [List.map_set]
      exact record.take hbook free hcalls
    · have hbooks : (shift.cooks.set id
          { cook with ending := some (.returned cook.fulfilled) }).map Cook.book = shift.books :=
        List.map_set.trans (set_present hbook)
      refine ⟨hvalidate, ?_⟩
      change Recorded validate _ ((shift.cooks.set id _).map Cook.book) shift.noted
      rw [hbooks]
      exact record.quiet (by simp [hcalls, Queue.Call.delivery?])
    · exact ⟨hvalidate, record.quiet (by simp [hcalls])⟩
  | rouse inside asleep =>
    exact ⟨hvalidate, record.quiet (by simp [State.calls_rouse inside asleep])⟩
  | @note id cook order present holds =>
    have hnote := record.note (State.books_present present) holds
    rw [State.dealing_of_none rfl, List.append_nil]
    refine ⟨hvalidate, ?_⟩
    change Recorded validate _ ((shift.cooks.set id _).map Cook.book)
      (if shift.validate then order.number :: shift.noted else shift.noted)
    rw [List.map_set, hvalidate]
    exact hnote
  | close stage made =>
    exact ⟨hvalidate, record.quiet (by simp [State.calls_close _ stage made, Queue.Call.delivery?])⟩
  | failToClose stage made =>
    rw [h.close_step stage] at made
    cases made
  | refused refused =>
    rw [State.dealing_of_none (State.queueMove?_of_lead refused.stage.1), List.append_nil]
    exact ⟨hvalidate, record⟩
  | startCustomer stage | customersStarted stage | cooksStarted stage | joinCustomer stage
  | joinFailedCustomer stage | customersJoined stage | joinCook stage | joinCrashedCook stage
  | cooksJoined stage =>
    rw [State.dealing_of_none (State.queueMove?_of_lead (by simp [stage])), List.append_nil]
    exact ⟨hvalidate, record⟩

end OrderRail.Shift
