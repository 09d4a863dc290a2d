import OrderRail.Proofs.Menu
import OrderRail.Proofs.Shift.Dealings

/-!
# The wishes of the customers

A customer draws its items from random words of its own, one item for each call, and makes the next
call only when the last one has been answered. Whether a call has to wait, for how long, and who
else is there changes nothing about its words. So at any moment a customer has asked for its first
wishes, one after another, and has used its words for nothing else.
-/

namespace OrderRail

namespace Shift

open Queue (Terms Monitor Request Answer Chance Transition Call offers offersOf calls)

/-- The first dishes that a customer wants, if it draws them from some random words. -/
def wishes (words : Words) (customer : UInt64) (count : Nat) : List Dish :=
  (Menu.picks count words).1.map ({ item := ·, customer })

/-- There are as many wishes as are asked for. -/
theorem length_wishes (words : Words) (customer : UInt64) (count : Nat) :
    (wishes words customer count).length = count :=
  (List.length_map ..).trans (Menu.length_picks count words)

/-- All wishes of a customer carry its number. -/
theorem customer_of_wishes {words : Words} {customer : UInt64} {count : Nat} {dish : Dish}
    (h : dish ∈ wishes words customer count) : dish.customer = customer := by
  obtain ⟨item, -, rfl⟩ := List.mem_map.mp h
  rfl

/-- The calls that come to their ends in a sound shift: submissions of customers that are accepted,
takes of cooks, and the closing of the queue by the lead thread. -/
inductive Regular (customers : Nat) : Call Thread Dish → Prop where
  | placed {id number : Nat} {dish : Dish} (hired : id < customers) :
      Regular customers ⟨.worker .customer id, .submit dish .endless, .accepted number⟩
  | taken {id : Nat} {answer : Answer Dish} :
      Regular customers ⟨.worker .cook id, .take .endless, answer⟩
  | closed {accounts : Queue.CloseReport} : Regular customers ⟨.lead, .close, .report accounts⟩

/-- More customers do not make a call less regular. -/
theorem Regular.mono {customers more : Nat} {call : Call Thread Dish} (h : Regular customers call)
    (le : customers ≤ more) : Regular more call := by
  cases h with
  | placed hired => exact .placed (by omega)
  | taken => exact .taken
  | closed => exact .closed

/-- What a customer has done: it has offered its first wishes and used its words for nothing else,
and each of its calls that have ended was one of its orders. -/
structure Faithful (words : Words) (orders id : Nat) (history : List (Transition Thread Dish))
    (customer : Customer) : Prop where
  offered : ∃ count,
    offersOf (.worker .customer id) history = wishes words (.ofNat id) count ∧
      customer.words = (Menu.picks count words).2
  ended : ((calls history).filter (·.thread = .worker .customer id)).length + customer.remaining =
    orders

namespace Faithful

variable {words : Words} {orders id : Nat} {history more : List (Transition Thread Dish)}
  {customer caller : Customer}

/-- What others do does not concern a customer. -/
theorem others (h : Faithful words orders id history customer)
    (offers : ∀ offer ∈ Queue.offers more, offer.1 ≠ .worker .customer id)
    (calls : ∀ call ∈ Queue.calls more, call.thread ≠ .worker .customer id) :
    Faithful words orders id (history ++ more) customer := by
  have hoffers := Queue.offersOf_of_absent offers
  have hcalls : (Queue.calls more).filter (·.thread = .worker .customer id) = [] := by
    simpa using calls
  constructor
  · rw [Queue.offersOf_extend, hoffers, List.append_nil]
    exact h.offered
  · rw [Queue.calls_extend, List.filter_append, hcalls, List.append_nil]
    exact h.ended

/-- A customer goes on: it may offer its next wish, drawing it from its words, and one of its calls
may end. -/
theorem goOn (h : Faithful words orders id history customer)
    (offered : (offersOf (.worker .customer id) more = [] ∧ caller.words = customer.words) ∨
      offersOf (.worker .customer id) more =
          [{ item := (Menu.pick customer.words).1, customer := .ofNat id }] ∧
        caller.words = (Menu.pick customer.words).2)
    (ended : ((calls more).filter (·.thread = .worker .customer id)).length + caller.remaining =
      customer.remaining) :
    Faithful words orders id (history ++ more) caller := by
  obtain ⟨count, hoffers, hwords⟩ := h.offered
  constructor
  · rw [Queue.offersOf_extend, hoffers]
    rcases offered with ⟨hmore, hcaller⟩ | ⟨hmore, hcaller⟩
    · exact ⟨count, by rw [hmore, List.append_nil], hcaller.trans hwords⟩
    · refine ⟨count + 1, ?_, ?_⟩
      · rw [hmore, hwords, wishes, wishes, Menu.picks_succ, List.map_append]
        rfl
      · rw [hcaller, hwords, Menu.picks_succ]
  · have hbefore := h.ended
    rw [Queue.calls_extend, List.filter_append, List.length_append]
    omega

end Faithful

/-- All customers that have been started have asked for what they want, each for itself, and nobody
else has offered anything. -/
structure Wished (config : Config) (generators : Generators)
    (history : List (Transition Thread Dish)) (customers : List Customer) : Prop where
  faithful : ∀ {id : Nat} {customer : Customer}, customers[id]? = some customer →
    Faithful (.ofCustomer config.seed (generators.skip id) (.ofNat id))
      config.ordersPerCustomer.toNat id history customer
  offers : ∀ offer ∈ offers history, ∃ id < customers.length, offer.1 = .worker .customer id
  calls : ∀ call ∈ calls history, Regular customers.length call

namespace Wished

variable {config : Config} {generators : Generators} {history more : List (Transition Thread Dish)}
  {customers : List Customer}

/-- Nobody has asked for anything when a shift starts. -/
theorem start (config : Config) (generators : Generators) : Wished config generators [] [] where
  faithful := by simp
  offers := by simp [Queue.offers]
  calls := by simp [Queue.calls]

/-- The customers are where they were when others have done something. -/
theorem quiet (h : Wished config generators history customers) (noOffer : Queue.offers more = [])
    (others : ∀ call ∈ Queue.calls more, Regular 0 call) :
    Wished config generators (history ++ more) customers := by
  constructor
  · intro id customer present
    refine (h.faithful present).others (by simp [noOffer]) fun call hcall => ?_
    cases others call hcall with
    | placed hired => omega
    | taken => simp
    | closed => simp
  · rw [Queue.offers_extend, noOffer, List.append_nil]
    exact h.offers
  · rw [Queue.calls_extend]
    exact List.forall_mem_append.mpr
      ⟨h.calls, fun call hcall => (others call hcall).mono (Nat.zero_le _)⟩

/-- A customer that has not been started has done nothing. -/
theorem absent (h : Wished config generators history customers) {id : Nat}
    (beyond : customers.length ≤ id) :
    offersOf (.worker .customer id) history = [] ∧
      (Queue.calls history).filter (·.thread = .worker .customer id) = [] := by
  constructor
  · refine Queue.offersOf_of_absent fun offer hoffer hthread => ?_
    obtain ⟨caller, hcaller, hthread'⟩ := h.offers offer hoffer
    cases hthread.symm.trans hthread'
    omega
  · simp only [List.filter_eq_nil_iff, decide_eq_true_eq]
    intro call hcall hthread
    cases h.calls call hcall with
    | placed hired =>
      cases hthread
      omega
    | taken | closed => cases hthread

/-- A new customer has not asked for anything yet. -/
theorem hire (h : Wished config generators history customers) :
    Wished config generators history (customers ++ [Customer.start config.ordersPerCustomer.toNat
      (.ofCustomer config.seed (generators.skip customers.length) (.ofNat customers.length))]) := by
  have hlength (customer : Customer) : (customers ++ [customer]).length = customers.length + 1 :=
    List.length_append
  constructor
  · intro id customer present
    rcases Nat.lt_trichotomy id customers.length with old | rfl | beyond
    · rw [List.getElem?_append_left old] at present
      exact h.faithful present
    · rw [List.getElem?_concat_length] at present
      cases present
      obtain ⟨noOffers, noCalls⟩ := h.absent (Nat.le_refl _)
      refine ⟨⟨0, noOffers, rfl⟩, ?_⟩
      rw [noCalls]
      exact Nat.zero_add _
    · have hid := (List.getElem?_eq_some_iff.mp present).1
      rw [hlength] at hid
      omega
  · intro offer hoffer
    obtain ⟨id, hid, hthread⟩ := h.offers offer hoffer
    exact ⟨id, by rw [hlength]; omega, hthread⟩
  · intro call hcall
    exact (h.calls call hcall).mono (by rw [hlength]; omega)

/-- A customer has had the lock: it may have offered its next wish, and its order may have been
accepted. -/
theorem serve (h : Wished config generators history customers) {id : Nat}
    {customer caller : Customer} (present : customers[id]? = some customer)
    (offered : (Queue.offers more = [] ∧ caller.words = customer.words) ∨
      Queue.offers more = [(.worker .customer id,
          { item := (Menu.pick customer.words).1, customer := .ofNat id })] ∧
        caller.words = (Menu.pick customer.words).2)
    (ended : (Queue.calls more = [] ∧ caller.remaining = customer.remaining) ∨
      (∃ dish number, Queue.calls more =
          [⟨.worker .customer id, .submit dish .endless, .accepted number⟩]) ∧
        caller.remaining + 1 = customer.remaining) :
    Wished config generators (history ++ more) (customers.set id caller) := by
  have hid := (List.getElem?_eq_some_iff.mp present).1
  have hoffers : ∀ offer ∈ Queue.offers more, offer.1 = .worker .customer id := by
    rcases offered with ⟨hmore, -⟩ | ⟨hmore, -⟩ <;> simp [hmore]
  have hcalls : ∀ call ∈ Queue.calls more, call.thread = .worker .customer id ∧
      Regular customers.length call := by
    rcases ended with ⟨hmore, -⟩ | ⟨⟨dish, number, hmore⟩, -⟩
    · simp [hmore]
    · simpa [hmore] using .placed hid
  constructor
  · intro other customer' present'
    by_cases hother : id = other
    · subst hother
      rw [List.getElem?_set_self hid] at present'
      cases present'
      refine (h.faithful present).goOn ?_ ?_
      · refine offered.imp (And.imp_left fun hmore => ?_) (And.imp_left fun hmore => ?_)
        · simp [offersOf, hmore]
        · simp [offersOf, hmore]
      · rcases ended with ⟨hmore, hremaining⟩ | ⟨⟨dish, number, hmore⟩, hremaining⟩
        · simpa [hmore] using hremaining
        · simpa [hmore, Nat.add_comm] using hremaining
    · rw [List.getElem?_set_ne hother] at present'
      refine (h.faithful present').others ?_ fun call hcall hthread => ?_
      · intro offer hoffer hthread
        cases (hoffers offer hoffer).symm.trans hthread
        exact hother rfl
      · cases (hcalls call hcall).1.symm.trans hthread
        exact hother rfl
  · rw [Queue.offers_extend, List.length_set]
    exact List.forall_mem_append.mpr
      ⟨h.offers, fun offer hoffer => ⟨id, hid, hoffers offer hoffer⟩⟩
  · rw [Queue.calls_extend, List.length_set]
    exact List.forall_mem_append.mpr ⟨h.calls, fun call hcall => (hcalls call hcall).2⟩

end Wished

/-- What a customer offers with a move, and what it has drawn for that. -/
theorem offers_of_caller {shift : State} {move : Move} {request : Queue.Move Thread Dish}
    {id : Nat} {chance : Chance} {customer : Customer} {queue : Monitor Thread Dish}
    {answer : Option (Answer Dish)}
    (kind : move = .call .customer id chance ∨ move = .resume .customer id chance)
    (present : shift.customers[id]? = some customer)
    (asks : shift.queueMove? move = some request)
    (made : shift.queue.step request = some (queue, answer)) :
    (offers (shift.dealing move) = [] ∧ (customer.drawn move).words = customer.words) ∨
      offers (shift.dealing move) = [(.worker .customer id,
          { item := (Menu.pick customer.words).1, customer := .ofNat id })] ∧
        (customer.drawn move).words = (Menu.pick customer.words).2 := by
  have hoffers := State.offers_dealing asks made
  rcases kind with rfl | rfl
  · simp only [State.queueMove?, present, Option.map_some, Option.some.injEq] at asks
    refine .inr ⟨?_, rfl⟩
    rw [hoffers, ← asks]
    rfl
  · cases asks
    exact .inl ⟨hoffers, rfl⟩

/-- A cook offers nothing, and its calls are regular. -/
theorem dealing_of_cook {shift : State} {move : Move} {request : Queue.Move Thread Dish}
    {id : Nat} {chance : Chance} {poison : Fault} {base queue : Monitor Thread Dish}
    {answer : Option (Answer Dish)}
    (kind : move = .call .cook id chance ∨ move = .resume .cook id chance)
    (asks : shift.queueMove? move = some request)
    (grants : shift.queue.Grants request (taking id chance poison) base)
    (served : base.serve (taking id chance poison) = (queue, answer)) :
    offers (shift.dealing move) = [] ∧ ∀ call ∈ calls (shift.dealing move), Regular 0 call := by
  have hoffers := State.offers_dealing asks (grants.step_eq.trans (congrArg some served))
  have hcalls := State.calls_dealing asks grants served
  constructor
  · rw [hoffers]
    rcases kind with rfl | rfl <;> cases asks <;> rfl
  · rw [hcalls]
    cases answer with
    | none => simp
    | some answer => simpa using .taken

/-- Every turn that leaves a sound shift whole lets the customers ask for what they want. -/
theorem Sound.wished {config : Config} {terms : Terms} {generators : Generators}
    {history : List (Transition Thread Dish)} {shift next : State} {move : Move}
    (h : Sound config terms shift) (turn : Turn shift move next) (whole : next.Whole)
    (wish : shift.generators = generators ∧ Wished config generators history shift.customers) :
    next.generators = generators ∧
      Wished config generators (history ++ shift.dealing move) next.customers := by
  obtain ⟨hgenerators, wish⟩ := wish
  cases turn with
  | startCustomer stage more =>
    refine ⟨hgenerators, ?_⟩
    rw [State.dealing_of_none (State.queueMove?_of_lead (by simp [stage])), List.append_nil,
      State.startCustomer, h.staffed.config_eq, hgenerators]
    exact wish.hire
  | @customer move request id chance dish poison customer caller base queue answer kind present
      busy same grants served asks draws =>
    have fine := h.fine_of_whole present busy whole
    have hcalls := State.calls_dealing asks grants served
    have offered := offers_of_caller kind present asks
      (grants.step_eq.trans (congrArg some served))
    rw [← draws] at offered
    obtain ⟨hremaining, -⟩ := h.wanted present busy
    -- A call that has to wait has drawn its item already, and draws nothing when it goes on.
    rcases h.customer_cases present busy fine grants served with ⟨rfl, rfl⟩ | ⟨rfl, rfl⟩
    · refine ⟨hgenerators, ?_⟩
      change Wished config generators _ (shift.customers.set id caller.served)
      refine wish.serve present offered (.inr ⟨⟨dish, _, hcalls⟩, ?_⟩)
      change caller.remaining - 1 + 1 = _
      omega
    · exact ⟨hgenerators, wish.serve present offered (.inl ⟨hcalls, same.1⟩)⟩
  | @cook move request id chance poison cook base queue answer kind present free busy grants served
      asks =>
    obtain ⟨noOffer, regular⟩ := dealing_of_cook kind asks grants served
    have hquiet := wish.quiet noOffer regular
    cases answer with
    | none => exact ⟨hgenerators, hquiet⟩
    | some answer => cases answer <;> exact ⟨hgenerators, hquiet⟩
  | @rouse role id waiter inside asleep =>
    have asks : shift.queueMove? (.rouse role id) = some (.rouse (.worker role id)) := rfl
    have hoffers := State.offers_dealing asks (Monitor.rouse_eq_some inside asleep)
    have hcalls := State.calls_rouse inside asleep
    exact ⟨hgenerators, wish.quiet hoffers (by simp [hcalls])⟩
  | @close denial queue accounts stage made =>
    have asks : shift.queueMove? (.lead denial) = _ := State.queueMove?_of_closing stage
    have hoffers := State.offers_dealing asks made
    have hcalls := State.calls_close denial stage made
    exact ⟨hgenerators, wish.quiet hoffers (by simpa [hcalls] using .closed)⟩
  | failToClose stage made =>
    rw [h.close_step stage] at made
    cases made
  | note present holds =>
    rw [State.dealing_of_none rfl, List.append_nil]
    exact ⟨hgenerators, wish⟩
  | refused refused =>
    rw [State.dealing_of_none (State.queueMove?_of_lead refused.stage.1), List.append_nil]
    exact ⟨hgenerators, wish⟩
  | customersStarted stage | startCook stage | cooksStarted stage | joinCustomer stage
  | joinFailedCustomer stage | customersJoined stage | joinCook stage | joinCrashedCook stage
  | cooksJoined stage =>
    rw [State.dealing_of_none (State.queueMove?_of_lead (by simp [stage])), List.append_nil]
    exact ⟨hgenerators, wish⟩

end Shift

end OrderRail
