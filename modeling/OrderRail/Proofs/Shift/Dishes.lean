import OrderRail.Proofs.Queue.Delivery
import OrderRail.Proofs.Shift.Completed
import OrderRail.Proofs.Shift.Wishes

/-!
# What is cooked does not depend on the schedule

When everything has been done, nobody waits with a wish and nobody wants anything more, so the
dishes of a customer, by increasing number, are its first wishes. These depend on its words alone,
and its words on the seed. The schedule decides how the dishes of different customers are merged,
and which cook gets them.
-/

namespace OrderRail.Shift

open scoped List

open Queue (Terms Transition Call calls deliveries receipts receiptsOf takenBy)

/-- The dishes that some steps of a queue have handed out, in the order of the takes. -/
def dishes (history : List (Transition Thread Dish)) : List Dish :=
  (deliveries history).map (·.payload)

/-- The dishes of one customer that some steps of a queue have handed out. -/
def dishesOf (customer : UInt64) (history : List (Transition Thread Dish)) : List Dish :=
  (dishes history).filter (·.customer = customer)

/-- The payloads for which a customer got receipts are those of its calls, if all calls were
regular. -/
theorem payloads_of_regular {customers : Nat} {ended : List (Call Thread Dish)}
    (h : ∀ call ∈ ended, Regular customers call) (id : Nat) :
    ((ended.filterMap Call.receipt?).filter (·.thread = .worker .customer id)).map
        (·.order.payload) =
      (ended.filter (·.thread = .worker .customer id)).filterMap (·.request.payload?) := by
  rw [List.filter_filterMap, List.map_filterMap, List.filterMap_filter]
  refine List.filterMap_congr fun call hcall => ?_
  cases h call hcall with
  | @placed caller number dish hired =>
    by_cases hcaller : caller = id
    · simp [hcaller, Call.receipt?, Queue.Request.payload?]
    · simp [hcaller, Call.receipt?, Queue.Request.payload?]
  | @taken cook answer => cases answer <;> rfl
  | closed => rfl

/-- Every regular call of a customer brings a payload. -/
theorem length_payloads_of_regular {customers : Nat} {ended : List (Call Thread Dish)}
    (h : ∀ call ∈ ended, Regular customers call) (id : Nat) :
    ((ended.filter (·.thread = .worker .customer id)).filterMap (·.request.payload?)).length =
      (ended.filter (·.thread = .worker .customer id)).length := by
  refine List.filterMap_length_eq_length.mpr fun call hcall => ?_
  obtain ⟨hended, hthread⟩ := List.mem_filter.mp hcall
  cases h call hended with
  | placed => rfl
  | taken | closed => simp at hthread

section

variable {config : Config} {terms : Terms} {generators : Generators}
  {history : List (Transition Thread Dish)} {shift : State}

/-- When everything has been done, the orders accepted from a customer are its wishes. -/
theorem Settled.receiptsOf_eq (settled : Settled config terms shift)
    (run : Queue.Run terms history shift.queue)
    (wish : Wished config generators history shift.customers) {customer : UInt64}
    (hired : customer < config.customers) :
    (receiptsOf (.worker .customer customer.toNat) history).map (·.order.payload) =
      wishes (.ofCustomer config.seed (generators.skip customer.toNat) customer) customer
        config.ordersPerCustomer.toNat := by
  have hid : customer.toNat < shift.customers.length :=
    settled.allCustomers ▸ UInt64.lt_iff_toNat_lt.mp hired
  have faithful := wish.faithful (List.getElem?_eq_getElem hid)
  rw [UInt64.ofNat_toNat] at faithful
  obtain ⟨count, hoffers, -⟩ := faithful.offered
  rw [UInt64.ofNat_toNat] at hoffers
  have hended := faithful.ended
  rw [settled.served _ (List.getElem_mem hid), Nat.add_zero] at hended
  have hcalls : wishes (.ofCustomer config.seed (generators.skip customer.toNat) customer) customer
      count =
      ((calls history).filter (·.thread = .worker .customer customer.toNat)).filterMap
        (·.request.payload?) := by
    rw [← hoffers, run.offersOf_eq, settled.nobody]
    exact List.append_nil _
  -- Each of its calls was one of its orders and brought one dish, so it has had all of its wishes.
  have hlength := length_payloads_of_regular wish.calls customer.toNat
  obtain rfl : count = config.ordersPerCustomer.toNat := by
    rw [← hended, ← hlength, ← hcalls, length_wishes]
  rw [hcalls]
  exact payloads_of_regular wish.calls customer.toNat

/-- When everything has been done, every receipt is that of a customer, for a dish of its own. -/
theorem Settled.customer_of_receipt (settled : Settled config terms shift)
    (run : Queue.Run terms history shift.queue)
    (wish : Wished config generators history shift.customers)
    {receipt : Queue.Receipt Thread Dish} (h : receipt ∈ receipts history) :
    receipt.order.payload.customer < config.customers ∧
      receipt.thread = .worker .customer receipt.order.payload.customer.toNat := by
  obtain ⟨call, hcall, hreceipt⟩ := List.mem_filterMap.mp h
  cases wish.calls call hcall with
  | @placed id number dish hired =>
    cases hreceipt
    rw [settled.allCustomers] at hired
    obtain ⟨customer, rfl⟩ : ∃ customer : UInt64, customer.toNat = id :=
      ⟨.ofNat id, UInt64.toNat_ofNat_of_lt' (hired.trans config.customers.toNat_lt)⟩
    have hired := UInt64.lt_iff_toNat_lt.mpr hired
    have hmine : Queue.Receipt.mk (.worker .customer customer.toNat) ⟨number, dish⟩ ∈
        receiptsOf (.worker .customer customer.toNat) history :=
      List.mem_filter.mpr ⟨h, decide_eq_true rfl⟩
    have hwish := List.mem_map_of_mem (f := (·.order.payload)) hmine
    rw [settled.receiptsOf_eq run wish hired] at hwish
    obtain rfl : dish.customer = customer := customer_of_wishes hwish
    exact ⟨hired, rfl⟩
  | @taken id answer => cases answer <;> cases hreceipt
  | closed => cases hreceipt

/-- When everything has been done, all accepted orders have been handed out. -/
theorem Settled.dishes_eq (settled : Settled config terms shift)
    (run : Queue.Run terms history shift.queue) :
    dishes history = (receipts history).map (·.order.payload) := by
  have hsubmitted := (run.tallied settled.isOpen).submitted_eq
  rw [settled.empty, Nat.add_zero] at hsubmitted
  have hnumbers := congrArg List.length run.numbers_eq
  rw [List.length_map, List.length_range', hsubmitted] at hnumbers
  rw [dishes, run.deliveries_eq, ← hnumbers, List.take_length, List.map_map]
  rfl

/-- When everything has been done, the dishes of a customer that were handed out are its wishes. -/
theorem Settled.dishesOf_eq (settled : Settled config terms shift)
    (run : Queue.Run terms history shift.queue)
    (wish : Wished config generators history shift.customers) (customer : UInt64) :
    dishesOf customer history =
      if customer < config.customers then
        wishes (.ofCustomer config.seed (generators.skip customer.toNat) customer) customer
          config.ordersPerCustomer.toNat
      else [] := by
  rw [dishesOf, settled.dishes_eq run, List.filter_map]
  split
  · next hired =>
    rw [← settled.receiptsOf_eq run wish hired]
    refine congrArg _ (List.filter_congr fun receipt hreceipt => decide_eq_decide.mpr ?_)
    rw [(settled.customer_of_receipt run wish hreceipt).2]
    constructor
    · intro hcustomer
      rw [hcustomer]
    · intro hthread
      exact UInt64.toNat_inj.mp (Thread.worker.inj hthread).2
  · next stranger =>
    rw [List.map_eq_nil_iff, List.filter_eq_nil_iff]
    intro receipt hreceipt hcustomer
    rw [← of_decide_eq_true hcustomer] at stranger
    exact stranger (settled.customer_of_receipt run wish hreceipt).1

end

/-- What has been cooked in a shift: every order once, each by a cook, and for every customer its
first wishes, in the order of their numbers, from words that the customer alone determines. -/
structure Cooked (words : UInt64 → Words) (customers orders : UInt64)
    (history : List (Transition Thread Dish)) : Prop where
  numbers : (deliveries history).map (·.number) = List.range' 1 (customers.toNat * orders.toNat)
  cooks : ∀ call ∈ calls history, ∀ order, call.delivery? = some order →
    ∃ id, call.thread = .worker .cook id
  dishes : ∀ customer, dishesOf customer history =
    if customer < customers then wishes (words customer) customer orders.toNat else []

/-- In a completed shift every customer has got its first wishes. -/
theorem Completed.cooked {config : Config} {validate : Bool} {generators : Generators}
    {terms : Terms} {moves : List Move} {report : Report}
    (h : Completed config validate generators terms moves report) :
    Cooked (fun customer => .ofCustomer config.seed (generators.skip customer.toNat) customer)
      config.customers config.ordersPerCustomer
      ((State.start config validate generators terms).dealings moves) := by
  obtain ⟨-, -, hexpected⟩ := h.terms_eq
  obtain ⟨history, closing, shift, settled, run, ⟨-, wish⟩, hhistory, hclosing, -⟩ :=
    h.keeps (motive := fun history shift =>
      shift.generators = generators ∧ Wished config generators history shift.customers)
      ⟨rfl, .start config generators⟩ Sound.wished
  have hdeliveries : deliveries (history ++ closing) = deliveries history := by
    rw [Queue.deliveries_extend, hclosing]
    exact List.append_nil _
  rw [hhistory]
  constructor
  · rw [hdeliveries, run.delivered_numbers, settled.handled, hexpected]
  · intro call hcall order hdelivery
    rw [Queue.calls_extend, hclosing] at hcall
    rcases List.mem_append.mp hcall with hbefore | hlast
    · cases wish.calls call hbefore with
      | @taken id answer => exact ⟨id, rfl⟩
      | placed | closed => cases hdelivery
    · rw [List.mem_singleton.mp hlast] at hdelivery
      cases hdelivery
  · intro customer
    rw [dishesOf, dishes, hdeliveries]
    exact settled.dishesOf_eq run wish customer

/-- Lists of dishes with the same dishes for every customer are the same up to their order. -/
theorem perm_of_customers {first second : List Dish}
    (h : ∀ customer : UInt64,
      first.filter (·.customer = customer) = second.filter (·.customer = customer)) :
    first ~ second := by
  refine List.perm_iff_count.mpr fun dish => ?_
  have hcount (all : List Dish) :
      (all.filter (·.customer = dish.customer)).count dish = all.count dish :=
    List.count_filter (by simp)
  rw [← hcount first, ← hcount second, h dish.customer]

/-- What is cooked does not depend on the schedule.

Take two completed shifts with the same seed, the same number of customers and the same number of
orders of each, with any capacities, cooks, cooking times and audits, any interleavings of their
threads, and whatever generators their customers could have started without the seed. In both, all
orders are taken by cooks, by increasing number, and the dishes of every customer are its first
picks from the words that its seed gives. So every customer gets the same dishes in the same order
in both, and all dishes together are the same but for their order. -/
theorem dishes_independent_of_schedule {words : UInt64 → Words} {fresh fresh' : Nat → Words}
    {seed : UInt64} {config other : Config} {validate validate' : Bool} {terms terms' : Terms}
    {moves moves' : List Move} {report report' : Report}
    (h : Completed config validate ⟨words, fresh⟩ terms moves report)
    (h' : Completed other validate' ⟨words, fresh'⟩ terms' moves' report')
    (seeded : config.seed = some seed) (sameSeed : other.seed = some seed)
    (sameCustomers : other.customers = config.customers)
    (sameOrders : other.ordersPerCustomer = config.ordersPerCustomer) :
    let history := (State.start config validate ⟨words, fresh⟩ terms).dealings moves
    let history' := (State.start other validate' ⟨words, fresh'⟩ terms').dealings moves'
    Cooked (fun customer => words (seed + customer)) config.customers config.ordersPerCustomer
      history ∧
    Cooked (fun customer => words (seed + customer)) config.customers config.ordersPerCustomer
      history' ∧
    (∀ customer, dishesOf customer history = dishesOf customer history') ∧
    dishes history ~ dishes history' := by
  intro history history'
  have cooked := h.cooked
  have cooked' := h'.cooked
  rw [seeded] at cooked
  rw [sameSeed, sameCustomers, sameOrders] at cooked'
  have same (customer : UInt64) : dishesOf customer history = dishesOf customer history' :=
    (cooked.dishes customer).trans (cooked'.dishes customer).symm
  exact ⟨cooked, cooked', same, perm_of_customers same⟩

/-- Two customers with one order each, one cook, and room for both orders. -/
def calm : Config := { narrow with capacity := 2, cooks := 1, ordersPerCustomer := 1 }

/-- The same customers with two cooks, who take their time, and room for one order. -/
def hasty : Config := { calm with capacity := 1, cooks := 2, workMillis := 5 }

/-- The customers of the calm shift come one after the other, and the cook takes both orders. -/
def calmMoves : List Move :=
  List.replicate 5 (.lead .nothing) ++
    [.call .customer 0 .calm, .call .customer 1 .calm, .call .cook 0 .calm, .note 0,
      .call .cook 0 .calm, .note 0, .call .cook 0 .calm] ++ List.replicate 6 (.lead .nothing)

/-- In the hasty shift the second customer is first, the other one has to wait for room, and each
cook takes an order. -/
def hastyMoves : List Move :=
  List.replicate 6 (.lead .nothing) ++
    [.call .customer 1 .calm, .call .customer 0 .calm, .call .cook 0 .calm,
      .resume .customer 0 .calm, .call .cook 1 .calm, .note 0, .note 1, .call .cook 0 .calm,
      .call .cook 1 .calm] ++ List.replicate 7 (.lead .nothing)

/-- The first wish is a shake with the seed of the first customer, and a cake with the next one. -/
theorem wishes_of_seeds :
    wishes (.ofKey (Seed.key 7)) 0 1 = [⟨.shake, 0⟩] ∧
      wishes (.ofKey (Seed.key 8)) 1 1 = [⟨.cake, 1⟩] := by
  simp only [Words.ofKey, funext (KeyStream.word_eq _)]
  decide +kernel

/-- The calm and the hasty shift merge the dishes of their customers in different ways and give
different numbers of them to the first cook, but the dishes are the same: a shake for the first
customer, and a cake for the second. -/
theorem dishes_of_calm_and_hasty :
    ∃ terms terms' report report',
      Completed calm false (.ofKey (.replicate 8 0)) terms calmMoves report ∧
      Completed hasty true (.ofKey (.replicate 8 1)) terms' hastyMoves report' ∧
      let history := (State.start calm false (.ofKey (.replicate 8 0)) terms).dealings calmMoves
      let history' := (State.start hasty true (.ofKey (.replicate 8 1)) terms').dealings hastyMoves
      (dishes history).map (·.customer) = [0, 1] ∧
      (dishes history').map (·.customer) = [1, 0] ∧
      (takenBy (.worker .cook 0) history).length = 2 ∧
      (takenBy (.worker .cook 0) history').length = 1 ∧
      dishesOf 0 history = [⟨.shake, 0⟩] ∧ dishesOf 1 history = [⟨.cake, 1⟩] ∧
      (∀ customer, dishesOf customer history = dishesOf customer history') ∧
      dishes history ~ dishes history' := by
  obtain ⟨terms, report, completed, hmerge, htaken⟩ :
      ∃ terms report, Completed calm false (.ofKey (.replicate 8 0)) terms calmMoves report ∧
        (dishes ((State.start calm false (.ofKey (.replicate 8 0)) terms).dealings calmMoves)).map
          (·.customer) = [0, 1] ∧
        (takenBy (.worker .cook 0)
          ((State.start calm false (.ofKey (.replicate 8 0)) terms).dealings calmMoves)).length =
            2 :=
    ⟨_, _, completed_of_replay ⟨false, false⟩ rfl rfl, rfl, rfl⟩
  obtain ⟨terms', report', completed', hmerge', htaken'⟩ :
      ∃ terms report, Completed hasty true (.ofKey (.replicate 8 1)) terms hastyMoves report ∧
        (dishes ((State.start hasty true (.ofKey (.replicate 8 1)) terms).dealings hastyMoves)).map
          (·.customer) = [1, 0] ∧
        (takenBy (.worker .cook 0)
          ((State.start hasty true (.ofKey (.replicate 8 1)) terms).dealings hastyMoves)).length =
            1 :=
    ⟨_, _, completed_of_replay ⟨false, false⟩ rfl rfl, rfl, rfl⟩
  obtain ⟨cooked, -, same, all⟩ :=
    dishes_independent_of_schedule completed completed' rfl rfl rfl rfl
  obtain ⟨shake, cake⟩ := wishes_of_seeds
  have first := (cooked.dishes 0).trans ((if_pos (by decide)).trans shake)
  have second := (cooked.dishes 1).trans ((if_pos (by decide)).trans cake)
  exact ⟨terms, terms', report, report', completed, completed', hmerge, hmerge', htaken, htaken',
    first, second, same, all⟩

end OrderRail.Shift
