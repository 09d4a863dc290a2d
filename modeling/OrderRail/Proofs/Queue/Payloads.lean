import Mathlib.Data.List.Perm.Basic
import OrderRail.Proofs.Queue.Ledger

/-!
# What becomes of offered payloads

An offered payload is held by its call as long as the call waits. When the call ends, the payload
has entered the queue, or it is handed back, or it is lost with a fault; no call does two of these,
and none does one of them with a payload that is not its own. So the offered payloads are those with
a receipt, those handed back, those lost and those held, however the calls were interleaved.

For one thread this holds of lists and not only of multisets: its calls come one after another.
-/

namespace OrderRail.Queue

variable {T P : Type}

/-- The payloads that waiting calls hold. -/
def held (waiters : List (Waiter T P)) : List P := waiters.filterMap (·.request.payload?)

/-- Who sleeps does not matter for what is held. -/
theorem held_congr {waiters others : List (Waiter T P)}
    (same : others.map Waiter.lying = waiters.map Waiter.lying) : held others = held waiters := by
  have hmap := congrArg (List.filterMap (·.request.payload?)) same
  simp only [List.filterMap_map] at hmap
  exact hmap

/-- What a call that has ended did with its payload: it brought a receipt, was handed back, or was
lost. A call without a payload is not accepted. -/
structure Call.Settled (call : Call T P) : Prop where
  payload : call.request.payload?.toList =
    call.receipt?.toList.map (·.order.payload) ++ call.refund?.toList ++ call.loss?.toList
  accepted : ∀ number, call.answer = .accepted number →
    ∃ payload, call.request.payload? = some payload

/-- A call that ends with a fault loses its payload. -/
theorem Call.settled_fault (thread : T) (request : Request P) (fault : Fault) :
    Call.Settled ⟨thread, request, .fault fault⟩ :=
  ⟨rfl, fun _ => nofun⟩

/-- A call that is answered has its payload accepted or gets it back. -/
theorem Decision.settled {terms : Terms} {late : Bool} {shortage : Option StorageError}
    {board next : Board P}
    {request : Request P} {answer : Answer P} {signals : List Signal} (thread : T)
    (h : Decision terms late shortage board request (.finish answer next signals)) :
    Call.Settled ⟨thread, request, answer⟩ := by
  cases h with
  | @accept payload patience isOpen wanted room granted fits =>
    exact ⟨rfl, fun _ _ => ⟨payload, rfl⟩⟩
  | @handOut request order rest isOpen takes pops fits =>
    cases request with
    | take | tryTake => exact ⟨rfl, fun number => nofun⟩
    | _ => cases takes
  | @endWork request isOpen takes empty done =>
    cases request with
    | take | tryTake => exact ⟨rfl, fun number => nofun⟩
    | _ => cases takes
  | @read request reads =>
    cases request with
    | length | isEmpty | stats => exact ⟨rfl, fun number => nofun⟩
    | _ => cases reads
  | lack | refuse | leave | giveUp | decline | close => exact ⟨rfl, fun number => nofun⟩

/-- A call that is refused gets its own payload back. -/
theorem Call.Settled.payload_of_rejected {call : Call T P} (h : call.Settled)
    {rejection : Rejected P} (hanswer : call.answer = .rejected rejection) :
    call.request.payload? = some rejection.payload := by
  obtain ⟨thread, request, answer⟩ := call
  change answer = .rejected rejection at hanswer
  subst hanswer
  have hback : request.payload?.toList = [rejection.payload] := h.payload
  cases hpayload : request.payload? with
  | none => simp [hpayload] at hback
  | some payload => simpa [hpayload] using hback

/-- A call that is accepted has a receipt. -/
theorem Call.Settled.receipt_of_accepted {call : Call T P} (h : call.Settled) {number : Nat}
    (hanswer : call.answer = .accepted number) :
    ∃ payload, call.request.payload? = some payload ∧
      call.receipt? = some ⟨call.thread, ⟨number, payload⟩⟩ := by
  obtain ⟨payload, hpayload⟩ := h.accepted number hanswer
  exact ⟨payload, hpayload, by simp [Call.receipt?, hanswer, hpayload]⟩

/-- Calls that are settled have split their payloads into three parts. -/
theorem payloads_perm (ended : List (Call T P)) (h : ∀ call ∈ ended, call.Settled) :
    (ended.filterMap (·.request.payload?)).Perm
      ((ended.filterMap Call.receipt?).map (·.order.payload) ++ ended.filterMap Call.refund? ++
        ended.filterMap Call.loss?) := by
  have hsplit : ended.flatMap (·.request.payload?.toList) = ended.flatMap fun call =>
      call.receipt?.toList.map (·.order.payload) ++ call.refund?.toList ++ call.loss?.toList :=
    List.flatMap_congr fun call hcall => (h call hcall).payload
  simp only [List.filterMap_eq_flatMap_toList, List.map_flatMap]
  rw [hsplit]
  exact (List.flatMap_append_perm ended _ _).symm.trans
    ((List.flatMap_append_perm ended _ _).symm.append_right _)

/-- A receipt goes to the thread of its call, for the payload of its call. -/
theorem Call.receipt?_eq_some {call : Call T P} {receipt : Receipt T P}
    (h : call.receipt? = some receipt) :
    receipt.thread = call.thread ∧ call.request.payload? = some receipt.order.payload := by
  obtain ⟨thread, request, answer⟩ := call
  cases answer with
  | accepted number =>
    obtain ⟨payload, hpayload, rfl⟩ := Option.map_eq_some_iff.mp h
    exact ⟨rfl, hpayload⟩
  | _ => cases h

/-- Among the calls of a thread, the accepted payloads are in the order of the calls. -/
theorem receipts_sublist [DecidableEq T] (thread : T) (ended : List (Call T P))
    (h : ∀ call ∈ ended, call.Settled) :
    (((ended.filterMap Call.receipt?).filter (·.thread = thread)).map (·.order.payload)).Sublist
      ((ended.filter (·.thread = thread)).filterMap (·.request.payload?)) := by
  induction ended with
  | nil => exact List.Sublist.slnil
  | cons call rest ih =>
    have hrest := ih fun other hother => h other (List.mem_cons_of_mem _ hother)
    have hcall : call.Settled := h call List.mem_cons_self
    cases hreceipt : call.receipt? with
    | none =>
      rw [List.filterMap_cons_none hreceipt]
      refine hrest.trans ?_
      exact ((List.sublist_cons_self _ _).filter _).filterMap _
    | some receipt =>
      obtain ⟨hthread, hpayload⟩ := call.receipt?_eq_some hreceipt
      rw [List.filterMap_cons_some hreceipt]
      by_cases hmine : call.thread = thread
      · simpa [hthread, hmine, hpayload] using hrest
      · simpa [hthread, hmine] using hrest

/-- A call that has had the lock has ended, or it waits from then on. -/
theorem Monitor.Yields.requests_perm {base next : Monitor T P} {attempt : Attempt T P}
    {answer : Option (Answer P)} (h : base.Yields attempt next answer) :
    (attempt.request :: base.waiters.map (·.request)).Perm
      ((answer.map (Call.mk attempt.thread attempt.request)).toList.map (·.request) ++
        next.waiters.map (·.request)) := by
  cases h with
  | broken | fail => exact .refl _
  | finish unbroken decision =>
    rw [map_request_of_map_lying (map_lying_foldl_deliver _ _ _)]
    exact .refl _
  | wait unbroken decision =>
    rw [List.map_append]
    exact (List.perm_append_singleton _ _).symm

variable [DecidableEq T]

/-- The payloads that the waiting call of a thread holds. -/
def heldBy (thread : T) (waiters : List (Waiter T P)) : List P :=
  held (waiters.filter (·.thread = thread))

/-- Who sleeps does not matter for what the call of a thread holds. -/
theorem heldBy_congr (thread : T) {waiters others : List (Waiter T P)}
    (same : others.map Waiter.lying = waiters.map Waiter.lying) :
    heldBy thread others = heldBy thread waiters := by
  have hfilter := congrArg (List.filter (·.thread = thread)) same
  simp only [List.filter_map] at hfilter
  exact held_congr hfilter

/-- What the call of a thread holds is found wherever that call is. -/
theorem heldBy_append (thread : T) (waiters others : List (Waiter T P)) :
    heldBy thread (waiters ++ others) = heldBy thread waiters ++ heldBy thread others := by
  rw [heldBy, List.filter_append, held, List.filterMap_append]
  rfl

/-- A single waiting call holds its payload for its own thread. -/
theorem heldBy_cons (thread : T) (waiter : Waiter T P) (others : List (Waiter T P)) :
    heldBy thread (waiter :: others) =
      (if waiter.thread = thread then waiter.request.payload?.toList else []) ++
        heldBy thread others := by
  by_cases hthread : waiter.thread = thread
  · cases hpayload : waiter.request.payload? <;> simp [heldBy, held, hthread, hpayload]
  · simp [heldBy, hthread]

/-- A thread without a waiting call holds nothing. -/
theorem heldBy_of_absent {thread : T} {waiters : List (Waiter T P)}
    (absent : ∀ waiter ∈ waiters, waiter.thread ≠ thread) : heldBy thread waiters = [] := by
  induction waiters with
  | nil => rfl
  | cons waiter rest ih =>
    rw [heldBy_cons, if_neg (absent waiter List.mem_cons_self),
      ih fun other hother => absent other (List.mem_cons_of_mem _ hother), List.append_nil]

/-- A call that is granted the lock enters now or has been waiting. -/
theorem Monitor.Grants.requests_perm {queue base : Monitor T P} {move : Move T P}
    {attempt : Attempt T P} (h : queue.Grants move attempt base)
    (orderly : Orderly queue.waiters) :
    (queue.waiters.map (·.request) ++ move.entered?.toList).Perm
      (attempt.request :: base.waiters.map (·.request)) := by
  cases h with
  | enter outside => exact List.perm_append_singleton _ _
  | resume inside awake =>
    change (queue.waiters.map Waiter.request ++ []).Perm _
    rw [List.append_nil]
    exact (perm_without orderly inside).map Waiter.request

/-- What the call of a thread brings with it is offered now or was held before. -/
theorem Monitor.Grants.offer_append_heldBy {queue base : Monitor T P} {move : Move T P}
    {attempt : Attempt T P} (h : queue.Grants move attempt base)
    (orderly : Orderly queue.waiters) (thread : T) :
    heldBy thread queue.waiters ++ (move.offer?.toList.filter (·.1 = thread)).map (·.2) =
      (if attempt.thread = thread then attempt.request.payload?.toList else []) ++
        heldBy thread base.waiters := by
  cases h with
  | @enter caller request start now chance outside =>
    by_cases hthread : caller = thread
    · subst hthread
      have habsent : heldBy caller queue.waiters = [] :=
        heldBy_of_absent (absent_of_outside outside)
      cases hpayload : request.payload? <;> simp [habsent, Move.offer?, hpayload]
    · cases hpayload : request.payload? <;> simp [Move.offer?, hpayload, hthread]
  | @resume caller waiter signalled now chance inside awake =>
    obtain ⟨before, after, hsplit, hrest, hcaller⟩ := without_split orderly inside
    rw [hsplit, hrest, heldBy_append, heldBy_append, heldBy_cons, hcaller]
    by_cases hthread : caller = thread
    · subst hthread
      have habsent := heldBy_of_absent (queue.absent_of_without caller)
      rw [hrest, heldBy_append, List.append_eq_nil_iff] at habsent
      simp [habsent, Move.offer?]
    · simp [hthread, Move.offer?]

/-- A call of a thread that has had the lock ends with its payload, or the thread holds it from then
on. -/
theorem Monitor.Yields.payload_append_heldBy {base next : Monitor T P} {attempt : Attempt T P}
    {answer : Option (Answer P)} (h : base.Yields attempt next answer)
    (absent : ∀ waiter ∈ base.waiters, waiter.thread ≠ attempt.thread) (thread : T) :
    (if attempt.thread = thread then attempt.request.payload?.toList else []) ++
        heldBy thread base.waiters =
      ((answer.map (Call.mk attempt.thread attempt.request)).toList.filter
          (·.thread = thread)).filterMap (·.request.payload?) ++ heldBy thread next.waiters := by
  have answered (value : Answer P) :
      ([Call.mk attempt.thread attempt.request value].filter (·.thread = thread)).filterMap
          (·.request.payload?) =
        if attempt.thread = thread then attempt.request.payload?.toList else [] := by
    by_cases hthread : attempt.thread = thread
    · cases hpayload : attempt.request.payload? <;> simp [hthread, hpayload]
    · simp [hthread]
  cases h with
  | broken isBroken => exact congrArg (· ++ _) (answered _).symm
  | finish unbroken decision =>
    rw [heldBy_congr thread (map_lying_foldl_deliver _ _ _)]
    exact congrArg (· ++ _) (answered _).symm
  | @wait condition unbroken decision =>
    change _ = [] ++ heldBy thread (base.waiters ++ [attempt.waiter condition])
    rw [heldBy_append, heldBy_cons]
    by_cases hthread : attempt.thread = thread
    · subst hthread
      rw [heldBy_of_absent absent]
      simp [Attempt.waiter, heldBy, held]
    · simp [hthread, Attempt.waiter, heldBy, held]
  | fail unbroken decision => exact congrArg (· ++ _) (answered _).symm

section

variable {terms : Terms} {history : List (Transition T P)} {queue : Monitor T P}

/-- Every call of a run that has ended is settled. -/
theorem Run.settled (run : Run terms history queue) : ∀ call ∈ calls history, call.Settled := by
  induction run with
  | opened => simp [calls]
  | @step history queue next move answer run made ih =>
    intro call hcall
    rw [calls_append] at hcall
    rcases List.mem_append.mp hcall with hold | hnew
    · exact ih call hold
    · rcases Monitor.step_cases made with
        ⟨thread, waiter, rfl, -, -, rfl, rfl⟩ | ⟨attempt, base, grants, yields⟩
      · simp [Transition.call?] at hnew
      · rw [grants.call?_eq] at hnew
        cases yields with
        | broken isBroken =>
          rw [List.mem_singleton.mp hnew]
          exact Call.settled_fault _ _ _
        | finish unbroken decision =>
          rw [List.mem_singleton.mp hnew]
          exact decision.settled _
        | wait unbroken decision => simp at hnew
        | fail unbroken decision =>
          rw [List.mem_singleton.mp hnew]
          exact Call.settled_fault _ _ _

/-- The calls that were made are those that have ended and those that wait. -/
theorem Run.entries_perm (run : Run terms history queue) :
    (entries history).Perm
      ((calls history).map (·.request) ++ queue.waiters.map (·.request)) := by
  induction run with
  | opened => exact .nil
  | @step history queue next move answer run made ih =>
    rw [entries_append, calls_append, List.map_append, List.append_assoc]
    refine (ih.append_right _).trans ?_
    rw [List.append_assoc]
    refine List.Perm.append_left _ ?_
    rcases Monitor.step_cases made with
      ⟨thread, waiter, rfl, -, -, rfl, rfl⟩ | ⟨attempt, base, grants, yields⟩
    · rw [map_request_of_map_lying (queue.map_lying_rousing thread)]
      exact .of_eq (List.append_nil _)
    · rw [grants.call?_eq]
      exact (grants.requests_perm run.orderly).trans yields.requests_perm

/-- The offered payloads are those of the calls that have ended and those that are held. -/
theorem Run.offers_perm (run : Run terms history queue) :
    ((offers history).map (·.2)).Perm
      ((calls history).filterMap (·.request.payload?) ++ held queue.waiters) := by
  have hpayloads := run.entries_perm.filterMap Request.payload?
  rwa [← offers_map, List.filterMap_append, List.filterMap_map, List.filterMap_map] at hpayloads

/-- For one thread, the offered payloads are those of its calls that have ended and the one that it
holds, in the order of its calls. -/
theorem Run.offersOf_eq (run : Run terms history queue) (thread : T) :
    offersOf thread history =
      ((calls history).filter (·.thread = thread)).filterMap (·.request.payload?) ++
        heldBy thread queue.waiters := by
  induction run with
  | opened => rfl
  | @step history queue next move answer run made ih =>
    rw [offersOf, offers_append, calls_append, List.filter_append, List.map_append,
      List.filter_append, List.filterMap_append, List.append_assoc]
    change offersOf thread history ++ _ = _
    rw [ih, List.append_assoc]
    congr 1
    rcases Monitor.step_cases made with
      ⟨caller, waiter, rfl, -, -, rfl, rfl⟩ | ⟨attempt, base, grants, yields⟩
    · rw [heldBy_congr thread (queue.map_lying_rousing caller)]
      exact List.append_nil _
    · rw [grants.call?_eq]
      exact (grants.offer_append_heldBy run.orderly thread).trans
        (yields.payload_append_heldBy grants.absent thread)

/-- As long as the lock is not broken, no payload is lost. -/
theorem Run.losses_of_unbroken (run : Run terms history queue) (unbroken : queue.broken = false) :
    losses history = [] := by
  apply List.filterMap_eq_nil_iff.mpr
  intro call hcall
  have hanswer := run.no_fault unbroken call hcall
  cases hfault : call.answer with
  | fault fault => exact absurd hfault (hanswer fault)
  | _ => simp [Call.loss?, hfault]

/-- Offered payloads are accepted, handed back, lost or held, and each of them once. -/
theorem Run.payloads_conserved (run : Run terms history queue) :
    ((offers history).map (·.2)).Perm
      ((receipts history).map (·.order.payload) ++ refunds history ++ losses history ++
        held queue.waiters) :=
  run.offers_perm.trans ((payloads_perm _ run.settled).append_right _)

/-- The accepted payloads of a thread are some of those that it has offered, in their order. -/
theorem Run.accepted_sublist (run : Run terms history queue) (thread : T) :
    ((receiptsOf thread history).map (·.order.payload)).Sublist (offersOf thread history) := by
  rw [run.offersOf_eq thread]
  exact (receipts_sublist thread _ run.settled).trans (List.sublist_append_left _ _)

end

end OrderRail.Queue
