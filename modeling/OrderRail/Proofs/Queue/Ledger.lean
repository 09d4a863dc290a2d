import OrderRail.Proofs.Queue.Run

/-!
# What the history of a run tells

The history of a run says which payloads were offered, and by whom; which calls have come to an end,
and how; which orders were handed out; and which were dropped by closing. Nothing here is part of
the state of a queue. Every list is in the order of the steps, so two calls are in the order in
which their last sections ran.

A call that ends brings a receipt if its payload was accepted, hands the payload back if it was
refused, and loses it if it fails.
-/

namespace OrderRail.Queue

variable {T P : Type}

/-- The payload of a submission. -/
def Request.payload? : Request P → Option P
  | .submit payload _ => some payload
  | _ => none

/-- A call that has come to its end. -/
structure Call (T P : Type) where
  thread : T
  request : Request P
  answer : Answer P

/-- What a producer gets for an accepted payload. -/
structure Receipt (T P : Type) where
  thread : T
  order : Order P

namespace Call

/-- The receipt of a call whose payload was accepted. -/
def receipt? (call : Call T P) : Option (Receipt T P) :=
  match call.answer with
  | .accepted number => call.request.payload?.map (⟨call.thread, ⟨number, ·⟩⟩)
  | _ => none

/-- The order that a call took. -/
def delivery? (call : Call T P) : Option (Order P) :=
  match call.answer with
  | .order order => some order
  | _ => none

/-- The payload that a call got back. -/
def refund? (call : Call T P) : Option P :=
  match call.answer with
  | .rejected rejection => some rejection.payload
  | _ => none

/-- The payload that was lost with a call that failed. -/
def loss? (call : Call T P) : Option P :=
  match call.answer with
  | .fault _ => call.request.payload?
  | _ => none

end Call

/-- The orders that closing has dropped in a step. -/
def Transition.dropped (transition : Transition T P) : List (Order P) :=
  match transition.answer with
  | some (.report _) => transition.before.board.pending.toList
  | _ => []

/-- The orders that closing has dropped. -/
def drops (history : List (Transition T P)) : List (Order P) := history.flatMap Transition.dropped

/-- The payload that a move offers, with the thread that offers it. -/
def Move.offer? : Move T P → Option (T × P)
  | .enter thread request .. => request.payload?.map (thread, ·)
  | _ => none

/-- The payloads that were offered, with their threads. -/
def offers (history : List (Transition T P)) : List (T × P) :=
  history.filterMap (·.move.offer?)

/-- The request with which a move enters the queue. -/
def Move.entered? : Move T P → Option (Request P)
  | .enter _ request .. => some request
  | _ => none

/-- The requests with which calls were made. -/
def entries (history : List (Transition T P)) : List (Request P) :=
  history.filterMap (·.move.entered?)

/-- One more step adds the orders that it drops. -/
theorem drops_append (history : List (Transition T P)) (transition : Transition T P) :
    drops (history ++ [transition]) = drops history ++ transition.dropped := by
  simp [drops]

/-- One more step adds the payload that it offers. -/
theorem offers_append (history : List (Transition T P)) (transition : Transition T P) :
    offers (history ++ [transition]) = offers history ++ transition.move.offer?.toList := by
  cases hoffer : transition.move.offer? <;> simp [offers, hoffer]

/-- One more step adds the request with which it enters. -/
theorem entries_append (history : List (Transition T P)) (transition : Transition T P) :
    entries (history ++ [transition]) = entries history ++ transition.move.entered?.toList := by
  cases hentered : transition.move.entered? <;> simp [entries, hentered]

/-- Calls offer the payloads of their requests. -/
theorem offers_map (history : List (Transition T P)) :
    (offers history).map (·.2) = (entries history).filterMap Request.payload? := by
  rw [offers, entries, List.map_filterMap, List.filterMap_filterMap]
  refine List.filterMap_congr fun transition _ => ?_
  cases transition.move with
  | enter thread request => simp [Move.offer?, Move.entered?, Function.comp_def]
  | rouse | resume => rfl

/-- Further steps add the payloads that they offer. -/
theorem offers_extend (history more : List (Transition T P)) :
    offers (history ++ more) = offers history ++ offers more := List.filterMap_append

variable [DecidableEq T]

/-- The request for which a move asks for the lock. -/
def Monitor.request? (queue : Monitor T P) : Move T P → Option (Request P)
  | .enter _ request .. => some request
  | .resume thread .. => (queue.waiting? thread).map (·.request)
  | .rouse _ => none

/-- The call that ended with a step. -/
def Transition.call? (transition : Transition T P) : Option (Call T P) :=
  match transition.before.request? transition.move, transition.answer with
  | some request, some answer => some ⟨transition.move.thread, request, answer⟩
  | _, _ => none

/-- The calls that have come to their ends. -/
def calls (history : List (Transition T P)) : List (Call T P) := history.filterMap Transition.call?

/-- The receipts that were given, in the order in which the payloads were accepted. -/
def receipts (history : List (Transition T P)) : List (Receipt T P) :=
  (calls history).filterMap Call.receipt?

/-- The orders that were handed out, in the order in which they were taken. -/
def deliveries (history : List (Transition T P)) : List (Order P) :=
  (calls history).filterMap Call.delivery?

/-- The payloads that were handed back. -/
def refunds (history : List (Transition T P)) : List P := (calls history).filterMap Call.refund?

/-- The payloads that were lost with their calls. -/
def losses (history : List (Transition T P)) : List P := (calls history).filterMap Call.loss?

/-- The receipts of a thread. -/
def receiptsOf (thread : T) (history : List (Transition T P)) : List (Receipt T P) :=
  (receipts history).filter (·.thread = thread)

/-- The payloads that a thread has offered, in the order of its calls. -/
def offersOf (thread : T) (history : List (Transition T P)) : List P :=
  ((offers history).filter (·.1 = thread)).map (·.2)

/-- The orders that a thread has taken, in the order of its calls. -/
def takenBy (thread : T) (history : List (Transition T P)) : List (Order P) :=
  ((calls history).filter (·.thread = thread)).filterMap Call.delivery?

/-- The receipt that a step gives. -/
def Transition.given (transition : Transition T P) : List (Receipt T P) :=
  (transition.call?.bind Call.receipt?).toList

/-- The order that a step hands out. -/
def Transition.handed (transition : Transition T P) : List (Order P) :=
  (transition.call?.bind Call.delivery?).toList

/-- The call that ends with a step gets the answer of the step. -/
theorem Transition.answer_eq {transition : Transition T P} {call : Call T P}
    (h : transition.call? = some call) : transition.answer = some call.answer := by
  unfold Transition.call? at h
  split at h
  · rename_i hanswer
    cases h
    exact hanswer
  · cases h

/-- One more step adds the call that ends with it. -/
theorem calls_append (history : List (Transition T P)) (transition : Transition T P) :
    calls (history ++ [transition]) = calls history ++ transition.call?.toList := by
  cases hcall : transition.call? <;> simp [calls, hcall]

/-- One more step adds the receipt that it gives. -/
theorem receipts_append (history : List (Transition T P)) (transition : Transition T P) :
    receipts (history ++ [transition]) = receipts history ++ transition.given := by
  rw [receipts, calls_append, List.filterMap_append]
  cases hcall : transition.call? with
  | none => simp [receipts, Transition.given, hcall]
  | some call =>
    cases hreceipt : call.receipt? <;> simp [receipts, Transition.given, hcall, hreceipt]

/-- One more step adds the order that it hands out. -/
theorem deliveries_append (history : List (Transition T P)) (transition : Transition T P) :
    deliveries (history ++ [transition]) = deliveries history ++ transition.handed := by
  rw [deliveries, calls_append, List.filterMap_append]
  cases hcall : transition.call? with
  | none => simp [deliveries, Transition.handed, hcall]
  | some call =>
    cases hdelivery : call.delivery? <;> simp [deliveries, Transition.handed, hcall, hdelivery]

/-- Further steps add the calls that end with them. -/
theorem calls_extend (history more : List (Transition T P)) :
    calls (history ++ more) = calls history ++ calls more := List.filterMap_append

/-- A thread has offered nothing if all offers are those of others. -/
theorem offersOf_of_absent {thread : T} {history : List (Transition T P)}
    (absent : ∀ offer ∈ offers history, offer.1 ≠ thread) : offersOf thread history = [] := by
  simpa only [offersOf, List.map_eq_nil_iff, List.filter_eq_nil_iff, decide_eq_true_eq] using absent

/-- Further steps add the payloads that a thread offers in them. -/
theorem offersOf_extend (thread : T) (history more : List (Transition T P)) :
    offersOf thread (history ++ more) = offersOf thread history ++ offersOf thread more := by
  simp only [offersOf, offers_extend, List.filter_append, List.map_append]

/-- Further steps add the orders that their calls take. -/
theorem deliveries_extend (history more : List (Transition T P)) :
    deliveries (history ++ more) = deliveries history ++ (calls more).filterMap Call.delivery? := by
  simp only [deliveries, calls, List.filterMap_append]

/-- Further steps add the orders that a thread takes in them. -/
theorem takenBy_extend (thread : T) (history more : List (Transition T P)) :
    takenBy thread (history ++ more) = takenBy thread history ++
      ((calls more).filter (·.thread = thread)).filterMap Call.delivery? := by
  simp only [takenBy, calls, List.filterMap_append, List.filter_append]

/-- The call that is granted the lock is the one for which the move asks. -/
theorem Monitor.Grants.request?_eq {queue base : Monitor T P} {move : Move T P}
    {attempt : Attempt T P} (h : queue.Grants move attempt base) :
    queue.request? move = some attempt.request := by
  cases h with
  | enter outside => rfl
  | resume inside awake => simp [request?, inside]

/-- The call that ends with a step is the one that had the lock. -/
theorem Monitor.Grants.call?_eq {queue base next : Monitor T P} {move : Move T P}
    {attempt : Attempt T P} {answer : Option (Answer P)} (h : queue.Grants move attempt base) :
    Transition.call? ⟨queue, move, answer, next⟩ =
      answer.map (⟨attempt.thread, attempt.request, ·⟩) := by
  cases h with
  | enter outside => cases answer <;> rfl
  | resume inside awake => cases answer <;> simp [Transition.call?, request?, inside, Move.thread]

/-- An answer of a step is that of a call that has ended. -/
theorem Run.call_of_answer {terms : Terms} {history : List (Transition T P)} {queue : Monitor T P}
    (run : Run terms history queue) {transition : Transition T P} (hmem : transition ∈ history)
    {answer : Answer P} (hanswer : transition.answer = some answer) :
    ∃ call ∈ calls history, call.answer = answer := by
  rcases Monitor.step_cases (run.step_mem hmem) with
    ⟨thread, waiter, -, -, -, -, hnone⟩ | ⟨attempt, base, grants, yields⟩
  · cases hanswer.symm.trans hnone
  · have hcall : transition.call? = some ⟨attempt.thread, attempt.request, answer⟩ := by
      calc transition.call?
          = transition.answer.map (⟨attempt.thread, attempt.request, ·⟩) := grants.call?_eq
        _ = some ⟨attempt.thread, attempt.request, answer⟩ := by rw [hanswer]; rfl
    exact ⟨_, List.mem_filterMap.mpr ⟨transition, hmem, hcall⟩, rfl⟩

/-- As long as the lock is not broken, no call has ended with a fault. -/
theorem Run.no_fault {terms : Terms} {history : List (Transition T P)} {queue : Monitor T P}
    (run : Run terms history queue) (unbroken : queue.broken = false) :
    ∀ call ∈ calls history, ∀ fault, call.answer ≠ .fault fault := by
  induction run with
  | opened => simp [calls]
  | @step history queue next move answer run made ih =>
    obtain ⟨hbefore, hanswer⟩ := Monitor.step_unbroken made unbroken
    intro call hcall fault hfault
    rw [calls_append] at hcall
    rcases List.mem_append.mp hcall with hold | hnew
    · exact ih hbefore call hold fault hfault
    · rw [Option.mem_toList] at hnew
      apply hanswer fault
      rw [← hfault]
      exact Transition.answer_eq hnew

end OrderRail.Queue
