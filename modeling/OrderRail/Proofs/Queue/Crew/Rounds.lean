import Mathlib.Data.List.Nodup
import OrderRail.Proofs.Queue.Crew.Turn
import OrderRail.Proofs.Queue.EndOfWork

/-!
# Crews finish their work

A crew that brings exactly as many orders as are expected finishes, and what it reports does not
depend on the places of the queue, on the number of people or on the way in which they ask: all
numbers have been taken, and each lane has its payloads in the order in which they were submitted.

No wakeup is lost, so as long as the crew is not idle there is a hand that is awake and for which
the board has something. The pauses of others leave it ready, so every round brings something
nearer.
-/

namespace OrderRail.Queue.Crew

variable {P : Type} {terms : Terms} {lanes : List (List P)} {crew : Crew P} {hand : Hand}
  {request : Request (Nat × P)}

namespace Works

variable (works : crew.Works terms lanes)

include works

/-- A hand for whose request the board has something is ready, or it sleeps. -/
theorem ready_or_sleeps (asks : crew.request? hand = some request)
    (served : Served terms crew.queue.board request) :
    crew.Ready terms hand ∨ ∃ waiter ∈ crew.queue.waiters, waiter.sleep = .asleep ∧
      request.condition? = some waiter.condition := by
  obtain ⟨history, run⟩ := works.run
  by_cases isAwake : ∀ waiter ∈ crew.queue.waiters, waiter.thread = hand → waiter.sleep ≠ .asleep
  · exact .inl ⟨⟨request, asks, served⟩, isAwake⟩
  · push Not at isAwake
    obtain ⟨waiter, hmem, rfl, asleep⟩ := isAwake
    have hrequest : request = waiter.request :=
      Option.some.inj (asks.symm.trans (works.asked waiter hmem))
    exact .inr ⟨waiter, hmem, asleep, hrequest ▸ run.orderly.apt waiter hmem⟩

/-- If somebody has been called on a condition, and the board has something for all who wait for it,
a hand is ready. -/
theorem exists_ready_of_called (condition : Condition)
    (some : 0 < called condition crew.queue.waiters)
    (served : ∀ request : Request (Nat × P), request.condition? = .some condition →
      Served terms crew.queue.board request) : ∃ hand ∈ crew.hands, crew.Ready terms hand := by
  obtain ⟨history, run⟩ := works.run
  obtain ⟨waiter, hmem, hcalled⟩ := List.countP_pos_iff.mp some
  obtain ⟨isAwake, rfl⟩ := Waiter.calledOn_iff.mp hcalled
  have asks := works.asked waiter hmem
  refine ⟨waiter.thread, mem_hands asks, ⟨_, asks, served _ (run.orderly.apt waiter hmem)⟩, ?_⟩
  intro other hother hthread
  have hwaiting := Monitor.waiting?_of_mem run.orderly hmem
  rw [← hthread, Monitor.waiting?_of_mem run.orderly hother, Option.some.injEq] at hwaiting
  simp [hwaiting, isAwake]

/-- As long as there is news for consumers, one of them is ready. -/
theorem exists_ready_consumer {id : Nat} {approach : Approach}
    (active : crew.consumers[id]? = some (approach, true))
    (news : 0 < crew.queue.board.pending.size ∨ terms.expected ≤ crew.queue.board.handled) :
    ∃ hand ∈ crew.hands, crew.Ready terms hand := by
  obtain ⟨history, run⟩ := works.run
  have asks : crew.request? (.consumer id) = some approach.request := by simp [request?, active]
  have served : Served terms crew.queue.board approach.request := by
    refine ⟨fun submission => ?_, fun _ => news⟩
    cases approach <;> cases submission
  rcases works.ready_or_sleeps asks served with ready | ⟨waiter, hmem, asleep, waits⟩
  · exact ⟨_, mem_hands asks, ready⟩
  · have hcondition : waiter.condition = .notEmpty := by
      cases approach with
      | take | takeLimited => exact (Option.some.inj waits).symm
      | tryTake => cases waits
    -- A sleeping take has somebody called for every pending order.
    have hsleepers := hcondition ▸ sleepers_pos hmem asleep
    obtain ⟨undone, hcalled⟩ := (run.balanced works.isOpen works.unbroken).takers hsleepers
    rw [spare_none] at hcalled
    refine works.exists_ready_of_called .notEmpty (by omega) fun request waits => ?_
    obtain ⟨-, hsubmission⟩ := Request.kind_of_condition? waits
    exact ⟨fun submission => by simp [hsubmission] at submission, fun _ => news⟩

/-- As long as there are payloads to submit and the queue is empty, a hand is ready. -/
theorem exists_ready_producer {lane : Nat} {payload : P} {rest : List P}
    (holds : crew.lanes[lane]? = some (payload :: rest))
    (empty : crew.queue.board.pending.size = 0) : ∃ hand ∈ crew.hands, crew.Ready terms hand := by
  obtain ⟨history, run⟩ := works.run
  have hcapacity := terms.capacity_pos
  have hexact := works.exact
  have hlength := length_flatten_set holds
  have asks : crew.request? (.producer lane) = some (.submit (lane, payload) crew.patience) := by
    simp [request?, holds]
  have served : Served terms crew.queue.board (.submit (lane, payload) crew.patience) :=
    ⟨fun _ => by omega, fun takes => by cases takes⟩
  rcases works.ready_or_sleeps asks served with ready | ⟨waiter, hmem, asleep, waits⟩
  · exact ⟨_, mem_hands asks, ready⟩
  · have hcondition : waiter.condition = .notFull := (Option.some.inj waits).symm
    -- A sleeping submission that is wanted has somebody called for every free place.
    have hsleepers := hcondition ▸ sleepers_pos hmem asleep
    have hcalled := (run.balanced works.isOpen works.unbroken).submitters hsleepers (by omega)
    rw [spare_none] at hcalled
    refine works.exists_ready_of_called .notFull (by omega) fun request waits => ?_
    cases request with
    | submit => exact ⟨fun _ => by omega, fun takes => by cases takes⟩
    | _ => cases waits

/-- In a crew that is not idle a hand is ready. -/
theorem exists_ready (busy : crew.idle = false) : ∃ hand ∈ crew.hands, crew.Ready terms hand := by
  have tallied := works.tallied
  have hsubmitted := tallied.submitted_eq
  have hwanted := tallied.wanted
  have hexact := works.exact
  by_cases news : 0 < crew.queue.board.pending.size ∨
      terms.expected ≤ crew.queue.board.handled
  · -- Somebody is still there to take what is pending, or to be told that work has ended.
    obtain ⟨⟨approach, active⟩, hmem, hactive⟩ : ∃ entry ∈ crew.consumers, entry.2 = true := by
      by_contra departed
      push Not at departed
      obtain ⟨entry, hentry⟩ := List.exists_mem_of_ne_nil _ works.staffed
      have done := works.departed entry hentry (by simpa using departed entry hentry)
      have finished : crew.lanes.flatten = [] := List.length_eq_zero_iff.mp (by omega)
      rw [List.flatten_eq_nil_iff] at finished
      simp only [idle, Bool.and_eq_false_iff, List.all_eq_false] at busy
      rcases busy with ⟨payloads, hpayloads, hbusy⟩ | ⟨entry, hentry, hbusy⟩
      · simp [finished payloads hpayloads] at hbusy
      · simp [departed entry hentry] at hbusy
    obtain ⟨id, inside, hentry⟩ := List.getElem_of_mem hmem
    obtain rfl : active = true := hactive
    exact works.exists_ready_consumer (List.getElem?_eq_some_iff.mpr ⟨inside, hentry⟩) news
  · -- Nothing is pending, so what is missing is still to be submitted.
    obtain ⟨payloads, hmem, present⟩ : ∃ payloads ∈ crew.lanes, payloads ≠ [] := by
      by_contra finished
      push Not at finished
      have hnil := congrArg List.length (List.flatten_eq_nil_iff.mpr finished)
      rw [List.length_nil] at hnil
      omega
    obtain ⟨payload, rest, rfl⟩ := List.exists_cons_of_ne_nil present
    obtain ⟨lane, inside, hlane⟩ := List.getElem_of_mem hmem
    exact works.exists_ready_producer (List.getElem?_eq_some_iff.mpr ⟨inside, hlane⟩) (by omega)

/-- Turns keep a crew at work, and bring something nearer if one of the hands is ready at first. -/
theorem turns (hands : List Hand) : (hands.foldl Crew.act crew).Works terms lanes ∧
    (hands.foldl Crew.act crew).left terms ≤ crew.left terms ∧
    ((∃ hand ∈ hands, crew.Ready terms hand) →
      (hands.foldl Crew.act crew).left terms < crew.left terms) := by
  induction hands generalizing crew with
  | nil => exact ⟨works, Nat.le_refl _, by simp⟩
  | cons hand rest ih =>
    obtain ⟨hworks, hturn⟩ := works.act hand
    obtain ⟨hlast, hle, hless⟩ := ih hworks
    refine ⟨hlast, ?_⟩
    rw [List.foldl_cons]
    rcases hturn with fewer | pauses
    · exact ⟨by omega, fun _ => by omega⟩
    · have hsame := pauses.left_eq
      refine ⟨by omega, fun ⟨other, hother, ready⟩ => ?_⟩
      -- The hand that pauses was not the one that is ready.
      rcases List.mem_cons.mp hother with rfl | hrest
      · exact absurd ready pauses.stuck
      · have := hless ⟨other, hrest, pauses.ready ready⟩
        omega

/-- Enough rounds make a crew idle. -/
theorem work {rounds : Nat} (enough : crew.left terms ≤ rounds) :
    (crew.work rounds).Works terms lanes ∧ (crew.work rounds).idle = true := by
  induction rounds generalizing crew with
  | zero =>
    refine ⟨works, ?_⟩
    cases hidle : crew.idle with
    | true => exact hidle
    | false =>
      obtain ⟨-, -, hless⟩ := works.turns crew.hands
      have := hless (works.exists_ready hidle)
      omega
  | succ rounds ih =>
    rw [Crew.work]
    cases hidle : crew.idle with
    | true => exact ⟨works, hidle⟩
    | false =>
      obtain ⟨hworks, -, hless⟩ := works.turns crew.hands
      have := hless (works.exists_ready hidle)
      exact ih hworks (by rw [round]; omega)

/-- Everybody has left an idle crew, and so all expected orders have been taken. -/
theorem done (isIdle : crew.idle = true) :
    crew.queue.board.Done terms ∧ ∀ payloads ∈ crew.lanes, payloads = [] := by
  simp only [idle, Bool.and_eq_true, List.all_eq_true, List.isEmpty_iff,
    Bool.not_eq_true'] at isIdle
  obtain ⟨entry, hentry⟩ := List.exists_mem_of_ne_nil _ works.staffed
  exact ⟨works.tallied.done (works.departed entry hentry (isIdle.2 entry hentry)), isIdle.1⟩

/-- The lead is outside the queue. -/
theorem waiting?_lead : crew.queue.waiting? .lead = none := by
  refine Monitor.waiting?_of_not_inside fun inside => ?_
  obtain ⟨waiter, hmem, hthread⟩ := List.mem_map.mp inside
  have asks := works.asked waiter hmem
  rw [hthread] at asks
  cases asks

/-- The orders taken are taken in the order of their numbers. -/
theorem mergeSort_taken (empty : crew.queue.board.pending.toList = []) :
    (crew.taken.mergeSort fun a b => a.number ≤ b.number) = crew.placed := by
  have hplaced : crew.placed = crew.taken.reverse := by rw [placed, empty, List.append_nil]
  have hperm : crew.taken.Perm crew.placed := hplaced ▸ (List.reverse_perm _).symm
  have distinct : (crew.placed.map (·.number)).Nodup := works.numbers ▸ List.nodup_range'
  have increasing : crew.placed.Pairwise fun a b => a.number ≤ b.number := by
    have hnumbers : (List.range' 1 crew.queue.board.submitted).Pairwise (· ≤ ·) :=
      List.pairwise_le_range'
    rw [← works.numbers, List.pairwise_map] at hnumbers
    exact hnumbers
  have sorted : (crew.taken.mergeSort fun a b => a.number ≤ b.number).Pairwise
      fun a b => decide (a.number ≤ b.number) = true :=
    List.pairwise_mergeSort (fun a b c hab hbc => by simp at *; omega) (fun a b => by simp; omega) _
  have hall := (List.mergeSort_perm crew.taken fun a b => a.number ≤ b.number).trans hperm
  refine hall.eq_of_pairwise (fun a b ha hb hab hba => ?_) (by simpa using sorted) increasing
  exact List.inj_on_of_nodup_map distinct (hall.mem_iff.mp ha) hb (by omega)

/-- What an idle crew reports. -/
theorem report_eq (isIdle : crew.idle = true) : crew.report =
    { numbers := List.range' 1 terms.expected, lanes, refused := 0, peakWithinCapacity := true
      close := some (.report ⟨terms.expected, terms.expected, terms.expected, 0⟩) } := by
  obtain ⟨history, run⟩ := works.run
  obtain ⟨done, finished⟩ := works.done isIdle
  have hterms := run.terms_eq
  have hpeak := run.peak_le
  have hsize : crew.queue.board.pending.size = 0 := by
    rw [← Fifo.length_toList, done.empty, List.length_nil]
  have hlanes : (List.range crew.lanes.length).map
      (fun lane => crew.placed.filterMap (ofLane? lane)) = lanes := by
    refine List.ext_getElem (by simp [works.width]) fun lane inside hlane => ?_
    have hgoods := works.goods lane
    have inside' : lane < crew.lanes.length := works.width ▸ hlane
    rw [List.getElem?_eq_getElem inside', List.getElem?_eq_getElem hlane,
      finished _ (List.getElem_mem inside')] at hgoods
    simpa using hgoods
  have hclose : crew.queue.enter .lead .close 0 0 .calm = _ :=
    close_reports 0 0 .calm works.waiting?_lead works.unbroken works.isOpen
  simp only [report, works.mergeSort_taken done.empty, works.numbers, hlanes, works.welcome, hclose,
    done.submitted, Option.bind_some, Board.accounts, done.handled, hsize, hterms]
  congr 1
  exact decide_eq_true (le_trans hpeak (Nat.min_le_left _ _))

end Works

/-- A crew that brings as many orders as are expected has not yet placed any of them. -/
theorem fresh_works {patience : Patience} {approaches : List Approach}
    (exact : lanes.flatten.length = terms.expected) (fits : terms.expected + 1 < Count.wordSize)
    (staffed : approaches ≠ []) (patient : reached 0 (patience.deadline 0) = false) :
    (fresh terms patience lanes approaches).Works terms lanes where
  run := ⟨[], .opened⟩
  isOpen := rfl
  unbroken := rfl
  fits := fits
  patient := patient
  asked := nofun
  exact := (Nat.zero_add _).trans exact
  staffed := by simpa [fresh] using staffed
  departed := by simp [fresh]
  welcome := rfl
  numbers := rfl
  goods _ := rfl
  width := rfl

/-- A crew that brings exactly as many orders as are expected finishes within its rounds, if
somebody takes and the producers have any patience.

All numbers have been taken, every lane has its payloads in the order in which its producer
submitted them, nothing was refused, and the accounts balance. The number of places, of producers
and of consumers and the way in which these ask make no difference. -/
theorem run_reports (terms : Terms) {patience : Patience} {lanes : List (List P)}
    {approaches : List Approach} (exact : lanes.flatten.length = terms.expected)
    (fits : terms.expected + 1 < Count.wordSize) (staffed : approaches ≠ [])
    (patient : reached 0 (patience.deadline 0) = false) :
    run terms patience lanes approaches =
      { numbers := List.range' 1 terms.expected, lanes, refused := 0, peakWithinCapacity := true
        close := some (.report ⟨terms.expected, terms.expected, terms.expected, 0⟩) } := by
  have enough : (fresh terms patience lanes approaches).left terms ≤
      4 * (lanes.flatten.length + lanes.length + approaches.length + 1) := by
    have hactive := List.countP_le_length (p := (·.2)) (l := approaches.map (·, true))
    rw [List.length_map] at hactive
    change lanes.flatten.length + (terms.expected - 0) +
      (approaches.map (·, true)).countP (·.2) ≤ _
    omega
  obtain ⟨works, isIdle⟩ := (fresh_works exact fits staffed patient).work enough
  exact works.report_eq isIdle

end OrderRail.Queue.Crew
