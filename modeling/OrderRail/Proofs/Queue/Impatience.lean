import OrderRail.Proofs.Queue.Limits
import OrderRail.Proofs.Queue.Wakeup

/-!
# Calls that do not wait for ever

A call can bring a time limit, and there is a way to take that never waits. What such a call makes
of a queue is compared here with what its patient counterpart makes of the same queue. A call that
gets nothing, be it out of time, unwanted or without memory, leaves the queue as it found it.

A call measures the clock against the moment that was fixed when it started, however often it has
waited since. A moment that the clock cannot show is never reached.
-/

namespace OrderRail.Queue

variable {T P : Type}

/-- The time limit that a request brings. -/
def Request.limit? : Request P → Option Duration
  | .submit _ (.limited limit) => some limit
  | .take (.limited limit) => some limit
  | _ => none

/-- The patience of a call with a time limit ends at a moment that the clock can show, or never. -/
theorem Patience.deadline_limited_eq_some_iff {start moment : Instant} {limit : Duration} :
    (Patience.limited limit).deadline start = some moment ↔
      start + limit.toNanos < clockRange ∧ start + limit.toNanos = moment := by
  rw [Patience.deadline, Option.ite_none_right_eq_some, Option.some.injEq]

/-- The patience of a request ends only if the request brings a time limit. -/
theorem Request.deadline_eq_some_iff {request : Request P} {start moment : Instant} :
    request.deadline start = some moment ↔ ∃ limit, request.limit? = some limit ∧
      start + limit.toNanos < clockRange ∧ start + limit.toNanos = moment := by
  have limited (limit : Duration) :
      (Patience.limited limit).deadline start = some moment ↔ ∃ other, some limit = some other ∧
        start + other.toNanos < clockRange ∧ start + other.toNanos = moment := by
    rw [Patience.deadline_limited_eq_some_iff]
    exact ⟨fun h => ⟨limit, rfl, h⟩, fun ⟨_, heq, h⟩ => Option.some.inj heq ▸ h⟩
  have unlimited : (none : Option Instant) = some moment ↔ ∃ other, none = some other ∧
      start + Duration.toNanos other < clockRange ∧ start + other.toNanos = moment :=
    iff_of_false nofun fun ⟨_, h, _⟩ => nomatch h
  cases request with
  | submit payload patience | take patience =>
    cases patience with
    | endless => exact unlimited
    | limited limit => exact limited limit
  | tryTake | close | length | isEmpty | stats => exact unlimited

/-- A moment has come if the clock does not show less. -/
theorem reached_iff {now : Instant} {deadline : Option Instant} :
    reached now deadline = true ↔ ∃ moment, deadline = some moment ∧ moment ≤ now := by
  cases deadline with
  | none => simp [reached]
  | some moment => simp [reached]

/-- A request is late if the clock can show the end of its time limit and does not show less. -/
theorem Request.late_iff {request : Request P} {start now : Instant} :
    reached now (request.deadline start) = true ↔
      ∃ limit, request.limit? = some limit ∧ start + limit.toNanos < clockRange ∧
        start + limit.toNanos ≤ now := by
  simp only [reached_iff, deadline_eq_some_iff]
  constructor
  · rintro ⟨_, ⟨limit, hlimit, shown, rfl⟩, passed⟩
    exact ⟨limit, hlimit, shown, passed⟩
  · rintro ⟨limit, hlimit, shown, passed⟩
    exact ⟨_, ⟨limit, hlimit, shown, rfl⟩, passed⟩

/-- Whether an answer tells that a call got nothing and why. -/
def Answer.denies : Answer P → Bool
  | .rejected _ => true
  | .timedOut _ => true
  | .wouldBlock => true
  | _ => false

/-- An excuse tells that a call got nothing. -/
theorem Request.denies_of_excuse? {late : Bool} {request : Request P} {excuse : Answer P}
    (h : request.excuse? late = some excuse) : excuse.denies = true := by
  cases request with
  | submit payload patience | take patience =>
    cases patience with
    | endless => cases h
    | limited limit => cases late <;> cases h; rfl
  | tryTake =>
    cases h
    rfl
  | close | length | isEmpty | stats => cases h

/-- Why a call got nothing: what it has found and what it is told. A payload is handed back. -/
inductive Denies (terms : Terms) (late : Bool) (shortage : Option StorageError) (board : Board P) :
    Request P → Answer P → Prop where
  | unwanted {payload : P} {patience : Patience} (full : terms.expected ≤ board.submitted) :
      Denies terms late shortage board (.submit payload patience)
        (.rejected ⟨payload, .oversubscribed terms.expected⟩)
  | noMemory {payload : P} {patience : Patience} {cause : StorageError}
      (wanted : board.submitted < terms.expected) (room : board.pending.size < terms.capacity)
      (denied : board.lacks shortage = some cause) :
      Denies terms late shortage board (.submit payload patience)
        (.rejected ⟨payload, .allocation cause⟩)
  | noRoom {payload : P} {limit : Duration} (isLate : late = true)
      (wanted : board.submitted < terms.expected) (full : terms.capacity ≤ board.pending.size) :
      Denies terms late shortage board (.submit payload (.limited limit))
        (.rejected ⟨payload, .timedOut limit⟩)
  | noOrder {limit : Duration} (isLate : late = true) (empty : board.pending.size = 0)
      (undone : board.handled < terms.expected) :
      Denies terms late shortage board (.take (.limited limit)) (.timedOut limit)
  | noOrderYet (empty : board.pending.size = 0) (undone : board.handled < terms.expected) :
      Denies terms late shortage board .tryTake .wouldBlock

/-- A section that denies a call what it asks for has a reason, and neither changes the board nor
signals anybody. -/
theorem Decision.denies {terms : Terms} {late : Bool} {shortage : Option StorageError}
    {board next : Board P} {request : Request P} {answer : Answer P} {signals : List Signal}
    (denied : answer.denies = true)
    (h : Decision terms late shortage board request (.finish answer next signals)) :
    Denies terms late shortage board request answer ∧ next = board ∧ signals = [] := by
  cases h with
  | refuse _ unwanted => exact ⟨.unwanted unwanted, rfl, rfl⟩
  | lack _ wanted room hlacks => exact ⟨.noMemory wanted room hlacks, rfl, rfl⟩
  | leave _ isLate wanted full => exact ⟨.noRoom isLate wanted full, rfl, rfl⟩
  | giveUp _ isLate empty undone => exact ⟨.noOrder isLate empty undone, rfl, rfl⟩
  | decline _ empty undone => exact ⟨.noOrderYet empty undone, rfl, rfl⟩
  | read reads => cases request <;> cases denied
  | accept | handOut | endWork | close => cases denied

namespace Attempt

/-- The attempt of the patient counterpart of a call. -/
def patient (attempt : Attempt T P) : Attempt T P :=
  { attempt with request := attempt.request.patient, deadline := none }

/-- What a call is told in place of having to wait. -/
def excuse? (attempt : Attempt T P) : Option (Answer P) := attempt.request.excuse? attempt.late

/-- A patient call does not look at the clock. -/
theorem attempt_patient (attempt : Attempt T P) (terms : Terms) (board : Board P) :
    attempt.patient.request.attempt terms attempt.patient.deadline attempt.patient.now
        attempt.patient.chance.shortage board =
      attempt.request.patient.attempt terms none 0 attempt.chance.shortage board := by
  obtain ⟨thread, request, deadline, now, chance, poison⟩ := attempt
  cases request <;> rfl

end Attempt

namespace Monitor

/-- `base.CutsShort attempt` compares what a call makes of the queue with what its patient
counterpart makes of it. -/
structure CutsShort (base : Monitor T P) (attempt : Attempt T P) : Prop where
  /-- Where the counterpart is answered, the call gets that answer and leaves the same queue. -/
  answered : (base.serve attempt.patient).2 ≠ none →
    base.serve attempt = base.serve attempt.patient
  /-- Where the counterpart has to wait, so does a call without an excuse. -/
  waits : (base.serve attempt.patient).2 = none → attempt.excuse? = none → ∃ condition,
    base.serve attempt.patient =
        ({ base with waiters := base.waiters ++ [attempt.patient.waiter condition] }, none) ∧
      base.serve attempt =
        ({ base with waiters := base.waiters ++ [attempt.waiter condition] }, none)
  /-- Where the counterpart has to wait, a call with an excuse gets it and leaves the queue as it
  was. -/
  excused : (base.serve attempt.patient).2 = none → ∀ excuse, attempt.excuse? = some excuse →
    base.serve attempt = (base, some excuse)
  /-- The excuse is given nowhere else. -/
  excused_only : ∀ excuse, attempt.request.excuse? true = some excuse →
    (base.serve attempt).2 = some excuse → (base.serve attempt.patient).2 = none

/-- What a call makes of the queue by the way its section ends. -/
def conclude (base : Monitor T P) (attempt : Attempt T P) :
    Section P (Answer P) → Monitor T P × Option (Answer P)
  | .finish answer board signals =>
    ({ base with
        board, waiters := signals.foldl (Signal.deliver attempt.chance.sleeper) base.waiters },
      some answer)
  | .wait condition =>
    ({ base with waiters := base.waiters ++ [attempt.waiter condition] }, none)
  | .fail fault board => ({ base with board, broken := true }, some (.fault fault))

/-- What a call makes of an unbroken queue is what its section decides. -/
theorem serve_eq_conclude {base : Monitor T P} (unbroken : base.broken = false)
    (attempt : Attempt T P) :
    base.serve attempt =
      base.conclude attempt (attempt.request.attempt base.terms attempt.deadline attempt.now
        attempt.chance.shortage base.board) := by
  have hbroken : ¬ base.broken = true := by simp [unbroken]
  rw [serve, if_neg hbroken]
  rfl

/-- A call that is denied what it asks for has a reason, and leaves the queue as it was. -/
theorem denies_of_serve {base : Monitor T P} {attempt : Attempt T P} {answer : Answer P}
    (denied : answer.denies = true) (h : (base.serve attempt).2 = some answer) :
    Denies base.terms attempt.late attempt.chance.shortage base.board attempt.request answer ∧
      (base.serve attempt).1 = base := by
  have yields := serve_yields base attempt
  generalize base.serve attempt = result at yields h
  obtain ⟨next, told⟩ := result
  cases yields with
  | broken | wait | fail => cases h <;> cases denied
  | finish unbroken decision =>
    cases h
    obtain ⟨denies, rfl, rfl⟩ := decision.denies denied
    exact ⟨denies, rfl⟩

/-- A patient call does not get the excuse of its counterpart. -/
theorem patient_not_excused {base : Monitor T P} {attempt : Attempt T P} {excuse : Answer P}
    (hexcuse : attempt.request.excuse? true = some excuse) :
    (base.serve attempt.patient).2 ≠ some excuse := by
  intro told
  have denies := (denies_of_serve (Request.denies_of_excuse? hexcuse) told).1
  generalize attempt.patient.late = late at denies
  rw [Attempt.patient] at denies
  generalize attempt.request = request at hexcuse denies
  cases request with
  | submit payload patience | take patience =>
    cases patience with
    | endless => cases hexcuse
    | limited limit =>
      cases hexcuse
      cases denies
  | tryTake =>
    cases hexcuse
    cases denies
  | close | length | isEmpty | stats => cases hexcuse

/-- Nothing is cut short where a call does what its patient counterpart does. -/
theorem CutsShort.of_same {base : Monitor T P} {attempt : Attempt T P}
    (same : base.serve attempt = base.serve attempt.patient)
    (told : (base.serve attempt.patient).2 ≠ none) : base.CutsShort attempt where
  answered _ := same
  waits h := absurd h told
  excused h := absurd h told
  excused_only _ hexcuse h := absurd (same ▸ h) (patient_not_excused hexcuse)

/-- Every call is its patient counterpart, cut short. -/
theorem cutsShort (base : Monitor T P) (attempt : Attempt T P) : base.CutsShort attempt := by
  by_cases hbroken : base.broken = true
  · have hserve : base.serve attempt = (base, some (.fault attempt.poison)) := if_pos hbroken
    have hpatient : base.serve attempt.patient = (base, some (.fault attempt.poison)) :=
      if_pos hbroken
    exact .of_same (hserve.trans hpatient.symm) (by rw [hpatient]; nofun)
  · have unbroken : base.broken = false := by simpa using hbroken
    have hserve := serve_eq_conclude unbroken attempt
    have hpatient := serve_eq_conclude unbroken attempt.patient
    rw [attempt.attempt_patient] at hpatient
    rw [Request.attempt_eq_excused] at hserve
    generalize attempt.request.patient.attempt base.terms none 0 attempt.chance.shortage
      base.board = decided at hserve hpatient
    cases decided with
    | finish answer board signals =>
      rw [Section.excused_finish] at hserve
      exact .of_same (hserve.trans hpatient.symm) (by rw [hpatient]; nofun)
    | fail fault board =>
      rw [Section.excused_fail] at hserve
      exact .of_same (hserve.trans hpatient.symm) (by rw [hpatient]; nofun)
    | wait condition =>
      -- Only here does it matter whether there is an excuse.
      change base.serve attempt = base.conclude attempt
        ((Section.wait condition).excused base.board attempt.excuse?) at hserve
      refine ⟨fun told => absurd (congrArg Prod.snd hpatient) told, fun _ hexcuse => ?_,
        fun _ _ hexcuse => ?_, fun _ _ _ => congrArg Prod.snd hpatient⟩
      · refine ⟨condition, hpatient, ?_⟩
        rw [hserve, hexcuse]
        rfl
      · rw [hserve, hexcuse]
        rfl

end Monitor

section

variable [DecidableEq T]

/-- The request with which a move lets a thread enter the queue, and when the call starts. -/
def Move.calling? (thread : T) : Move T P → Option (Request P × Instant)
  | .enter other request start .. => if other = thread then some (request, start) else none
  | _ => none

/-- The same move of the patient counterpart of the call. -/
def Move.patient : Move T P → Move T P
  | .enter thread request start now chance => .enter thread request.patient start now chance
  | move => move

/-- The waiting call, or its patient counterpart if it is the one of the given thread. -/
def Waiter.patiently (thread : T) (waiter : Waiter T P) : Waiter T P :=
  if waiter.thread = thread then
    { waiter with request := waiter.request.patient, deadline := none }
  else waiter

/-- The queue in which the patient counterpart of the call of a thread waits in its place. -/
def Monitor.patiently (queue : Monitor T P) (thread : T) : Monitor T P :=
  { queue with waiters := queue.waiters.map (Waiter.patiently thread) }

/-- The patient counterpart of a waiting call is made by the same thread. -/
theorem Waiter.thread_patiently (thread : T) (waiter : Waiter T P) :
    (waiter.patiently thread).thread = waiter.thread := by
  unfold patiently
  split <;> rfl

/-- The request of the last call of a thread, and when that call started. -/
def lastCall? (thread : T) (moves : List (Move T P)) : Option (Request P × Instant) :=
  (moves.filterMap (Move.calling? thread)).getLast?

/-- A call that enters is the last one of its thread. -/
theorem lastCall?_append (thread : T) (moves : List (Move T P)) (move : Move T P) :
    lastCall? thread (moves ++ [move]) =
      (move.calling? thread).or (lastCall? thread moves) := by
  cases hcalling : move.calling? thread <;> simp [lastCall?, hcalling]

/-- Moves of others do not let a thread enter. -/
theorem Move.calling?_of_ne {thread : T} {move : Move T P} (h : thread ≠ move.thread) :
    move.calling? thread = none := by
  cases move with
  | enter other request start now chance => exact if_neg (Ne.symm h)
  | rouse | resume => rfl

/-- A thread is in its last call, with a request and a deadline, if it has entered the queue with
that request when that deadline was fixed. -/
def Called (moves : List (Move T P)) (thread : T) (request : Request P)
    (deadline : Option Instant) : Prop :=
  ∃ start, lastCall? thread moves = some (request, start) ∧ deadline = request.deadline start

/-- A thread stays in its call as long as it does not enter the queue. -/
theorem Called.append {moves : List (Move T P)} {thread : T} {request : Request P}
    {deadline : Option Instant} (h : Called moves thread request deadline) {move : Move T P}
    (outside : move.calling? thread = none) : Called (moves ++ [move]) thread request deadline := by
  obtain ⟨start, hlast, hdeadline⟩ := h
  exact ⟨start, by rw [lastCall?_append, outside, hlast]; rfl, hdeadline⟩

namespace Monitor

variable {queue base next : Monitor T P} {move : Move T P} {attempt : Attempt T P}
  {answer : Option (Answer P)} {moves : List (Move T P)}

/-- The call that is granted the lock is the last one of its thread. -/
theorem Grants.called
    (h : ∀ waiter ∈ queue.waiters, Called moves waiter.thread waiter.request waiter.deadline)
    (grants : queue.Grants move attempt base) :
    Called (moves ++ [move]) attempt.thread attempt.request attempt.deadline := by
  cases grants with
  | @enter thread request start now chance outside =>
    exact ⟨start, by rw [lastCall?_append, Move.calling?, if_pos rfl]; rfl, rfl⟩
  | @resume thread waiter signalled now chance inside awake =>
    have hthread : waiter.thread = thread := by simpa using List.find?_some inside
    have called := h waiter (List.mem_of_find?_eq_some inside)
    rw [hthread] at called
    exact called.append rfl

/-- Where a thread has no waiting call, no other call can wait in its place. -/
theorem map_patiently {waiters : List (Waiter T P)} {thread : T}
    (absent : ∀ waiter ∈ waiters, waiter.thread ≠ thread) :
    waiters.map (Waiter.patiently thread) = waiters :=
  (List.map_congr_left fun waiter hmem => if_neg (absent waiter hmem)).trans waiters.map_id

/-- The patient counterpart of a waiting call waits in its place. -/
theorem waiting?_patiently (queue : Monitor T P) (thread : T) :
    (queue.patiently thread).waiting? thread =
      (queue.waiting? thread).map (Waiter.patiently thread) := by
  simp only [waiting?, patiently, List.find?_map, Function.comp_def, Waiter.thread_patiently]

/-- The patient counterpart of a waiting call leaves as that call does. -/
theorem without_patiently (queue : Monitor T P) (thread : T) :
    (queue.patiently thread).without thread = queue.without thread := by
  have hfilter : (queue.waiters.map (Waiter.patiently thread)).filter (·.thread ≠ thread) =
      (queue.without thread).waiters.map (Waiter.patiently thread) := by
    simp only [without, List.filter_map, Function.comp_def, Waiter.thread_patiently]
  rw [map_patiently (queue.absent_of_without thread)] at hfilter
  simp only [without, patiently, hfilter]

/-- The patient counterpart of a call would be granted the lock in its place. -/
theorem Grants.patient (grants : queue.Grants move attempt base) :
    (queue.patiently move.thread).Grants move.patient attempt.patient base := by
  cases grants with
  | @enter thread request start now chance outside =>
    have hqueue : queue.patiently thread = queue := by
      rw [patiently, map_patiently (absent_of_outside outside)]
    have hdeadline : request.patient.deadline start = none := by cases request <;> rfl
    have patient : queue.Grants (.enter thread request.patient start now chance)
      ⟨thread, request.patient, request.patient.deadline start, now, chance, .lockBroken⟩ queue :=
      .enter outside
    rw [hdeadline] at patient
    change (queue.patiently thread).Grants _ _ queue
    rwa [hqueue]
  | @resume thread waiter signalled now chance inside awake =>
    have hthread : waiter.thread = thread := by simpa using List.find?_some inside
    have inside' : (queue.patiently thread).waiting? thread =
        some { waiter with request := waiter.request.patient, deadline := none } := by
      rw [waiting?_patiently, inside, Option.map_some, Waiter.patiently, if_pos hthread]
    have patient : (queue.patiently thread).Grants (.resume thread now chance)
        ⟨thread, waiter.request.patient, none, now, chance, .waitBroken⟩
        ((queue.patiently thread).without thread) := .resume inside' awake
    rwa [without_patiently] at patient

/-- A step keeps that every waiting call is the last one of its thread. -/
theorem step_called
    (h : ∀ waiter ∈ queue.waiters, Called moves waiter.thread waiter.request waiter.deadline)
    (made : queue.step move = some (next, answer)) : ∀ waiter ∈ next.waiters,
      Called (moves ++ [move]) waiter.thread waiter.request waiter.deadline := by
  refine forall_of_step made (fun waiter other hlying called => ?_) ?_
    (fun waiter hmem other => (h waiter hmem).append (Move.calling?_of_ne other))
    fun attempt base condition grants _ => grants.called h
  · have hdeadline : other.deadline = waiter.deadline := congrArg (·.deadline) hlying
    rwa [Waiter.thread_of_lying hlying, Waiter.request_of_lying hlying, hdeadline]
  · rintro thread rfl waiter hmem
    exact (h waiter hmem).append rfl

end Monitor

variable {terms : Terms} {history : List (Transition T P)} {queue base : Monitor T P}
  {move : Move T P} {attempt : Attempt T P}

/-- In a run every waiting call is the last one of its thread. -/
theorem Run.called (run : Run terms history queue) : ∀ waiter ∈ queue.waiters,
    Called (history.map (·.move)) waiter.thread waiter.request waiter.deadline := by
  induction run with
  | opened => simp [Monitor.opened]
  | step run made ih =>
    rw [List.map_append]
    exact Monitor.step_called ih made

/-- In every state that a run reaches, whichever call is granted the lock, newly entered or resumed,
does what its patient counterpart would do, unless that one would have to wait and the call is out
of time, which it is if the clock can show the end of the time limit, counted from the start of the
call, and shows no less. A call that gets nothing has found what it is told, and leaves the queue
as it was. -/
theorem impatience_only_ends_waiting (run : Run terms history queue)
    (grants : queue.Grants move attempt base) :
    queue.step move = some (base.serve attempt) ∧
    (queue.patiently move.thread).step move.patient = some (base.serve attempt.patient) ∧
    base.CutsShort attempt ∧
    (∃ start, lastCall? attempt.thread (history.map (·.move) ++ [move]) =
        some (attempt.request, start) ∧
      (attempt.late = true ↔ ∃ limit, attempt.request.limit? = some limit ∧
        start + limit.toNanos < clockRange ∧ start + limit.toNanos ≤ attempt.now)) ∧
    ∀ answer, (base.serve attempt).2 = some answer → answer.denies = true →
      Denies terms attempt.late attempt.chance.shortage queue.board attempt.request answer ∧
        (base.serve attempt).1 = base ∧ base.board = queue.board := by
  refine ⟨grants.step_eq, grants.patient.step_eq, base.cutsShort attempt, ?_, ?_⟩
  · obtain ⟨start, hlast, hdeadline⟩ := grants.called run.called
    refine ⟨start, hlast, ?_⟩
    rw [Attempt.late, hdeadline]
    exact Request.late_iff
  · intro answer told denied
    obtain ⟨hterms, hboard, -⟩ := grants.base_eq
    obtain ⟨denies, unchanged⟩ := Monitor.denies_of_serve denied told
    rw [hterms, hboard, run.terms_eq] at denies
    exact ⟨denies, unchanged, hboard⟩

end

/-- A submission fills a queue of one place, and another one finds it full. It falls asleep before
five nanoseconds have passed, and is roused without a signal. -/
def patienceTried : List (Move Nat Nat) :=
  [.enter 1 (.submit 10 .endless) 0 0 .calm,
    .enter 2 (.submit 20 (.limited fiveNanos)) 0 3 .calm, .rouse 2]

/-- When the second submission looks again after nine nanoseconds, where a patient one would go on
waiting, it gets its payload back, and the queue is left to the first one. -/
theorem patience_runs_out :
    ∃ history queue attempt base, Run onePlace history queue ∧
      (Monitor.opened onePlace).replay patienceTried = some (history, queue) ∧
      queue.Grants (.resume 2 9 .calm) attempt base ∧
      (base.serve attempt.patient).2 = none ∧
      queue.step (.resume 2 9 .calm) =
        some (base, some (.rejected ⟨20, .timedOut fiveNanos⟩)) ∧
      base.board = queue.board := by
  obtain ⟨history, queue, attempt, base, hreplay, grants, waits, hexcuse⟩ :
      ∃ history queue attempt base,
        (Monitor.opened onePlace).replay patienceTried = some (history, queue) ∧
        queue.Grants (.resume 2 9 .calm) attempt base ∧ (base.serve attempt.patient).2 = none ∧
        attempt.excuse? = some (.rejected ⟨20, .timedOut fiveNanos⟩) :=
    ⟨_, _, _, _, rfl, .resume rfl rfl, rfl, rfl⟩
  have run : Run onePlace history queue := Run.opened.replay hreplay
  obtain ⟨made, -, cut, -, hdenied⟩ := impatience_only_ends_waiting run grants
  have hserve := cut.excused waits _ hexcuse
  obtain ⟨-, -, hboard⟩ := hdenied _ (congrArg Prod.snd hserve) rfl
  exact ⟨history, queue, attempt, base, run, hreplay, grants, waits, hserve ▸ made, hboard⟩

end OrderRail.Queue
