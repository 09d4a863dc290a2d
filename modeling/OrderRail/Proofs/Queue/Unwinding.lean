import OrderRail.Proofs.Queue.Limits
import OrderRail.Proofs.Queue.Wakeup

/-!
# How a queue comes to rest

A queue is at rest when everybody who waits is asleep. The next call may wake others, which go on
one after another and may wake more of them. Each of them ends or falls asleep again, and one that
falls asleep wakes nobody. So the queue is at rest again after finitely many steps, and how many
these can be at most depends on the number of waiting calls only.

A play is a call together with what goes on after it, without anybody giving up.
-/

namespace OrderRail.Queue

variable {T P : Type}

/-- How many waiting calls are awake. -/
def awake (waiters : List (Waiter T P)) : Nat := waiters.countP (·.sleep != .asleep)

/-- Nobody is awake where everybody sleeps. -/
theorem awake_eq_zero {waiters : List (Waiter T P)} :
    awake waiters = 0 ↔ ∀ waiter ∈ waiters, waiter.sleep = .asleep := by
  simp [awake]

/-- A call that falls asleep makes nobody awake. -/
theorem awake_wait (waiters : List (Waiter T P)) (attempt : Attempt T P) (condition : Condition) :
    awake (waiters ++ [attempt.waiter condition]) = awake waiters := by
  simp [awake, Attempt.waiter]

/-- A waiting call is awake, or it sleeps on one of the conditions. -/
theorem length_eq_awake_add (waiters : List (Waiter T P)) :
    waiters.length = awake waiters + sleepers .notFull waiters + sleepers .notEmpty waiters := by
  induction waiters with
  | nil => rfl
  | cons waiter rest ih =>
    obtain ⟨_, _, condition, _, sleep⟩ := waiter
    rw [List.length_cons, ih]
    cases sleep <;> cases condition <;>
      simp [awake, sleepers, Waiter.sleepsOn] <;> omega

namespace Monitor

/-- A call that is left waiting has been waiting. -/
theorem Inside.of_lying_subset {queue next : Monitor T P} {thread : T} (h : next.Inside thread)
    (left : next.waiters.map Waiter.lying ⊆ queue.waiters.map Waiter.lying) :
    queue.Inside thread := by
  obtain ⟨waiter, hmem, rfl⟩ := List.mem_map.mp h
  obtain ⟨other, hother, heq⟩ := List.mem_map.mp (left (List.mem_map_of_mem hmem))
  have hthread := Waiter.thread_of_lying heq
  exact hthread ▸ List.mem_map_of_mem hother

variable [DecidableEq T] {queue base next last : Monitor T P} {thread : T} {now : Instant}
  {chance : Chance} {answer : Option (Answer P)} {attempt : Attempt T P} {request : Request P}
  {shortage : Option StorageError} {more : List (Transition T P)}

/-- A move that is not a waking up without a signal grants the lock to a call, which makes the
step. -/
theorem exists_grant {move : Move T P} (made : queue.step move = some (next, answer))
    (acts : ∀ thread, move ≠ .rouse thread) :
    ∃ attempt base, queue.Grants move attempt base ∧ base.Yields attempt next answer ∧
      base.serve attempt = (next, answer) := by
  rcases step_cases made with ⟨thread, -, hmove, -⟩ | ⟨attempt, base, grants, yields⟩
  · exact absurd hmove (acts thread)
  · exact ⟨attempt, base, grants, yields, Option.some.inj (grants.step_eq.symm.trans made)⟩

/-- A call that goes on is one of those that wait, and has been awake. -/
theorem Grants.resumed (h : queue.Grants (.resume thread now chance) attempt base)
    (orderly : Orderly queue.waiters) :
    attempt.poison = .waitBroken ∧
      (∃ waiter ∈ queue.waiters, waiter.request = attempt.request) ∧
      base.waiters.length + 1 = queue.waiters.length ∧
      awake base.waiters + 1 = awake queue.waiters := by
  cases h with
  | resume inside isAwake =>
    have hperm := perm_without orderly inside
    refine ⟨rfl, ⟨_, List.mem_of_find?_eq_some inside, rfl⟩, hperm.length_eq.symm, ?_⟩
    rw [awake, awake, hperm.countP_eq, List.countP_cons]
    simp [isAwake]

/-- When a call goes on, no other calls wait afterwards than have waited before. -/
theorem lying_of_resume (orderly : Orderly queue.waiters)
    (made : queue.step (.resume thread now chance) = some (next, answer)) :
    next.waiters.map Waiter.lying ⊆ queue.waiters.map Waiter.lying := by
  obtain ⟨attempt, base, grants, yields, -⟩ := exists_grant made nofun
  have hbase := List.map_subset Waiter.lying grants.subset
  cases yields with
  | broken | fail => exact hbase
  | finish unbroken decision =>
    rw [map_lying_foldl_deliver]
    exact hbase
  | wait unbroken decision =>
    cases grants with
    | @resume _ waiter signalled _ _ inside isAwake =>
      have hmem := List.mem_of_find?_eq_some inside
      have hthread : waiter.thread = thread := by simpa using List.find?_some inside
      have hcondition := Option.some.inj
        ((orderly.apt waiter hmem).symm.trans decision.condition?_eq)
      rw [List.map_append, List.append_subset]
      refine ⟨hbase, List.cons_subset.mpr ⟨?_, List.nil_subset _⟩⟩
      refine List.mem_map.mpr ⟨waiter, hmem, ?_⟩
      simp [Waiter.lying, Attempt.waiter, hthread, hcondition]

/-- A call that is awake can be granted the lock. -/
theorem grants_of_awake (orderly : Orderly queue.waiters) {waiter : Waiter T P}
    (hmem : waiter ∈ queue.waiters) (isAwake : waiter.sleep ≠ .asleep) (now : Instant)
    (chance : Chance) :
    queue.Grants (.resume waiter.thread now chance)
      ⟨waiter.thread, waiter.request, waiter.deadline, now, chance, .waitBroken⟩
      (queue.without waiter.thread) := by
  cases hsleep : waiter.sleep with
  | asleep => exact absurd hsleep isAwake
  | roused signalled => exact .resume (waiting?_of_mem orderly hmem) hsleep

/-- A call that is awake can go on, and does not give up as long as it is in time. -/
theorem exists_resume (orderly : Orderly queue.waiters) {waiter : Waiter T P}
    (hmem : waiter ∈ queue.waiters) (isAwake : waiter.sleep ≠ .asleep)
    (early : reached now waiter.deadline = false) (chance : Chance) :
    ∃ next answer, queue.step (.resume waiter.thread now chance) = some (next, answer) ∧
      answer.any Answer.isTimeout = false :=
  ⟨_, _, (grants_of_awake orderly hmem isAwake now chance).step_eq, patient_of_early _ early⟩

/-- A call can go on only where one is awake. -/
theorem awake_of_resume (orderly : Orderly queue.waiters)
    (made : queue.step (.resume thread now chance) = some (next, answer)) :
    0 < awake queue.waiters := by
  obtain ⟨attempt, base, grants, -, -⟩ := exists_grant made nofun
  obtain ⟨-, -, -, hawake⟩ := grants.resumed orderly
  omega

/-- How many steps calls that are awake can make before a queue is at rest. -/
def unrest (queue : Monitor T P) : Nat :=
  queue.waiters.length * (queue.waiters.length + 1) + awake queue.waiters

/-- A call that goes on ends, or there is one call less awake. -/
theorem unrest_lt (orderly : Orderly queue.waiters)
    (made : queue.step (.resume thread now chance) = some (next, answer)) :
    next.unrest < queue.unrest := by
  obtain ⟨attempt, base, grants, yields, -⟩ := exists_grant made nofun
  obtain ⟨-, -, hlength, hawake⟩ := grants.resumed orderly
  have hpart : awake next.waiters ≤ next.waiters.length := List.countP_le_length
  -- The call has ended.
  have hended (hnext : next.waiters.length = base.waiters.length) :
      next.unrest < queue.unrest := by
    have hproduct : queue.waiters.length * (queue.waiters.length + 1) =
        base.waiters.length * (base.waiters.length + 1) + 2 * (base.waiters.length + 1) := by
      rw [← hlength]
      exact (Nat.mul_comm _ _).trans (Nat.add_mul base.waiters.length 2 _)
    rw [unrest, unrest, hnext, hproduct]
    omega
  cases yields with
  | broken isBroken => exact hended rfl
  | finish unbroken decision =>
    exact hended (length_of_map_lying (map_lying_foldl_deliver _ _ _))
  | fail unbroken decision => exact hended rfl
  | @wait condition unbroken decision =>
    have hlast : (base.waiters ++ [attempt.waiter condition]).length = queue.waiters.length := by
      rw [List.length_append, List.length_singleton, hlength]
    simp only [unrest, hlast, awake_wait]
    omega

/-- `queue.Unwinds more last` says that calls of a queue which are awake go on, one after another,
in the steps `more`, and that none of them gives up. -/
inductive Unwinds : Monitor T P → List (Transition T P) → Monitor T P → Prop where
  | done {queue : Monitor T P} : Unwinds queue [] queue
  | step {queue next last : Monitor T P} {thread : T} {now : Instant} {chance : Chance}
      {answer : Option (Answer P)} {more : List (Transition T P)}
      (made : queue.step (.resume thread now chance) = some (next, answer))
      (patient : answer.any Answer.isTimeout = false) (later : Unwinds next more last) :
      Unwinds queue (⟨queue, .resume thread now chance, answer, next⟩ :: more) last

/-- Calls that go on leave the waiting calls orderly, and make no more steps than the unrest of the
queue allows. -/
theorem Unwinds.length_le (h : queue.Unwinds more last) (orderly : Orderly queue.waiters) :
    Orderly last.waiters ∧ more.length + last.unrest ≤ queue.unrest := by
  induction h with
  | done => exact ⟨orderly, by simp⟩
  | step made patient later ih =>
    obtain ⟨hlast, hlength⟩ := ih (orderly.step made)
    have hless := unrest_lt orderly made
    refine ⟨hlast, ?_⟩
    rw [List.length_cons]
    omega

/-- One more call may go on. -/
theorem Unwinds.append (h : queue.Unwinds more last)
    (made : last.step (.resume thread now chance) = some (next, answer))
    (patient : answer.any Answer.isTimeout = false) :
    queue.Unwinds (more ++ [⟨last, .resume thread now chance, answer, next⟩]) next := by
  induction h with
  | done => exact .step made patient .done
  | step first firstPatient later ih => exact .step first firstPatient (ih made)

/-- Only calls that have been waiting go on. -/
theorem Unwinds.inside (h : queue.Unwinds more last) (orderly : Orderly queue.waiters) :
    ∀ transition ∈ more, queue.Inside transition.move.thread := by
  induction h with
  | done => simp
  | step made patient later ih =>
    refine List.forall_mem_cons.mpr ⟨?_, fun transition hmem => ?_⟩
    · by_contra outside
      obtain ⟨attempt, base, grants, -, -⟩ := exists_grant made nofun
      cases grants with
      | resume inside => cases inside.symm.trans (waiting?_of_not_inside outside)
    · exact (ih (orderly.step made) transition hmem).of_lying_subset (lying_of_resume orderly made)

/-- Where nobody is awake, nobody goes on. -/
theorem Unwinds.of_rest (h : queue.Unwinds more last) (orderly : Orderly queue.waiters)
    (rest : awake queue.waiters = 0) : more = [] ∧ last = queue := by
  cases h with
  | done => exact ⟨rfl, rfl⟩
  | step made =>
    have hawake := awake_of_resume orderly made
    omega

/-- `queue.Plays thread request shortage more last` says that a thread makes a call in the first of
the steps `more`, where `shortage` is what the allocator would answer, and that afterwards calls
which are awake go on, without anybody giving up. -/
inductive Plays (queue : Monitor T P) (thread : T) (request : Request P)
    (shortage : Option StorageError) : List (Transition T P) → Monitor T P → Prop where
  | enter {start now : Instant} {sleeper : Nat} {next last : Monitor T P}
      {answer : Option (Answer P)} {more : List (Transition T P)}
      (made : queue.step (.enter thread request start now ⟨sleeper, shortage⟩) =
        some (next, answer))
      (patient : answer.any Answer.isTimeout = false) (later : next.Unwinds more last) :
      queue.Plays thread request shortage
        (⟨queue, .enter thread request start now ⟨sleeper, shortage⟩, answer, next⟩ :: more) last

/-- A call that enters a queue at rest either falls asleep itself, and the queue is at rest, or it
ends, and the same calls wait as before. -/
theorem enter_cases {start : Instant} (rest : awake queue.waiters = 0)
    (made : queue.step (.enter thread request start now chance) = some (next, answer)) :
    awake next.waiters = 0 ∨ next.waiters.map Waiter.lying = queue.waiters.map Waiter.lying := by
  obtain ⟨attempt, base, grants, yields, -⟩ := exists_grant made nofun
  cases grants with
  | enter outside =>
    cases yields with
    | broken | fail => exact .inr rfl
    | finish unbroken decision => exact .inr (map_lying_foldl_deliver _ _ _)
    | wait unbroken decision =>
      rw [awake] at rest
      exact .inl (by simp [awake, rest, Attempt.waiter])

/-- The call that is made and the calls that go on after it make no more steps than this. -/
theorem Plays.length_le (h : queue.Plays thread request shortage more last)
    (orderly : Orderly queue.waiters) (rest : awake queue.waiters = 0) :
    more.length ≤ (queue.waiters.length + 1) * (queue.waiters.length + 1) := by
  obtain @⟨start, now, sleeper, next, last, answer, more, made, patient, later⟩ := h
  rw [List.length_cons, Nat.add_mul, Nat.one_mul]
  rcases enter_cases rest made with hrest | hsame
  · rw [(later.of_rest (orderly.step made) hrest).1, List.length_nil]
    omega
  · have hlength := length_of_map_lying hsame
    have hpart : awake next.waiters ≤ next.waiters.length := List.countP_le_length
    obtain ⟨-, hsteps⟩ := later.length_le (orderly.step made)
    have hunrest : next.unrest =
        queue.waiters.length * (queue.waiters.length + 1) + awake next.waiters := by
      rw [unrest, hlength]
    omega

/-- One more call may go on after a call has been made. -/
theorem Plays.append {rouser : T} (h : queue.Plays thread request shortage more last)
    (made : last.step (.resume rouser now chance) = some (next, answer))
    (patient : answer.any Answer.isTimeout = false) :
    queue.Plays thread request shortage (more ++ [⟨last, .resume rouser now chance, answer, next⟩])
      next := by
  obtain ⟨first, firstPatient, later⟩ := h
  exact .enter first firstPatient (later.append made patient)

/-- The calls that go on after a call has been made are those of other threads. -/
theorem Plays.others_go_on {first : Transition T P}
    (h : queue.Plays thread request shortage (first :: more) last) (orderly : Orderly queue.waiters)
    (rest : awake queue.waiters = 0) : ∀ transition ∈ more, transition.move.thread ≠ thread := by
  obtain ⟨made, patient, later⟩ := h
  obtain ⟨attempt, base, grants, -, -⟩ := exists_grant made nofun
  have outside := grants.not_inside (awake_eq_zero.mp rest)
  rw [grants.thread_eq] at outside
  intro transition hmem heq
  rcases enter_cases rest made with hrest | hsame
  · rw [(later.of_rest (orderly.step made) hrest).1] at hmem
    cases hmem
  · have inside := later.inside (orderly.step made) transition hmem
    rw [heq] at inside
    exact outside (inside.of_lying_subset (hsame ▸ List.Subset.refl _))

/-- The calls that wait after a play are orderly. -/
theorem Plays.orderly (h : queue.Plays thread request shortage more last)
    (orderly : Orderly queue.waiters) : Orderly last.waiters := by
  obtain ⟨made, patient, later⟩ := h
  exact (later.length_le (orderly.step made)).1

end Monitor

section

variable [DecidableEq T] {terms : Terms} {history : List (Transition T P)} {queue : Monitor T P}
  {shortage : Option StorageError}

/-- After a play the limit of every waiting call leaves some time. -/
theorem Run.deadlines_of_plays (run : Run terms history queue) {thread : T} {request : Request P}
    {more : List (Transition T P)} {last : Monitor T P}
    (h : queue.Plays thread request shortage more last) :
    ∀ waiter ∈ last.waiters, reached 0 waiter.deadline = false := by
  obtain ⟨made, patient, later⟩ := h
  have hnext := Monitor.step_deadlines run.deadlines made
  clear made patient
  induction later with
  | done => exact hnext
  | step made patient later ih => exact ih (Monitor.step_deadlines hnext made)

/-- After a play, a call that is awake can go on, and does not give up as long as it is in time. -/
theorem Run.goes_on (run : Run terms history queue) {thread : T} {request : Request P}
    {more : List (Transition T P)} {last : Monitor T P}
    (plays : queue.Plays thread request shortage more last) {waiter : Waiter T P}
    (hmem : waiter ∈ last.waiters) (isAwake : waiter.sleep ≠ .asleep) {now : Instant}
    (early : reached now waiter.deadline = false) (chance : Chance) :
    ∃ next answer, queue.Plays thread request shortage
      (more ++ [⟨last, .resume waiter.thread now chance, answer, next⟩]) next := by
  obtain ⟨next, answer, made, patient⟩ :=
    Monitor.exists_resume (plays.orderly run.orderly) hmem isAwake early chance
  exact ⟨next, answer, plays.append made patient⟩

/-- Every play in a queue that was at rest can be continued until the queue is at rest again. -/
theorem Run.comes_to_rest (run : Run terms history queue) (rest : awake queue.waiters = 0)
    {thread : T} {request : Request P} {more : List (Transition T P)} {last : Monitor T P}
    (plays : queue.Plays thread request shortage more last) :
    ∃ later final, queue.Plays thread request shortage (more ++ later) final ∧
      ∀ waiter ∈ final.waiters, waiter.sleep = .asleep := by
  -- The induction is on the number of steps that are left.
  induction left : (queue.waiters.length + 1) * (queue.waiters.length + 1) - more.length
    using Nat.strong_induction_on generalizing more last with
  | _ left ih =>
    by_cases lastRest : awake last.waiters = 0
    · exact ⟨[], last, by rwa [List.append_nil], awake_eq_zero.mp lastRest⟩
    · obtain ⟨waiter, hmem, isAwake⟩ : ∃ waiter ∈ last.waiters, waiter.sleep ≠ .asleep := by
        simpa [awake_eq_zero] using lastRest
      obtain ⟨next, answer, hplays⟩ :=
        run.goes_on plays hmem isAwake (run.deadlines_of_plays plays waiter hmem) .calm
      have hlength := hplays.length_le run.orderly rest
      rw [List.length_append, List.length_singleton] at hlength
      obtain ⟨later, final, hfinal, finalRest⟩ :=
        ih _ (by rw [List.length_append, List.length_singleton]; omega) hplays rfl
      exact ⟨_ :: later, final, by rwa [List.append_assoc] at hfinal, finalRest⟩

end

end OrderRail.Queue
