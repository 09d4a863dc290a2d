import Mathlib.Data.List.Nodup
import OrderRail.Proofs.Queue.Decision
import OrderRail.Proofs.Queue.Signals

/-!
# Runs of a queue

A run is any sequence of steps of a queue that has just been opened: any threads make any calls with
any patience at any time, and the lock, the signals and the clock are not constrained. Every step
that takes the lock has the same two parts. A move grants the lock to a call, which is not among the
waiters then, and the call yields the next state by one of its decisions. Both parts are described
once, and what a run preserves follows by cases on them.

No two waiting calls are made by the same thread, and each waits for the condition of its request.
-/

namespace OrderRail.Queue

variable {T P : Type}

/-- A call that has been granted the lock, and the fault that it gets if the lock is broken. -/
structure Attempt (T P : Type) where
  thread : T
  request : Request P
  deadline : Option Instant
  now : Instant
  chance : Chance
  poison : Fault

namespace Attempt

/-- Whether the time limit of a call has passed. -/
def late (attempt : Attempt T P) : Bool := reached attempt.now attempt.deadline

/-- The waiting call that an attempt becomes if it has to sleep. -/
def waiter (attempt : Attempt T P) (condition : Condition) : Waiter T P :=
  { thread := attempt.thread, request := attempt.request, condition
    deadline := attempt.deadline, sleep := .asleep }

end Attempt

namespace Monitor

/-- `base.Yields attempt next answer` says what a call that has the lock makes of the queue, and
what it is told unless it goes to sleep. -/
inductive Yields (base : Monitor T P) (attempt : Attempt T P) :
    Monitor T P → Option (Answer P) → Prop where
  | broken (isBroken : base.broken = true) :
      base.Yields attempt base (some (.fault attempt.poison))
  | finish {answer : Answer P} {board : Board P} {signals : List Signal}
      (unbroken : base.broken = false)
      (decision : Decision base.terms attempt.late attempt.chance.shortage base.board
        attempt.request (.finish answer board signals)) :
      base.Yields attempt
        { base with
          board, waiters := signals.foldl (Signal.deliver attempt.chance.sleeper) base.waiters }
        (some answer)
  | wait {condition : Condition} (unbroken : base.broken = false)
      (decision : Decision base.terms attempt.late attempt.chance.shortage base.board
        attempt.request (.wait condition)) :
      base.Yields attempt { base with waiters := base.waiters ++ [attempt.waiter condition] } none
  | fail {fault : Fault} {board : Board P} (unbroken : base.broken = false)
      (decision : Decision base.terms attempt.late attempt.chance.shortage base.board
        attempt.request (.fail fault board)) :
      base.Yields attempt { base with board, broken := true } (some (.fault fault))

/-- Run the section of a call that has the lock, or tell the call that the lock is broken. -/
def serve (base : Monitor T P) (attempt : Attempt T P) : Monitor T P × Option (Answer P) :=
  if base.broken then (base, some (.fault attempt.poison))
  else base.proceed attempt.thread attempt.request attempt.deadline attempt.now attempt.chance

/-- A call that has the lock yields the next state by one of its decisions. -/
theorem serve_yields (base : Monitor T P) (attempt : Attempt T P) :
    base.Yields attempt (base.serve attempt).1 (base.serve attempt).2 := by
  by_cases hbroken : base.broken = true
  · rw [serve, if_pos hbroken]
    exact .broken hbroken
  · have unbroken : base.broken = false := by simpa using hbroken
    have decision : Decision base.terms attempt.late attempt.chance.shortage base.board
        attempt.request (attempt.request.attempt base.terms attempt.deadline attempt.now
          attempt.chance.shortage base.board) :=
      attempt_decision ..
    rw [serve, if_neg hbroken, proceed]
    generalize attempt.request.attempt base.terms attempt.deadline attempt.now
      attempt.chance.shortage base.board = decided at decision
    cases decided with
    | finish answer board signals => exact .finish unbroken decision
    | wait condition => exact .wait unbroken decision
    | fail fault board => exact .fail unbroken decision

/-- A call that has the lock does not change the terms. -/
theorem Yields.terms_eq {base next : Monitor T P} {attempt : Attempt T P}
    {answer : Option (Answer P)} (h : base.Yields attempt next answer) :
    next.terms = base.terms := by
  cases h <;> rfl

end Monitor

/-- A section that has to wait does so on the condition of its request. -/
theorem Decision.condition?_eq {terms : Terms} {late : Bool} {shortage : Option StorageError}
    {board : Board P} {request : Request P} {condition : Condition}
    (h : Decision terms late shortage board request (.wait condition)) :
    request.condition? = some condition := by
  cases h <;> rfl

/-- A section that ends with an answer does not answer with a fault. -/
theorem Decision.ne_fault {terms : Terms} {late : Bool} {shortage : Option StorageError}
    {board next : Board P} {request : Request P} {answer : Answer P} {signals : List Signal}
    {fault : Fault} (h : Decision terms late shortage board request (.finish answer next signals)) :
    answer ≠ .fault fault := by
  cases h with
  | read reads => cases request <;> nofun
  | accept | lack | refuse | leave | handOut | endWork | giveUp | decline | close => nofun

/-- No two waiting calls are made by the same thread, and each waits for what its request needs. -/
structure Orderly (waiters : List (Waiter T P)) : Prop where
  distinct : (waiters.map (·.thread)).Nodup
  apt : ∀ waiter ∈ waiters, waiter.request.condition? = some waiter.condition

namespace Orderly

/-- Who sleeps does not matter. -/
theorem congr {waiters others : List (Waiter T P)} (h : Orderly waiters)
    (same : others.map Waiter.lying = waiters.map Waiter.lying) : Orderly others := by
  refine ⟨?_, ?_⟩
  · exact map_thread_of_map_lying same ▸ h.distinct
  · refine forall_of_map_lying same (fun waiter other heq hapt => ?_) h.apt
    have hcondition : other.condition = waiter.condition := congrArg (·.condition) heq
    rw [Waiter.request_of_lying heq, hcondition]
    exact hapt

/-- Waiters may leave. -/
theorem sublist {waiters others : List (Waiter T P)} (h : Orderly waiters)
    (some : others.Sublist waiters) : Orderly others :=
  ⟨h.distinct.sublist (some.map _), fun waiter hwaiter => h.apt waiter (some.subset hwaiter)⟩

/-- A call of another thread may join the waiters. -/
theorem append {waiters : List (Waiter T P)} (h : Orderly waiters) {waiter : Waiter T P}
    (absent : ∀ other ∈ waiters, other.thread ≠ waiter.thread)
    (apt : waiter.request.condition? = some waiter.condition) : Orderly (waiters ++ [waiter]) := by
  refine ⟨?_, ?_⟩
  · rw [List.map_append, List.nodup_append]
    refine ⟨h.distinct, List.nodup_singleton _, ?_⟩
    intro thread hthread other hother
    obtain ⟨sleeper, hmem, rfl⟩ := List.mem_map.mp hthread
    rw [List.mem_singleton.mp hother]
    exact absent sleeper hmem
  · intro other hother
    rcases List.mem_append.mp hother with hold | hnew
    · exact h.apt other hold
    · rw [List.mem_singleton.mp hnew]
      exact apt

end Orderly

/-- Whether a move lets a call go on that has been waiting. -/
def Move.resumes : Move T P → Bool
  | .resume .. => true
  | _ => false

/-- Why the allocator would refuse room in the section of a move, if it would. -/
def Move.shortage : Move T P → Option StorageError
  | .enter _ _ _ _ chance => chance.shortage
  | .rouse _ => none
  | .resume _ _ chance => chance.shortage

/-- A step that a queue has made. -/
structure Transition (T P : Type) where
  before : Monitor T P
  move : Move T P
  answer : Option (Answer P)
  after : Monitor T P

/-- The states of a queue in a run: the opened queue, and the one after each step. -/
def states (terms : Terms) (history : List (Transition T P)) : List (Monitor T P) :=
  .opened terms :: history.map (·.after)

/-- One more step adds the state after it. -/
theorem states_append (terms : Terms) (history : List (Transition T P))
    (transition : Transition T P) :
    states terms (history ++ [transition]) = states terms history ++ [transition.after] := by
  simp [states]

variable [DecidableEq T]

namespace Monitor

/-- The queue after the sleeping call of a thread has woken up without a signal. -/
def rousing (queue : Monitor T P) (thread : T) : Monitor T P :=
  { queue with
    waiters := queue.waiters.map fun waiter =>
      if waiter.thread = thread then { waiter with sleep := .roused false } else waiter }

/-- `queue.Grants move attempt base` says that a move gives the lock to a call, and that `base` is
the queue without that call among the waiters. -/
inductive Grants (queue : Monitor T P) : Move T P → Attempt T P → Monitor T P → Prop where
  | enter {thread : T} {request : Request P} {start now : Instant} {chance : Chance}
      (outside : queue.waiting? thread = none) :
      queue.Grants (.enter thread request start now chance)
        ⟨thread, request, request.deadline start, now, chance, .lockBroken⟩ queue
  | resume {thread : T} {waiter : Waiter T P} {signalled : Bool} {now : Instant} {chance : Chance}
      (inside : queue.waiting? thread = some waiter) (awake : waiter.sleep = .roused signalled) :
      queue.Grants (.resume thread now chance)
        ⟨thread, waiter.request, waiter.deadline, now, chance, .waitBroken⟩ (queue.without thread)

/-- A move that grants the lock to a call makes the step of that call. -/
theorem Grants.step_eq {queue base : Monitor T P} {move : Move T P} {attempt : Attempt T P}
    (h : queue.Grants move attempt base) : queue.step move = some (base.serve attempt) := by
  cases h with
  | enter outside =>
    simp only [Monitor.step, Monitor.enter, outside, Option.isSome_none, Bool.false_eq_true,
      if_false, serve]
    split <;> rfl
  | @resume thread waiter signalled now chance inside awake =>
    obtain ⟨_, request, condition, deadline, sleep⟩ := waiter
    subst awake
    simp only [Monitor.step, Monitor.resume, inside, serve]
    split <;> rfl

/-- A thread that is outside the queue is none of the waiters. -/
theorem absent_of_outside {queue : Monitor T P} {thread : T}
    (outside : queue.waiting? thread = none) :
    ∀ waiter ∈ queue.waiters, waiter.thread ≠ thread := by
  intro waiter hwaiter
  simpa using List.find?_eq_none.mp outside waiter hwaiter

/-- A thread whose waiting call has been removed is none of the waiters. -/
theorem absent_of_without (queue : Monitor T P) (thread : T) :
    ∀ waiter ∈ (queue.without thread).waiters, waiter.thread ≠ thread := by
  intro waiter hwaiter
  simpa using (List.mem_filter.mp hwaiter).2

/-- The call that is granted the lock is not among the waiters. -/
theorem Grants.absent {queue base : Monitor T P} {move : Move T P} {attempt : Attempt T P}
    (h : queue.Grants move attempt base) :
    ∀ waiter ∈ base.waiters, waiter.thread ≠ attempt.thread := by
  cases h with
  | enter outside => exact absent_of_outside outside
  | resume inside awake => exact absent_of_without queue _

/-- Nobody gets among the waiters by being granted the lock. -/
theorem Grants.subset {queue base : Monitor T P} {move : Move T P} {attempt : Attempt T P}
    (h : queue.Grants move attempt base) : base.waiters ⊆ queue.waiters := by
  cases h with
  | enter outside => exact List.Subset.refl _
  | resume inside awake => exact List.filter_sublist.subset

/-- Granting the lock changes the waiters only. -/
theorem Grants.base_eq {queue base : Monitor T P} {move : Move T P} {attempt : Attempt T P}
    (h : queue.Grants move attempt base) :
    base.terms = queue.terms ∧ base.board = queue.board ∧ base.broken = queue.broken := by
  cases h <;> exact ⟨rfl, rfl, rfl⟩

/-- The lock is granted to the thread that makes the move. -/
theorem Grants.thread_eq {queue base : Monitor T P} {move : Move T P} {attempt : Attempt T P}
    (h : queue.Grants move attempt base) : attempt.thread = move.thread := by
  cases h <;> rfl

/-- The call that is granted the lock asks the allocator that the move brings. -/
theorem Grants.shortage_eq {queue base : Monitor T P} {move : Move T P} {attempt : Attempt T P}
    (h : queue.Grants move attempt base) : attempt.chance.shortage = move.shortage := by
  cases h <;> rfl

/-- A step either wakes a sleeping call without a signal, or grants the lock to a call, which
yields the next state. -/
theorem step_cases {queue next : Monitor T P} {move : Move T P} {answer : Option (Answer P)}
    (h : queue.step move = some (next, answer)) :
    (∃ thread waiter, move = .rouse thread ∧ queue.waiting? thread = some waiter ∧
        waiter.sleep = .asleep ∧ next = queue.rousing thread ∧ answer = none) ∨
      ∃ attempt base, queue.Grants move attempt base ∧ base.Yields attempt next answer := by
  have granted {attempt : Attempt T P} {base : Monitor T P}
      (grants : queue.Grants move attempt base) :
      ∃ attempt base, queue.Grants move attempt base ∧ base.Yields attempt next answer := by
    have hserve : base.serve attempt = (next, answer) :=
      Option.some.inj (grants.step_eq.symm.trans h)
    have yields := serve_yields base attempt
    rw [hserve] at yields
    exact ⟨attempt, base, grants, yields⟩
  cases move with
  | enter thread request start now chance =>
    cases hwaiting : queue.waiting? thread with
    | none => exact .inr (granted (.enter hwaiting))
    | some waiter => simp [Monitor.step, Monitor.enter, hwaiting] at h
  | rouse thread =>
    simp only [Monitor.step, Monitor.rouse] at h
    cases hwaiting : queue.waiting? thread with
    | none => simp [hwaiting] at h
    | some waiter =>
      obtain ⟨_, request, condition, deadline, sleep⟩ := waiter
      cases sleep with
      | asleep =>
        simp only [hwaiting, Option.map_some, Option.some.injEq, Prod.mk.injEq] at h
        exact .inl ⟨thread, _, rfl, hwaiting, rfl, h.1.symm, h.2.symm⟩
      | roused signalled => simp [hwaiting] at h
  | resume thread now chance =>
    cases hwaiting : queue.waiting? thread with
    | none => simp [Monitor.step, Monitor.resume, hwaiting] at h
    | some waiter =>
      obtain ⟨_, request, condition, deadline, sleep⟩ := waiter
      cases sleep with
      | asleep => simp [Monitor.step, Monitor.resume, hwaiting] at h
      | roused signalled => exact .inr (granted (.resume hwaiting rfl))

/-- A call that sleeps can wake up without a signal. -/
theorem rouse_eq_some {queue : Monitor T P} {thread : T} {waiter : Waiter T P}
    (inside : queue.waiting? thread = some waiter) (asleep : waiter.sleep = .asleep) :
    queue.step (.rouse thread) = some (queue.rousing thread, none) := by
  obtain ⟨_, request, condition, deadline, sleep⟩ := waiter
  subst asleep
  simp only [Monitor.step, Monitor.rouse, inside, Option.map_some]
  rfl

/-- A queue keeps its terms. -/
theorem step_terms {queue next : Monitor T P} {move : Move T P} {answer : Option (Answer P)}
    (h : queue.step move = some (next, answer)) : next.terms = queue.terms := by
  rcases step_cases h with ⟨thread, waiter, -, -, -, rfl, -⟩ | ⟨attempt, base, grants, yields⟩
  · rfl
  · rw [yields.terms_eq, grants.base_eq.1]

/-- A step leaves the board alone, and then it brings a fault if anything, or it ends a section. -/
theorem step_board {queue next : Monitor T P} {move : Move T P} {answer : Option (Answer P)}
    (h : queue.step move = some (next, answer)) :
    (next.board = queue.board ∧ (answer = none ∨ ∃ fault, answer = some (.fault fault))) ∨
      (∃ late shortage request value signals, answer = some value ∧
        Decision queue.terms late shortage queue.board request
          (.finish value next.board signals)) ∨
      ∃ late shortage request fault, answer = some (.fault fault) ∧
        Decision queue.terms late shortage queue.board request (.fail fault next.board) := by
  rcases step_cases h with ⟨thread, waiter, -, -, -, rfl, rfl⟩ | ⟨attempt, base, grants, yields⟩
  · exact .inl ⟨rfl, .inl rfl⟩
  · obtain ⟨hterms, hboard, -⟩ := grants.base_eq
    rw [← hterms, ← hboard]
    cases yields with
    | broken isBroken => exact .inl ⟨rfl, .inr ⟨_, rfl⟩⟩
    | finish unbroken decision => exact .inr (.inl ⟨_, _, _, _, _, rfl, decision⟩)
    | wait unbroken decision => exact .inl ⟨rfl, .inl rfl⟩
    | fail unbroken decision => exact .inr (.inr ⟨_, _, _, _, rfl, decision⟩)

/-- As long as a step leaves the lock unbroken, the lock was not broken before, and the step does
not bring a fault. -/
theorem step_unbroken {queue next : Monitor T P} {move : Move T P} {answer : Option (Answer P)}
    (h : queue.step move = some (next, answer)) (unbroken : next.broken = false) :
    queue.broken = false ∧ ∀ fault, answer ≠ some (.fault fault) := by
  rcases step_cases h with ⟨thread, waiter, -, -, -, rfl, rfl⟩ | ⟨attempt, base, grants, yields⟩
  · exact ⟨unbroken, fun fault => nofun⟩
  · obtain ⟨-, -, hbroken⟩ := grants.base_eq
    cases yields with
    | broken isBroken => simp [isBroken] at unbroken
    | finish hbase decision =>
      refine ⟨hbroken ▸ hbase, fun fault hfault => ?_⟩
      exact decision.ne_fault (Option.some.inj hfault)
    | wait hbase decision => exact ⟨hbroken ▸ hbase, fun fault => nofun⟩
    | fail hbase decision => cases unbroken

/-- A lock is broken after a step exactly if it was broken before or the step has brought a
fault. -/
theorem broken_iff_of_step {queue next : Monitor T P} {move : Move T P}
    {answer : Option (Answer P)} (h : queue.step move = some (next, answer)) :
    next.broken = true ↔ queue.broken = true ∨ ∃ fault, answer = some (.fault fault) := by
  rcases step_cases h with ⟨thread, waiter, -, -, -, rfl, rfl⟩ | ⟨attempt, base, grants, yields⟩
  · simp [rousing]
  · obtain ⟨-, -, hbroken⟩ := grants.base_eq
    rw [← hbroken]
    cases yields with
    | broken isBroken => simp [isBroken]
    | finish unbroken decision =>
      simp only [unbroken, Bool.false_eq_true, false_or, false_iff, not_exists]
      exact fun fault hfault => decision.ne_fault (Option.some.inj hfault)
    | wait unbroken decision => simp [unbroken]
    | fail unbroken decision => simp

/-- A step that brings an answer other than a fault finds the lock whole and leaves it so. -/
theorem whole_of_answer {queue next : Monitor T P} {move : Move T P} {answer : Answer P}
    (h : queue.step move = some (next, some answer)) (value : ∀ fault, answer ≠ .fault fault) :
    queue.broken = false ∧ next.broken = false := by
  rcases step_cases h with ⟨thread, waiter, -, -, -, rfl, hanswer⟩ | ⟨attempt, base, grants, yields⟩
  · cases hanswer
  · obtain ⟨-, -, hbroken⟩ := grants.base_eq
    cases yields with
    | broken isBroken => exact absurd rfl (value _)
    | finish hbase decision => exact ⟨hbroken ▸ hbase, hbase⟩
    | fail hbase decision => exact absurd rfl (value _)

/-- Waking up without a signal changes nothing about the waiters but whether they sleep. -/
theorem map_lying_rousing (queue : Monitor T P) (thread : T) :
    (queue.rousing thread).waiters.map Waiter.lying = queue.waiters.map Waiter.lying := by
  simp only [rousing, List.map_map]
  apply List.map_congr_left
  intro waiter _
  by_cases hthread : waiter.thread = thread <;> simp [hthread, Waiter.lying]

/-- What holds of all calls that stay among the waiters, and of a call that falls asleep, holds of
all waiters after a step, if it does not depend on who sleeps. -/
theorem forall_of_step {queue next : Monitor T P} {move : Move T P} {answer : Option (Answer P)}
    {p : Waiter T P → Prop} (made : queue.step move = some (next, answer))
    (congr : ∀ waiter other, other.lying = waiter.lying → p waiter → p other)
    (rouse : ∀ thread, move = .rouse thread → ∀ waiter ∈ queue.waiters, p waiter)
    (stay : ∀ waiter ∈ queue.waiters, waiter.thread ≠ move.thread → p waiter)
    (join : ∀ attempt base condition, queue.Grants move attempt base →
      Decision base.terms attempt.late attempt.chance.shortage base.board attempt.request
        (.wait condition) →
      p (attempt.waiter condition)) : ∀ waiter ∈ next.waiters, p waiter := by
  rcases step_cases made with ⟨thread, _, hmove, -, -, rfl, -⟩ | ⟨attempt, base, grants, yields⟩
  · exact forall_of_map_lying (queue.map_lying_rousing thread) congr (rouse thread hmove)
  · have hbase : ∀ waiter ∈ base.waiters, p waiter := fun waiter hmem =>
      stay waiter (grants.subset hmem) (grants.thread_eq ▸ grants.absent waiter hmem)
    cases yields with
    | broken | fail => exact hbase
    | finish => exact forall_of_map_lying (map_lying_foldl_deliver _ _ _) congr hbase
    | @wait condition _ decision =>
      exact List.forall_mem_append.mpr
        ⟨hbase, List.forall_mem_singleton.mpr (join attempt base condition grants decision)⟩

/-- A waiting call is the only one of its thread among the waiters. -/
theorem waiters_split {queue : Monitor T P} {thread : T} {waiter : Waiter T P}
    (h : Orderly queue.waiters) (inside : queue.waiting? thread = some waiter) :
    ∃ before after, queue.waiters = before ++ waiter :: after ∧ waiter.thread = thread ∧
      ∀ other ∈ before ++ after, other.thread ≠ thread := by
  obtain ⟨hthread, before, after, hsplit, hbefore⟩ := List.find?_eq_some_iff_append.mp inside
  have hthread : waiter.thread = thread := by simpa using hthread
  have hdistinct := h.distinct
  simp only [hsplit, List.map_append, List.map_cons, hthread] at hdistinct
  obtain ⟨-, htail, -⟩ := List.nodup_append.mp hdistinct
  refine ⟨before, after, hsplit, hthread, ?_⟩
  intro other hother
  rcases List.mem_append.mp hother with hmem | hmem
  · simpa using hbefore other hmem
  · intro heq
    exact (List.nodup_cons.mp htail).1 (heq ▸ List.mem_map_of_mem hmem)

/-- A waiting call is the call of its thread. -/
theorem waiting?_of_mem {queue : Monitor T P} {waiter : Waiter T P} (h : Orderly queue.waiters)
    (hmem : waiter ∈ queue.waiters) : queue.waiting? waiter.thread = some waiter := by
  cases inside : queue.waiting? waiter.thread with
  | none => exact absurd rfl (absent_of_outside inside waiter hmem)
  | some other =>
    obtain ⟨before, after, hsplit, -, hothers⟩ := waiters_split h inside
    rw [hsplit, List.mem_append, List.mem_cons] at hmem
    rcases hmem with hbefore | rfl | hafter
    · exact absurd rfl (hothers waiter (List.mem_append_left _ hbefore))
    · rfl
    · exact absurd rfl (hothers waiter (List.mem_append_right _ hafter))

/-- The waiters without the waiting call of a thread. -/
theorem without_split {queue : Monitor T P} {thread : T} {waiter : Waiter T P}
    (h : Orderly queue.waiters) (inside : queue.waiting? thread = some waiter) :
    ∃ before after, queue.waiters = before ++ waiter :: after ∧
      (queue.without thread).waiters = before ++ after ∧ waiter.thread = thread := by
  obtain ⟨before, after, hsplit, hthread, hothers⟩ := waiters_split h inside
  refine ⟨before, after, hsplit, ?_, hthread⟩
  have hkeep : ∀ other ∈ before ++ after, decide (other.thread ≠ thread) = true :=
    fun other hother => decide_eq_true (hothers other hother)
  rw [← List.filter_eq_self.mpr hkeep]
  simp [without, hsplit, hthread]

/-- Waking up without a signal concerns the waiting call of one thread. -/
theorem rousing_split {queue : Monitor T P} {thread : T} {waiter : Waiter T P}
    (h : Orderly queue.waiters) (inside : queue.waiting? thread = some waiter) :
    ∃ before after, queue.waiters = before ++ waiter :: after ∧
      (queue.rousing thread).waiters =
        before ++ { waiter with sleep := .roused false } :: after := by
  obtain ⟨before, after, hsplit, hthread, hothers⟩ := waiters_split h inside
  have hkeep (others : List (Waiter T P)) (hsubset : others ⊆ before ++ after) :
      others.map (fun waiter => if waiter.thread = thread then
        { waiter with sleep := .roused false } else waiter) = others :=
    calc others.map (fun waiter => if waiter.thread = thread then
          { waiter with sleep := .roused false } else waiter)
        = others.map id :=
          List.map_congr_left fun other hother => if_neg (hothers other (hsubset hother))
      _ = others := List.map_id others
  refine ⟨before, after, hsplit, ?_⟩
  simp [rousing, hsplit, hthread, hkeep before, hkeep after]

/-- A waiting call and the waiters without it are all waiters. -/
theorem perm_without {queue : Monitor T P} {thread : T} {waiter : Waiter T P}
    (h : Orderly queue.waiters) (inside : queue.waiting? thread = some waiter) :
    queue.waiters.Perm (waiter :: (queue.without thread).waiters) := by
  obtain ⟨before, after, hsplit, hrest, -⟩ := without_split h inside
  rw [hsplit, hrest]
  exact List.perm_middle

/-- Whether a thread has a waiting call. -/
def Inside (queue : Monitor T P) (thread : T) : Prop := thread ∈ queue.waiters.map (·.thread)

/-- A waiting call stays inside the queue until its own thread goes on. -/
theorem Inside.step {queue next : Monitor T P} {move : Move T P} {answer : Option (Answer P)}
    {thread : T} (h : queue.Inside thread) (made : queue.step move = some (next, answer))
    (other : thread ≠ move.thread) : next.Inside thread := by
  rcases step_cases made with ⟨_, _, -, -, -, rfl, -⟩ | ⟨attempt, base, grants, yields⟩
  · rwa [Inside, map_thread_of_map_lying (queue.map_lying_rousing _)]
  · have hbase : base.Inside thread := by
      cases grants with
      | enter outside => exact h
      | resume inside awake =>
        obtain ⟨waiter, hmem, rfl⟩ := List.mem_map.mp h
        exact List.mem_map_of_mem (List.mem_filter.mpr ⟨hmem, decide_eq_true other⟩)
    cases yields with
    | broken isBroken => exact hbase
    | finish unbroken decision =>
      rwa [Inside, map_thread_of_map_lying (map_lying_foldl_deliver _ _ _)]
    | wait unbroken decision =>
      rw [Inside, List.map_append]
      exact List.mem_append_left _ hbase
    | fail unbroken decision => exact hbase

/-- A thread without a waiting call is outside the queue. -/
theorem waiting?_of_not_inside {queue : Monitor T P} {thread : T} (h : ¬ queue.Inside thread) :
    queue.waiting? thread = none := by
  cases inside : queue.waiting? thread with
  | none => rfl
  | some waiter =>
    have hthread : waiter.thread = thread := by simpa using List.find?_some inside
    exact absurd (hthread ▸ List.mem_map_of_mem (List.mem_of_find?_eq_some inside)) h

/-- While everybody in the queue is asleep, none of them is granted the lock. -/
theorem Grants.not_inside {queue base : Monitor T P} {move : Move T P} {attempt : Attempt T P}
    (h : queue.Grants move attempt base)
    (asleep : ∀ waiter ∈ queue.waiters, waiter.sleep = .asleep) :
    ¬ queue.Inside attempt.thread := by
  intro inside
  cases h with
  | enter outside =>
    obtain ⟨waiter, hmem, hthread⟩ := List.mem_map.mp inside
    exact absent_of_outside outside waiter hmem hthread
  | resume present awake =>
    have hasleep := asleep _ (List.mem_of_find?_eq_some present)
    rw [awake] at hasleep
    cases hasleep

end Monitor

namespace Orderly

/-- The waiters are orderly when the lock has been granted. -/
theorem grant {queue base : Monitor T P} {move : Move T P} {attempt : Attempt T P}
    (h : Orderly queue.waiters) (grants : queue.Grants move attempt base) :
    Orderly base.waiters := by
  cases grants with
  | enter outside => exact h
  | resume inside awake => exact h.sublist List.filter_sublist

/-- Every step leaves the waiters orderly. -/
theorem step {queue next : Monitor T P} {move : Move T P} {answer : Option (Answer P)}
    (h : Orderly queue.waiters) (made : queue.step move = some (next, answer)) :
    Orderly next.waiters := by
  rcases Monitor.step_cases made with
    ⟨thread, waiter, -, -, -, rfl, -⟩ | ⟨attempt, base, grants, yields⟩
  · exact h.congr (queue.map_lying_rousing thread)
  · have hbase := h.grant grants
    cases yields with
    | broken isBroken => exact hbase
    | finish unbroken decision => exact hbase.congr (map_lying_foldl_deliver _ _ _)
    | wait unbroken decision => exact hbase.append grants.absent decision.condition?_eq
    | fail unbroken decision => exact hbase

end Orderly

/-- The runs of a queue that is opened on some terms, with the steps that have been made, the first
one first. -/
inductive Run (terms : Terms) : List (Transition T P) → Monitor T P → Prop where
  | opened : Run terms [] (.opened terms)
  | step {history : List (Transition T P)} {queue next : Monitor T P} {move : Move T P}
      {answer : Option (Answer P)} (run : Run terms history queue)
      (made : queue.step move = some (next, answer)) :
      Run terms (history ++ [⟨queue, move, answer, next⟩]) next

/-- Make one move after another, as long as they are possible. -/
def Monitor.replay (queue : Monitor T P) :
    List (Move T P) → Option (List (Transition T P) × Monitor T P)
  | [] => some ([], queue)
  | move :: moves =>
    match queue.step move with
    | none => none
    | some (next, answer) =>
      (next.replay moves).map fun (history, last) => (⟨queue, move, answer, next⟩ :: history, last)

namespace Monitor

variable {queue last : Monitor T P} {move : Move T P} {moves : List (Move T P)}

/-- Without a move, nothing happens. -/
theorem replay_nil {all : List (Transition T P)} (h : queue.replay [] = some (all, last)) :
    all = [] ∧ last = queue := by
  simp only [replay, Option.some.injEq, Prod.mk.injEq] at h
  exact ⟨h.1.symm, h.2.symm⟩

/-- Moves are made one after the other. -/
theorem replay_cons {all : List (Transition T P)}
    (h : queue.replay (move :: moves) = some (all, last)) :
    ∃ next answer more, queue.step move = some (next, answer) ∧
      next.replay moves = some (more, last) ∧ all = ⟨queue, move, answer, next⟩ :: more := by
  simp only [replay] at h
  cases made : queue.step move with
  | none => simp [made] at h
  | some result =>
    obtain ⟨next, answer⟩ := result
    simp only [made] at h
    obtain ⟨⟨more, last⟩, hmore, hall⟩ := Option.map_eq_some_iff.mp h
    simp only [Prod.mk.injEq] at hall
    obtain ⟨rfl, rfl⟩ := hall
    exact ⟨next, answer, more, rfl, hmore, rfl⟩

/-- What every step keeps is kept by moves that are made one after the other. -/
theorem replay_keeps {p : Monitor T P → Prop} {more : List (Transition T P)}
    (keeps : ∀ queue move answer next, p queue → queue.step move = some (next, answer) → p next)
    (h : p queue) (made : queue.replay moves = some (more, last)) : p last := by
  induction moves generalizing queue more with
  | nil =>
    obtain ⟨-, rfl⟩ := replay_nil made
    exact h
  | cons move moves ih =>
    obtain ⟨next, answer, rest, hstep, hrest, -⟩ := replay_cons made
    exact ih (keeps queue move answer next h hstep) hrest

/-- The state before each step has been reached by the steps before it. -/
theorem replay_split {before after : List (Transition T P)} {transition : Transition T P}
    (h : queue.replay moves = some (before ++ transition :: after, last)) :
    ∃ earlier, queue.replay earlier = some (before, transition.before) ∧
      transition.before.step transition.move = some (transition.after, transition.answer) := by
  induction moves generalizing queue before with
  | nil => simp [replay] at h
  | cons move moves ih =>
    obtain ⟨next, answer, rest, hstep, hrest, hall⟩ := replay_cons h
    cases before with
    | nil =>
      obtain ⟨rfl, rfl⟩ := List.cons.inj hall
      exact ⟨[], rfl, hstep⟩
    | cons first before =>
      obtain ⟨rfl, rfl⟩ := List.cons.inj hall
      obtain ⟨earlier, hearlier, htransition⟩ := ih hrest
      exact ⟨move :: earlier, by simp [replay, hstep, hearlier], htransition⟩

end Monitor

namespace Run

variable {terms : Terms} {history : List (Transition T P)} {queue : Monitor T P}

/-- A run keeps the terms of the queue. -/
theorem terms_eq (run : Run terms history queue) : queue.terms = terms := by
  induction run with
  | opened => rfl
  | step run made ih => rw [Monitor.step_terms made, ih]

/-- Moves that can be made continue a run. -/
theorem replay (run : Run terms history queue) {moves : List (Move T P)}
    {more : List (Transition T P)} {last : Monitor T P}
    (h : queue.replay moves = some (more, last)) : Run terms (history ++ more) last := by
  induction moves generalizing history queue more with
  | nil =>
    obtain ⟨rfl, rfl⟩ := Monitor.replay_nil h
    simpa using run
  | cons move moves ih =>
    obtain ⟨next, answer, rest, made, hrest, rfl⟩ := Monitor.replay_cons h
    simpa using ih (run.step made) hrest

/-- The state before a step of a run has been reached by a part of the run. -/
theorem before_mem (run : Run terms history queue) {transition : Transition T P}
    (h : transition ∈ history) : ∃ earlier, Run terms earlier transition.before := by
  induction run with
  | opened => simp at h
  | step run made ih =>
    rcases List.mem_append.mp h with hold | hnew
    · exact ih hold
    · rw [List.mem_singleton.mp hnew]
      exact ⟨_, run⟩

/-- Every step of a run has been made. -/
theorem step_mem (run : Run terms history queue) {transition : Transition T P}
    (h : transition ∈ history) :
    transition.before.step transition.move = some (transition.after, transition.answer) := by
  induction run with
  | opened => simp at h
  | step run made ih =>
    rcases List.mem_append.mp h with hold | hnew
    · exact ih hold
    · rw [List.mem_singleton.mp hnew]
      exact made

/-- The state that a run has reached is one of its states. -/
theorem mem_states (run : Run terms history queue) : queue ∈ states terms history := by
  cases run with
  | opened => exact List.mem_cons_self
  | step run made => simp [states]

/-- Every state of a run has been reached by a part of the run. -/
theorem of_mem_states (run : Run terms history queue) {state : Monitor T P}
    (h : state ∈ states terms history) : ∃ earlier, Run terms earlier state := by
  induction run with
  | opened =>
    rw [List.mem_singleton.mp h]
    exact ⟨[], .opened⟩
  | step run made ih =>
    rw [states_append] at h
    rcases List.mem_append.mp h with hold | hnew
    · exact ih hold
    · rw [List.mem_singleton.mp hnew]
      exact ⟨_, run.step made⟩

/-- The waiters of a run are orderly. -/
theorem orderly (run : Run terms history queue) : Orderly queue.waiters := by
  induction run with
  | opened => exact ⟨List.nodup_nil, by simp [Monitor.opened]⟩
  | step run made ih => exact ih.step made

end Run

end OrderRail.Queue
