import OrderRail.Queue.Monitor

/-!
# What signals do to the waiting calls

A signal changes nothing about a waiting call but whether it sleeps. One that is meant for a single
sleeper rouses exactly one of those on its condition, if there are any, and leaves the others alone;
one that is meant for all leaves nobody asleep on its condition.

A call that a signal has reached and that has not gone on yet is counted as called. The counts of
sleepers and of called calls are all that the wakeup theorems need to know about the waiters.
-/

namespace OrderRail.Queue

variable {T P : Type}

namespace Waiter

/-- The waiter as it was when it fell asleep. -/
def lying (waiter : Waiter T P) : Waiter T P := { waiter with sleep := .asleep }

/-- Whether a signal on a condition has reached this waiter, which has not gone on yet. -/
def calledOn (condition : Condition) (waiter : Waiter T P) : Bool :=
  waiter.sleep == .roused true && waiter.condition == condition

/-- A signal changes nothing about a waiter but that it wakes up. -/
@[simp]
theorem lying_signalled (waiter : Waiter T P) : waiter.signalled.lying = waiter.lying := rfl

/-- Whose call it is does not depend on who sleeps. -/
theorem thread_of_lying {waiter other : Waiter T P} (same : other.lying = waiter.lying) :
    other.thread = waiter.thread := congrArg (·.thread) same

/-- What is asked does not depend on who sleeps. -/
theorem request_of_lying {waiter other : Waiter T P} (same : other.lying = waiter.lying) :
    other.request = waiter.request := congrArg (·.request) same

/-- A waiter that has been signalled does not sleep any more. -/
@[simp]
theorem sleepsOn_signalled (condition : Condition) (waiter : Waiter T P) :
    waiter.signalled.sleepsOn condition = false := rfl

/-- A waiter that has been signalled is called on its own condition. -/
@[simp]
theorem calledOn_signalled (condition : Condition) (waiter : Waiter T P) :
    waiter.signalled.calledOn condition = (waiter.condition == condition) := by
  simp [calledOn, signalled]

/-- A waiter sleeps on a condition if it sleeps at all and waits for that condition. -/
theorem sleepsOn_iff {condition : Condition} {waiter : Waiter T P} :
    waiter.sleepsOn condition = true ↔ waiter.sleep = .asleep ∧ waiter.condition = condition := by
  simp [sleepsOn]

/-- A waiter is called on a condition if a signal roused it and it waits for that condition. -/
theorem calledOn_iff {condition : Condition} {waiter : Waiter T P} :
    waiter.calledOn condition = true ↔
      waiter.sleep = .roused true ∧ waiter.condition = condition := by
  simp [calledOn]

end Waiter

/-- What holds of all waiters and does not depend on who sleeps holds of those that are left when
others of them sleep. -/
theorem forall_of_lying_subset {waiters others : List (Waiter T P)} {p : Waiter T P → Prop}
    (left : others.map Waiter.lying ⊆ waiters.map Waiter.lying)
    (congr : ∀ waiter other, other.lying = waiter.lying → p waiter → p other)
    (h : ∀ waiter ∈ waiters, p waiter) : ∀ other ∈ others, p other := by
  intro other hother
  obtain ⟨waiter, hwaiter, heq⟩ := List.mem_map.mp (left (List.mem_map_of_mem hother))
  exact congr waiter other heq.symm (h waiter hwaiter)

/-- What holds of all waiters and does not depend on who sleeps holds of the same waiters when
others of them sleep. -/
theorem forall_of_map_lying {waiters others : List (Waiter T P)} {p : Waiter T P → Prop}
    (same : others.map Waiter.lying = waiters.map Waiter.lying)
    (congr : ∀ waiter other, other.lying = waiter.lying → p waiter → p other)
    (h : ∀ waiter ∈ waiters, p waiter) : ∀ other ∈ others, p other :=
  forall_of_lying_subset (same ▸ List.Subset.refl _) congr h

/-- The threads of the waiters do not depend on who sleeps. -/
theorem map_thread_of_map_lying {waiters others : List (Waiter T P)}
    (same : others.map Waiter.lying = waiters.map Waiter.lying) :
    others.map (·.thread) = waiters.map (·.thread) := by
  have hthreads := congrArg (List.map (·.thread)) same
  rw [List.map_map, List.map_map] at hthreads
  exact hthreads

/-- The requests of the waiters do not depend on who sleeps. -/
theorem map_request_of_map_lying {waiters others : List (Waiter T P)}
    (same : others.map Waiter.lying = waiters.map Waiter.lying) :
    others.map (·.request) = waiters.map (·.request) := by
  have hrequests := congrArg (List.map (·.request)) same
  rw [List.map_map, List.map_map] at hrequests
  exact hrequests

/-- How many calls wait does not depend on who sleeps. -/
theorem length_of_map_lying {waiters others : List (Waiter T P)}
    (same : others.map Waiter.lying = waiters.map Waiter.lying) :
    others.length = waiters.length := by
  simpa using congrArg List.length same

/-- How many calls sleep on a condition. -/
def sleepers (condition : Condition) (waiters : List (Waiter T P)) : Nat :=
  waiters.countP (·.sleepsOn condition)

/-- How many calls have been called on a condition and have not gone on yet. -/
def called (condition : Condition) (waiters : List (Waiter T P)) : Nat :=
  waiters.countP (·.calledOn condition)

/-- A signal for one sleeper reaches the one that has `skip` sleepers before it. -/
theorem signalNth_split (condition : Condition) (skip : Nat) (waiters : List (Waiter T P))
    (h : skip < sleepers condition waiters) :
    ∃ before waiter after, waiters = before ++ waiter :: after ∧
      waiter.sleepsOn condition = true ∧ sleepers condition before = skip ∧
      signalNth condition skip waiters = before ++ waiter.signalled :: after := by
  induction waiters generalizing skip with
  | nil => simp [sleepers] at h
  | cons first rest ih =>
    by_cases hfirst : first.sleepsOn condition = true
    · cases skip with
      | zero => exact ⟨[], first, rest, rfl, hfirst, rfl, by simp [signalNth, hfirst]⟩
      | succ skip =>
        have hrest : skip < sleepers condition rest := by
          simpa [sleepers, hfirst] using h
        obtain ⟨before, waiter, after, rfl, hsleeps, hskip, hsignal⟩ := ih skip hrest
        refine ⟨first :: before, waiter, after, rfl, hsleeps, ?_, ?_⟩
        · simpa [sleepers, hfirst] using hskip
        · simp [signalNth, hfirst, hsignal]
    · have hrest : skip < sleepers condition rest := by
        simpa [sleepers, hfirst] using h
      obtain ⟨before, waiter, after, rfl, hsleeps, hskip, hsignal⟩ := ih skip hrest
      refine ⟨first :: before, waiter, after, rfl, hsleeps, ?_, ?_⟩
      · simpa [sleepers, hfirst] using hskip
      · simp [signalNth, hfirst, hsignal]

/-- Where nobody sleeps on its condition, a signal for one sleeper changes nothing. -/
theorem signalNth_of_no_sleepers (condition : Condition) (skip : Nat)
    (waiters : List (Waiter T P)) (h : sleepers condition waiters = 0) :
    signalNth condition skip waiters = waiters := by
  induction waiters with
  | nil => rfl
  | cons first rest ih =>
    have hfirst : ¬ first.sleepsOn condition = true := by
      intro hsleeps
      simp [sleepers, hsleeps] at h
    have hrest : sleepers condition rest = 0 := by simpa [sleepers, hfirst] using h
    simp [signalNth, hfirst, ih hrest]

/-- A signal for one sleeper either finds nobody or rouses exactly one sleeper on its condition. -/
theorem deliver_one_cases (choice : Nat) (condition : Condition) (waiters : List (Waiter T P)) :
    (sleepers condition waiters = 0 ∧
        Signal.deliver choice waiters (.one condition) = waiters) ∨
      ∃ before waiter after, waiters = before ++ waiter :: after ∧
        waiter.sleepsOn condition = true ∧
        Signal.deliver choice waiters (.one condition) = before ++ waiter.signalled :: after := by
  by_cases hnone : sleepers condition waiters = 0
  · exact .inl ⟨hnone, signalNth_of_no_sleepers condition _ waiters hnone⟩
  · have hskip : choice % sleepers condition waiters < sleepers condition waiters :=
      Nat.mod_lt _ (by omega)
    obtain ⟨before, waiter, after, hsplit, hsleeps, -, hsignal⟩ :=
      signalNth_split condition _ waiters hskip
    exact .inr ⟨before, waiter, after, hsplit, hsleeps, hsignal⟩

/-- A signal changes nothing about the waiters but whether they sleep. -/
@[simp]
theorem map_lying_deliver (choice : Nat) (waiters : List (Waiter T P)) (signal : Signal) :
    (Signal.deliver choice waiters signal).map Waiter.lying = waiters.map Waiter.lying := by
  cases signal with
  | one condition =>
    rcases deliver_one_cases choice condition waiters with
      ⟨-, h⟩ | ⟨before, waiter, after, rfl, -, h⟩
    · rw [h]
    · simp [h]
  | all condition =>
    simp only [Signal.deliver, List.map_map]
    apply List.map_congr_left
    intro waiter _
    by_cases hsleeps : waiter.sleepsOn condition = true <;> simp [hsleeps]

/-- A signal for one sleeper calls one if there is any. -/
theorem counts_deliver_one (choice : Nat) (condition : Condition) (waiters : List (Waiter T P)) :
    sleepers condition (Signal.deliver choice waiters (.one condition)) =
        sleepers condition waiters - 1 ∧
      called condition (Signal.deliver choice waiters (.one condition)) =
        called condition waiters + min 1 (sleepers condition waiters) := by
  rcases deliver_one_cases choice condition waiters with
    ⟨hnone, h⟩ | ⟨before, waiter, after, rfl, hsleeps, h⟩
  · rw [h, hnone]
    exact ⟨rfl, rfl⟩
  · have hwaiter := Waiter.sleepsOn_iff.mp hsleeps
    have hcalled : waiter.calledOn condition = false := by simp [Waiter.calledOn, hwaiter]
    rw [h]
    simp only [sleepers, called, List.countP_append, List.countP_cons, hsleeps, hcalled,
      Waiter.sleepsOn_signalled, Waiter.calledOn_signalled, hwaiter.2, beq_self_eq_true]
    simp only [Bool.false_eq_true, if_false, if_true]
    omega

/-- A signal for one sleeper leaves those on the other condition alone. -/
theorem counts_deliver_one_of_ne (choice : Nat) {condition other : Condition}
    (hne : other ≠ condition) (waiters : List (Waiter T P)) :
    sleepers other (Signal.deliver choice waiters (.one condition)) = sleepers other waiters ∧
      called other (Signal.deliver choice waiters (.one condition)) = called other waiters := by
  rcases deliver_one_cases choice condition waiters with
    ⟨-, h⟩ | ⟨before, waiter, after, rfl, hsleeps, h⟩
  · rw [h]
    exact ⟨rfl, rfl⟩
  · have hwaiter := Waiter.sleepsOn_iff.mp hsleeps
    have hcondition : (waiter.condition == other) = false := by
      simpa [hwaiter.2] using Ne.symm hne
    have hother : waiter.sleepsOn other = false := by simp [Waiter.sleepsOn, hcondition]
    have hcalled : waiter.calledOn other = false := by simp [Waiter.calledOn, hcondition]
    rw [h]
    simp [sleepers, called, hother, hcalled, hcondition]

/-- After a signal for all, nobody sleeps on its condition. -/
theorem sleepers_deliver_all (choice : Nat) (condition : Condition) (waiters : List (Waiter T P)) :
    sleepers condition (Signal.deliver choice waiters (.all condition)) = 0 := by
  simp only [sleepers, Signal.deliver, List.countP_eq_zero, List.mem_map]
  rintro _ ⟨waiter, -, rfl⟩
  by_cases hsleeps : waiter.sleepsOn condition = true <;> simp [hsleeps]

/-- A signal for all leaves those on the other condition alone. -/
theorem counts_deliver_all_of_ne (choice : Nat) {condition other : Condition}
    (hne : other ≠ condition) (waiters : List (Waiter T P)) :
    sleepers other (Signal.deliver choice waiters (.all condition)) = sleepers other waiters ∧
      called other (Signal.deliver choice waiters (.all condition)) = called other waiters := by
  simp only [sleepers, called, Signal.deliver, List.countP_map]
  constructor
  all_goals
    apply List.countP_congr
    intro waiter _
    by_cases hsleeps : waiter.sleepsOn condition = true
    · have hwaiter := Waiter.sleepsOn_iff.mp hsleeps
      have hcondition : (waiter.condition == other) = false := by
        simpa [hwaiter.2] using Ne.symm hne
      simp only [Function.comp_apply, hsleeps, if_true]
      simp [Waiter.sleepsOn, Waiter.calledOn, hcondition, Waiter.signalled]
    · simp [hsleeps]

/-- Signals change nothing about the waiters but whether they sleep. -/
theorem map_lying_foldl_deliver (choice : Nat) (signals : List Signal)
    (waiters : List (Waiter T P)) :
    (signals.foldl (Signal.deliver choice) waiters).map Waiter.lying =
      waiters.map Waiter.lying := by
  induction signals generalizing waiters with
  | nil => rfl
  | cons signal rest ih => rw [List.foldl_cons, ih, map_lying_deliver]

end OrderRail.Queue
