import Mathlib.Data.List.Forall2
import OrderRail.Program.Benchmark
import OrderRail.Proofs.Bench.Sweep
import OrderRail.Proofs.Program.Console
import OrderRail.Proofs.Shift.Feasible

/-!
# What benchmarks make of bad sizes

Sizes that fail their check end a benchmark or a stress test before anything is shown. Sizes that
pass it may still be too large together: no check looks at the product of customers and orders, and
if no counter can hold it, the shift stops with a fault where it computes the number of orders that
it expects. That comes before anything else of the shift, but in a stress test the header and the
rows of earlier shifts have been shown by then.

Whatever the surroundings of its shifts, a stress test shows their rows one after another, up to the
first shift that fails.
-/

namespace OrderRail.Program

open Shift (Config Report Surroundings)
open Bench (Measurement Sweep)

variable {validate : Bool} {surroundings : Surroundings} {config : Config}

/-- What is measured when a shift has come to a report. -/
def measured (config : Config) (report : Report) : Measurement :=
  { config, report, cpuUser := some 0.0, cpuSystem := some 0.0 }

/-- A row shows a shift if the shift comes to a report in its surroundings and the row is made of
it. -/
def Shows (validate : Bool) (shift : Config × Surroundings) (row : String) : Prop :=
  ∃ report, (Shift.run shift.1 validate shift.2).outcome = .ok report ∧
    row = (measured shift.1 report).row

/-- What comes of the rows of some shifts: each shift is shown by its row, up to the first that
fails, and that one ends the rows with its failure. -/
inductive Shown (validate : Bool) :
    List (Config × Surroundings) → List String → Except Failure Unit → Prop where
  | done : Shown validate [] [] (.ok ())
  | shown {shift : Config × Surroundings} {others : List (Config × Surroundings)} {row : String}
      {rows : List String} {result : Except Failure Unit} (first : Shows validate shift row)
      (rest : Shown validate others rows result) :
      Shown validate (shift :: others) (row :: rows) result
  | failed {shift : Config × Surroundings} {others : List (Config × Surroundings)}
      {failure : Failure} (fails : (Shift.run shift.1 validate shift.2).outcome = .error failure) :
      Shown validate (shift :: others) [] (.error failure)

namespace Shown

variable {shifts before later : List (Config × Surroundings)} {shift : Config × Surroundings}
  {rows : List String} {result : Except Failure Unit} {failure : Failure}

/-- All shifts have their rows, or there is a first one that fails. -/
theorem all_or_first (h : Shown validate shifts rows result) :
    (result = .ok () ∧ List.Forall₂ (Shows validate) shifts rows) ∨
      ∃ before shift later failure, shifts = before ++ shift :: later ∧
        (Shift.run shift.1 validate shift.2).outcome = .error failure ∧ result = .error failure ∧
        List.Forall₂ (Shows validate) before rows := by
  induction h with
  | done => exact .inl ⟨rfl, .nil⟩
  | @shown shift others row rows result first rest ih =>
    rcases ih with ⟨hresult, hrows⟩ | ⟨before, last, later, failure, rfl, fails, hresult, hrows⟩
    · exact .inl ⟨hresult, .cons first hrows⟩
    · exact .inr ⟨shift :: before, last, later, failure, rfl, fails, hresult, .cons first hrows⟩
  | @failed shift others failure fails =>
    exact .inr ⟨[], shift, others, failure, rfl, fails, rfl, .nil⟩

/-- If all shifts come to reports, all have their rows. -/
theorem all (h : Shown validate shifts rows result)
    (ends : ∀ shift ∈ shifts, ∃ report,
      (Shift.run shift.1 validate shift.2).outcome = .ok report) :
    result = .ok () ∧ List.Forall₂ (Shows validate) shifts rows := by
  rcases h.all_or_first with hall | ⟨before, shift, later, failure, rfl, fails, -⟩
  · exact hall
  · obtain ⟨report, hreport⟩ := ends shift (List.mem_append_right _ List.mem_cons_self)
    cases fails.symm.trans hreport

/-- A shift that fails behind others that come to reports is the first that fails. -/
theorem stops (h : Shown validate (before ++ shift :: later) rows result)
    (ends : ∀ earlier ∈ before, ∃ report,
      (Shift.run earlier.1 validate earlier.2).outcome = .ok report)
    (fails : (Shift.run shift.1 validate shift.2).outcome = .error failure) :
    result = .error failure ∧ List.Forall₂ (Shows validate) before rows := by
  induction before generalizing rows with
  | nil =>
    cases h with
    | shown first rest =>
      obtain ⟨report, hreport, -⟩ := first
      cases fails.symm.trans hreport
    | failed fails' =>
      cases fails.symm.trans fails'
      exact ⟨rfl, .nil⟩
  | cons earlier before ih =>
    obtain ⟨hfirst, hothers⟩ := List.forall_mem_cons.mp ends
    cases h with
    | shown first rest =>
      obtain ⟨hresult, hrows⟩ := ih rest hothers
      exact ⟨hresult, .cons first hrows⟩
    | failed fails' =>
      obtain ⟨report, hreport⟩ := hfirst
      cases fails'.symm.trans hreport

end Shown

/-- A shift that comes to a report is measured, and nothing is printed yet. -/
theorem after_measure_ok {report : Report}
    (h : (Shift.run config validate surroundings).outcome = .ok report) (shown : Transcript) :
    ∃ next, next.out = shown.out ∧
      (measure config validate surroundings).after shown =
        (.ok (measured config report), next) := by
  refine ⟨{ shown with
    journal := shown.journal ++ (Shift.run config validate surroundings).journal }, rfl, ?_⟩
  rw [measure, Console.after_bind, Console.after_shift, h]
  exact Console.after_pure ..

/-- A shift that fails is not measured, and nothing is printed. -/
theorem after_measure_error {failure : Failure}
    (h : (Shift.run config validate surroundings).outcome = .error failure)
    (shown : Transcript) :
    (measure config validate surroundings).after shown =
      (.error failure,
        { shown with
          journal := shown.journal ++ (Shift.run config validate surroundings).journal }) := by
  rw [measure, Console.after_bind, Console.after_shift, h]

/-- The row of a measured shift is printed. -/
theorem after_showRow (measured : Measurement) (validate : Bool) (shown : Transcript) :
    ∃ next, next.out = shown.out ++ [measured.row] ∧
      (showRow measured validate).after shown = (.ok (), next) := by
  refine ⟨{ shown with
    out := shown.out ++ [measured.row]
    remarks := shown.remarks ++ measured.issues validate }, rfl, ?_⟩
  rw [showRow, Console.after_bind, Console.after_print]
  exact Console.after_remark ..

/-- Rows are printed behind what has been printed, up to the first shift that fails. -/
theorem after_showRows (validate : Bool) (shifts : List (Config × Surroundings))
    (shown : Transcript) :
    ∃ rows result next, Shown validate shifts rows result ∧ next.out = shown.out ++ rows ∧
      (showRows validate shifts).after shown = (result, next) := by
  induction shifts generalizing shown with
  | nil => exact ⟨[], .ok (), shown, .done, (List.append_nil _).symm, rfl⟩
  | cons shift shifts ih =>
    obtain ⟨config, surroundings⟩ := shift
    cases houtcome : (Shift.run config validate surroundings).outcome with
    | error failure =>
      refine ⟨[], .error failure,
        { shown with
          journal := shown.journal ++ (Shift.run config validate surroundings).journal },
        .failed houtcome, (List.append_nil _).symm, ?_⟩
      rw [showRows, Console.after_bind, after_measure_error houtcome]
    | ok report =>
      obtain ⟨started, hstarted, hmeasure⟩ := after_measure_ok houtcome shown
      obtain ⟨printed, hprinted, hrow⟩ := after_showRow (measured config report) validate started
      obtain ⟨rows, result, next, hrows, hnext, hothers⟩ := ih printed
      refine ⟨(measured config report).row :: rows, result, next,
        .shown ⟨report, houtcome, rfl⟩ hrows, ?_, ?_⟩
      · rw [hnext, hprinted, hstarted, List.append_assoc, List.singleton_append]
      · rw [showRows, Console.after_bind, hmeasure]
        simp only [Console.after_bind, hrow, hothers]

/-- The stress test of a sweep that fails its check shows nothing. -/
theorem stress_of_invalid {sweep : Sweep} {error : ConfigError}
    (refused : sweep.validate = .error error) (surroundings : Nat → Surroundings) :
    (stress sweep validate surroundings).perform =
      (.error (.error (.config error)), .blank) := by
  rw [Console.perform_eq, stress, Console.after_bind, refused, Console.after_require_error]

/-- The stress test of a sweep that passes its check prints the header and then the rows of its
shifts, up to the first that fails. -/
theorem stress_of_valid {sweep : Sweep} (accepted : sweep.validate = .ok ()) (validate : Bool)
    (surroundings : Nat → Surroundings) :
    ∃ rows result next, Shown validate (planned sweep surroundings) rows result ∧
      next.out = Bench.header :: rows ∧
      (stress sweep validate surroundings).perform = (result, next) := by
  obtain ⟨rows, result, next, hrows, hnext, hshown⟩ := after_showRows validate
    (planned sweep surroundings) { Transcript.blank with out := [Bench.header] }
  refine ⟨rows, result, next, hrows, hnext, ?_⟩
  rw [Console.perform_eq, stress, Console.after_bind, accepted, Console.after_require_ok]
  simp only [Console.after_bind, Console.after_print]
  exact hshown

/-- A benchmark whose sizes fail their check shows nothing. -/
theorem benchmark_of_invalid {error : ConfigError} (refused : config.validate = .error error) :
    (benchmark config validate surroundings).perform =
      (.error (.error (.config error)), .blank) := by
  rw [Console.perform_eq, benchmark, Console.after_bind, refused, Console.after_require_error]

/-- A benchmark whose shift fails shows the journal of the shift. -/
theorem benchmark_of_error {failure : Failure} (valid : config.validate = .ok ())
    (h : (Shift.run config validate surroundings).outcome = .error failure) :
    (benchmark config validate surroundings).perform =
      (.error failure,
        { Transcript.blank with
          journal := (Shift.run config validate surroundings).journal }) := by
  rw [Console.perform_eq, benchmark, Console.after_bind, valid, Console.after_require_ok]
  simp only [Console.after_bind, after_measure_error h]
  rfl

/-- A benchmark whose shift comes to a report prints the header and the row. -/
theorem benchmark_of_ok {report : Report} (valid : config.validate = .ok ())
    (h : (Shift.run config validate surroundings).outcome = .ok report) :
    ∃ next, next.out = [Bench.header, (measured config report).row] ∧
      (benchmark config validate surroundings).perform = (.ok (), next) := by
  obtain ⟨started, hstarted, hmeasure⟩ := after_measure_ok h .blank
  obtain ⟨printed, hprinted, hrow⟩ := after_showRow (measured config report) validate
    { started with out := started.out ++ [Bench.header] }
  refine ⟨printed, by rw [hprinted, hstarted]; rfl, ?_⟩
  rw [Console.perform_eq, benchmark, Console.after_bind, valid, Console.after_require_ok]
  simp only [Console.after_bind, hmeasure, Console.after_print, hrow]

/-- The shift at a place of a sweep is run in the surroundings for that place. -/
theorem mem_planned {sweep : Sweep} {surroundings : Nat → Surroundings}
    {shift : Config × Surroundings} (h : shift ∈ planned sweep surroundings) :
    ∃ place < sweep.configs.length, shift.1 ∈ sweep.configs ∧ shift.2 = surroundings place := by
  obtain ⟨place, hplace, rfl⟩ := List.mem_mapIdx.mp h
  exact ⟨place, hplace, List.getElem_mem hplace, rfl⟩

/-- The shifts of a sweep before and behind one of them, in their surroundings. -/
theorem planned_split {sweep : Sweep} {before later : List Config}
    (split : sweep.configs = before ++ config :: later) (surroundings : Nat → Surroundings) :
    ∃ others, planned sweep surroundings =
      before.mapIdx (fun place config => (config, surroundings place)) ++
        (config, surroundings before.length) :: others := by
  rw [planned, split, List.mapIdx_append, List.mapIdx_cons, Nat.zero_add]
  exact ⟨_, rfl⟩

/-- Sizes that fail their check are reported before anything is done or shown. Sizes that pass it
are added up exactly, unless no counter can hold the number of orders, which neither check looks at:
then the shift does nothing but stop with a fault, and so does a benchmark of it. All shifts of a
sweep that passes its check pass theirs.

If the system denies neither threads nor memory, a benchmark of a feasible shift shows its row, and
one of a shift with lists that no memory could address, which passes the checks too, fails where it
makes room for the first of these lists. A stress test whose shifts are all feasible shows a row for
each; a shift that fails in any way behind feasible ones stops it in the middle, after their
rows. -/
theorem only_products_escape_checks (validate : Bool) :
    (∀ config : Config, config.expectedOrders =
      if config.totalOrders < Count.wordSize then .ok config.totalOrders
      else .error .mulOverflow) ∧
    (∀ (config : Config) (error : ConfigError) (surroundings : Surroundings),
      config.validate = .error error →
      Shift.run config validate surroundings =
          { outcome := .error (.error (.config error)), journal := [] } ∧
        (benchmark config validate surroundings).perform =
          (.error (.error (.config error)), .blank)) ∧
    (∀ (config : Config) (surroundings : Surroundings), config.validate = .ok () →
      (Count.wordSize ≤ config.totalOrders →
        Shift.run config validate surroundings =
            { outcome := .error (.fault .mulOverflow), journal := [] } ∧
          (benchmark config validate surroundings).perform =
            (.error (.fault .mulOverflow), .blank)) ∧
      (surroundings.Generous → config.Feasible validate →
        ∃ row next, Shows validate (config, surroundings) row ∧
          next.out = [Bench.header, row] ∧
          (benchmark config validate surroundings).perform = (.ok (), next)) ∧
      (surroundings.Generous → config.totalOrders < Count.wordSize →
        config.Unreservable validate →
        (Shift.run config validate surroundings).outcome = .error (.fault .storageOverflow) ∧
          (benchmark config validate surroundings).perform =
            (.error (.fault .storageOverflow),
              { Transcript.blank with
                journal := (Shift.run config validate surroundings).journal }))) ∧
    (∀ (sweep : Sweep) (error : ConfigError) (surroundings : Nat → Surroundings),
      sweep.validate = .error error →
      (stress sweep validate surroundings).perform =
        (.error (.error (.config error)), .blank)) ∧
    ∀ (sweep : Sweep) (surroundings : Nat → Surroundings), sweep.validate = .ok () →
      (∀ config ∈ sweep.configs, config.validate = .ok ()) ∧
      ((∀ place < sweep.configs.length, (surroundings place).Generous) →
        (∀ config ∈ sweep.configs, config.Feasible validate) →
        ∃ rows next, List.Forall₂ (Shows validate) (planned sweep surroundings) rows ∧
          next.out = Bench.header :: rows ∧
          (stress sweep validate surroundings).perform = (.ok (), next)) ∧
      ∀ before config later failure, sweep.configs = before ++ config :: later →
        (∀ place < before.length, (surroundings place).Generous) →
        (∀ earlier ∈ before, earlier.Feasible validate) →
        (Shift.run config validate (surroundings before.length)).outcome = .error failure →
        ∃ rows next, List.Forall₂ (Shows validate)
            (before.mapIdx fun place config => (config, surroundings place)) rows ∧
          next.out = Bench.header :: rows ∧
          (stress sweep validate surroundings).perform = (.error failure, next) := by
  refine ⟨Config.expectedOrders_eq, ?_, ?_, ?_, ?_⟩
  · intro config error surroundings refused
    exact ⟨Shift.run_of_invalid refused, benchmark_of_invalid refused⟩
  · intro config surroundings valid
    refine ⟨fun uncountable => ?_, fun generous feasible => ?_,
      fun generous countable unreservable => ?_⟩
    · have hrun := Shift.run_of_uncountable valid uncountable validate surroundings
      refine ⟨hrun, ?_⟩
      rw [benchmark_of_error valid (congrArg Shift.Run.outcome hrun), hrun]
      rfl
    · obtain ⟨report, hreport⟩ := feasible.reports valid generous
      obtain ⟨next, hnext, hshown⟩ := benchmark_of_ok valid hreport
      exact ⟨_, next, ⟨report, hreport, rfl⟩, hnext, hshown⟩
    · have hrun := Shift.run_of_unreservable valid countable unreservable generous
      exact ⟨hrun, benchmark_of_error valid hrun⟩
  · exact fun sweep error surroundings refused => stress_of_invalid refused surroundings
  · intro sweep surroundings accepted
    have valid (config : Config) (hmem : config ∈ sweep.configs) : config.validate = .ok () :=
      Sweep.valid_of_mem accepted hmem
    obtain ⟨rows, result, next, hrows, hnext, hshown⟩ :=
      stress_of_valid accepted validate surroundings
    refine ⟨valid, fun generous feasible => ?_,
      fun before config later failure split generous feasible fails => ?_⟩
    · obtain ⟨rfl, hall⟩ := hrows.all fun shift hmem => by
        obtain ⟨place, hplace, hconfig, hplaced⟩ := mem_planned hmem
        exact (feasible _ hconfig).reports (valid _ hconfig) (hplaced ▸ generous place hplace)
      exact ⟨rows, next, hall, hnext, hshown⟩
    · obtain ⟨others, hplanned⟩ := planned_split split surroundings
      rw [hplanned] at hrows
      have ends (shift : Config × Surroundings)
          (hmem : shift ∈ before.mapIdx fun place config => (config, surroundings place)) :
          ∃ report, (Shift.run shift.1 validate shift.2).outcome = .ok report := by
        obtain ⟨place, hplace, rfl⟩ := List.mem_mapIdx.mp hmem
        have hbefore := List.getElem_mem hplace
        have hconfig : before[place] ∈ sweep.configs := split ▸ List.mem_append_left _ hbefore
        exact (feasible _ hbefore).reports (valid _ hconfig) (generous place hplace)
      obtain ⟨rfl, hall⟩ := hrows.stops ends fails
      exact ⟨rows, next, hall, hnext, hshown⟩

/-- A sweep of four shifts. -/
def modest : Sweep :=
  { customers := [1, 2], ordersPerCustomer := [3], cooks := [1, 2], capacities := [4]
    workMillis := 0, seed := some 5 }

/-- The stress test of the modest sweep shows four rows under the header. -/
theorem modest_rows :
    modest.validate = .ok () ∧ ∃ rows next, rows.length = 4 ∧ next.out = Bench.header :: rows ∧
      (stress modest true fun place => .ofKey (.replicate 8 (.ofNat place))).perform =
        (.ok (), next) := by
  have accepted : modest.validate = .ok () := by decide
  have small : ∀ config ∈ modest.configs, config.totalOrders + 1 < Count.wordSize ∧
      config.totalOrders * Shift.numberBytes < Shift.blockLimit ∧
      config.customers.toNat * Shift.handleBytes < Shift.blockLimit ∧
      config.cooks.toNat * Shift.handleBytes < Shift.blockLimit := by decide
  have feasible (config : Config) (hmem : config ∈ modest.configs) : config.Feasible true := by
    obtain ⟨countable, numbers, customers, cooks⟩ := small config hmem
    exact ⟨countable, fun _ => numbers, customers, cooks⟩
  obtain ⟨-, -, -, -, hsweep⟩ := only_products_escape_checks true
  obtain ⟨-, hends, -⟩ :=
    hsweep modest (fun place => .ofKey (.replicate 8 (.ofNat place))) accepted
  obtain ⟨rows, next, hrows, hnext, hshown⟩ :=
    hends (fun place _ => Surroundings.generous_ofKey _) feasible
  exact ⟨accepted, rows, next, hrows.length_eq.symm, hnext, hshown⟩

/-- So many customers with so many orders each that no counter can hold their product. -/
def crowd : Config :=
  { capacity := 1, customers := 4294967296, cooks := 1, ordersPerCustomer := 4294967296
    workMillis := 0, seed := none }

/-- A sweep in which the second number of customers is too large for the number of orders. -/
def lopsided : Sweep :=
  { customers := [1, 9223372036854775808], ordersPerCustomer := [2], cooks := [1], capacities := [1]
    workMillis := 0, seed := none }

/-- The sizes of the crowd pass their check and cannot be multiplied, and the stress test of the
lopsided sweep, which passes its check, stops with a fault after it has shown a row. -/
theorem checks_miss_products :
    crowd.validate = .ok () ∧ crowd.expectedOrders = .error .mulOverflow ∧
    lopsided.validate = .ok () ∧ ∃ row next, next.out = [Bench.header, row] ∧
      (stress lopsided false fun place => .ofKey (.replicate 8 (.ofNat place))).perform =
        (.error (.fault .mulOverflow), next) := by
  have accepted : lopsided.validate = .ok () := by decide
  obtain ⟨rows, result, next, hrows, hnext, hshown⟩ :=
    stress_of_valid accepted false fun place => .ofKey (.replicate 8 (.ofNat place))
  have split : Shown false
      ([(⟨1, 1, 1, 2, 0, none⟩, .ofKey (.replicate 8 0))] ++
        (⟨1, 9223372036854775808, 1, 2, 0, none⟩, .ofKey (.replicate 8 1)) :: []) rows result :=
    hrows
  have small : Config.Feasible ⟨1, 1, 1, 2, 0, none⟩ false :=
    ⟨by decide, by decide, by decide, by decide⟩
  have valid : (⟨1, 9223372036854775808, 1, 2, 0, none⟩ : Config).validate = .ok () := by decide
  obtain ⟨rfl, hall⟩ := split.stops
    (List.forall_mem_singleton.mpr (small.reports (by decide) (Surroundings.generous_ofKey _)))
    (congrArg Shift.Run.outcome (Shift.run_of_uncountable valid (by decide) false _))
  obtain ⟨row, rfl⟩ := List.length_eq_one_iff.mp hall.length_eq.symm
  exact ⟨by decide, by decide, accepted, row, next, hnext, hshown⟩

end OrderRail.Program
