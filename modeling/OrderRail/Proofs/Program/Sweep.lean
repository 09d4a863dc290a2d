import OrderRail.Proofs.Program.Benchmark
import OrderRail.Proofs.Program.Refusal

/-!
# Sweeps are checked up front

The check of a sweep looks at the four sets, and the check of a shift looks at four sizes. They
agree on every sweep, so a sweep with sizes that some shift would refuse is refused as a whole,
before anything is shown. After that no shift of it is refused for its sizes any more, and the
shifts are all combinations in order, each as often as its values occur.
-/

namespace OrderRail.Program

open Shift (Config Surroundings)
open Bench (Measurement Sweep)

/-- The stress test of a sweep that passes its check is not refused for its sizes. -/
theorem stress_not_refused {sweep : Sweep} (accepted : sweep.validate = .ok ()) (validate : Bool)
    (surroundings : Nat → Surroundings) (error : ConfigError) :
    (stress sweep validate surroundings).perform.1 ≠ .error (.error (.config error)) := by
  have hsweep : sweep.validate ≠ .error error := by simp [accepted]
  have hshifts (config : Config) (hmem : config ∈ sweep.configs) :
      config.validate ≠ .error error := by simp [Sweep.valid_of_mem accepted hmem]
  exact stress_avoids hsweep hshifts .blank

/-- A sweep is checked before anything else, by a check that agrees with those of its shifts, and
its shifts are all combinations in order.

A sweep passes its check exactly if it has shifts and all of them pass theirs. If it fails, its
stress test ends with that error and has shown and run nothing. If it passes, the stress test prints
the header first, and then one row for each shift in turn, all of them or those before the first
shift that fails. None of its shifts is refused for its sizes after the header: not where it is
prepared, in no execution of its threads, and not by the stress test as a whole. A sweep has as many
shifts as there are combinations, and the places of the four values, each counted up to the size of
its set, are the digits of the place of the shift, whatever values occur twice. -/
theorem sweep_checked_up_front (sweep : Sweep) (validate : Bool)
    (surroundings : Nat → Surroundings) :
    (sweep.validate = .ok () ↔
      sweep.configs ≠ [] ∧ ∀ config ∈ sweep.configs, config.validate = .ok ()) ∧
    (∀ error, sweep.validate = .error error →
      (stress sweep validate surroundings).perform =
        (.error (.error (.config error)), .blank)) ∧
    (sweep.validate = .ok () →
      (∃ result rows next, next.out = Bench.header :: rows ∧
        (stress sweep validate surroundings).perform = (result, next) ∧
        (∀ error, result ≠ .error (.error (.config error))) ∧
        ((result = .ok () ∧ List.Forall₂ (Shows validate) (planned sweep surroundings) rows) ∨
          ∃ before shift later failure,
            planned sweep surroundings = before ++ shift :: later ∧
            (Shift.run shift.1 validate shift.2).outcome = .error failure ∧
            result = .error failure ∧ List.Forall₂ (Shows validate) before rows)) ∧
      ∀ config ∈ sweep.configs, ∀ error,
        (∀ refusals, (Shift.prepare config validate refusals).terms ≠
          .error (.error (.config error))) ∧
        (∀ alone, (Shift.run config validate alone).outcome ≠
          .error (.error (.config error))) ∧
        ∀ generators terms moves shift,
          Shift.Execution (.start config validate generators terms) moves shift →
            shift.outcome? ≠ some (.error (.error (.config error)))) ∧
    (∀ place, (planned sweep surroundings)[place]? =
      sweep.configs[place]?.map fun config => (config, surroundings place)) ∧
    sweep.configs.length = sweep.customers.length * sweep.ordersPerCustomer.length *
      sweep.cooks.length * sweep.capacities.length ∧
    ∀ a b c d (ha : a < sweep.customers.length) (hb : b < sweep.ordersPerCustomer.length)
      (hc : c < sweep.cooks.length) (hd : d < sweep.capacities.length),
      sweep.configs[((a * sweep.ordersPerCustomer.length + b) * sweep.cooks.length + c) *
          sweep.capacities.length + d]? =
        some
          { capacity := sweep.capacities[d]
            customers := sweep.customers[a]
            cooks := sweep.cooks[c]
            ordersPerCustomer := sweep.ordersPerCustomer[b]
            workMillis := sweep.workMillis
            seed := sweep.seed } := by
  refine ⟨⟨fun accepted => ?_, fun ⟨hsome, valid⟩ => ?_⟩,
    fun error refused => stress_of_invalid refused surroundings,
    fun accepted => ⟨?_, fun config hmem error => ?_⟩, fun place => List.getElem?_mapIdx,
    sweep.length_configs, fun a b c d => sweep.configs_getElem?⟩
  · exact ⟨Sweep.configs_ne_nil accepted, fun config => Sweep.valid_of_mem accepted⟩
  · exact Sweep.validate_of_configs hsome valid
  · obtain ⟨rows, result, next, hrows, hnext, hshown⟩ :=
      stress_of_valid accepted validate surroundings
    have hrefused (error : ConfigError) : result ≠ .error (.error (.config error)) := by
      have hne := stress_not_refused accepted validate surroundings error
      rwa [hshown] at hne
    exact ⟨result, rows, next, hnext, hshown, hrefused, hrows.all_or_first⟩
  · have valid : config.validate ≠ .error error := by simp [Sweep.valid_of_mem accepted hmem]
    exact ⟨fun refusals => mt (Shift.prepare_refused_iff validate refusals).mp valid,
      fun alone => mt Shift.run_refused_iff.mp valid,
      fun generators terms moves shift execution => execution.outcome_ne_config error⟩

/-- A sweep in which one number of customers comes twice. -/
def repeating : Sweep :=
  { customers := [1, 2, 1], ordersPerCustomer := [3], cooks := [1, 2], capacities := [1, 4]
    workMillis := 0, seed := some 5 }

/-- The same sweep without cooks. -/
def uncooked : Sweep := { repeating with cooks := [] }

/-- The repeating sweep passes its check and begins with the header; the shift at place ten takes
the second number of cooks for the last customers, and nobody is ever refused in it for its sizes.
The sweep without cooks is refused before anything is shown. -/
theorem repeating_checked :
    let surroundings := fun place => Surroundings.ofKey (.replicate 8 (.ofNat place))
    repeating.validate = .ok () ∧
    (∃ result rows next, next.out = Bench.header :: rows ∧
      (stress repeating true surroundings).perform = (result, next) ∧
      (∀ error, result ≠ .error (.error (.config error))) ∧
      ((result = .ok () ∧ List.Forall₂ (Shows true) (planned repeating surroundings) rows) ∨
        ∃ before shift later failure, planned repeating surroundings = before ++ shift :: later ∧
          (Shift.run shift.1 true shift.2).outcome = .error failure ∧
          result = .error failure ∧ List.Forall₂ (Shows true) before rows)) ∧
    2 < repeating.customers.length ∧ 0 < repeating.ordersPerCustomer.length ∧
    1 < repeating.cooks.length ∧ 0 < repeating.capacities.length ∧
    repeating.configs[10]? = some ⟨1, 1, 2, 3, 0, some 5⟩ ∧
    (⟨1, 1, 2, 3, 0, some 5⟩ : Config) ∈ repeating.configs ∧
    (Shift.run ⟨1, 1, 2, 3, 0, some 5⟩ true (surroundings 10)).outcome ≠
      .error (.error (.config (.zero "cooks"))) ∧
    Shift.State.outcome? (.start ⟨1, 1, 2, 3, 0, some 5⟩ true (surroundings 10).generators
        ⟨1, 3, by decide, by decide⟩) ≠ some (.error (.error (.config (.zero "cooks")))) ∧
    uncooked.validate = .error (.emptySet "cooks") ∧
    (stress uncooked true surroundings).perform =
      (.error (.error (.config (.emptySet "cooks"))), .blank) := by
  intro surroundings
  have accepted : repeating.validate = .ok () := by decide
  have refused : uncooked.validate = .error (.emptySet "cooks") := by decide
  have hmem : (⟨1, 1, 2, 3, 0, some 5⟩ : Config) ∈ repeating.configs := by decide
  obtain ⟨-, -, hpassed, -, -, hplace⟩ := sweep_checked_up_front repeating true surroundings
  obtain ⟨-, hfailed, -⟩ := sweep_checked_up_front uncooked true surroundings
  obtain ⟨hheader, hshifts⟩ := hpassed accepted
  obtain ⟨-, hrun, hexecution⟩ := hshifts _ hmem (.zero "cooks")
  exact ⟨accepted, hheader, by decide, by decide, by decide, by decide,
    hplace 2 0 1 0 (by decide) (by decide) (by decide) (by decide), hmem, hrun _,
    hexecution _ _ [] _ .nil, refused, hfailed _ refused⟩

end OrderRail.Program
