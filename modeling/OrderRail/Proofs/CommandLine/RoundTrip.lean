import OrderRail.Proofs.CommandLine.Filled
import OrderRail.Proofs.CommandLine.Reading
import OrderRail.Proofs.Program.Refusal

/-!
# Options survive being written and read

Whichever way the options of a benchmark or a stress test are written, they are read back as they
were, and they reach the shift or the sweep under the names that they have there. Nothing is lost on
the way, so different options make different runs; and no command line makes a sweep with an empty
set.
-/

namespace OrderRail.CommandLine

section Settings

variable {parts : List (List UInt64)} {name : Name} {mentions : List Mention}

/-- A number that is given fits an option that takes one. -/
theorem GivesNumber.allows {value absent : UInt64} (h : GivesNumber parts value absent)
    (placeholder : String) : (Shape.single placeholder).Allows parts :=
  h.elim (fun hgiven => .inr ⟨value, hgiven⟩) fun habsent => .inl habsent.1

/-- An optional number fits an option that takes one. -/
theorem GivesOptional.allows {value : Option UInt64} (h : GivesOptional parts value)
    (placeholder : String) : (Shape.single placeholder).Allows parts := by
  cases value with
  | none => exact .inl h
  | some value => exact .inr ⟨value, h⟩

/-- The numbers of a set fit an option that takes them. -/
theorem GivesSet.allows {values absent : List UInt64} (h : GivesSet parts values absent)
    (placeholder : String) : (Shape.set placeholder).Allows parts := by
  rcases h with ⟨-, hparts, -⟩ | ⟨rfl, -⟩
  · exact hparts
  · exact List.not_mem_nil

/-- A set with values can be given at once. -/
theorem GivesSet.at_once {values absent : List UInt64} (hvalues : values ≠ [])
    (h : parts = [values]) : GivesSet parts values absent := by
  subst h
  exact .inl ⟨List.cons_ne_nil _ _, by simpa using hvalues.symm, List.flatten_singleton⟩

/-- A flag fits an option that takes nothing. -/
theorem GivesFlag.allows {flag : Bool} (h : GivesFlag parts flag) : Shape.flag.Allows parts := by
  cases flag with
  | false => exact .inl h
  | true => exact .inr h

/-- A number that is given is the number of its option. -/
theorem GivesNumber.number_eq {value absent : UInt64}
    (h : GivesNumber (name.parts mentions) value absent) :
    (Settings.ofMentions mentions).number name absent = value := by
  rcases h with hgiven | ⟨hnone, rfl⟩
  · rw [Settings.number, Settings.ofMentions, hgiven]
    rfl
  · rw [Settings.number, Settings.ofMentions_eq_none hnone]

/-- An optional number is the number of its option, or both are missing. -/
theorem GivesOptional.number?_eq {value : Option UInt64}
    (h : GivesOptional (name.parts mentions) value) :
    (Settings.ofMentions mentions).number? name = value := by
  rw [Settings.number?, Settings.ofMentions, h]
  cases value <;> rfl

/-- The numbers of a set are the numbers of its option. -/
theorem GivesSet.numbers_eq {values absent : List UInt64}
    (h : GivesSet (name.parts mentions) values absent) :
    (Settings.ofMentions mentions).numbers name absent = values := by
  rcases h with ⟨hsome, -, hvalues⟩ | ⟨hnone, rfl⟩
  · rw [Settings.numbers, Settings.ofMentions, collected, if_neg hsome, hvalues, Option.getD_some]
  · rw [Settings.numbers, Settings.ofMentions_eq_none hnone, Option.getD_none]

/-- A flag is set if its option is there. -/
theorem GivesFlag.given_eq {flag : Bool} (h : GivesFlag (name.parts mentions) flag) :
    (Settings.ofMentions mentions).given name = flag := by
  rw [Settings.given, Settings.ofMentions, h]
  cases flag <;> rfl

end Settings

/-- Mentions that fit a command are read as the task that their settings make. -/
theorem read_mentions {command : Command} {mentions : List Mention}
    (hfits : command.Fits mentions) :
    read (command.word :: mentions.flatMap (·.words)) =
      .ok (some ((Settings.ofMentions mentions).task command)) := by
  have hcommand (words : List String) :
      read (command.word :: words) = (readCommand command words).map some := by
    cases command <;> rfl
  have hstart : Progress.resolve { settings := .none, pending := none } =
      .ok (Settings.ofMentions []) := rfl
  rw [hcommand, readCommand, readOptions_mentions hstart hfits]
  rfl

/-- The options. -/
def Name.all : List Name :=
  [.customers, .ordersPerCustomer, .cooks, .capacity, .workMillis, .seed, .validate]

/-- One mention in the usual way for every option that is given. -/
def Settings.mentions (settings : Settings) : List Mention :=
  Name.all.flatMap fun name => (settings name).toList.map (Mention.usual name)

/-- The usual mentions give every option its numbers at once. -/
theorem Settings.parts_mentions (settings : Settings) (name : Name) :
    name.parts settings.mentions = (settings name).toList := by
  have husual (other : Name) :
      name.parts ((settings other).toList.map (Mention.usual other)) =
        if other = name then (settings other).toList else [] := by
    unfold Name.parts
    split <;> cases settings other <;> simp [*]
  rw [mentions, Name.parts, List.filter_flatMap, List.map_flatMap]
  simp only [Name.parts] at husual
  simp only [husual]
  cases name <;> simp [Name.all]

/-- The usual mentions give a number that may be missing. -/
theorem GivesOptional.of_mentions {settings : Settings} {name : Name} {value : Option UInt64}
    (h : settings name = value.map ([·])) : GivesOptional (name.parts settings.mentions) value := by
  rw [GivesOptional, Settings.parts_mentions, h]
  cases value <;> rfl

/-- The usual mentions give a flag. -/
theorem GivesFlag.of_mentions {settings : Settings} {name : Name} {flag : Bool}
    (h : settings name = if flag then some [] else none) :
    GivesFlag (name.parts settings.mentions) flag := by
  rw [GivesFlag, Settings.parts_mentions, h]
  cases flag <;> rfl

/-- Mentions of different options may change places. -/
theorem Name.parts_swap (name : Name) (earlier later : List Mention) {first second : Mention}
    (h : first.name ≠ second.name) :
    name.parts (earlier ++ second :: first :: later) =
      name.parts (earlier ++ first :: second :: later) := by
  by_cases hfirst : first.name = name
  · have hsecond : second.name ≠ name := fun hsecond => h (hfirst.trans hsecond.symm)
    simp [Name.parts, hfirst, hsecond]
  · simp [Name.parts, List.filter_cons, hfirst]

namespace BenchOptions

variable {options : BenchOptions} {mentions : List Mention}

/-- A spelling of a benchmark's options fits the command. -/
theorem Spelled.fits (h : options.Spelled mentions) : Command.bench.Fits mentions := by
  intro mention _
  cases mention.name with
  | customers => exact ⟨_, rfl, rfl, h.customers.allows "N"⟩
  | ordersPerCustomer => exact ⟨_, rfl, rfl, h.ordersPerCustomer.allows "N"⟩
  | cooks => exact ⟨_, rfl, rfl, h.cooks.allows "N"⟩
  | capacity => exact ⟨_, rfl, rfl, h.capacity.allows "N"⟩
  | workMillis => exact ⟨_, rfl, rfl, h.workMillis.allows "MS"⟩
  | seed => exact ⟨_, rfl, rfl, h.seed.allows "SEED"⟩
  | validate => exact ⟨_, rfl, rfl, h.validate.allows⟩

/-- The settings of a spelling are the options that it spells. -/
theorem Spelled.bench_eq (h : options.Spelled mentions) :
    (Settings.ofMentions mentions).bench = options := by
  rw [Settings.bench, h.customers.number_eq, h.ordersPerCustomer.number_eq, h.cooks.number_eq,
    h.capacity.number_eq, h.workMillis.number_eq, h.seed.number?_eq, h.validate.given_eq]

/-- A spelling of a benchmark's options is read as these options. -/
theorem Spelled.read_eq (h : options.Spelled mentions) :
    read ("bench" :: mentions.flatMap (·.words)) = .ok (some (.bench options)) := by
  rw [← h.bench_eq]
  exact read_mentions h.fits

/-- Settings in which every option of a benchmark is given. -/
def settings (options : BenchOptions) : Settings
  | .customers => some [options.customers]
  | .ordersPerCustomer => some [options.ordersPerCustomer]
  | .cooks => some [options.cooks]
  | .capacity => some [options.capacity]
  | .workMillis => some [options.workMillis]
  | .seed => options.seed.map ([·])
  | .validate => if options.validate then some [] else none

/-- All options of a benchmark can be spelled. -/
theorem spelled_mentions (options : BenchOptions) :
    options.Spelled options.settings.mentions where
  customers := .inl (options.settings.parts_mentions .customers)
  ordersPerCustomer := .inl (options.settings.parts_mentions .ordersPerCustomer)
  cooks := .inl (options.settings.parts_mentions .cooks)
  capacity := .inl (options.settings.parts_mentions .capacity)
  workMillis := .inl (options.settings.parts_mentions .workMillis)
  seed := .of_mentions rfl
  validate := .of_mentions rfl

/-- A spelling is judged by what it gives to each option. -/
theorem Spelled.of_parts {other : List Mention} (h : options.Spelled mentions)
    (hparts : ∀ name : Name, name.parts other = name.parts mentions) : options.Spelled other := by
  constructor <;> rw [hparts]
  exacts [h.customers, h.ordersPerCustomer, h.cooks, h.capacity, h.workMillis, h.seed, h.validate]

/-- No option of a benchmark is lost on the way to its shift. -/
theorem config_injective {first second : BenchOptions} (hconfig : first.config = second.config)
    (hvalidate : first.validate = second.validate) : first = second := by
  cases first
  cases second
  simp only [config, Shift.Config.mk.injEq] at hconfig hvalidate
  simp [hconfig, hvalidate]

end BenchOptions

namespace StressOptions

variable {options : StressOptions} {mentions : List Mention}

/-- A spelling of a stress test's options fits the command. -/
theorem Spelled.fits (h : options.Spelled mentions) : Command.stress.Fits mentions := by
  intro mention _
  cases mention.name with
  | customers => exact ⟨_, rfl, rfl, h.customers.allows "SET"⟩
  | ordersPerCustomer => exact ⟨_, rfl, rfl, h.ordersPerCustomer.allows "SET"⟩
  | cooks => exact ⟨_, rfl, rfl, h.cooks.allows "SET"⟩
  | capacity => exact ⟨_, rfl, rfl, h.capacity.allows "SET"⟩
  | workMillis => exact ⟨_, rfl, rfl, h.workMillis.allows "MS"⟩
  | seed => exact ⟨_, rfl, rfl, h.seed.allows "SEED"⟩
  | validate => exact ⟨_, rfl, rfl, h.validate.allows⟩

/-- The settings of a spelling are the options that it spells. -/
theorem Spelled.stress_eq (h : options.Spelled mentions) :
    (Settings.ofMentions mentions).stress = options := by
  rw [Settings.stress, h.customers.numbers_eq, h.ordersPerCustomer.numbers_eq, h.cooks.numbers_eq,
    h.capacity.numbers_eq, h.workMillis.number_eq, h.seed.number?_eq, h.validate.given_eq]

/-- A spelling of a stress test's options is read as these options. -/
theorem Spelled.read_eq (h : options.Spelled mentions) :
    read ("stress" :: mentions.flatMap (·.words)) = .ok (some (.stress options)) := by
  rw [← h.stress_eq]
  exact read_mentions h.fits

/-- Settings in which every option of a stress test is given. -/
def settings (options : StressOptions) : Settings
  | .customers => some options.customers
  | .ordersPerCustomer => some options.ordersPerCustomer
  | .cooks => some options.cooks
  | .capacity => some options.capacity
  | .workMillis => some [options.workMillis]
  | .seed => options.seed.map ([·])
  | .validate => if options.validate then some [] else none

/-- All options of a stress test can be spelled if its sets have values. -/
theorem spelled_mentions (h : options.customers ≠ [] ∧ options.ordersPerCustomer ≠ [] ∧
      options.cooks ≠ [] ∧ options.capacity ≠ []) :
    options.Spelled options.settings.mentions where
  customers := .at_once h.1 (options.settings.parts_mentions .customers)
  ordersPerCustomer := .at_once h.2.1 (options.settings.parts_mentions .ordersPerCustomer)
  cooks := .at_once h.2.2.1 (options.settings.parts_mentions .cooks)
  capacity := .at_once h.2.2.2 (options.settings.parts_mentions .capacity)
  workMillis := .inl (options.settings.parts_mentions .workMillis)
  seed := .of_mentions rfl
  validate := .of_mentions rfl

/-- A spelling is judged by what it gives to each option. -/
theorem Spelled.of_parts {other : List Mention} (h : options.Spelled mentions)
    (hparts : ∀ name : Name, name.parts other = name.parts mentions) : options.Spelled other := by
  constructor <;> rw [hparts]
  exacts [h.customers, h.ordersPerCustomer, h.cooks, h.capacity, h.workMillis, h.seed, h.validate]

/-- No option of a stress test is lost on the way to its sweep. -/
theorem sweep_injective {first second : StressOptions} (hsweep : first.sweep = second.sweep)
    (hvalidate : first.validate = second.validate) : first = second := by
  cases first
  cases second
  simp only [sweep, Bench.Sweep.mk.injEq] at hsweep hvalidate
  simp [hsweep, hvalidate]

end StressOptions

/-- Options survive being written and read, and reach the shifts that are run.

Every spelling of the options of a benchmark or a stress test is accepted and read as just these
options. All options of a benchmark can be spelled, and those of a stress test exactly if its sets
have values; mentions of different options may stand in any order. Each option arrives at the size,
the set or the parameter of the same name, so different options differ in the parameters of the run
or in whether it is validated. Conversely, every stress test that is accepted has four sets with
values, and no run of an accepted command line is ever refused for an empty set. -/
theorem options_round_trip :
    (∀ (options : BenchOptions) (mentions : List Mention), options.Spelled mentions →
      read ("bench" :: mentions.flatMap (·.words)) = .ok (some (.bench options))) ∧
    (∀ (options : StressOptions) (mentions : List Mention), options.Spelled mentions →
      read ("stress" :: mentions.flatMap (·.words)) = .ok (some (.stress options))) ∧
    (∀ options : BenchOptions, ∃ mentions, options.Spelled mentions) ∧
    (∀ options : StressOptions, (∃ mentions, options.Spelled mentions) ↔
      options.customers ≠ [] ∧ options.ordersPerCustomer ≠ [] ∧ options.cooks ≠ [] ∧
        options.capacity ≠ []) ∧
    (∀ (earlier later : List Mention) (first second : Mention), first.name ≠ second.name →
      (∀ options : BenchOptions, options.Spelled (earlier ++ first :: second :: later) →
        options.Spelled (earlier ++ second :: first :: later)) ∧
      ∀ options : StressOptions, options.Spelled (earlier ++ first :: second :: later) →
        options.Spelled (earlier ++ second :: first :: later)) ∧
    (∀ options : BenchOptions, options.config =
      { capacity := options.capacity
        customers := options.customers
        cooks := options.cooks
        ordersPerCustomer := options.ordersPerCustomer
        workMillis := options.workMillis
        seed := options.seed }) ∧
    (∀ options : StressOptions, options.sweep =
      { customers := options.customers
        ordersPerCustomer := options.ordersPerCustomer
        cooks := options.cooks
        capacities := options.capacity
        workMillis := options.workMillis
        seed := options.seed }) ∧
    (∀ first second : BenchOptions, first.config = second.config →
      first.validate = second.validate → first = second) ∧
    (∀ first second : StressOptions, first.sweep = second.sweep →
      first.validate = second.validate → first = second) ∧
    (∀ (args : List String) (options : StressOptions), read args = .ok (some (.stress options)) →
      options.customers ≠ [] ∧ options.ordersPerCustomer ≠ [] ∧ options.cooks ≠ [] ∧
        options.capacity ≠ []) ∧
    ∀ (args : List String) (task : Option Task), read args = .ok task →
      ∀ (surroundings : Nat → Shift.Surroundings) (label : String),
        (Program.ofTask surroundings task).perform.1 ≠
          .error (.error (.config (.emptySet label))) := by
  refine ⟨fun options mentions => BenchOptions.Spelled.read_eq,
    fun options mentions => StressOptions.Spelled.read_eq,
    fun options => ⟨_, options.spelled_mentions⟩, fun options => ⟨?_, fun hsets => ?_⟩,
    fun earlier later first second hnames => ⟨fun options h => ?_, fun options h => ?_⟩,
    fun options => rfl, fun options => rfl, fun first second => BenchOptions.config_injective,
    fun first second => StressOptions.sweep_injective, fun args options => sets_ne_nil_of_read,
    fun args task hread surroundings label => ?_⟩
  · rintro ⟨mentions, spelled⟩
    exact sets_ne_nil_of_read spelled.read_eq
  · exact ⟨_, StressOptions.spelled_mentions hsets⟩
  · exact h.of_parts fun name => name.parts_swap earlier later hnames
  · exact h.of_parts fun name => name.parts_swap earlier later hnames
  · refine Program.ofTask_avoids_emptySet ?_ surroundings label .blank
    match task with
    | some (.stress options) => exact sets_ne_nil_of_read hread
    | none | some (.demo _) | some (.bench _) => trivial

/-- A stress test with cooks in two parts, and with a seed that has a sign and a zero in front. -/
def manyCooks : List Mention :=
  [⟨.cooks, [.usual 1, .usual 2], true⟩, ⟨.validate, [], false⟩, ⟨.cooks, [.usual 8], false⟩,
    ⟨.seed, [⟨true, 1, 7⟩], true⟩]

/-- The options that this spells; what is not mentioned stands for itself. -/
def manyCooksOptions : StressOptions :=
  { StressOptions.default with cooks := [1, 2, 8], seed := some 7, validate := true }

/-- The mentions spell the options. -/
theorem manyCooks_spelled : manyCooksOptions.Spelled manyCooks where
  customers := .inr ⟨rfl, rfl⟩
  ordersPerCustomer := .inr ⟨rfl, rfl⟩
  cooks := .inl ⟨by decide, by decide, rfl⟩
  capacity := .inr ⟨rfl, rfl⟩
  workMillis := .inr ⟨rfl, rfl⟩
  seed := rfl
  validate := rfl

/-- A benchmark with a narrow queue. -/
def narrow : BenchOptions := { BenchOptions.default with customers := 2, capacity := 1 }

/-- Two mentions are enough for it. -/
theorem narrow_spelled :
    narrow.Spelled [⟨.customers, [.usual 2], false⟩, ⟨.capacity, [.usual 1], false⟩] where
  customers := .inl rfl
  ordersPerCustomer := .inr ⟨rfl, rfl⟩
  cooks := .inr ⟨rfl, rfl⟩
  capacity := .inl rfl
  workMillis := .inr ⟨rfl, rfl⟩
  seed := rfl
  validate := rfl

/-- The stress test and the benchmark are read from their words, the benchmark also with its two
options the other way round; the stress test can be spelled, has four sets with values, and is not
refused for an empty set of cooks; and each is told from the others by its parameters. -/
theorem manyCooks_round_trip :
    read ["stress", "--cooks=1,2", "--validate", "--cooks", "8", "--seed=+07"] =
      .ok (some (.stress manyCooksOptions)) ∧
    read ["bench", "--customers", "2", "--capacity", "1"] = .ok (some (.bench narrow)) ∧
    narrow.Spelled [⟨.capacity, [.usual 1], false⟩, ⟨.customers, [.usual 2], false⟩] ∧
    (∃ mentions, manyCooksOptions.Spelled mentions) ∧
    manyCooksOptions.cooks ≠ [] ∧
    (Program.ofTask (fun _ => .ofKey (.replicate 8 0))
      (some (.stress manyCooksOptions))).perform.1 ≠
      .error (.error (.config (.emptySet "cooks"))) ∧
    (⟨2, 25, 4, 1, 1, none, false⟩ : BenchOptions) = narrow ∧
    (⟨[1, 4, 16], [3, 10], [1, 2, 8], [1, 8, 64], 1, some 7, true⟩ : StressOptions) =
      manyCooksOptions := by
  obtain ⟨hbench, hstress, -, hsome, hswap, -, -, hconfig, hsweep, hsets, hempty⟩ :=
    options_round_trip
  have hread : read ["stress", "--cooks=1,2", "--validate", "--cooks", "8", "--seed=+07"] =
      .ok (some (.stress manyCooksOptions)) := hstress _ _ manyCooks_spelled
  have hother : narrow.Spelled [⟨.capacity, [.usual 1], false⟩, ⟨.customers, [.usual 2], false⟩] :=
    (hswap [] [] _ _ (by decide)).1 narrow narrow_spelled
  exact ⟨hread, hbench _ _ narrow_spelled, hother, (hsome _).mpr (by decide),
    (hsets _ _ hread).2.2.1, hempty _ _ hread _ _, hconfig _ _ rfl rfl, hsweep _ _ rfl rfl⟩

end OrderRail.CommandLine
