import OrderRail.CommandLine.Parser

/-!
# No set is read without numbers

A text is never cut into no pieces, and every piece of the value of a set has to be a number. So
every value brings numbers, whatever the words are, and the settings of a command line that is
accepted hold numbers for every option that is no flag and has been given.
-/

namespace OrderRail.CommandLine

/-- What is made of a result comes from that result. -/
theorem exists_of_map_eq_ok {ε α β : Type} {f : α → β} {result : Except ε α} {b : β}
    (h : result.map f = .ok b) : ∃ a, result = .ok a ∧ f a = b := by
  cases result with
  | error => cases h
  | ok a => exact ⟨a, rfl, Except.ok.inj h⟩

/-- Only the flag is given without numbers. -/
def Settings.Filled (settings : Settings) : Prop :=
  ∀ name, name ≠ .validate → settings name ≠ some []

/-- Nothing given is nothing empty. -/
theorem Settings.filled_none : Settings.none.Filled := fun _ _ => nofun

/-- Numbers for one more option leave no option empty. -/
theorem Settings.Filled.put {settings : Settings} (filled : settings.Filled) {name : Name}
    {numbers : List UInt64} (h : name ≠ .validate → numbers ≠ []) :
    (settings.put name numbers).Filled := by
  intro other hother
  unfold Settings.put
  split
  case isTrue heq =>
    subst heq
    exact fun hempty => h hother (Option.some.inj hempty)
  case isFalse => exact filled other hother

/-- Pieces that are read bring numbers. -/
theorem readNumbers_ne_nil {spec : OptionSpec} {values : List String} (hvalues : values ≠ [])
    {numbers : List UInt64} (h : readNumbers spec values = .ok numbers) : numbers ≠ [] := by
  obtain ⟨value, others, rfl⟩ := List.exists_cons_of_ne_nil hvalues
  rw [readNumbers] at h
  split at h
  · cases h
  · obtain ⟨tail, -, rfl⟩ := exists_of_map_eq_ok h
    exact List.cons_ne_nil _ _

/-- A value that is accepted leaves no option empty. -/
theorem assign_filled {settings next : Settings} {spec : OptionSpec} {value : String}
    (filled : settings.Filled) (h : assign settings spec value = .ok next) : next.Filled := by
  unfold assign at h
  split at h
  · obtain ⟨numbers, hread, rfl⟩ := exists_of_map_eq_ok h
    have hpieces : Separated.split ',' value ≠ [] :=
      mt List.map_eq_nil_iff.mp (Separated.pieces_ne_nil _ _)
    exact filled.put fun _ =>
      List.append_ne_nil_of_right_ne_nil _ (readNumbers_ne_nil hpieces hread)
  · cases h
  · obtain ⟨number, -, rfl⟩ := exists_of_map_eq_ok h
    exact filled.put fun _ => List.cons_ne_nil _ _

/-- The validation flag is the only flag that a command has. -/
theorem name_eq_validate {command : Command} {word : String} {spec : OptionSpec}
    (h : command.option? word = some spec) (hflag : spec.shape = .flag) :
    spec.name = .validate := by
  have hall : ∀ spec ∈ command.options, spec.shape = .flag → spec.name = .validate := by
    cases command <;> decide
  exact hall spec (List.mem_of_find?_eq_some h) hflag

namespace Progress

variable {progress next : Progress} {settings : Settings} {command : Command} {spec : OptionSpec}

/-- Examining what is pending leaves no option empty. -/
theorem resolve_filled (filled : progress.settings.Filled) (h : progress.resolve = .ok settings) :
    settings.Filled := by
  unfold resolve at h
  split at h
  · obtain rfl := Except.ok.inj h
    exact filled
  · cases h
  · exact assign_filled filled h

/-- An option that is met leaves no option empty. -/
theorem meet_filled {attached : Option String} (hflag : spec.shape = .flag → spec.name = .validate)
    (filled : progress.settings.Filled) (h : progress.meet spec attached = .ok next) :
    next.settings.Filled := by
  unfold meet at h
  split at h
  · cases h
  · -- a flag is put without numbers, but it is the validation flag
    rename_i hshape
    split at h
    · cases h
    · rename_i hresolve
      split at h
      · cases h
      · obtain rfl := Except.ok.inj h
        exact (resolve_filled filled hresolve).put fun hname => absurd (hflag hshape) hname
  · split at h
    · cases h
    · rename_i hresolve
      obtain ⟨settings, hassign, rfl⟩ := exists_of_map_eq_ok h
      exact assign_filled (resolve_filled filled hresolve) hassign
  · obtain ⟨settings, hresolve, rfl⟩ := exists_of_map_eq_ok h
    exact resolve_filled filled hresolve

/-- A word that is accepted leaves no option empty. -/
theorem read_filled {word : String} (filled : progress.settings.Filled)
    (h : progress.read command word = .ok next) : next.settings.Filled := by
  unfold read at h
  split at h
  · split at h
    · rename_i hoption _
      exact meet_filled (name_eq_validate hoption) filled h
    · split at h <;> cases h
    · split at h <;> cases h
  · split at h <;> cases h
  · unfold meetPlain at h
    split at h
    · obtain rfl := Except.ok.inj h
      exact filled
    · cases h

end Progress

/-- The options of a command that are accepted leave no option empty. -/
theorem readOptions_filled {command : Command} {words : List String} {progress : Progress}
    {settings : Settings} (filled : progress.settings.Filled)
    (h : readOptions command progress words = .ok settings) : settings.Filled := by
  induction words generalizing progress with
  | nil => exact progress.resolve_filled filled h
  | cons word words ih =>
    rw [readOptions] at h
    split at h
    · unfold Progress.terminate at h
      split at h
      · exact progress.resolve_filled filled h
      · cases h
    · split at h
      · cases h
      · rename_i hread
        exact ih (Progress.read_filled filled hread) h

/-- A set that is given, or stands for itself, has numbers. -/
theorem Settings.Filled.numbers_ne_nil {settings : Settings} (filled : settings.Filled)
    {name : Name} (hname : name ≠ .validate) {absent : List UInt64} (habsent : absent ≠ []) :
    settings.numbers name absent ≠ [] := by
  unfold Settings.numbers
  cases hgiven : settings name with
  | none => exact habsent
  | some numbers => exact fun hempty => filled name hname (hgiven.trans (congrArg some hempty))

/-- A task is read from the settings of its command, which are all filled. -/
theorem exists_filled_of_read {args : List String} {task : Task}
    (h : read args = .ok (some task)) :
    ∃ command settings, settings.Filled ∧ task = Settings.task settings command := by
  have hcommand : ∃ command words, readCommand command words = .ok task := by
    unfold read at h
    repeat' split at h
    -- all ways but one stop, or run no command
    all_goals try cases h
    all_goals
      obtain ⟨task, hread, hsome⟩ := exists_of_map_eq_ok h
      obtain rfl := Option.some.inj hsome
      exact ⟨_, _, hread⟩
  obtain ⟨command, words, hread⟩ := hcommand
  obtain ⟨settings, hoptions, rfl⟩ := exists_of_map_eq_ok hread
  exact ⟨command, settings, readOptions_filled Settings.filled_none hoptions, rfl⟩

/-- The sets of a stress test that is accepted have numbers. -/
theorem sets_ne_nil_of_read {args : List String} {options : StressOptions}
    (h : read args = .ok (some (.stress options))) :
    options.customers ≠ [] ∧ options.ordersPerCustomer ≠ [] ∧ options.cooks ≠ [] ∧
      options.capacity ≠ [] := by
  obtain ⟨command, settings, filled, htask⟩ := exists_filled_of_read h
  cases command with
  | demo => cases htask
  | bench => cases htask
  | stress =>
    obtain rfl := Task.stress.inj htask
    refine ⟨filled.numbers_ne_nil ?_ ?_, filled.numbers_ne_nil ?_ ?_, filled.numbers_ne_nil ?_ ?_,
      filled.numbers_ne_nil ?_ ?_⟩ <;> decide

end OrderRail.CommandLine
