import OrderRail.Program.Console

/-!
# What console programs show

A console program takes what has been shown so far to a result and to what is shown then. One lemma
for each way to build such a program says what it does. A program that fails shows nothing more, and
it fails only with the failures of its parts.
-/

namespace OrderRail.Program.Console

variable {α β : Type} {failure : Failure} {program : Console α}

/-- What a program comes to after some things have been shown, and all that is shown then. -/
def after (program : Console α) (shown : Transcript) : Except Failure α × Transcript :=
  (ExceptT.run program).run shown

/-- A program is performed after nothing has been shown. -/
theorem perform_eq (program : Console α) : program.perform = program.after .blank := rfl

/-- The second of two programs goes on where the first has ended, unless that has failed. -/
theorem after_bind (program : Console α) (next : α → Console β) (shown : Transcript) :
    (program >>= next).after shown =
      match program.after shown with
      | (.ok value, shown) => (next value).after shown
      | (.error failure, shown) => (.error failure, shown) := by
  simp only [after, ExceptT.run_bind, StateT.run_bind]
  rcases StateT.run (ExceptT.run program) shown with ⟨result, shown⟩
  cases result <;> rfl

/-- A program that has its value shows nothing. -/
theorem after_pure (value : α) (shown : Transcript) :
    (pure value : Console α).after shown = (.ok value, shown) := rfl

/-- Lines are printed behind the others. -/
theorem after_print (lines : List String) (shown : Transcript) :
    (print lines).after shown = (.ok (), { shown with out := shown.out ++ lines }) := rfl

/-- Remarks are made behind the others. -/
theorem after_remark (lines : List String) (shown : Transcript) :
    (remark lines).after shown = (.ok (), { shown with remarks := shown.remarks ++ lines }) := rfl

/-- A shift comes to its outcome, and its journal is kept either way. -/
theorem after_shift (config : Shift.Config) (validate : Bool)
    (surroundings : Shift.Surroundings) (shown : Transcript) :
    (shift config validate surroundings).after shown =
      ((Shift.run config validate surroundings).outcome,
        { shown with
          journal := shown.journal ++ (Shift.run config validate surroundings).journal }) := by
  rw [shift, after_bind]
  cases houtcome : (Shift.run config validate surroundings).outcome <;> rfl

/-- Parameters that have passed their check are no obstacle. -/
theorem after_require_ok (shown : Transcript) : (require (.ok ())).after shown = (.ok (), shown) :=
  rfl

/-- Parameters that have failed their check end a program. -/
theorem after_require_error (error : ConfigError) (shown : Transcript) :
    (require (.error error)).after shown = (.error (.error (.config error)), shown) := rfl

/-- A program never ends with some failure, whatever has been shown before. -/
def Avoids (program : Console α) (failure : Failure) : Prop :=
  ∀ shown, (program.after shown).1 ≠ .error failure

/-- Two programs, one after the other, avoid what both avoid. -/
theorem Avoids.bind {next : α → Console β} (h : program.Avoids failure)
    (hnext : ∀ value, (next value).Avoids failure) : (program >>= next).Avoids failure := by
  intro shown
  have hfirst := h shown
  rw [after_bind]
  rcases hresult : program.after shown with ⟨failed | value, later⟩
  · rintro ⟨⟩
    rw [hresult] at hfirst
    exact hfirst rfl
  · exact hnext value later

/-- Printing does not fail. -/
theorem avoids_print (lines : List String) : (print lines).Avoids failure := fun _ => nofun

/-- Remarks do not fail. -/
theorem avoids_remark (lines : List String) : (remark lines).Avoids failure := fun _ => nofun

/-- A program that has its value does not fail. -/
theorem avoids_pure (value : α) : (pure value : Console α).Avoids failure := fun _ => nofun

/-- A program whose value is dropped avoids what it avoids anyway. -/
theorem Avoids.discard (h : program.Avoids failure) : (discard program).Avoids failure := by
  rw [Functor.discard, map_const, Function.comp_apply, ← bind_pure_comp]
  exact h.bind fun _ => avoids_pure _

/-- Running a shift avoids what is not its outcome. -/
theorem avoids_shift {config : Shift.Config} {validate : Bool}
    {surroundings : Shift.Surroundings}
    (h : (Shift.run config validate surroundings).outcome ≠ .error failure) :
    (shift config validate surroundings).Avoids failure := by
  intro shown
  rwa [after_shift]

/-- Requiring a check avoids what the check does not report. -/
theorem avoids_require {checked : Except ConfigError Unit} {error : ConfigError}
    (h : checked ≠ .error error) : (require checked).Avoids (.error (.config error)) := by
  intro shown
  cases checked with
  | ok => exact nofun
  | error reported =>
    rw [after_require_error]
    rintro ⟨⟩
    exact h rfl

end OrderRail.Program.Console
