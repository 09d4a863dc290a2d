import OrderRail.Bench.Row
import OrderRail.Decimal.Word
import OrderRail.Proofs.Decimal.Fixed

/-!
# What a benchmark row shows

No value of a row holds a comma, whatever was measured, so the row splits into one value for each
column, and the counts among them read back as what they were.

The last two columns of a row say whether the accounts balance and whether a number was found twice.
The remarks say the same: there is a warning exactly if the accounts do not balance, and a violation
exactly if the peak was above the capacity or the audit found something.
-/

namespace OrderRail.Bench

/-- A remark that warns of something. -/
def IsWarning (remark : String) : Prop := "# warning".toList <+: remark.toList

instance (remark : String) : Decidable (IsWarning remark) :=
  inferInstanceAs (Decidable ("# warning".toList <+: remark.toList))

/-- A remark that begins like a warning is one. -/
theorem IsWarning.append {front : String} (h : IsWarning front) (rest : String) :
    IsWarning (front ++ rest) := by
  rw [IsWarning, String.toList_append]
  exact h.trans (List.prefix_append _ _)

/-- A row has a text in a column: the name of the column stands at a place of the header, counted
from zero, and the text at the same place of the row. -/
def Has (row : String) (place : Nat) (column text : String) : Prop :=
  (Separated.split ',' header)[place]? = some column ∧
    (Separated.split ',' row)[place]? = some text

/-- A row says a number in a column: what it has there reads as the number. -/
def Says (row : String) (place : Nat) (column : String) (number : Nat) : Prop :=
  ∃ text word, Has row place column text ∧ Decimal.readWord text = .ok word ∧
    word.toNat = number

/-- The header splits into the names of the columns. -/
theorem split_header : Separated.split ',' header = columns :=
  Separated.split_join (by decide) (by decide)

namespace Measurement

/-- The last two columns of a row. -/
theorem row_ends (m : Measurement) :
    ∃ front, m.row = front ++ "," ++
      Separated.join ',' [toString m.report.accountingOk, toString m.report.duplicates] := by
  refine ⟨Separated.join ',' (m.fields.take 10), ?_⟩
  have hfields : m.fields =
      m.fields.take 10 ++ [toString m.report.accountingOk, toString m.report.duplicates] := rfl
  rw [row, hfields]
  exact String.intercalate_append_of_ne_nil (by simp [fields]) (by simp)

/-- There is no warning exactly if the accounts balance. -/
theorem warnings_eq_nil_iff (m : Measurement) :
    m.warnings = [] ↔ m.report.accountingOk = true := by
  rw [warnings, List.append_eq_nil_iff, Shift.Report.accountingOk, Bool.and_eq_true, beq_iff_eq,
    beq_iff_eq]
  by_cases hleftover : m.report.leftover = 0
  · by_cases hhandled : m.report.handled = m.report.expected <;> simp [hleftover, hhandled]
  · simp [hleftover, Nat.pos_of_ne_zero hleftover]

/-- There is no violation exactly if the peak respects the capacity and the audit, if there was one,
found nothing. -/
theorem violations_eq_nil_iff (m : Measurement) :
    m.violations = [] ↔ m.report.peakPending ≤ m.report.capacity ∧
      ∀ audit, m.report.audit = some audit → audit = { duplicates := false, complete := true } := by
  rw [violations, List.append_eq_nil_iff]
  have hpeak : (if m.report.capacity < m.report.peakPending then ["# violation,capacity"] else []) =
      [] ↔ m.report.peakPending ≤ m.report.capacity := by
    by_cases h : m.report.capacity < m.report.peakPending
    · simp [h]
    · simp [h, Nat.le_of_not_lt h]
  cases haudit : m.report.audit with
  | none => simp [hpeak]
  | some audit =>
    obtain ⟨duplicates, complete⟩ := audit
    cases duplicates <;> cases complete <;> simp [hpeak]

/-- What is known of a processor time is written plainly. -/
theorem plain_cpuText (seconds : Option Float) : Decimal.Plain (cpuText seconds) := by
  cases seconds with
  | none => decide
  | some seconds => exact Decimal.plain_fixed 4 seconds

/-- A truth value is written plainly. -/
theorem plain_bool (b : Bool) : Decimal.Plain (toString b) := by
  cases b <;> decide

/-- All values of a row are written plainly. -/
theorem plain_fields (m : Measurement) : ∀ text ∈ m.fields, Decimal.Plain text := by
  simp only [fields, List.forall_mem_cons]
  exact ⟨Decimal.plain_toString _, Decimal.plain_toString _, Decimal.plain_toString _,
    Decimal.plain_toString _, Decimal.plain_toString _, Decimal.plain_fixed _ _,
    Decimal.plain_fixed _ _, plain_cpuText _, plain_cpuText _, Decimal.plain_toString _,
    plain_bool _, plain_bool _, nofun⟩

/-- A row splits into its values. -/
theorem split_row (m : Measurement) : Separated.split ',' m.row = m.fields :=
  Separated.split_join (by simp [fields]) fun text hmem =>
    (m.plain_fields text hmem).not_mem (by decide)

/-- A row has each of its values in the column with the same place. -/
theorem has_of_fields (m : Measurement) {place : Nat} {column text : String}
    (hcolumn : columns[place]? = some column) (htext : m.fields[place]? = some text) :
    Has m.row place column text := by
  rw [Has, split_header, m.split_row]
  exact ⟨hcolumn, htext⟩

/-- A row has a word among its values, and says it. -/
theorem says_of_fields (m : Measurement) {place : Nat} {column : String} {word : UInt64}
    (hcolumn : columns[place]? = some column)
    (hword : m.fields[place]? = some (toString word)) :
    Says m.row place column word.toNat :=
  ⟨_, word, m.has_of_fields hcolumn hword, Decimal.readWord_toString word, rfl⟩

/-- A row has a count among its values, and says it if a word can hold it. -/
theorem says_of_lt (m : Measurement) {place : Nat} {column : String} {count : Nat}
    (fits : count < Count.wordSize) (hcolumn : columns[place]? = some column)
    (hcount : m.fields[place]? = some (toString count)) : Says m.row place column count := by
  have hword : (UInt64.ofNat count).toNat = count := UInt64.toNat_ofNat_of_lt fits
  have htext : toString (UInt64.ofNat count) = toString count := congrArg toString hword
  exact ⟨_, _, m.has_of_fields hcolumn hcount, htext ▸ Decimal.readWord_toString _, hword⟩

/-- A truth value in a row is true exactly if the row has the word for it. -/
theorem has_true_iff (m : Measurement) {place : Nat} {column : String} {b : Bool}
    (hcolumn : columns[place]? = some column) (hb : m.fields[place]? = some (toString b)) :
    Has m.row place column "true" ↔ b = true := by
  have htext : toString b = "true" ↔ b = true := by cases b <;> decide
  simp only [Has, split_header, m.split_row, hcolumn, hb, Option.some.injEq, htext, true_and]

/-- Remarks on accounts are warnings. -/
theorem isWarning_of_mem_warnings {m : Measurement} {remark : String}
    (hmem : remark ∈ m.warnings) : IsWarning remark := by
  rcases List.mem_append.mp hmem with hleftover | haccounts
  · split at hleftover
    · rw [List.mem_singleton.mp hleftover]
      exact IsWarning.append (by decide) _
    · cases hleftover
  · split at haccounts
    · rw [List.mem_singleton.mp haccounts]
      exact (((IsWarning.append (by decide) _).append _).append _)
    · cases haccounts

/-- Remarks on what must never happen are no warnings. -/
theorem not_isWarning_of_mem_violations {m : Measurement} {remark : String}
    (hmem : remark ∈ m.violations) : ¬ IsWarning remark := by
  rcases List.mem_append.mp hmem with hpeak | haudit
  · split at hpeak
    · rw [List.mem_singleton.mp hpeak]
      decide
    · cases hpeak
  · split at haudit
    · cases haudit
    · rcases List.mem_append.mp haudit with hduplicates | hcomplete
      · split at hduplicates
        · rw [List.mem_singleton.mp hduplicates]
          decide
        · cases hduplicates
      · split at hcomplete
        · cases hcomplete
        · rw [List.mem_singleton.mp hcomplete]
          decide

/-- There is no warning among the remarks exactly if the accounts balance. -/
theorem no_warning_iff (m : Measurement) (validate : Bool) :
    (∀ remark ∈ m.issues validate, ¬ IsWarning remark) ↔ m.report.accountingOk = true := by
  rw [← warnings_eq_nil_iff, List.eq_nil_iff_forall_not_mem]
  constructor
  · intro none_warns remark hmem
    exact none_warns remark (List.mem_append_left _ hmem) (isWarning_of_mem_warnings hmem)
  · intro hwarnings remark hmem
    rcases List.mem_append.mp hmem with hwarns | hviolates
    · exact absurd hwarns (hwarnings remark)
    · split at hviolates
      · exact not_isWarning_of_mem_violations hviolates
      · cases hviolates

/-- Duplicates are remarked on in a validated shift exactly if the audit found some. -/
theorem duplicates_mem_iff (m : Measurement) :
    "# violation,duplicate_orders" ∈ m.issues true ↔ m.report.duplicates = true := by
  have hwarnings : "# violation,duplicate_orders" ∉ m.warnings := fun hmem =>
    absurd (isWarning_of_mem_warnings hmem) (by decide)
  rw [issues, if_pos rfl, List.mem_append, or_iff_right hwarnings, violations,
    Shift.Report.duplicates, List.mem_append]
  have hpeak : "# violation,duplicate_orders" ∉
      if m.report.capacity < m.report.peakPending then ["# violation,capacity"] else [] := by
    split <;> decide
  rw [or_iff_right hpeak]
  cases m.report.audit with
  | none => decide
  | some audit =>
    obtain ⟨duplicates, complete⟩ := audit
    cases duplicates <;> cases complete <;> decide

/-- There is no remark on a validated shift exactly if its accounts balance, the peak respects the
capacity, and the audit, if there was one, found nothing. -/
theorem issues_eq_nil_iff (m : Measurement) :
    m.issues true = [] ↔
      m.report.handled = m.report.expected ∧ m.report.leftover = 0 ∧
      m.report.peakPending ≤ m.report.capacity ∧
      (m.report.audit = none ∨ ∃ audit, m.report.audit = some audit ∧
        audit.duplicates = false ∧ audit.complete = true) := by
  rw [issues, if_pos rfl, List.append_eq_nil_iff, warnings_eq_nil_iff, violations_eq_nil_iff,
    Shift.Report.accountingOk, Bool.and_eq_true, beq_iff_eq, beq_iff_eq, and_assoc]
  cases m.report.audit with
  | none => simp
  | some audit =>
    obtain ⟨duplicates, complete⟩ := audit
    simp

/-- Rows can be decoded, and agree with their header and with the remarks, whatever was measured.

A row splits into as many values as the header has names. The sizes of the shift, the expected
orders and the peak stand in the columns of their names and read back as they are; the two counts
of the report are those that a word can hold. The accounts are called right exactly if no remark
warns, whether the shift is validated or not; duplicates are shown exactly if a validated shift
has the remark on them; and a validated shift has no remarks at all exactly if its accounts balance,
its peak respects its capacity, and its audit, if there was one, found nothing. -/
theorem row_decodable (m : Measurement) :
    (Separated.split ',' m.row).length = (Separated.split ',' header).length ∧
    Says m.row 0 "customers" m.config.customers.toNat ∧
    Says m.row 1 "orders_per_customer" m.config.ordersPerCustomer.toNat ∧
    Says m.row 2 "cooks" m.config.cooks.toNat ∧
    Says m.row 3 "capacity" m.config.capacity.toNat ∧
    (m.report.expected < Count.wordSize → Says m.row 4 "total_orders" m.report.expected) ∧
    (m.report.peakPending < Count.wordSize → Says m.row 9 "peak_pending" m.report.peakPending) ∧
    (∀ validate, Has m.row 10 "accounting_ok" "true" ↔
      ∀ remark ∈ m.issues validate, ¬ IsWarning remark) ∧
    (Has m.row 11 "duplicate_orders" "true" ↔ "# violation,duplicate_orders" ∈ m.issues true) ∧
    (m.issues true = [] ↔
      m.report.handled = m.report.expected ∧ m.report.leftover = 0 ∧
      m.report.peakPending ≤ m.report.capacity ∧
      (m.report.audit = none ∨ ∃ audit, m.report.audit = some audit ∧
        audit.duplicates = false ∧ audit.complete = true)) := by
  refine ⟨?_, m.says_of_fields rfl rfl, m.says_of_fields rfl rfl, m.says_of_fields rfl rfl,
    m.says_of_fields rfl rfl, fun fits => m.says_of_lt fits rfl rfl,
    fun fits => m.says_of_lt fits rfl rfl, fun validate => ?_, ?_, m.issues_eq_nil_iff⟩
  · rw [m.split_row, split_header]
    rfl
  · rw [m.no_warning_iff, m.has_true_iff rfl rfl]
  · rw [m.duplicates_mem_iff, m.has_true_iff rfl rfl]

/-- A made-up measurement of largest sizes, whose report contradicts itself, with processor times
that are no numbers. -/
def madeUp : Measurement :=
  { config :=
      { capacity := 18446744073709551615, customers := 18446744073709551615, cooks := 1
        ordersPerCustomer := 1, workMillis := 0, seed := none }
    report :=
      { capacity := 4, expected := 18446744073709551615, handled := 3, leftover := 2
        peakPending := 9, perCook := [], elapsed := .hour
        audit := some { duplicates := true, complete := false } }
    cpuUser := some (0.0 / 0.0)
    cpuSystem := some (-1.0 / 0.0) }

/-- The row of the made-up measurement has one value for each column, shows its counts, says that
the accounts are wrong and that there are duplicates, as the remarks do. -/
theorem madeUp_decoded :
    (Separated.split ',' madeUp.row).length = (Separated.split ',' header).length ∧
    madeUp.report.expected < Count.wordSize ∧ madeUp.report.peakPending < Count.wordSize ∧
    Says madeUp.row 4 "total_orders" 18446744073709551615 ∧
    Says madeUp.row 9 "peak_pending" 9 ∧
    ¬ Has madeUp.row 10 "accounting_ok" "true" ∧ Has madeUp.row 11 "duplicate_orders" "true" ∧
    madeUp.issues true ≠ [] := by
  have expected : madeUp.report.expected < Count.wordSize := by decide
  have peak : madeUp.report.peakPending < Count.wordSize := by decide
  have leftover : "# warning,leftover_orders,2" ∈ madeUp.issues false := by decide
  obtain ⟨hlength, -, -, -, -, hexpected, hpeak, haccounts, hduplicates, hissues⟩ :=
    row_decodable madeUp
  refine ⟨hlength, expected, peak, hexpected expected, hpeak peak, fun hright => ?_,
    hduplicates.mpr (by decide), fun hnone => ?_⟩
  · exact (haccounts false).mp hright _ leftover (by decide)
  · exact absurd (hissues.mp hnone).1 (by decide)

end Measurement

end OrderRail.Bench
