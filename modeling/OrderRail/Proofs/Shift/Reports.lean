import OrderRail.Proofs.Bench.Row
import OrderRail.Proofs.Queue.Delivery
import OrderRail.Proofs.Shift.Audit
import OrderRail.Proofs.Shift.Completed
import OrderRail.Proofs.Shift.Takings

/-!
# Reports are exact

The report of a shift is put together from the accounts of the queue, the counts of the cooks and
the list of noted numbers, which are kept in different places at different times. When the queue is
closed nobody has anything in hand any more, so the books agree with the accounts, and the accounts
with the number of orders that the customers have placed. Nothing is left to remark on.
-/

namespace OrderRail.Shift

open Queue (Terms takenBy)

variable {config : Config} {validate : Bool} {generators : Generators} {terms : Terms}
  {moves : List Move} {report : Report}

/-- A report was drawn up of a shift in which everything had been done. -/
structure Drawn (config : Config) (validate : Bool) (terms : Terms)
    (history : List (Queue.Transition Thread Dish)) (shift : State) (report : Report) : Prop where
  settled : Settled config terms shift
  run : ∃ earlier, Queue.Run terms earlier shift.queue
  validate_eq : shift.validate = validate
  recorded : Recorded validate history shift.books shift.noted
  numbers : (Queue.deliveries history).map (·.number) = List.range' 1 terms.expected
  report_eq : report = shift.report (shift.queue.board.accounts terms)
    (shift.queue.board.closing.stats terms)

/-- The report of a completed shift was drawn up when everything had been done. -/
theorem Completed.drawn (h : Completed config validate generators terms moves report) :
    ∃ shift, Drawn config validate terms
      ((State.start config validate generators terms).dealings moves) shift report := by
  obtain ⟨history, closing, shift, settled, run, ⟨hvalidate, record⟩, hhistory, hcalls, hreport⟩ :=
    h.keeps (motive := fun history shift =>
      shift.validate = validate ∧ Recorded validate history shift.books shift.noted)
      ⟨rfl, .start validate⟩ Sound.recorded
  refine ⟨shift, settled, ⟨_, run⟩, hvalidate, ?_, ?_, hreport⟩
  · rw [hhistory]
    exact record.quiet (by simp [hcalls, Queue.Call.delivery?])
  · rw [hhistory, Queue.deliveries_extend, hcalls, ← settled.handled, ← run.delivered_numbers]
    exact congrArg _ (List.append_nil _)

namespace Drawn

variable {history : List (Queue.Transition Thread Dish)} {shift : State}

/-- Cooks with free hands have fulfilled all orders that they have taken. -/
theorem perCook_eq (h : Drawn config validate terms history shift report) :
    report.perCook = shift.books.map Book.taken := by
  rw [h.report_eq, State.books, List.map_map]
  refine List.map_congr_left fun cook hcook => ?_
  simp [Book.taken, Cook.book, h.settled.free cook hcook]

/-- The counts of the cooks say how many orders each of them has taken. -/
theorem perCook_at (h : Drawn config validate terms history shift report) {id : Nat}
    (hid : id < config.cooks.toNat) :
    report.perCook[id]? = some (takenBy (.worker .cook id) history).length := by
  have hbooks : id < shift.books.length := by
    rwa [State.books, List.length_map, h.settled.allCooks]
  rw [h.perCook_eq, List.getElem?_map, h.recorded.taken id, List.getElem?_eq_getElem hbooks]
  rfl

/-- The counts of the cooks add up to the expected number of orders. -/
theorem fulfilled_eq (h : Drawn config validate terms history shift report) :
    report.fulfilled = .ok terms.expected := by
  have htotal : report.perCook.sum = terms.expected := by
    have hnumbers := congrArg List.length h.numbers
    rw [List.length_map, List.length_range'] at hnumbers
    rw [h.perCook_eq, h.recorded.total, hnumbers]
  have hfit : Count.sum? report.perCook = some terms.expected := by
    rw [Count.sum?_eq]
    exact Count.fit?_eq_some_iff.mpr ⟨htotal ▸ terms.expected_lt, htotal⟩
  simp only [Report.fulfilled, hfit]

/-- The audit, if there is one, finds that every order was noted once. -/
theorem audit_eq (h : Drawn config validate terms history shift report) :
    report.audit = if validate then some { duplicates := false, complete := true } else none := by
  have hreport : report.audit =
      if validate then some (Audit.ofNumbers shift.noted terms.expected) else none := by
    rw [h.report_eq, ← h.validate_eq]
    rfl
  rw [hreport]
  split
  · next validated =>
    have hhands : shift.books.filterMap (·.held.map (·.number)) = [] := by
      apply List.filterMap_eq_nil_iff.mpr
      intro book hbook
      obtain ⟨cook, hcook, rfl⟩ := List.mem_map.mp hbook
      simp [Cook.book, h.settled.free cook hcook]
    have hnoted := h.recorded.noted validated
    rw [hhands, List.append_nil, h.numbers] at hnoted
    rw [Audit.ofNumbers_of_perm hnoted]
  · rfl

/-- Somewhere in the shift an order was pending, and never more than the limits allow. -/
theorem peak_bounds (h : Drawn config validate terms history shift report)
    (some : 0 < terms.expected) :
    1 ≤ report.peakPending ∧ report.peakPending ≤ min terms.capacity terms.expected := by
  obtain ⟨earlier, run⟩ := h.run
  have hpeak : report.peakPending = shift.queue.board.peak := by
    rw [h.report_eq]
    rfl
  have hsubmitted := (run.tallied h.settled.isOpen).submitted_eq
  rw [h.settled.handled] at hsubmitted
  rw [hpeak]
  exact ⟨run.peak_pos (by omega), run.peak_le⟩

/-- The accounts in the report balance. -/
theorem accounts (h : Drawn config validate terms history shift report) :
    report.capacity = terms.capacity ∧ report.expected = terms.expected ∧
      report.handled = terms.expected ∧ report.leftover = 0 := by
  rw [h.report_eq]
  exact ⟨rfl, rfl, h.settled.handled, h.settled.empty⟩

end Drawn

/-- The report of a completed shift is exact, in every execution of its threads.

The parameters were valid. All orders of the customers, as many as the product says, were expected
and handed out, and none is left over. There is a count for each cook, which is the number of orders
that this cook took from the queue, and the counts add up to all orders. The peak is positive and
respects both limits. There is an audit exactly if the shift was validated, and it finds every
number once. So the accounts balance, and however long the shift took, nothing is remarked on and
its row says that all is well. -/
theorem report_exact (h : Completed config validate generators terms moves report) :
    config.validate = .ok () ∧
    report.capacity = config.capacity.toNat ∧
    report.expected = config.customers.toNat * config.ordersPerCustomer.toNat ∧
    report.handled = config.customers.toNat * config.ordersPerCustomer.toNat ∧
    report.leftover = 0 ∧
    report.perCook.length = config.cooks.toNat ∧
    report.fulfilled = .ok report.expected ∧
    (∀ id < config.cooks.toNat, report.perCook[id]? = some (takenBy (.worker .cook id)
      ((State.start config validate generators terms).dealings moves)).length) ∧
    1 ≤ report.peakPending ∧
    report.peakPending ≤ min config.capacity.toNat report.expected ∧
    report.audit = (if validate then some { duplicates := false, complete := true } else none) ∧
    report.accountingOk = true ∧
    ∀ elapsed cpuUser cpuSystem checked,
      let m : Bench.Measurement :=
        { config, report := { report with elapsed }, cpuUser, cpuSystem }
      m.issues checked = [] ∧ ∃ front, m.row = front ++ ",true,false" := by
  obtain ⟨valid, hcapacity, hexpected⟩ := h.terms_eq
  obtain ⟨shift, drawn⟩ := h.drawn
  obtain ⟨-, hcustomers, -, horders⟩ := Config.pos_of_validate valid
  obtain ⟨hplaces, hall, hhandled, hleftover⟩ := drawn.accounts
  obtain ⟨hpeak, hbound⟩ := drawn.peak_bounds (hexpected ▸ Nat.mul_pos hcustomers horders)
  have hok : report.accountingOk = true := by
    simp [Report.accountingOk, hall, hhandled, hleftover]
  have haudit (audit : Audit) (hsome : report.audit = some audit) :
      audit = { duplicates := false, complete := true } := by
    rw [drawn.audit_eq] at hsome
    split at hsome <;> simp_all
  have hduplicates : report.duplicates = false := by
    cases hsome : report.audit with
    | none => simp [Report.duplicates, hsome]
    | some audit => simp [Report.duplicates, hsome, haudit audit hsome]
  have hlength : report.perCook.length = config.cooks.toNat := by
    rw [drawn.perCook_eq, List.length_map, State.books, List.length_map, drawn.settled.allCooks]
  refine ⟨valid, hplaces.trans hcapacity, hall.trans hexpected, hhandled.trans hexpected, hleftover,
    hlength, hall ▸ drawn.fulfilled_eq, fun id hid => drawn.perCook_at hid, hpeak, ?_,
    drawn.audit_eq, hok, fun elapsed cpuUser cpuSystem checked => ⟨?_, ?_⟩⟩
  · rw [← hcapacity, hall]
    exact hbound
  · have hwarnings := (Bench.Measurement.warnings_eq_nil_iff
      ⟨config, { report with elapsed }, cpuUser, cpuSystem⟩).mpr hok
    have hviolations := (Bench.Measurement.violations_eq_nil_iff
      ⟨config, { report with elapsed }, cpuUser, cpuSystem⟩).mpr
        ⟨by rw [hplaces]; exact hbound.trans (Nat.min_le_left _ _), haudit⟩
    cases checked <;> simp [Bench.Measurement.issues, hwarnings, hviolations]
  · obtain ⟨front, hrow⟩ := Bench.Measurement.row_ends
      ⟨config, { report with elapsed }, cpuUser, cpuSystem⟩
    refine ⟨front, hrow.trans ?_⟩
    change front ++ "," ++ Separated.join ',' [toString report.accountingOk,
      toString report.duplicates] = _
    rw [hok, hduplicates, String.append_assoc]
    rfl

/-- The narrow shift completes with a report, in which the cooks have fulfilled all four orders. -/
theorem narrow_report :
    ∃ terms moves report, Completed narrow true (.ofKey (.replicate 8 0)) terms moves report ∧
      report.handled = 4 ∧ report.leftover = 0 ∧ report.perCook.length = 3 ∧
      report.fulfilled = .ok 4 ∧ report.peakPending = 1 ∧
      report.audit = some { duplicates := false, complete := true } := by
  obtain ⟨terms, prepared, hexpected⟩ :
      ∃ terms, (prepare narrow true ⟨false, false⟩).terms = .ok terms ∧ terms.expected = 4 :=
    ⟨_, rfl, rfl⟩
  have ample : Ample narrow terms := ⟨by rw [hexpected]; decide, by decide⟩
  have granted (turn : Nat) : ((Surroundings.ofKey (.replicate 8 0)).fortune turn).Granted :=
    Fortune.granted_calm
  obtain ⟨report, ok⟩ := run_ends prepared ample granted
  obtain ⟨terms, moves, completed⟩ := completed_of_run ok
  obtain ⟨-, -, hall, hhandled, hleftover, hlength, hfulfilled, -, hpeak, hbound, haudit, -⟩ :=
    report_exact completed
  refine ⟨terms, moves, report, completed, hhandled, hleftover, hlength,
    hfulfilled.trans (congrArg _ hall), ?_, haudit⟩
  exact Nat.le_antisymm (hbound.trans (Nat.min_le_left _ _)) hpeak

end OrderRail.Shift
