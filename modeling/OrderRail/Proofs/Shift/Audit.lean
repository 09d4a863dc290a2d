import Mathlib.Data.List.Range
import Mathlib.Data.List.Sort
import OrderRail.Shift.Audit

/-!
# What the audit finds

The audit sorts the numbers before it looks at them, so it does not matter in which order they were
noted. In a sorted list equal numbers stand next to each other, so the search among neighbours finds
every number that was noted twice; and a sorted list of the expected length counts up from one
exactly if it was put in order from the numbers from one to the expected count.
-/

namespace OrderRail.Shift.Audit

/-- Sorting noted numbers puts them in nondecreasing order. -/
theorem sorted_ordered (numbers : List Nat) :
    (numbers.mergeSort fun a b => decide (a ≤ b)).Pairwise (· ≤ ·) := by
  have htrans (a b c : Nat) (hab : decide (a ≤ b) = true) (hbc : decide (b ≤ c) = true) :
      decide (a ≤ c) = true :=
    decide_eq_true ((of_decide_eq_true hab).trans (of_decide_eq_true hbc))
  have htotal (a b : Nat) : (decide (a ≤ b) || decide (b ≤ a)) = true := by
    simpa using Nat.le_total a b
  simpa only [decide_eq_true_eq] using List.pairwise_mergeSort htrans htotal numbers

/-- Numbers that are noted in any order are sorted to the one list of them that is in order. -/
theorem sorted_eq_of_perm {numbers ordered : List Nat} (same : numbers.Perm ordered)
    (h : ordered.Pairwise (· ≤ ·)) :
    (numbers.mergeSort fun a b => decide (a ≤ b)) = ordered :=
  List.Perm.eq_of_pairwise (fun _ _ _ _ hab hba => Nat.le_antisymm hab hba)
    (sorted_ordered numbers) h ((List.mergeSort_perm numbers _).trans same)

/-- Consecutive numbers count up from the first one. -/
theorem countsUp_range' (first count : Nat) : countsUp first (List.range' first count) = true := by
  induction count generalizing first with
  | zero => rfl
  | succ count ih => rw [List.range'_succ, countsUp, beq_self_eq_true, ih, Bool.and_self]

/-- Consecutive numbers do not repeat. -/
theorem hasRepeat_range' (first count : Nat) : hasRepeat (List.range' first count) = false := by
  induction count generalizing first with
  | zero => rfl
  | succ count ih =>
    cases count with
    | zero => rfl
    | succ count =>
      have hrest := ih (first + 1)
      rw [List.range'_succ] at hrest
      rw [List.range'_succ, List.range'_succ, hasRepeat, hrest, Bool.or_false, beq_eq_false_iff_ne]
      exact (Nat.lt_succ_self first).ne

/-- In a sorted list two neighbours are equal exactly if some number occurs twice. -/
theorem hasRepeat_eq_false_iff {sorted : List Nat} (ordered : sorted.Pairwise (· ≤ ·)) :
    hasRepeat sorted = false ↔ sorted.Nodup := by
  fun_induction hasRepeat sorted with
  | case1 a b rest ih =>
    obtain ⟨hfirst, hrest⟩ := List.pairwise_cons.mp ordered
    -- the neighbour lies between the first number and any equal one behind it
    have hmem : a ∈ b :: rest ↔ a = b := by
      refine ⟨fun hmem => ?_, fun heq => heq ▸ List.mem_cons_self⟩
      rcases List.mem_cons.mp hmem with heq | hlater
      · exact heq
      · exact Nat.le_antisymm (hfirst b List.mem_cons_self)
          (List.rel_of_pairwise_cons hrest hlater)
    rw [Bool.or_eq_false_iff, beq_eq_false_iff_ne, ih hrest, @List.nodup_cons _ a, hmem]
  | case2 sorted short =>
    cases sorted with
    | nil => simp
    | cons a rest =>
      cases rest with
      | nil => simp
      | cons b rest => exact absurd rfl (short a b rest)

/-- A list counts up from a number exactly if it is the list of consecutive numbers from there. -/
theorem countsUp_eq_true_iff {first : Nat} {numbers : List Nat} :
    countsUp first numbers = true ↔ numbers = List.range' first numbers.length := by
  induction numbers generalizing first with
  | nil => simp [countsUp]
  | cons n rest ih =>
    rw [countsUp, Bool.and_eq_true, beq_iff_eq, ih, List.length_cons, List.range'_succ,
      List.cons.injEq]

/-- A number is found twice exactly if it was noted twice. -/
theorem duplicates_eq_false_iff {numbers : List Nat} {expected : Nat} :
    (ofNumbers numbers expected).duplicates = false ↔ numbers.Nodup :=
  (hasRepeat_eq_false_iff (sorted_ordered numbers)).trans (List.mergeSort_perm numbers _).nodup_iff

/-- The numbers are found complete exactly if they are those from one to the expected count. -/
theorem complete_eq_true_iff {numbers : List Nat} {expected : Nat} :
    (ofNumbers numbers expected).complete = true ↔ numbers.Perm (List.range' 1 expected) := by
  have hsorted := List.mergeSort_perm numbers fun a b => decide (a ≤ b)
  simp only [ofNumbers, Bool.and_eq_true, beq_iff_eq, countsUp_eq_true_iff]
  constructor
  · rintro ⟨hlength, hcounts⟩
    rw [hlength] at hcounts
    exact hcounts ▸ hsorted.symm
  · intro h
    rw [sorted_eq_of_perm h List.pairwise_le_range', List.length_range']
    exact ⟨rfl, rfl⟩

/-- If exactly the numbers from one to the expected count were noted, nothing is found. -/
theorem ofNumbers_of_perm {numbers : List Nat} {expected : Nat}
    (h : numbers.Perm (List.range' 1 expected)) :
    ofNumbers numbers expected = { duplicates := false, complete := true } := by
  have hsorted := sorted_eq_of_perm h List.pairwise_le_range'
  simp only [ofNumbers, hsorted, hasRepeat_range', countsUp_range', List.length_range',
    beq_self_eq_true, Bool.and_self]

/-- The order in which the numbers were noted does not matter. -/
theorem ofNumbers_congr {numbers others : List Nat} (same : numbers.Perm others) (expected : Nat) :
    ofNumbers others expected = ofNumbers numbers expected := by
  have hsorted := sorted_eq_of_perm (same.trans (List.mergeSort_perm others _).symm)
    (sorted_ordered others)
  simp only [ofNumbers, hsorted]

/-- Different numbers between one and their count are all the numbers up to there. -/
theorem perm_range'_of_nodup {numbers : List Nat} (different : numbers.Nodup)
    (bounded : ∀ n ∈ numbers, 1 ≤ n ∧ n ≤ numbers.length) :
    numbers.Perm (List.range' 1 numbers.length) := by
  have hsubset : numbers ⊆ List.range' 1 numbers.length := by
    intro n hmem
    obtain ⟨hpos, hle⟩ := bounded n hmem
    exact List.mem_range'_1.mpr ⟨hpos, by omega⟩
  exact (List.subperm_of_subset different hsubset).perm_of_length_le (by rw [List.length_range'])

/-- The audit answers both of its questions exactly, whatever numbers were noted.

It reports duplicates exactly if some number was noted at least twice, and completeness exactly if
the numbers are those from one to the expected count, in whatever order; where none are expected,
that is the empty list. So the order does not matter to it, complete numbers are without duplicates,
and as many different numbers as were expected, none of them zero or above that count, are
complete. -/
theorem audit_decides (numbers : List Nat) (expected : Nat) :
    ((ofNumbers numbers expected).duplicates = true ↔ ∃ n, 2 ≤ numbers.count n) ∧
    ((ofNumbers numbers expected).complete = true ↔ numbers.Perm (List.range' 1 expected)) ∧
    ((ofNumbers numbers 0).complete = true ↔ numbers = []) ∧
    (∀ others, numbers.Perm others →
      ofNumbers others expected = ofNumbers numbers expected) ∧
    ((ofNumbers numbers expected).complete = true →
      (ofNumbers numbers expected).duplicates = false) ∧
    (numbers.length = expected → (∀ n ∈ numbers, 1 ≤ n ∧ n ≤ expected) →
      (ofNumbers numbers expected).duplicates = false →
        (ofNumbers numbers expected).complete = true) := by
  refine ⟨?_, complete_eq_true_iff, ?_, fun others same => ofNumbers_congr same expected, ?_, ?_⟩
  · rw [← Bool.not_eq_false, duplicates_eq_false_iff, List.nodup_iff_count_le_one]
    push Not
    rfl
  · rw [complete_eq_true_iff, List.range'_zero, List.perm_nil]
  · intro complete
    exact duplicates_eq_false_iff.mpr
      ((complete_eq_true_iff.mp complete).nodup_iff.mpr List.nodup_range')
  · rintro rfl bounded different
    exact complete_eq_true_iff.mpr
      (perm_range'_of_nodup (duplicates_eq_false_iff.mp different) bounded)

/-- Three numbers noted out of order are complete and without duplicates, in any other order too,
and a largest word that is noted twice is a duplicate. -/
theorem audit_of_shuffled :
    [3, 1, 2].Perm [2, 3, 1] ∧ ofNumbers [2, 3, 1] 3 = ofNumbers [3, 1, 2] 3 ∧
      [3, 1, 2].length = 3 ∧ (∀ n ∈ [3, 1, 2], 1 ≤ n ∧ n ≤ 3) ∧
      (ofNumbers [3, 1, 2] 3).duplicates = false ∧ (ofNumbers [3, 1, 2] 3).complete = true ∧
      (ofNumbers [18446744073709551615, 0, 18446744073709551615] 3).duplicates = true := by
  have same : [3, 1, 2].Perm [2, 3, 1] := by decide
  have length : [3, 1, 2].length = 3 := rfl
  have bounded : ∀ n ∈ [3, 1, 2], 1 ≤ n ∧ n ≤ 3 := by decide
  obtain ⟨-, hcomplete, -, hcongr, hdifferent, hbounded⟩ := audit_decides [3, 1, 2] 3
  have different := hdifferent (hcomplete.mpr (by decide))
  obtain ⟨hduplicates, -⟩ := audit_decides [18446744073709551615, 0, 18446744073709551615] 3
  exact ⟨same, hcongr _ same, length, bounded, different, hbounded length bounded different,
    hduplicates.mpr ⟨18446744073709551615, by decide⟩⟩

end OrderRail.Shift.Audit
