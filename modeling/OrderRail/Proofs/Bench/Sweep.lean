import OrderRail.Bench.Sweep
import OrderRail.Proofs.Shift.Config

/-!
# What the check of a sweep says

A sweep passes its check exactly if all four sets have values and none of them is zero. Its shifts
are all combinations of those values, so each of them passes its own check, which asks for no more;
and as every value is taken into some shift, nothing less would do. Neither check looks at how many
orders come out.

The place of a shift in the sweep is read off the places of its four values: they are the digits of
a number whose digits count up to the sizes of the sets.
-/

namespace OrderRail.Bench.Sweep

open Shift (Config)

/-- A set passes its check exactly if it has values and none of them is zero. -/
theorem checkSet_eq_ok_iff {name : String} {values : List UInt64} :
    checkSet name values = .ok () ↔ values ≠ [] ∧ 0 ∉ values := by
  unfold checkSet
  by_cases hempty : values = []
  · simp [hempty]
  · by_cases hzero : (0 : UInt64) ∈ values <;> simp [hempty, hzero]

/-- A sweep passes its check exactly if all four sets do. -/
theorem validate_eq_ok_iff {sweep : Sweep} :
    sweep.validate = .ok () ↔
      (sweep.customers ≠ [] ∧ 0 ∉ sweep.customers) ∧
      (sweep.ordersPerCustomer ≠ [] ∧ 0 ∉ sweep.ordersPerCustomer) ∧
      (sweep.cooks ≠ [] ∧ 0 ∉ sweep.cooks) ∧ sweep.capacities ≠ [] ∧ 0 ∉ sweep.capacities := by
  have bind_eq (first second : Except ConfigError Unit) :
      (first >>= fun _ => second) = .ok () ↔ first = .ok () ∧ second = .ok () := by
    rcases first with error | ⟨⟩ <;> simp [bind, Except.bind]
  simp only [validate, bind_eq, checkSet_eq_ok_iff]

/-- The shifts of a sweep are the combinations of its values. -/
theorem mem_configs_iff {sweep : Sweep} {config : Config} :
    config ∈ sweep.configs ↔
      config.customers ∈ sweep.customers ∧ config.ordersPerCustomer ∈ sweep.ordersPerCustomer ∧
      config.cooks ∈ sweep.cooks ∧ config.capacity ∈ sweep.capacities ∧
      config.workMillis = sweep.workMillis ∧ config.seed = sweep.seed := by
  simp only [configs, List.mem_flatMap, List.mem_map]
  constructor
  · rintro ⟨customers, hcustomers, orders, horders, cooks, hcooks, capacity, hcapacity, rfl⟩
    exact ⟨hcustomers, horders, hcooks, hcapacity, rfl, rfl⟩
  · rintro ⟨hcustomers, horders, hcooks, hcapacity, hwork, hseed⟩
    exact ⟨_, hcustomers, _, horders, _, hcooks, _, hcapacity, by rw [← hwork, ← hseed]⟩

/-- The shifts of a sweep that passes its check pass theirs. -/
theorem valid_of_mem {sweep : Sweep} {config : Config} (accepted : sweep.validate = .ok ())
    (h : config ∈ sweep.configs) : config.validate = .ok () := by
  obtain ⟨⟨-, hcustomers⟩, ⟨-, horders⟩, ⟨-, hcooks⟩, -, hcapacities⟩ :=
    validate_eq_ok_iff.mp accepted
  obtain ⟨customers, orders, cooks, capacity, -, -⟩ := mem_configs_iff.mp h
  exact Shift.Config.validate_eq_ok_iff.mpr ⟨ne_of_mem_of_not_mem capacity hcapacities,
    ne_of_mem_of_not_mem customers hcustomers, ne_of_mem_of_not_mem cooks hcooks,
    ne_of_mem_of_not_mem orders horders⟩

/-- If there are shifts, all four sets have values, and every value of them is taken. -/
theorem validate_of_configs {sweep : Sweep} (some_config : sweep.configs ≠ [])
    (valid : ∀ config ∈ sweep.configs, config.validate = .ok ()) : sweep.validate = .ok () := by
  obtain ⟨first, hfirst⟩ := List.exists_mem_of_ne_nil _ some_config
  obtain ⟨hcustomers, horders, hcooks, hcapacities, hwork, hseed⟩ := mem_configs_iff.mp hfirst
  -- a zero in one set would be taken together with the other values of the first shift
  have sizes (config : Config) (hmem : config ∈ sweep.configs) :=
    Shift.Config.validate_eq_ok_iff.mp (valid config hmem)
  refine validate_eq_ok_iff.mpr ⟨⟨List.ne_nil_of_mem hcustomers, fun hzero => ?_⟩,
    ⟨List.ne_nil_of_mem horders, fun hzero => ?_⟩, ⟨List.ne_nil_of_mem hcooks, fun hzero => ?_⟩,
    List.ne_nil_of_mem hcapacities, fun hzero => ?_⟩
  · have hmem : { first with customers := 0 } ∈ sweep.configs :=
      mem_configs_iff.mpr ⟨hzero, horders, hcooks, hcapacities, hwork, hseed⟩
    exact (sizes _ hmem).2.1 rfl
  · have hmem : { first with ordersPerCustomer := 0 } ∈ sweep.configs :=
      mem_configs_iff.mpr ⟨hcustomers, hzero, hcooks, hcapacities, hwork, hseed⟩
    exact (sizes _ hmem).2.2.2 rfl
  · have hmem : { first with cooks := 0 } ∈ sweep.configs :=
      mem_configs_iff.mpr ⟨hcustomers, horders, hzero, hcapacities, hwork, hseed⟩
    exact (sizes _ hmem).2.2.1 rfl
  · have hmem : { first with capacity := 0 } ∈ sweep.configs :=
      mem_configs_iff.mpr ⟨hcustomers, horders, hcooks, hzero, hwork, hseed⟩
    exact (sizes _ hmem).1 rfl

/-- A sweep whose check succeeds has shifts. -/
theorem configs_ne_nil {sweep : Sweep} (accepted : sweep.validate = .ok ()) :
    sweep.configs ≠ [] := by
  obtain ⟨⟨hcustomers, -⟩, ⟨horders, -⟩, ⟨hcooks, -⟩, hcapacities, -⟩ :=
    validate_eq_ok_iff.mp accepted
  obtain ⟨customers, customer_mem⟩ := List.exists_mem_of_ne_nil _ hcustomers
  obtain ⟨orders, order_mem⟩ := List.exists_mem_of_ne_nil _ horders
  obtain ⟨cooks, cook_mem⟩ := List.exists_mem_of_ne_nil _ hcooks
  obtain ⟨capacity, capacity_mem⟩ := List.exists_mem_of_ne_nil _ hcapacities
  let config : Config :=
    { capacity, customers, cooks, ordersPerCustomer := orders
      workMillis := sweep.workMillis, seed := sweep.seed }
  have hmem : config ∈ sweep.configs :=
    mem_configs_iff.mpr ⟨customer_mem, order_mem, cook_mem, capacity_mem, rfl, rfl⟩
  exact List.ne_nil_of_mem hmem

/-- A digit before another one stays below the product of their bases. -/
theorem digits_lt {position count offset width : Nat} (hposition : position < count)
    (hoffset : offset < width) : position * width + offset < count * width := by
  calc position * width + offset < position * width + width := Nat.add_lt_add_left hoffset _
    _ = (position + 1) * width := (Nat.succ_mul position width).symm
    _ ≤ count * width := Nat.mul_le_mul_right width hposition

section

variable {α β : Type} {f : α → List β} {width : Nat}

/-- Where every item has as many results, there are that many times the items. -/
theorem length_flatMap_eq_mul (widths : ∀ a, (f a).length = width) (items : List α) :
    (items.flatMap f).length = items.length * width := by
  simp only [List.length_flatMap, widths, List.map_const', List.sum_replicate_nat]

/-- Where every item has as many results, a result is found by the place of its item and its own
place among the results of that item. -/
theorem getElem?_flatMap (widths : ∀ a, (f a).length = width) {items : List α}
    {position offset : Nat} (hposition : position < items.length) (hoffset : offset < width) :
    (items.flatMap f)[position * width + offset]? = (f items[position])[offset]? := by
  induction items generalizing position with
  | nil => cases hposition
  | cons first rest ih =>
    rw [List.flatMap_cons]
    cases position with
    | zero =>
      rw [Nat.zero_mul, Nat.zero_add, List.getElem?_append_left (by rwa [widths])]
      rfl
    | succ position =>
      have hplace : (position + 1) * width + offset - width = position * width + offset := by
        rw [Nat.succ_mul]
        omega
      rw [List.getElem?_append_right (by rw [widths, Nat.succ_mul]; omega), widths, hplace]
      exact ih (Nat.lt_of_succ_lt_succ hposition)

end

/-- A sweep has as many shifts as there are combinations of values. -/
theorem length_configs (sweep : Sweep) :
    sweep.configs.length = sweep.customers.length * sweep.ordersPerCustomer.length *
      sweep.cooks.length * sweep.capacities.length := by
  rw [Nat.mul_assoc, Nat.mul_assoc]
  refine length_flatMap_eq_mul (fun _ => ?_) _
  refine length_flatMap_eq_mul (fun _ => ?_) _
  exact length_flatMap_eq_mul (fun _ => List.length_map _) _

/-- The shift at a place of a sweep is made of the values at the four places that are the digits of
that place. -/
theorem configs_getElem? (sweep : Sweep) {a b c d : Nat} (ha : a < sweep.customers.length)
    (hb : b < sweep.ordersPerCustomer.length) (hc : c < sweep.cooks.length)
    (hd : d < sweep.capacities.length) :
    sweep.configs[((a * sweep.ordersPerCustomer.length + b) * sweep.cooks.length + c) *
        sweep.capacities.length + d]? =
      some
        { capacity := sweep.capacities[d]
          customers := sweep.customers[a]
          cooks := sweep.cooks[c]
          ordersPerCustomer := sweep.ordersPerCustomer[b]
          workMillis := sweep.workMillis
          seed := sweep.seed } := by
  have hplace : ((a * sweep.ordersPerCustomer.length + b) * sweep.cooks.length + c) *
        sweep.capacities.length + d =
      a * (sweep.ordersPerCustomer.length * (sweep.cooks.length * sweep.capacities.length)) +
        (b * (sweep.cooks.length * sweep.capacities.length) +
          (c * sweep.capacities.length + d)) := by
    simp only [Nat.add_mul, Nat.mul_assoc, Nat.add_assoc]
  have hcooks := digits_lt hc hd
  have horders := digits_lt hb hcooks
  rw [hplace, configs, getElem?_flatMap ?_ ha horders, getElem?_flatMap ?_ hb hcooks,
    getElem?_flatMap ?_ hc hd, List.getElem?_map, List.getElem?_eq_getElem hd]
  · rfl
  · exact fun _ => List.length_map _
  · exact fun _ => length_flatMap_eq_mul (fun _ => List.length_map _) _
  · intro _
    refine length_flatMap_eq_mul (fun _ => ?_) _
    exact length_flatMap_eq_mul (fun _ => List.length_map _) _

end OrderRail.Bench.Sweep
