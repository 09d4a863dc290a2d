import OrderRail.Shift.Config

/-!
# What the parameters of a shift say

The check of the parameters asks that none of the first four sizes is zero, and nothing else. The
number of orders is the product of two of them, exactly, if a counter can hold it.
-/

namespace OrderRail.Shift.Config

/-- A shift passes its check exactly if none of its sizes is zero. -/
theorem validate_eq_ok_iff {config : Config} :
    config.validate = .ok () ↔ config.capacity ≠ 0 ∧ config.customers ≠ 0 ∧ config.cooks ≠ 0 ∧
      config.ordersPerCustomer ≠ 0 := by
  unfold validate
  by_cases hcapacity : config.capacity = 0
  · simp [hcapacity]
  by_cases hcustomers : config.customers = 0
  · simp [hcapacity, hcustomers]
  by_cases hcooks : config.cooks = 0
  · simp [hcapacity, hcustomers, hcooks]
  by_cases horders : config.ordersPerCustomer = 0
  · simp [hcapacity, hcustomers, hcooks, horders]
  · simp [hcapacity, hcustomers, hcooks, horders]

/-- The sizes of a valid configuration are positive. -/
theorem pos_of_validate {config : Config} (valid : config.validate = .ok ()) :
    0 < config.capacity.toNat ∧ 0 < config.customers.toNat ∧ 0 < config.cooks.toNat ∧
      0 < config.ordersPerCustomer.toNat := by
  have hpos {size : UInt64} (h : size ≠ 0) : 0 < size.toNat :=
    Nat.pos_of_ne_zero fun hzero => h (UInt64.toNat_inj.mp hzero)
  obtain ⟨capacity, customers, cooks, orders⟩ := validate_eq_ok_iff.mp valid
  exact ⟨hpos capacity, hpos customers, hpos cooks, hpos orders⟩

/-- How many orders the customers of a shift place together. -/
def totalOrders (config : Config) : Nat :=
  config.customers.toNat * config.ordersPerCustomer.toNat

/-- The expected orders are the exact product, or a fault if no counter can hold it. -/
theorem expectedOrders_eq (config : Config) :
    config.expectedOrders =
      if config.totalOrders < Count.wordSize then .ok config.totalOrders
      else .error .mulOverflow := by
  by_cases h : config.totalOrders < Count.wordSize
  · have hmul : Count.mul? config.customers.toNat config.ordersPerCustomer.toNat =
        some config.totalOrders := Count.fit?_eq_some_iff.mpr ⟨h, rfl⟩
    rw [expectedOrders, hmul, if_pos h]
  · have hmul : Count.mul? config.customers.toNat config.ordersPerCustomer.toNat = none :=
      Count.fit?_eq_none_iff.mpr (Nat.le_of_not_lt h)
    rw [expectedOrders, hmul, if_neg h]

end OrderRail.Shift.Config
