/-! Counts of tuples and of distinct values. A count is a 64-bit word; where an exact sum or
product does not fit, the largest word stands for it. -/

namespace QueryPlan

abbrev Count := UInt64

namespace Count

def clip (n : Nat) : Count := UInt64.ofNat (min n (UInt64.size - 1))

theorem toNat_clip (n : Nat) : (clip n).toNat = min n (UInt64.size - 1) := by
  simp only [clip, UInt64.toNat_ofNat', UInt64.size]
  omega

def sum (a b : Count) : Count := clip (a.toNat + b.toNat)

def product (a b : Count) : Count := clip (a.toNat * b.toNat)

def atLeastOne (a : Count) : Count := if a = 0 then 1 else a

def larger (a b : Count) : Count := if a < b then b else a

def smaller (a b : Count) : Count := if b < a then b else a

theorem toNat_sum (a b : Count) : (sum a b).toNat = min (a.toNat + b.toNat) (UInt64.size - 1) :=
  toNat_clip _

theorem toNat_product (a b : Count) :
    (product a b).toNat = min (a.toNat * b.toNat) (UInt64.size - 1) :=
  toNat_clip _

theorem toNat_atLeastOne (a : Count) : (atLeastOne a).toNat = max a.toNat 1 := by
  unfold atLeastOne
  split
  · next h => subst h; rfl
  · next h =>
    have : a.toNat ≠ 0 := fun e => h (UInt64.toNat_inj.mp e)
    omega

theorem atLeastOne_ne_zero {a : Count} : atLeastOne a ≠ 0 := by
  unfold atLeastOne
  split
  · exact by decide
  · next h => exact h

theorem toNat_larger (a b : Count) : (larger a b).toNat = max a.toNat b.toNat := by
  unfold larger
  split
  · next h => have := UInt64.lt_iff_toNat_lt.mp h; omega
  · next h => have := mt UInt64.lt_iff_toNat_lt.mpr h; omega

theorem toNat_smaller (a b : Count) : (smaller a b).toNat = min a.toNat b.toNat := by
  unfold smaller
  split
  · next h => have := UInt64.lt_iff_toNat_lt.mp h; omega
  · next h => have := mt UInt64.lt_iff_toNat_lt.mpr h; omega

end Count
end QueryPlan
