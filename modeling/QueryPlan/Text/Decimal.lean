import QueryPlan.Count

/-! Counts in decimal digits. -/

namespace QueryPlan.Text

def isDigit (c : Char) : Bool := '0' ≤ c && c ≤ '9'

def decimal? (cs : List Char) : Option Nat :=
  if cs ≠ [] ∧ cs.all isDigit then
    some (cs.foldl (fun n c => 10 * n + (c.toNat - '0'.toNat)) 0)
  else none

theorem isDigit_of_mem_toDigits {n : Nat} {c : Char} (h : c ∈ Nat.toDigits 10 n) :
    isDigit c = true :=
  Nat.isDigit_of_mem_toDigits (by decide) (by decide) h

theorem decimal?_toDigits (n : Nat) : decimal? (Nat.toDigits 10 n) = some n := by
  have hdigits : (Nat.toDigits 10 n).all isDigit = true :=
    List.all_eq_true.mpr fun _ => isDigit_of_mem_toDigits
  rw [decimal?, if_pos ⟨Nat.toDigits_ne_nil, hdigits⟩, ← Nat.ofDigitChars_eq_foldl,
    Nat.ofDigitChars_ten_toDigits]

theorem toDigits_eq_zero_cons {n : Nat} {ds : List Char} (h : Nat.toDigits 10 n = '0' :: ds) :
    ds = [] := by
  induction n using Nat.strongRecOn generalizing ds with
  | ind n ih =>
    rw [Nat.toDigits_eq_if (by decide)] at h
    split at h
    · exact (List.cons.inj h).2.symm
    · next hlarge =>
      have hne : Nat.toDigits 10 (n / 10) ≠ [] := Nat.toDigits_ne_nil
      obtain ⟨d, front, hfront⟩ := List.exists_cons_of_ne_nil hne
      rw [hfront, List.cons_append, List.cons.injEq] at h
      obtain ⟨rfl, -⟩ := h
      have hzero := decimal?_toDigits (n / 10)
      rw [hfront, ih (n / 10) (by omega) hfront] at hzero
      have : 0 = n / 10 := Option.some.inj hzero
      omega

end QueryPlan.Text

namespace QueryPlan.Count

def ofNat? (n : Nat) : Option Count := if n < UInt64.size then some (UInt64.ofNat n) else none

/-- Reads decimal digits after an optional plus sign. -/
def ofText? (cs : List Char) : Option Count :=
  match cs with
  | '+' :: digits => (Text.decimal? digits).bind ofNat?
  | digits => (Text.decimal? digits).bind ofNat?

theorem ofNat?_eq_some {n : Nat} {a : Count} : ofNat? n = some a ↔ n = a.toNat := by
  constructor
  · intro h
    unfold ofNat? at h
    split at h
    · next hn => rw [← Option.some.inj h, UInt64.toNat_ofNat_of_lt' hn]
    · cases h
  · rintro rfl
    rw [ofNat?, if_pos a.toNat_lt, UInt64.ofNat_toNat]

end QueryPlan.Count
