import QueryPlan.Reading

/-! A rule that calls itself only where it has taken something is a solution of its equation: the
calls that `fix` would refuse never come. -/

namespace QueryPlan.Reading

open Remains (remaining)

variable {σ ε α β ι : Type} [Remains σ]

theorem ext {p q : Reading σ ε α} (h : ∀ s, p.run s = q.run s) : p = q := by
  cases p
  cases q
  congr
  exact funext h

section Bind
variable {p : Reading σ ε α} {f : α → Reading σ ε β} {s rest : σ} {a : α} {b : β} {e : ε}

theorem run_bind_ok (h : p.run s = (.ok a, rest)) : (p >>= f).run s = (f a).run rest := by
  simp only [Bind.bind, h]

theorem run_bind_error (h : p.run s = (.error e, rest)) :
    (p >>= f).run s = (.error e, rest) := by
  simp only [Bind.bind, h]

theorem run_bind_eq_ok (h : (p >>= f).run s = (.ok b, rest)) :
    ∃ a mid, p.run s = (.ok a, mid) ∧ (f a).run mid = (.ok b, rest) := by
  rcases hp : p.run s with ⟨e | a, mid⟩
  · rw [run_bind_error hp] at h
    cases h
  · exact ⟨a, mid, rfl, run_bind_ok hp ▸ h⟩

theorem run_if_true {c : Reading σ ε Bool} {q q' : Reading σ ε α} (h : c.run s = (.ok true, rest)) :
    (do if ← c then q else q').run s = q.run rest :=
  run_bind_ok h

theorem run_if_false {c : Reading σ ε Bool} {q q' : Reading σ ε α}
    (h : c.run s = (.ok false, rest)) : (do if ← c then q else q').run s = q'.run rest :=
  run_bind_ok h

end Bind

section Fix
variable [Inhabited ε] {f : (ι → Reading σ ε α) → ι → Reading σ ε α} {i : ι} {s : σ}

theorem below_congr {p q : Reading σ ε α}
    (h : ∀ rest, remaining rest < remaining s → p.run rest = q.run rest) :
    p.below s = q.below s := by
  apply ext
  intro rest
  simp only [below]
  split
  · next hlt => exact h rest hlt
  · rfl

theorem run_go {n : Nat} (hs : remaining s ≤ n) :
    (fix.go f n i).run s = (f (fun j => (fix.go f (n - 1) j).below s) i).run s := by
  cases n with
  | zero =>
    have hfail (p : Reading σ ε α) : p.below s = fail default := by
      apply ext
      intro rest
      exact if_neg (by omega)
    simp only [hfail]
    rfl
  | succ n => rfl

/-- Any bound on what remains will do. -/
theorem go_congr {n m : Nat} (hn : remaining s ≤ n) (hm : remaining s ≤ m) :
    (fix.go f n i).run s = (fix.go f m i).run s := by
  induction n generalizing m i s with
  | zero =>
    rw [run_go hn, run_go hm]
    congr
    exact funext fun j => below_congr fun rest hlt => absurd hlt (by omega)
  | succ n ih =>
    rw [run_go hn, run_go hm]
    congr
    exact funext fun j => below_congr fun rest hlt => ih (by omega) (by omega)

theorem run_fix : (fix f i).run s = (f (fun j => (fix f j).below s) i).run s := by
  refine (run_go (Nat.le_refl _)).trans ?_
  congr
  exact funext fun j => below_congr fun rest hlt => go_congr (by omega) (Nat.le_refl _)

end Fix

/-- Where less than `n` remains, the readers do the same. -/
def Same (n : Nat) (p q : Reading σ ε α) : Prop := ∀ s, remaining s < n → p.run s = q.run s

namespace Same

variable {n m : Nat} {p q : Reading σ ε α} {f g : α → Reading σ ε β}

theorem refl (n : Nat) (p : Reading σ ε α) : Same n p p := fun _ _ => rfl

theorem mono (h : Same n p q) (hm : m ≤ n) : Same m p q := fun s hs => h s (by omega)

theorem bind (h : Same n p q) (hf : ∀ a, Same n (f a) (g a)) : Same n (p >>= f) (q >>= g) := by
  intro s hs
  rcases hp : p.run s with ⟨e | a, rest⟩
  · rw [run_bind_error hp, run_bind_error ((h s hs).symm.trans hp)]
  · rw [run_bind_ok hp, run_bind_ok ((h s hs).symm.trans hp)]
    exact hf a rest (Nat.lt_of_le_of_lt (le_of_run hp) hs)

theorem bind_left (h : Same n p q) : Same n (p >>= f) (q >>= f) := h.bind fun _ => refl n _

theorem bind_right (h : ∀ a, Same n (f a) (g a)) : Same n (p >>= f) (p >>= g) := (refl n p).bind h

theorem ite {c : Prop} [Decidable c] {p' q' : Reading σ ε α} (h : Same n p q)
    (h' : Same n p' q') : Same n (if c then p else p') (if c then q else q') := by
  split
  · exact h
  · exact h'

section Fix
variable [Inhabited ε]

theorem fix {f g : (ι → Reading σ ε α) → ι → Reading σ ε α}
    (h : ∀ m ≤ n, ∀ u v, (∀ j, Same m (u j) (v j)) → ∀ i, Same m (f u i) (g v i)) (i : ι) :
    Same n (fix f i) (fix g i) := by
  intro s
  induction hk : remaining s using Nat.strongRecOn generalizing i s with
  | ind k ih =>
    intro hs
    rw [run_fix, run_fix]
    refine h (k + 1) hs _ _ (fun j rest hrest => ?_) i s (by omega)
    simp only [below]
    split
    · exact ih _ (by omega) j rest rfl (by omega)
    · rfl

theorem again {f g : Reading σ ε α → Reading σ ε α}
    (h : ∀ m ≤ n, ∀ u v, Same m u v → Same m (f u) (g v)) : Same n (again f) (again g) :=
  fix (fun m hm u v hself _ => h m hm (u ()) (v ()) (hself ())) ()

theorem sepBy {sep : Reading σ ε Bool} (h : Same n p q) : Same n (sepBy sep p) (sepBy sep q) :=
  again fun _ hm _ _ hself =>
    (h.mono hm).bind fun _ => bind_right fun _ => ite hself.bind_left (refl _ _)

theorem many {p q : Reading σ ε (Option α)} (h : Same n p q) : Same n (many p) (many q) := by
  refine again fun m hm u v hself => (h.mono hm).bind fun found => ?_
  cases found with
  | none => exact refl _ _
  | some a => exact hself.bind_left

end Fix
end Same

/-- Results with the property come only where something was taken for them. -/
def Takes (p : Reading σ ε α) (P : α → Prop) : Prop :=
  ∀ ⦃s a rest⦄, p.run s = (.ok a, rest) → P a → remaining rest < remaining s

namespace Takes

variable {p : Reading σ ε α} {f g : α → Reading σ ε β} {P : α → Prop} {Q : β → Prop} {n : Nat}

theorem mono {P' : α → Prop} (h : Takes p P) (hP : ∀ a, P' a → P a) : Takes p P' :=
  fun _ _ _ hrun ha => h hrun (hP _ ha)

theorem pure {a : α} (h : ¬ P a) : Takes (pure a : Reading σ ε α) P := by
  intro s b rest hrun hb
  cases hrun
  exact absurd hb h

theorem fail (e : ε) : Takes (fail e : Reading σ ε α) P := fun _ _ _ hrun => nomatch hrun

theorem bind (h : Takes p P) (hf : ∀ a, ¬ P a → Takes (f a) Q) : Takes (p >>= f) Q := by
  intro s b rest hrun hb
  obtain ⟨a, mid, hp, hrun⟩ := run_bind_eq_ok hrun
  by_cases ha : P a
  · exact Nat.lt_of_le_of_lt (le_of_run hrun) (h hp ha)
  · exact Nat.lt_of_lt_of_le (hf a ha hrun hb) (le_of_run hp)

theorem bind_left (h : Takes p fun _ => True) : Takes (p >>= f) Q :=
  h.bind fun _ hn => absurd trivial hn

theorem bind_right (h : ∀ a, Takes (f a) Q) : Takes (p >>= f) Q := by
  intro s b rest hrun hb
  obtain ⟨a, mid, hp, hrun⟩ := run_bind_eq_ok hrun
  exact Nat.lt_of_lt_of_le (h a hrun hb) (le_of_run hp)

theorem ite {c : Prop} [Decidable c] {p q : Reading σ ε α} (h : c → Takes p P)
    (h' : ¬ c → Takes q P) : Takes (if c then p else q) P := by
  split
  · next hc => exact h hc
  · next hc => exact h' hc

theorem or_else {c : Reading σ ε Bool} {p q : Reading σ ε α} (h : Takes c (· = true))
    (hq : Takes q P) : Takes (do if ← c then p else q) P :=
  h.bind fun _ hb => .ite (fun ht => absurd ht hb) fun _ => hq

theorem or_none {p : Reading σ ε (Option α)} {f : Option α → Reading σ ε β}
    (h : Takes p (·.isSome)) (hn : Takes (f none) Q) : Takes (p >>= f) Q := by
  refine h.bind fun found hfound => ?_
  obtain rfl := Option.not_isSome_iff_eq_none.mp hfound
  exact hn

theorem same (h : Takes p P) (ht : ∀ a, P a → Same n (f a) (g a))
    (hn : ∀ a, ¬ P a → Same (n + 1) (f a) (g a)) : Same (n + 1) (p >>= f) (p >>= g) := by
  intro s hs
  rcases hp : p.run s with ⟨e | a, rest⟩
  · rw [run_bind_error hp, run_bind_error hp]
  · rw [run_bind_ok hp, run_bind_ok hp]
    have hle := le_of_run hp
    by_cases ha : P a
    · have hlt := h hp ha
      exact ht a ha rest (by omega)
    · exact hn a ha rest (by omega)

theorem same_left (h : Takes p fun _ => True) (hf : ∀ a, Same n (f a) (g a)) :
    Same (n + 1) (p >>= f) (p >>= g) :=
  h.same (fun a _ => hf a) fun _ hn => absurd trivial hn

theorem same_if {c : Reading σ ε Bool} {p p' q q' : Reading σ ε α} (h : Takes c (· = true))
    (ht : Same n p p') (hf : Same (n + 1) q q') :
    Same (n + 1) (do if ← c then p else q) (do if ← c then p' else q') := by
  refine h.same (fun b hb => ?_) fun b hb => ?_
  · rw [if_pos hb, if_pos hb]
    exact ht
  · rw [if_neg hb, if_neg hb]
    exact hf

theorem same_match {p : Reading σ ε (Option α)} {f g : Option α → Reading σ ε β}
    (h : Takes p (·.isSome)) (ht : ∀ a, Same n (f (some a)) (g (some a)))
    (hf : Same (n + 1) (f none) (g none)) : Same (n + 1) (p >>= f) (p >>= g) := by
  refine h.same (fun found hfound => ?_) fun found hfound => ?_
  · obtain ⟨a, rfl⟩ := Option.isSome_iff_exists.mp hfound
    exact ht a
  · obtain rfl := Option.not_isSome_iff_eq_none.mp hfound
    exact hf

end Takes

section Equations
variable [Inhabited ε]

theorem fix_eq {f : (ι → Reading σ ε α) → ι → Reading σ ε α}
    (h : ∀ n u v, (∀ j, Same n (u j) (v j)) → ∀ i, Same (n + 1) (f u i) (f v i)) :
    fix f = f (fix f) := by
  funext i
  apply ext
  intro s
  rw [run_fix]
  exact h (remaining s) _ _ (fun j rest hlt => if_pos hlt) i s (Nat.lt_succ_self _)

/-- There is no other solution. -/
theorem fix_unique {f : (ι → Reading σ ε α) → ι → Reading σ ε α} {p : ι → Reading σ ε α}
    (h : ∀ n u v, (∀ j, Same n (u j) (v j)) → ∀ i, Same (n + 1) (f u i) (f v i)) (hp : p = f p) :
    p = fix f := by
  have hsame (n : Nat) : ∀ i, Same n (p i) (fix f i) := by
    induction n with
    | zero => exact fun i s hs => absurd hs (Nat.not_lt_zero _)
    | succ n ih =>
      rw [hp, fix_eq h]
      exact h n p (fix f) ih
  funext i
  exact ext fun s => hsame _ i s (Nat.lt_succ_self _)

theorem again_eq {f : Reading σ ε α → Reading σ ε α}
    (h : ∀ n p q, Same n p q → Same (n + 1) (f p) (f q)) : again f = f (again f) :=
  congrFun (fix_eq (f := fun self (_ : Unit) => f (self ()))
    fun n _ _ hself _ => h n _ _ (hself ())) ()

theorem sepBy_eq {sep : Reading σ ε Bool} (h : Takes sep (· = true)) (p : Reading σ ε α) :
    sepBy sep p = sepByRule sep p (sepBy sep p) :=
  again_eq fun _ _ _ hself => .bind_right fun _ => h.same_if hself.bind_left (.refl _ _)

theorem many_eq {p : Reading σ ε (Option α)} (h : Takes p (·.isSome)) :
    many p = manyRule p (many p) :=
  again_eq fun _ _ _ hself => h.same_match (fun _ => hself.bind_left) (.refl _ _)

theorem repeated_eq {p : Reading σ ε Bool} (h : Takes p (· = true)) :
    repeated p = repeatedRule p (repeated p) :=
  again_eq fun _ _ _ hself => h.same_if hself (.refl _ _)

end Equations
end QueryPlan.Reading
