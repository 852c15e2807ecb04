/-! Readers of what remains of a text. A reader takes from the front or fails, and never puts
anything back. So a rule may call itself wherever it has taken something before, and needs no bound
on how often it does: the text comes to an end. -/

namespace QueryPlan

class Remains (σ : Type) where
  remaining : σ → Nat

open Remains (remaining)

instance {α : Type} : Remains (List α) := ⟨List.length⟩

/-- A result or a failure, with what is left of the text then. -/
structure Reading (σ ε : Type) [Remains σ] (α : Type) where
  run : σ → Except ε α × σ
  le (s : σ) : remaining (run s).2 ≤ remaining s

namespace Reading

variable {σ ε α ι : Type} [Remains σ]

theorem le_of_run {p : Reading σ ε α} {s rest : σ} {r : Except ε α} (h : p.run s = (r, rest)) :
    remaining rest ≤ remaining s := by
  have hle := p.le s
  rwa [h] at hle

instance : Monad (Reading σ ε) where
  pure a := ⟨fun s => (.ok a, s), fun _ => Nat.le_refl _⟩
  bind p f := {
    run := fun s =>
      match p.run s with
      | (.ok a, rest) => (f a).run rest
      | (.error e, rest) => (.error e, rest)
    le := fun s => by
      split
      · next a rest hp => exact Nat.le_trans ((f a).le rest) (le_of_run hp)
      · next e rest hp => exact le_of_run hp }

def here : Reading σ ε σ := ⟨fun s => (.ok s, s), fun _ => Nat.le_refl _⟩

def fail (e : ε) : Reading σ ε α := ⟨fun s => (.error e, s), fun _ => Nat.le_refl _⟩

def update (f : σ → σ) (h : ∀ s, remaining (f s) ≤ remaining s) : Reading σ ε Unit :=
  ⟨fun s => (.ok (), f s), h⟩

section Recursion
variable [Inhabited ε]

/-- Reads where less remains than at `s`, and fails elsewhere. -/
def below (p : Reading σ ε α) (s : σ) : Reading σ ε α where
  run rest := if remaining rest < remaining s then p.run rest else (.error default, rest)
  le rest := by
    split
    · exact p.le rest
    · exact Nat.le_refl _

/-- Reads by a rule that may call itself, but only where something was taken before the call. -/
def fix (f : (ι → Reading σ ε α) → ι → Reading σ ε α) (i : ι) : Reading σ ε α :=
  ⟨fun s => (go (remaining s) i).run s, fun s => (go (remaining s) i).le s⟩
where
  go : Nat → ι → Reading σ ε α
    | 0, i => f (fun _ => fail default) i
    | n + 1, i =>
      ⟨fun s => (f (fun j => (go n j).below s) i).run s,
        fun s => (f (fun j => (go n j).below s) i).le s⟩

def again (f : Reading σ ε α → Reading σ ε α) : Reading σ ε α :=
  fix (fun self (_ : Unit) => f (self ())) ()

def sepByRule (sep : Reading σ ε Bool) (p : Reading σ ε α) (self : Reading σ ε (List α)) :
    Reading σ ε (List α) := do
  let a ← p
  if ← sep then return a :: (← self) else return [a]

def sepBy (sep : Reading σ ε Bool) (p : Reading σ ε α) : Reading σ ε (List α) :=
  again (sepByRule sep p)

def manyRule (p : Reading σ ε (Option α)) (self : Reading σ ε (List α)) :
    Reading σ ε (List α) := do
  match ← p with
  | some a => return a :: (← self)
  | none => return []

def many (p : Reading σ ε (Option α)) : Reading σ ε (List α) := again (manyRule p)

def repeatedRule (p : Reading σ ε Bool) (self : Reading σ ε Unit) : Reading σ ε Unit := do
  if ← p then self

def repeated (p : Reading σ ε Bool) : Reading σ ε Unit := again (repeatedRule p)

end Recursion
end Reading
end QueryPlan
