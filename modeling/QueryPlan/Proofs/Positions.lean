import QueryPlan.Proofs.Conservation

/-! The search by position. A loop over waiting predicates keeps the position that it has come to
and takes a predicate out of the list where it stands; fragments are found, taken out and put back
by position, and a relation that a fragment covers is looked up before it is asked for an attribute.
Written so, a search that asks a list for a position it does not have ends without any result, and
one that covers a relation it cannot find fails. None does: whatever the plan, the search by
position is the search. -/

namespace QueryPlan
open Outcome

/-- A computation that asks lists for positions: it has no result once a position is missing. -/
abbrev ByPosition := ExceptT PlanError Option

def readAt {α : Type} (l : List α) (i : Nat) : ByPosition α := liftM (l[i]? : Option α)

def takeAt {α : Type} (l : List α) (i : Nat) : ByPosition (α × List α) := do
  return (← readAt l i, l.eraseIdx i)

def putAt {α : Type} (l : List α) (i : Nat) (a : α) : ByPosition (List α) :=
  if i ≤ l.length then return l.insertIdx i a else ExceptT.mk none

structure Pick where
  position : Nat
  left : Nat
  right : Nat
  predicate : Predicate
  tuples : Count

def Candidate.pick {fragments : List Fragment} (c : Candidate fragments) : Pick :=
  ⟨c.position, c.left, c.right, c.predicate, c.tuples⟩

namespace Optimiser

def pushValuesAt (schema : Relation) : Nat → Nat → Pass → Plan → ByPosition (Plan × Pass)
  | 0, _, pass, plan => return (plan, pass)
  | turns + 1, i, pass, plan => do
    let p ← readAt pass.values i
    if schema.contains p.left.name then
      let (p, values) ← takeAt pass.values i
      let plan ← (Plan.select plan p).estimateRoot
      pushValuesAt schema turns i { pass.release [p.left] with values } plan
    else pushValuesAt schema turns (i + 1) pass plan

def pushEqualitiesAt (o : Optimiser) (schema : Relation) :
    Nat → Nat → Pass → Plan → ByPosition (Plan × Pass)
  | 0, _, pass, plan => return (plan, pass)
  | turns + 1, i, pass, plan => do
    let p ← readAt pass.joins i
    if p.attributes.all fun a => schema.contains a.name then
      let (p, joins) ← takeAt pass.joins i
      let (plan, pass) ← o.applySelection { pass with joins } plan p
      pushEqualitiesAt o schema turns i pass plan
    else pushEqualitiesAt o schema turns (i + 1) pass plan

def visitScanAt (o : Optimiser) (name : String) (pass : Pass) : ByPosition (Plan × Pass) := do
  let registered ← o.catalogue.lookup name
  let plan ← (Plan.scan registered).estimateRoot
  let (plan, pass) ← pushValuesAt registered.relation pass.values.length 0 pass plan
  let (plan, pass) ← o.pushEqualitiesAt registered.relation pass.joins.length 0 pass plan
  return (← o.narrow pass plan, pass)

def declaredAt (o : Optimiser) (a : Attribute) : List String → Except PlanError Bool
  | [] => return false
  | r :: rest => do
    if (← o.catalogue.lookup r).relation.contains a.name then return true
    else declaredAt o a rest

def ownerAt (o : Optimiser) (a : Attribute) : List Fragment → Except PlanError (Option Nat)
  | [] => return none
  | f :: rest => do
    if ← o.declaredAt a f.relations then return some 0
    else return (← ownerAt o a rest).map (· + 1)

def ownerOfBothAt (o : Optimiser) (fragments : List Fragment) (p : Predicate) :
    Except PlanError (Option Nat) := do
  match ← p.attributes.mapM fun a => o.ownerAt a fragments with
  | [some i, some j] => return if i = j then some i else none
  | _ => return none

def applyLocalAt (o : Optimiser) : Nat → Nat → List Fragment → Pass →
    ByPosition (List Fragment × Pass)
  | 0, _, fragments, pass => return (fragments, pass)
  | turns + 1, i, fragments, pass => do
    let p ← readAt pass.joins i
    match ← o.ownerOfBothAt fragments p with
    | none => applyLocalAt o turns (i + 1) fragments pass
    | some target =>
      let (p, joins) ← takeAt pass.joins i
      let f ← readAt fragments target
      let (plan, pass) ← o.applySelection { pass with joins } f.plan p
      applyLocalAt o turns i (fragments.set target { f with plan }) pass

def pickAt? (o : Optimiser) (fragments : List Fragment) (position : Nat) :
    Predicate → ByPosition (Option Pick)
  | .value .. => return none
  | .join l r => do
    match ← o.ownerAt l fragments, ← o.ownerAt r fragments with
    | some i, some j =>
      if i = j then return none
      else if i < j then trial i j (.join l r)
      else trial j i (.join r l)
    | _, _ => return none
where
  trial (i j : Nat) (p : Predicate) : ByPosition (Option Pick) := do
    let left ← readAt fragments i
    let right ← readAt fragments j
    let out ← Estimate.join (← left.plan.output) (← right.plan.output) p
    return some ⟨position, i, j, p, out.tupleCount⟩

def preferPick (best next : Option Pick) : Option Pick :=
  match best, next with
  | some b, some c => if c.tuples < b.tuples then some c else some b
  | some b, none => some b
  | none, c => c

def pickFrom (o : Optimiser) (fragments : List Fragment) :
    Nat → List Predicate → Option Pick → ByPosition (Option Pick)
  | _, [], best => return best
  | position, p :: rest, best => do
    let next ← o.pickAt? fragments position p
    pickFrom o fragments (position + 1) rest (preferPick best next)

def joinAt (o : Optimiser) (fragments : List Fragment) (pass : Pass) (c : Pick) :
    ByPosition (List Fragment × Pass) := do
  let (_, joins) ← takeAt pass.joins c.position
  let pass := { pass.release c.predicate.attributes with joins }
  let (right, fragments) ← takeAt fragments c.right
  let (left, fragments) ← takeAt fragments c.left
  let plan ← (Plan.join left.plan right.plan c.predicate).estimateRoot
  let plan ← o.narrow pass plan
  return (← putAt fragments c.left ⟨left.relations ++ right.relations, plan⟩, pass)

def roundAt (o : Optimiser) (fragments : List Fragment) (pass : Pass) : ByPosition Round := do
  let (fragments, pass) ← o.applyLocalAt pass.joins.length 0 fragments pass
  match ← o.pickFrom fragments 0 pass.joins none with
  | none => return .settled fragments pass
  | some c =>
    let (fragments, pass) ← o.joinAt fragments pass c
    return .joined fragments pass

def roundsAt (o : Optimiser) : Nat → List Fragment → Pass → ByPosition (List Fragment × Pass)
  | 0, fragments, pass => return (fragments, pass)
  | n + 1, fragments, pass => do
    match ← o.roundAt fragments pass with
    | .settled fragments pass => return (fragments, pass)
    | .joined fragments pass => roundsAt o n fragments pass

def combineAt (o : Optimiser) (fragments : List Fragment) (pass : Pass) :
    ByPosition (Plan × Pass) := do
  let (fragments, pass) ← o.roundsAt (pass.joins.length + 1) fragments pass
  return (← productAll fragments, pass)

def settleAt (o : Optimiser) : Visited → Pass → ByPosition (Plan × Pass)
  | .whole plan, pass => return (plan, pass)
  | .cluster fragments, pass => o.combineAt fragments pass

def walkAt (o : Optimiser) : Plan → Pass → ByPosition (Visited × Pass)
  | .scan s _, pass => do
    let (plan, pass) ← o.visitScanAt s.name pass
    return (.whole plan, pass)
  | .select input p _, pass => do
    let (r, pass) ← walkAt o input (pass.defer p)
    let (plan, pass) ← o.settleAt r pass
    return (.whole plan, pass)
  | .project input listed _, pass =>
    if listed.isEmpty then throw .emptyProjection
    else do
      let (r, below) ← walkAt o input { pass.acquire listed with narrowing := true }
      let (plan, below) ← o.settleAt r below
      let after := { below with narrowing := pass.narrowing }
      let schema ← plan.output
      let keep ← kept after schema listed
      let plan ←
        if keep.length < schema.arity then (Plan.project plan keep).estimateRoot
        else pure plan
      return (.whole plan, after.release listed)
  | .product left right _, pass => do
    let (l, pass) ← walkAt o left pass
    let (r, pass) ← walkAt o right pass
    return (.cluster (l.fragments ++ r.fragments), pass)
  | .join .., _ => throw .unexpectedJoin

def optimiseAt (o : Optimiser) (plan : Plan) : ByPosition Plan := do
  let (r, pass) ← o.walkAt plan .initial
  let (result, pass) ← o.settleAt r pass
  match o.unplaced? pass result with
  | some a => throw (.unresolvedAttribute a.name)
  | none => return result

end Optimiser

namespace ByPosition
variable {α β : Type}

/-- Every position that was asked for was there. -/
def found (x : Except PlanError α) : ByPosition α := ExceptT.mk (some x)

theorem found_bind {x : Except PlanError α} {f : α → Except PlanError β} {g : α → ByPosition β}
    (h : ∀ a, x = .ok a → g a = found (f a)) : (found x >>= g) = found (x >>= f) := by
  cases x with
  | error e => rfl
  | ok a => exact h a rfl

theorem found_map_bind {γ : Type} {x : Except PlanError α} {k : α → γ} {f : α → Except PlanError β}
    {g : γ → ByPosition β} (h : ∀ a, x = .ok a → g (k a) = found (f a)) :
    (found (k <$> x) >>= g) = found (x >>= f) := by
  cases x with
  | error e => rfl
  | ok a => exact h a rfl

theorem lift_bind {x : Except PlanError α} {f : α → Except PlanError β} {g : α → ByPosition β}
    (h : ∀ a, x = .ok a → g a = found (f a)) :
    ((liftM x : ByPosition α) >>= g) = found (x >>= f) := found_bind h

theorem lift_ok_bind (a : α) (g : α → ByPosition β) :
    ((liftM (.ok a : Except PlanError α) : ByPosition α) >>= g) = g a := rfl

theorem readAt_of_getElem? {l : List α} {i : Nat} {a : α} (h : l[i]? = some a) :
    readAt l i = pure a := by
  rw [readAt, h]
  rfl

theorem takeAt_of_getElem? {l : List α} {i : Nat} {a : α} (h : l[i]? = some a) :
    takeAt l i = pure (a, l.eraseIdx i) := by
  rw [takeAt, readAt_of_getElem? h]
  rfl

theorem entry_of_split {l before after : List α} {a : α} {i : Nat} (h : l = before ++ a :: after)
    (hi : i = before.length) :
    readAt l i = pure a ∧ takeAt l i = pure (a, before ++ after) := by
  have hread : l[i]? = some a := by
    rw [h, hi, List.getElem?_append_right (Nat.le_refl _), Nat.sub_self, List.getElem?_cons_zero]
  have herase : l.eraseIdx i = before ++ after := by
    rw [h, hi, List.eraseIdx_append_of_length_le (Nat.le_refl _), Nat.sub_self,
      List.eraseIdx_cons_zero]
  refine ⟨readAt_of_getElem? hread, ?_⟩
  rw [takeAt_of_getElem? hread, herase]

theorem split_skip {l before after : List α} {a : α} {i : Nat} (h : l = before ++ a :: after)
    (hi : i = before.length) :
    l = before ++ [a] ++ after ∧ i + 1 = (before ++ [a]).length := by
  constructor
  · rw [h, List.append_assoc, List.singleton_append]
  · rw [hi, List.length_append, List.length_singleton]

end ByPosition

namespace Optimiser
open ByPosition

variable {o : Optimiser} {pass : Pass} {plan : Plan} {fs : List Fragment}
  {passed rest : List Predicate} {p : Predicate} {schema : Relation} {i position : Nat}

theorem pushValuesAt_eq (hv : pass.values = passed ++ rest) (hi : i = passed.length) :
    pushValuesAt schema rest.length i pass plan =
      found (pushValues schema passed rest pass plan) := by
  induction rest generalizing passed pass plan i with
  | nil =>
    rw [List.append_nil] at hv
    rw [List.length_nil, pushValuesAt, pushValues, ← hv]
    rfl
  | cons p rest ih =>
    obtain ⟨hread, htake⟩ := entry_of_split hv hi
    rw [List.length_cons, pushValuesAt, hread, pure_bind, pushValues]
    split
    -- the list has closed up, so the next predicate stands where this one stood
    · rw [htake, pure_bind]
      exact lift_bind fun selected _ => ih rfl hi
    · obtain ⟨hsplit, hnext⟩ := split_skip hv hi
      exact ih hsplit hnext

theorem pushEqualitiesAt_eq (hj : pass.joins = passed ++ rest) (hi : i = passed.length) :
    o.pushEqualitiesAt schema rest.length i pass plan =
      found (o.pushEqualities schema passed rest pass plan) := by
  induction rest generalizing passed pass plan i with
  | nil =>
    rw [List.append_nil] at hj
    rw [List.length_nil, pushEqualitiesAt, pushEqualities, ← hj]
    rfl
  | cons p rest ih =>
    obtain ⟨hread, htake⟩ := entry_of_split hj hi
    rw [List.length_cons, pushEqualitiesAt, hread, pure_bind, pushEqualities]
    split
    · rw [htake, pure_bind]
      refine lift_bind ?_
      rintro ⟨selected, next⟩ happ
      obtain rfl := pass_of_applySelection happ
      exact ih rfl hi
    · obtain ⟨hsplit, hnext⟩ := split_skip hj hi
      exact ih hsplit hnext

theorem visitScanAt_eq (o : Optimiser) (name : String) (pass : Pass) :
    o.visitScanAt name pass = found (o.visitScan name pass) := by
  refine lift_bind fun registered _ => lift_bind fun base _ => ?_
  rw [pushValuesAt_eq (List.nil_append _).symm List.length_nil.symm]
  refine found_bind ?_
  rintro ⟨valued, mid⟩ -
  dsimp only
  rw [pushEqualitiesAt_eq (List.nil_append _).symm List.length_nil.symm]
  refine found_bind ?_
  rintro ⟨equated, last⟩ -
  exact lift_bind fun narrowed _ => rfl

theorem declaredAt_eq {a : Attribute} {relations : List String}
    (h : ∀ r ∈ relations, ∃ s, o.catalogue.lookup r = .ok s) :
    o.declaredAt a relations = .ok (relations.any fun r => o.declares r a) := by
  induction relations with
  | nil => rfl
  | cons r rest ih =>
    obtain ⟨⟨s, hs⟩, hrest⟩ := List.forall_mem_cons.mp h
    rw [declaredAt, hs, ok_bind, List.any_cons, declares, Catalogue.lookup_eq_ok.mp hs,
      Option.any_some, ih hrest]
    cases s.relation.contains a.name <;> rfl

theorem ownerAt_eq (h : o.Known fs) (a : Attribute) :
    o.ownerAt a fs = .ok (o.owner? (fs.map (·.relations)) a) := by
  induction fs with
  | nil => rfl
  | cons f fs ih =>
    obtain ⟨hf, hfs⟩ := List.forall_mem_append.mp h
    rw [ownerAt, declaredAt_eq hf, ok_bind, ih hfs, List.map_cons, owner?, owner?,
      List.findIdx?_cons]
    dsimp only
    cases f.relations.any fun r => o.declares r a <;> rfl

theorem ownerOfBothAt_eq (h : o.Known fs) (p : Predicate) :
    o.ownerOfBothAt fs p = .ok ((o.resolveBoth? fs p).map Fin.val) := by
  cases p with
  | value l v =>
    simp only [ownerOfBothAt, Predicate.attributes, List.mapM_cons, List.mapM_nil, ownerAt_eq h]
    cases o.owner? (fs.map (·.relations)) l <;> rfl
  | join l r =>
    simp only [ownerOfBothAt, Predicate.attributes, List.mapM_cons, List.mapM_nil, ownerAt_eq h,
      ← resolve?_map_val, resolveBoth?]
    cases o.resolve? fs l with
    | none => rfl
    | some i =>
      cases o.resolve? fs r with
      | none => rfl
      | some j =>
        show Except.ok (if i.val = j.val then some i.val else none) =
          .ok ((if i = j then some i else none).map Fin.val)
        simp only [apply_ite (Option.map Fin.val), Option.map_some, Option.map_none, Fin.ext_iff]

theorem readAt_fin (fs : List Fragment) (i : Fin fs.length) : readAt fs i = pure (fs.get i) :=
  readAt_of_getElem? (List.getElem?_eq_getElem i.isLt)

theorem Known.set (h : o.Known fs) (i : Fin fs.length) (plan : Plan) :
    o.Known (fs.set i { fs.get i with plan }) := by
  rw [Known, covered, List.flatMap_def, relations_set, ← List.flatMap_def]
  exact h

theorem applyLocalAt_eq (h : o.Known fs) (hj : pass.joins = passed ++ rest)
    (hi : i = passed.length) :
    o.applyLocalAt rest.length i fs pass = found (o.applyLocal passed rest fs pass) := by
  induction rest generalizing passed pass fs i with
  | nil =>
    rw [List.append_nil] at hj
    rw [List.length_nil, applyLocalAt, applyLocal, ← hj]
    rfl
  | cons p rest ih =>
    obtain ⟨hread, htake⟩ := entry_of_split hj hi
    rw [List.length_cons, applyLocalAt, hread, pure_bind, applyLocal, ownerOfBothAt_eq h,
      lift_ok_bind]
    cases o.resolveBoth? fs p with
    | none =>
      obtain ⟨hsplit, hnext⟩ := split_skip hj hi
      exact ih h hsplit hnext
    | some target =>
      dsimp only [Option.map_some]
      rw [htake, pure_bind, readAt_fin, pure_bind]
      refine lift_bind ?_
      rintro ⟨selected, next⟩ happ
      obtain rfl := pass_of_applySelection happ
      exact ih (h.set target selected) rfl hi

theorem trialAt_eq (i j : Fin fs.length) :
    pickAt?.trial fs position i j p =
      found (Option.map Candidate.pick <$> candidate?.trial fs position i j p) := by
  rw [pickAt?.trial, candidate?.trial, readAt_fin, pure_bind, readAt_fin, pure_bind]
  rw [map_bind]
  refine lift_bind fun left _ => ?_
  rw [map_bind]
  refine lift_bind fun right _ => ?_
  rw [map_bind]
  exact lift_bind fun out _ => rfl

theorem pickAt?_eq (h : o.Known fs) (position : Nat) (p : Predicate) :
    o.pickAt? fs position p =
      found (Option.map Candidate.pick <$> o.candidate? fs position p) := by
  cases p with
  | value l v => rfl
  | join l r =>
    rw [pickAt?, candidate?, ownerAt_eq h, lift_ok_bind, ownerAt_eq h, lift_ok_bind,
      ← resolve?_map_val, ← resolve?_map_val]
    cases o.resolve? fs l with
    | none => rfl
    | some i =>
      cases o.resolve? fs r with
      | none => rfl
      | some j =>
        simp only [Option.map_some, Fin.ext_iff, Fin.lt_def]
        split
        · rfl
        · split
          · exact trialAt_eq i j
          · exact trialAt_eq j i

theorem preferPick_eq (best next : Option (Candidate fs)) :
    preferPick (best.map Candidate.pick) (next.map Candidate.pick) =
      (prefer best next).map Candidate.pick := by
  cases best with
  | none => rfl
  | some b =>
    cases next with
    | none => rfl
    | some c =>
      have hcandidates : (if c.tuples < b.tuples then some c else some b).map Candidate.pick =
          if c.tuples < b.tuples then some c.pick else some b.pick := apply_ite ..
      exact hcandidates.symm

theorem pickFrom_eq (h : o.Known fs) (best : Option (Candidate fs)) :
    o.pickFrom fs position rest (best.map Candidate.pick) =
      found (Option.map Candidate.pick <$> o.bestFrom fs position rest best) := by
  induction rest generalizing position best with
  | nil => rfl
  | cons p rest ih =>
    rw [pickFrom, bestFrom, pickAt?_eq h, map_bind]
    refine found_map_bind fun next _ => ?_
    rw [preferPick_eq]
    exact ih _

theorem joinAt_eq {c : Candidate fs} (hc : pass.joins[c.position]? = some p)
    (hlt : c.left < c.right) : o.joinAt fs pass c.pick = found (o.joinFragments fs pass c) := by
  have hlen : (fs.eraseIdx c.right).length = fs.length - 1 :=
    List.length_eraseIdx_of_lt c.right.isLt
  have hright : takeAt fs c.right = pure (fs[c.right], fs.eraseIdx c.right) :=
    takeAt_of_getElem? (List.getElem?_eq_getElem c.right.isLt)
  have hleft : takeAt (fs.eraseIdx c.right) c.left =
      pure (fs[c.left], (fs.eraseIdx c.right).eraseIdx c.left) := by
    apply takeAt_of_getElem?
    rw [List.getElem?_eraseIdx_of_lt hlt]
    exact List.getElem?_eq_getElem c.left.isLt
  have hput : ∀ joined, putAt ((fs.eraseIdx c.right).eraseIdx c.left) c.left joined =
      pure ((fs.set c.left joined).eraseIdx c.right) := by
    intro joined
    have hroom : c.left.val < (fs.eraseIdx c.right).length := by omega
    rw [putAt, if_pos (by rw [List.length_eraseIdx_of_lt hroom]; omega),
      List.insertIdx_eraseIdx_self hroom.ne, List.set_eraseIdx, if_neg (by omega)]
  rw [joinAt]
  simp only [Candidate.pick]
  rw [takeAt_of_getElem? hc, pure_bind]
  dsimp only
  rw [hright, pure_bind]
  dsimp only
  rw [hleft, pure_bind]
  refine lift_bind fun joined _ => lift_bind fun narrowed _ => ?_
  rw [hput, pure_bind]
  rfl

theorem roundAt_eq (h : o.Known fs) (pass : Pass) :
    o.roundAt fs pass = found (o.round fs pass) := by
  rw [roundAt, round, applyLocalAt_eq h (List.nil_append _).symm List.length_nil.symm]
  refine found_bind ?_
  rintro ⟨gs, mid⟩ hlocal
  obtain ⟨hmoves, -⟩ := applyLocal_moves (List.nil_append _).symm (by simp) hlocal
  have hgs : o.Known gs := Steps.known hmoves.steps h
  dsimp only
  have hnone : (none : Option Pick) = (none : Option (Candidate gs)).map Candidate.pick := rfl
  rw [hnone, pickFrom_eq hgs]
  refine found_map_bind fun best hb => ?_
  cases best with
  | none => rfl
  | some c =>
    obtain ⟨hlt, p, hp, -⟩ := bestFrom_waits hb
    dsimp only [Option.map_some]
    rw [joinAt_eq hp hlt]
    exact found_bind fun joined _ => rfl

theorem roundsAt_eq (h : o.Known fs) (n : Nat) (pass : Pass) :
    o.roundsAt n fs pass = found (o.rounds n fs pass) := by
  induction n generalizing fs pass with
  | zero => rfl
  | succ n ih =>
    rw [roundsAt, rounds, roundAt_eq h]
    refine found_bind fun result hr => ?_
    cases result with
    | settled gs next => rfl
    | joined gs next =>
      obtain ⟨hmoves, -⟩ := round_joined hr
      exact ih (Steps.known hmoves.steps h) next

theorem combineAt_eq (h : o.Known fs) (pass : Pass) :
    o.combineAt fs pass = found (o.combine fs pass) := by
  rw [combineAt, combine, roundsAt_eq h]
  refine found_bind ?_
  rintro ⟨gs, next⟩ -
  exact lift_bind fun product _ => rfl

theorem settleAt_eq {v : Visited} (h : o.Known v.fragments) (pass : Pass) :
    o.settleAt v pass = found (o.settle v pass) := by
  cases v with
  | whole plan => rfl
  | cluster fragments => exact combineAt_eq h pass

theorem walkAt_eq (o : Optimiser) (plan : Plan) (pass : Pass) :
    o.walkAt plan pass = found (o.walk plan pass) := by
  induction plan generalizing pass with
  | scan s out =>
    rw [walkAt, walk, visitScanAt_eq]
    exact found_bind fun scanned _ => rfl
  | select input p out ih =>
    rw [walkAt, walk, ih]
    refine found_bind ?_
    rintro ⟨visited, mid⟩ hwalk
    dsimp only
    rw [settleAt_eq (walk_rewrites hwalk).known]
    exact found_bind fun settled _ => rfl
  | project input listed out ih =>
    rw [walkAt, walk]
    split
    · rfl
    · rw [ih]
      refine found_bind ?_
      rintro ⟨visited, mid⟩ hwalk
      dsimp only
      rw [settleAt_eq (walk_rewrites hwalk).known]
      refine found_bind ?_
      rintro ⟨inner, below⟩ -
      refine lift_bind fun schema _ => lift_bind fun keep _ => ?_
      split
      · exact lift_bind fun projected _ => rfl
      · rfl
  | product left right out ihl ihr =>
    rw [walkAt, walk, ihl]
    refine found_bind ?_
    rintro ⟨l, mid⟩ -
    dsimp only
    rw [ihr]
    exact found_bind fun r _ => rfl
  | join left right p out => rfl

theorem optimiseAt_eq (o : Optimiser) (plan : Plan) :
    o.optimiseAt plan = found (o.optimise plan) := by
  rw [optimiseAt, optimise, visit, walkAt_eq, bind_assoc]
  refine found_bind ?_
  rintro ⟨visited, mid⟩ hwalk
  dsimp only
  rw [settleAt_eq (walk_rewrites hwalk).known]
  refine found_bind ?_
  rintro ⟨result, last⟩ -
  dsimp only
  cases o.unplaced? last result with
  | none => rfl
  | some a => rfl

end Optimiser
end QueryPlan
