import QueryPlan.Proofs.Rewriting

/-! The search, move by move. A waiting equality goes over one fragment, or joins two, and the result
is narrowed at once; products finish the cluster. Rewriting steps forget when narrowing happens and
what happens to a scan, which decides which columns a finished plan carries and where its predicates
stand: moves, and visits that are made of them, keep both. -/

namespace QueryPlan.Optimiser
open Outcome

/-- What the search does with a cluster at a time. -/
inductive Move (o : Optimiser) : Cluster → Cluster → Prop
  | select {pass : Pass} {xs ys : List Predicate} {p : Predicate} {before after : List Fragment}
      {f : Fragment} {selected plan : Plan} (hp : pass.joins = xs ++ p :: ys)
      (he : (Plan.select f.plan p).estimateRoot = .ok selected)
      (hn : o.narrow { pass.release p.attributes with joins := xs ++ ys } selected = .ok plan) :
      Move o ⟨before ++ f :: after, pass⟩
        ⟨before ++ ⟨f.relations, plan⟩ :: after,
          { pass.release p.attributes with joins := xs ++ ys }⟩
  | join {pass : Pass} {xs ys : List Predicate} {p q : Predicate}
      {before between after : List Fragment} {f g : Fragment} {joined plan : Plan}
      (hp : pass.joins = xs ++ p :: ys) (hq : q = p ∨ q = p.swapped)
      (he : (Plan.join f.plan g.plan q).estimateRoot = .ok joined)
      (hn : o.narrow { pass.release q.attributes with joins := xs ++ ys } joined = .ok plan) :
      Move o ⟨before ++ f :: (between ++ g :: after), pass⟩
        ⟨before ++ ⟨f.relations ++ g.relations, plan⟩ :: (between ++ after),
          { pass.release q.attributes with joins := xs ++ ys }⟩
  | product {pass : Pass} {after : List Fragment} {f g : Fragment} {plan : Plan}
      (he : (Plan.product f.plan g.plan).estimateRoot = .ok plan) :
      Move o ⟨f :: g :: after, pass⟩ ⟨⟨f.relations ++ g.relations, plan⟩ :: after, pass⟩

abbrev Moves (o : Optimiser) : Cluster → Cluster → Prop := Relation.ReflTransGen o.Move

variable {o : Optimiser} {pass pass' : Pass} {plan plan' : Plan} {fs gs : List Fragment}
  {xs ys passed rest : List Predicate} {p : Predicate} {schema : Relation}

theorem Moves.invariant {P : Cluster → Prop} (hP : ∀ a b, o.Move a b → P a → P b) {a b : Cluster}
    (h : o.Moves a b) (ha : P a) : P b := by
  induction h with
  | refl => exact ha
  | tail _ hm ih => exact hP _ _ hm ih

theorem applySelection_move (before after : List Fragment) (relations : List String)
    (hp : pass.joins = xs ++ p :: ys)
    (h : o.applySelection { pass with joins := xs ++ ys } plan p = .ok (plan', pass')) :
    o.Move ⟨before ++ ⟨relations, plan⟩ :: after, pass⟩
        ⟨before ++ ⟨relations, plan'⟩ :: after, pass'⟩ ∧
      pass'.joins = xs ++ ys ∧ pass'.values = pass.values := by
  obtain ⟨selected, hs, h⟩ := bind_eq_ok.mp h
  obtain ⟨narrowed, hn, h⟩ := bind_eq_ok.mp h
  cases pure_eq_ok.mp h
  have hmove : o.Move ⟨before ++ ⟨relations, plan⟩ :: after, pass⟩ _ := .select hp hs hn
  exact ⟨hmove, rfl, rfl⟩

theorem pushEqualities_moves (relations : List String) (hj : pass.joins = passed ++ rest)
    (hp : ∀ p ∈ passed, ¬ ∀ a ∈ p.attributes, a.name ∈ schema.names)
    (h : o.pushEqualities schema passed rest pass plan = .ok (plan', pass')) :
    o.Moves ⟨[⟨relations, plan⟩], pass⟩ ⟨[⟨relations, plan'⟩], pass'⟩ ∧
      pass'.values = pass.values ∧
      ∀ p ∈ pass'.joins, ¬ ∀ a ∈ p.attributes, a.name ∈ schema.names := by
  induction rest generalizing passed pass plan with
  | nil =>
    rw [List.append_nil] at hj
    cases h
    rw [← hj] at hp ⊢
    exact ⟨.refl, rfl, hp⟩
  | cons q rest ih =>
    rw [pushEqualities] at h
    split at h
    · obtain ⟨⟨selected, next⟩, hs, h⟩ := bind_eq_ok.mp h
      obtain ⟨hmove, hjs, hvs⟩ := applySelection_move [] [] relations hj hs
      obtain ⟨hmoves, hv, hrest⟩ := ih hjs hp h
      exact ⟨.head hmove hmoves, hv.trans hvs, hrest⟩
    · next hq =>
      refine ih (by rw [hj, List.append_assoc, List.singleton_append]) ?_ h
      rw [List.forall_mem_append]
      refine ⟨hp, List.forall_mem_singleton.mpr fun hall => hq ?_⟩
      exact List.all_eq_true.mpr fun a ha => Relation.contains_eq_true.mpr (hall a ha)

def owner? (o : Optimiser) (covers : List (List String)) (a : Attribute) : Option Nat :=
  covers.findIdx? fun relations => relations.any fun r => o.declares r a

theorem declares_iff {r : String} {a : Attribute} :
    o.declares r a = true ↔ ∃ s, o.catalogue.find? r = some s ∧ a.name ∈ s.relation.names :=
  Catalogue.any_contains_iff

theorem resolve?_map_val (fs : List Fragment) (a : Attribute) :
    (o.resolve? fs a).map Fin.val = o.owner? (fs.map (·.relations)) a := by
  rw [owner?, List.findIdx?_map, resolve?, ← List.findIdx?_eq_map_findFinIdx?_val]
  rfl

theorem owner?_eq_none_iff {covers : List (List String)} {a : Attribute} :
    o.owner? covers a = none ↔ ¬ o.catalogue.Declares covers.flatten a.name := by
  simp only [owner?, List.findIdx?_eq_none_iff, Catalogue.Declares, List.mem_flatten,
    ← declares_iff, List.any_eq_false]
  constructor
  · rintro h ⟨r, ⟨relations, hrs, hr⟩, hd⟩
    exact h relations hrs r hr hd
  · intro h relations hrs r hr hd
    exact h ⟨r, ⟨relations, hrs, hr⟩, hd⟩

def Apart (o : Optimiser) (covers : List (List String)) (p : Predicate) : Prop :=
  ∀ l r, p = .join l r → ∀ k, ¬ (o.owner? covers l = some k ∧ o.owner? covers r = some k)

theorem resolveBoth?_eq_none_iff :
    o.resolveBoth? fs p = none ↔ o.Apart (fs.map (·.relations)) p := by
  constructor
  · rintro h l r rfl k ⟨hl, hr⟩
    rw [← resolve?_map_val, Option.map_eq_some_iff] at hl hr
    obtain ⟨i, hi, rfl⟩ := hl
    obtain ⟨j, hj, hji⟩ := hr
    simp [resolveBoth?, hi, hj, Fin.ext hji.symm] at h
  · intro h
    by_contra hs
    obtain ⟨k, hk⟩ := Option.ne_none_iff_exists'.mp hs
    cases p with
    | value l v => cases hk
    | join l r =>
      obtain ⟨i, hi, hk⟩ := Option.bind_eq_some_iff.mp hk
      obtain ⟨j, hj, hk⟩ := Option.bind_eq_some_iff.mp hk
      split at hk
      · next hij =>
        refine h l r rfl i ⟨?_, ?_⟩
        · rw [← resolve?_map_val, hi, Option.map_some]
        · rw [← resolve?_map_val, hj, hij, Option.map_some]
      · cases hk

theorem exists_split {α : Type} (l : List α) (i : Fin l.length) : ∃ before after,
    l = before ++ l[i] :: after ∧ ∀ x, l.set i x = before ++ x :: after := by
  refine ⟨l.take i, l.drop (i + 1), by simp, fun x => ?_⟩
  rw [List.set_eq_take_append_cons_drop, if_pos i.isLt]

theorem applySelection_set (i : Fin fs.length) (hp : pass.joins = xs ++ p :: ys)
    (h : o.applySelection { pass with joins := xs ++ ys } (fs.get i).plan p = .ok (plan, pass')) :
    o.Move ⟨fs, pass⟩ ⟨fs.set i { fs.get i with plan }, pass'⟩ ∧ pass'.joins = xs ++ ys := by
  obtain ⟨before, after, hfs, hset⟩ := exists_split fs i
  obtain ⟨hmove, hjoins, -⟩ := applySelection_move before after (fs.get i).relations hp h
  refine ⟨?_, hjoins⟩
  rw [hset]
  conv => enter [2]; rw [hfs]
  exact hmove

theorem relations_set (i : Fin fs.length) (plan : Plan) :
    (fs.set i { fs.get i with plan }).map (·.relations) = fs.map (·.relations) := by
  simpa using @List.set_getElem_self _ (fs.map (·.relations)) i (by simp)

theorem applyLocal_moves (hj : pass.joins = passed ++ rest)
    (hp : ∀ p ∈ passed, o.Apart (fs.map (·.relations)) p)
    (h : o.applyLocal passed rest fs pass = .ok (gs, pass')) :
    o.Moves ⟨fs, pass⟩ ⟨gs, pass'⟩ ∧ pass'.joins.length ≤ pass.joins.length ∧
      ∀ p ∈ pass'.joins, o.Apart (gs.map (·.relations)) p := by
  induction rest generalizing passed fs pass with
  | nil =>
    rw [List.append_nil] at hj
    cases h
    rw [← hj] at hp ⊢
    exact ⟨.refl, Nat.le_refl _, hp⟩
  | cons q rest ih =>
    rw [applyLocal] at h
    split at h
    · next hq =>
      refine ih (by rw [hj, List.append_assoc, List.singleton_append]) ?_ h
      rw [List.forall_mem_append]
      exact ⟨hp, List.forall_mem_singleton.mpr (resolveBoth?_eq_none_iff.mp hq)⟩
    · next i hq =>
      obtain ⟨⟨selected, next⟩, hs, h⟩ := bind_eq_ok.mp h
      obtain ⟨hfirst, hjs⟩ := applySelection_set i hj hs
      -- who owns an attribute depends on the relations covered, and those stay
      have hpassed : ∀ p ∈ passed, o.Apart
          ((fs.set i { fs.get i with plan := selected }).map (·.relations)) p := by
        rwa [relations_set]
      obtain ⟨hmoves, hlen, hrest⟩ := ih hjs hpassed h
      refine ⟨.head hfirst hmoves, Nat.le_trans hlen ?_, hrest⟩
      rw [hjs, hj, List.length_append, List.length_append, List.length_cons]
      omega

variable {c : Candidate fs} {position : Nat}

theorem trial_eq_ok {i j : Fin fs.length} {q : Predicate} {next : Option (Candidate fs)}
    (h : candidate?.trial fs position i j q = .ok next) : ∃ left right out,
      (fs.get i).plan.output? = some left ∧ (fs.get j).plan.output? = some right ∧
        Estimate.join left right q = .ok out ∧ next = some ⟨position, i, j, q, out.tupleCount⟩ := by
  obtain ⟨left, hl, h⟩ := bind_eq_ok.mp h
  obtain ⟨right, hr, h⟩ := bind_eq_ok.mp h
  obtain ⟨out, ho, h⟩ := bind_eq_ok.mp h
  rw [Plan.output_eq_ok] at hl hr
  exact ⟨left, right, out, hl, hr, ho, (pure_eq_ok.mp h).symm⟩

/-- A candidate that arises from an equality has the owners of its sides for operands, in the order
in which they stand, and its tuples are those of the estimated join. -/
theorem candidate?_eq_some (h : o.candidate? fs position p = .ok (some c)) :
    c.position = position ∧ c.left < c.right ∧
      (∃ l r, (p = .join l r ∨ p = .join r l) ∧ c.predicate = .join l r ∧
        o.resolve? fs l = some c.left ∧ o.resolve? fs r = some c.right) ∧
      ∃ left right out, (fs.get c.left).plan.output? = some left ∧
        (fs.get c.right).plan.output? = some right ∧
          Estimate.join left right c.predicate = .ok out ∧ c.tuples = out.tupleCount := by
  cases p with
  | value l v => cases h
  | join l r =>
    rw [candidate?] at h
    split at h
    · next i j hi hj =>
      split at h
      · cases h
      · next hne =>
        split at h
        · next hlt =>
          obtain ⟨left, right, out, hl, hr, ho, hc⟩ := trial_eq_ok h
          cases hc
          exact ⟨rfl, hlt, ⟨l, r, .inl rfl, rfl, hi, hj⟩, left, right, out, hl, hr, ho, rfl⟩
        · next hge =>
          obtain ⟨left, right, out, hl, hr, ho, hc⟩ := trial_eq_ok h
          cases hc
          have hlt : j < i := Nat.lt_of_le_of_ne (Nat.not_lt.mp hge) fun e => hne (Fin.ext e.symm)
          exact ⟨rfl, hlt, ⟨r, l, .inr rfl, rfl, hj, hi⟩, left, right, out, hl, hr, ho, rfl⟩
    · cases h

theorem predicate_of_candidate? (h : o.candidate? fs position p = .ok (some c)) :
    c.predicate = p ∨ c.predicate = p.swapped := by
  obtain ⟨-, -, ⟨l, r, hp, hc, -⟩, -⟩ := candidate?_eq_some h
  rcases hp with rfl | rfl
  · exact .inl hc
  · exact .inr hc

theorem estimateRoot_of_candidate? (h : o.candidate? fs position p = .ok (some c)) : ∃ plan,
    (Plan.join (fs.get c.left).plan (fs.get c.right).plan c.predicate).estimateRoot = .ok plan := by
  obtain ⟨-, -, -, left, right, out, hl, hr, ho, -⟩ := candidate?_eq_some h
  exact ⟨_, Plan.estimateRoot_join.mpr ⟨left, right, out, hl, hr, ho, rfl⟩⟩

theorem candidate?_eq_none {l r : Attribute}
    (h : o.candidate? fs position (.join l r) = .ok none) :
    o.owner? (fs.map (·.relations)) l = none ∨ o.owner? (fs.map (·.relations)) r = none ∨
      ∃ k, o.owner? (fs.map (·.relations)) l = some k ∧
        o.owner? (fs.map (·.relations)) r = some k := by
  rw [candidate?] at h
  simp only [← resolve?_map_val, Option.map_eq_none_iff, Option.map_eq_some_iff]
  split at h
  · next i j hi hj =>
    split at h
    · next hij => exact .inr (.inr ⟨i, ⟨i, hi, rfl⟩, j, hj, by rw [hij]⟩)
    · split at h
      · obtain ⟨_, _, _, -, -, -, hc⟩ := trial_eq_ok h
        cases hc
      · obtain ⟨_, _, _, -, -, -, hc⟩ := trial_eq_ok h
        cases hc
  · next hnone =>
    cases hl : o.resolve? fs l with
    | none => exact .inl rfl
    | some i =>
      cases hr : o.resolve? fs r with
      | none => exact .inr (.inl rfl)
      | some j => exact absurd hr (hnone i j hl)

theorem prefer_eq_some {best next : Option (Candidate fs)} (h : prefer best next = some c) :
    best = some c ∨ next = some c := by
  unfold prefer at h
  split at h
  · split at h
    · exact .inr h
    · exact .inl h
  · exact .inl h
  · exact .inr h

theorem prefer_eq_none {best next : Option (Candidate fs)} (h : prefer best next = none) :
    best = none ∧ next = none := by
  cases best <;> cases next <;> simp_all [prefer]
  split at h <;> cases h

theorem bestFrom_eq_some {best : Option (Candidate fs)}
    (h : o.bestFrom fs position rest best = .ok (some c)) : best = some c ∨
      ∃ k p, rest[k]? = some p ∧ o.candidate? fs (position + k) p = .ok (some c) := by
  induction rest generalizing position best with
  | nil =>
    cases h
    exact .inl rfl
  | cons q rest ih =>
    obtain ⟨next, hn, h⟩ := bind_eq_ok.mp h
    rcases ih h with hb | ⟨k, p, hk, hc⟩
    · rcases prefer_eq_some hb with hb | hb
      · exact .inl hb
      · exact .inr ⟨0, q, rfl, by rw [Nat.add_zero, hn, hb]⟩
    · refine .inr ⟨k + 1, p, by simpa using hk, ?_⟩
      rwa [Nat.add_assoc, Nat.add_comm 1 k] at hc

theorem bestFrom_waits {joins : List Predicate}
    (h : o.bestFrom fs 0 joins none = .ok (some c)) : c.left < c.right ∧
      ∃ p, joins[c.position]? = some p ∧ (c.predicate = p ∨ c.predicate = p.swapped) := by
  rcases bestFrom_eq_some h with hnone | ⟨k, p, hk, hc⟩
  · cases hnone
  · obtain ⟨hpos, hlt, -⟩ := candidate?_eq_some hc
    rw [Nat.zero_add] at hpos
    exact ⟨hlt, p, hpos ▸ hk, predicate_of_candidate? hc⟩

theorem bestFrom_eq_none {best : Option (Candidate fs)}
    (h : o.bestFrom fs position rest best = .ok none) :
    best = none ∧ ∀ p ∈ rest, ∃ k, o.candidate? fs k p = .ok none := by
  induction rest generalizing position best with
  | nil =>
    cases h
    exact ⟨rfl, by simp⟩
  | cons q rest ih =>
    obtain ⟨next, hn, h⟩ := bind_eq_ok.mp h
    obtain ⟨hb, hrest⟩ := ih h
    obtain ⟨hb, hq⟩ := prefer_eq_none hb
    exact ⟨hb, List.forall_mem_cons.mpr ⟨⟨position, by rw [hn, hq]⟩, hrest⟩⟩

theorem set_eraseIdx_split {α : Type} (l : List α) (i j : Fin l.length) (hij : i < j) :
    ∃ before between after, l = before ++ l[i] :: (between ++ l[j] :: after) ∧
      ∀ x, (l.set i x).eraseIdx j = before ++ x :: (between ++ after) := by
  have hi : i.val < (l.take j).length := by
    rw [List.length_take]
    omega
  refine ⟨l.take i, (l.take j).drop (i + 1), l.drop (j + 1), ?_, fun x => ?_⟩
  · have htake : l.take j = l.take i ++ l[i] :: (l.take j).drop (i + 1) := by
      conv_lhs =>
        rw [← List.take_append_drop i (l.take j), List.take_take, List.drop_eq_getElem_cons hi]
      simp [Nat.min_eq_left (Nat.le_of_lt hij)]
    conv_lhs => rw [← List.take_append_drop j l, List.drop_eq_getElem_cons j.isLt, htake]
    rw [List.append_assoc, List.cons_append]
    rfl
  · rw [List.eraseIdx_eq_take_drop_succ, List.take_set, List.drop_set_of_lt (by omega),
      List.set_eq_take_append_cons_drop, if_pos hi, List.take_take,
      Nat.min_eq_left (Nat.le_of_lt hij), List.append_assoc, List.cons_append]

theorem eraseIdx_split {α : Type} {l : List α} {k : Nat} {a : α} (h : l[k]? = some a) :
    l = l.take k ++ a :: l.drop (k + 1) ∧ l.eraseIdx k = l.take k ++ l.drop (k + 1) := by
  obtain ⟨hlen, rfl⟩ := List.getElem?_eq_some_iff.mp h
  exact ⟨by simp, List.eraseIdx_eq_take_drop_succ ..⟩

theorem joinFragments_move (hc : pass.joins[c.position]? = some p) (hlt : c.left < c.right)
    (hp : c.predicate = p ∨ c.predicate = p.swapped)
    (h : o.joinFragments fs pass c = .ok (gs, pass')) :
    o.Move ⟨fs, pass⟩ ⟨gs, pass'⟩ ∧ pass'.joins.length < pass.joins.length := by
  obtain ⟨joined, hj, h⟩ := bind_eq_ok.mp h
  obtain ⟨narrowed, hn, h⟩ := bind_eq_ok.mp h
  cases pure_eq_ok.mp h
  obtain ⟨before, between, after, hfs, hset⟩ := set_eraseIdx_split fs c.left c.right hlt
  obtain ⟨hsplit, herase⟩ := eraseIdx_split hc
  have hlen := (List.getElem?_eq_some_iff.mp hc).1
  constructor
  · rw [hset]
    rw [herase] at hn
    have hmove : o.Move ⟨before ++ fs[c.left] :: (between ++ fs[c.right] :: after), pass⟩ _ :=
      .join hsplit hp hj hn
    rwa [← hfs, ← herase] at hmove
  · rw [show _ = pass.joins.eraseIdx c.position from rfl, List.length_eraseIdx, if_pos hlen]
    omega

/-- Every waiting equality has a side that no fragment owns. -/
def Ownerless (o : Optimiser) (fs : List Fragment) (pass : Pass) : Prop :=
  ∀ l r, .join l r ∈ pass.joins →
    o.owner? (fs.map (·.relations)) l = none ∨ o.owner? (fs.map (·.relations)) r = none

theorem round_settled (h : o.round fs pass = .ok (.settled gs pass')) :
    o.Moves ⟨fs, pass⟩ ⟨gs, pass'⟩ ∧ o.Ownerless gs pass' := by
  obtain ⟨⟨local', mid⟩, hl, h⟩ := bind_eq_ok.mp h
  obtain ⟨best, hb, h⟩ := bind_eq_ok.mp h
  obtain ⟨hmoves, -, hapart⟩ := applyLocal_moves (List.nil_append _).symm (by simp) hl
  cases best with
  | some c =>
    obtain ⟨_, -, h⟩ := bind_eq_ok.mp h
    cases pure_eq_ok.mp h
  | none =>
    cases pure_eq_ok.mp h
    refine ⟨hmoves, fun l r hlr => ?_⟩
    obtain ⟨k, hk⟩ := (bestFrom_eq_none hb).2 _ hlr
    rcases candidate?_eq_none hk with hnone | hnone | ⟨k, hk⟩
    · exact .inl hnone
    · exact .inr hnone
    -- one owner for both sides: the local selections have placed it already
    · exact absurd hk (hapart _ hlr l r rfl k)

theorem round_joined (h : o.round fs pass = .ok (.joined gs pass')) :
    o.Moves ⟨fs, pass⟩ ⟨gs, pass'⟩ ∧ pass'.joins.length < pass.joins.length := by
  obtain ⟨⟨local', mid⟩, hl, h⟩ := bind_eq_ok.mp h
  obtain ⟨best, hb, h⟩ := bind_eq_ok.mp h
  obtain ⟨hmoves, hlen, -⟩ := applyLocal_moves (List.nil_append _).symm (by simp) hl
  cases best with
  | none => cases pure_eq_ok.mp h
  | some c =>
    obtain ⟨⟨joined, next⟩, hj, h⟩ := bind_eq_ok.mp h
    cases pure_eq_ok.mp h
    obtain ⟨hlt, p, hk, hp⟩ := bestFrom_waits hb
    obtain ⟨hjoin, hless⟩ := joinFragments_move hk hlt hp hj
    exact ⟨hmoves.tail hjoin, Nat.lt_of_lt_of_le hless hlen⟩

theorem rounds_moves {n : Nat} (hn : pass.joins.length < n)
    (h : o.rounds n fs pass = .ok (gs, pass')) :
    o.Moves ⟨fs, pass⟩ ⟨gs, pass'⟩ ∧ o.Ownerless gs pass' := by
  induction n generalizing fs pass with
  | zero => omega
  | succ n ih =>
    obtain ⟨result, hr, h⟩ := bind_eq_ok.mp h
    cases result with
    | settled fragments next =>
      cases pure_eq_ok.mp h
      exact round_settled hr
    | joined fragments next =>
      -- each join uses up a waiting equality, so the bound holds for the rounds that follow
      obtain ⟨hmoves, hless⟩ := round_joined hr
      obtain ⟨hrest, hnone⟩ := ih (by omega) h
      exact ⟨hmoves.trans hrest, hnone⟩

theorem productAll_loop {rest : List Fragment} (o : Optimiser) (pass : Pass)
    (relations : List String)
    (h : rest.foldlM (fun acc g => (Plan.product acc g.plan).estimateRoot) plan = .ok plan') :
    ∃ covers, o.Moves ⟨⟨relations, plan⟩ :: rest, pass⟩ ⟨[⟨covers, plan'⟩], pass⟩ := by
  induction rest generalizing plan relations with
  | nil =>
    cases pure_eq_ok.mp h
    exact ⟨relations, .refl⟩
  | cons g rest ih =>
    rw [List.foldlM_cons] at h
    obtain ⟨next, hn, h⟩ := bind_eq_ok.mp h
    obtain ⟨covers, hmoves⟩ := ih (relations ++ g.relations) h
    exact ⟨covers, .head (.product hn) hmoves⟩

theorem productAll_moves (o : Optimiser) (pass : Pass) (h : productAll fs = .ok plan) :
    ∃ covers, o.Moves ⟨fs, pass⟩ ⟨[⟨covers, plan⟩], pass⟩ := by
  cases fs with
  | nil => cases h
  | cons f rest => exact productAll_loop o pass f.relations h

theorem combine_moves (h : o.combine fs pass = .ok (plan, pass')) :
    ∃ rest, o.Moves ⟨fs, pass⟩ ⟨rest, pass'⟩ ∧ o.Ownerless rest pass' ∧ productAll rest = .ok plan := by
  obtain ⟨⟨rest, next⟩, hr, h⟩ := bind_eq_ok.mp h
  obtain ⟨result, hp, h⟩ := bind_eq_ok.mp h
  cases pure_eq_ok.mp h
  obtain ⟨hmoves, hnone⟩ := rounds_moves (Nat.lt_succ_self _) hr
  exact ⟨rest, hmoves, hnone, hp⟩

/-- How a visited subtree comes about, loop by loop. -/
inductive Visits (o : Optimiser) : Plan → Pass → Visited → Pass → Prop
  | scan {s r : NamedRelation} {out : Option Relation} {pass mid pass' : Pass}
      {base valued equated plan : Plan} (hr : o.catalogue.find? s.name = some r)
      (hb : (Plan.scan r).estimateRoot = .ok base)
      (hv : pushValues r.relation [] pass.values pass base = .ok (valued, mid))
      (hm : o.Moves ⟨[⟨[s.name], valued⟩], mid⟩ ⟨[⟨[s.name], equated⟩], pass'⟩)
      (hd : ∀ p ∈ pass'.joins, ¬ ∀ a ∈ p.attributes, a.name ∈ r.relation.names)
      (hn : o.narrow pass' equated = .ok plan) :
      Visits o (.scan s out) pass (.whole plan) pass'
  | select {input plan : Plan} {p : Predicate} {out : Option Relation} {pass pass' : Pass}
      (hi : Visits o input (pass.defer p) (.whole plan) pass') :
      Visits o (.select input p out) pass (.whole plan) pass'
  | project {input inner plan : Plan} {listed keep : List Attribute} {out : Option Relation}
      {pass below : Pass} {schema : Relation} (hl : listed ≠ [])
      (hi : Visits o input { pass.acquire listed with narrowing := true } (.whole inner) below)
      (hs : inner.output? = some schema)
      (hk : kept { below with narrowing := pass.narrowing } schema listed = .ok keep)
      (he : keep.length < schema.arity ∧ (Plan.project inner keep).estimateRoot = .ok plan ∨
        schema.arity ≤ keep.length ∧ plan = inner) :
      Visits o (.project input listed out) pass (.whole plan)
        (({ below with narrowing := pass.narrowing } : Pass).release listed)
  | product {left right : Plan} {out : Option Relation} {pass mid pass' : Pass} {v w : Visited}
      (hl : Visits o left pass v mid) (hr : Visits o right mid w pass') :
      Visits o (.product left right out) pass (.cluster (v.fragments ++ w.fragments)) pass'
  | settle {input plan : Plan} {pass mid pass' : Pass} {fragments rest : List Fragment}
      (hi : Visits o input pass (.cluster fragments) mid)
      (hm : o.Moves ⟨fragments, mid⟩ ⟨rest, pass'⟩) (ho : o.Ownerless rest pass')
      (hp : productAll rest = .ok plan) : Visits o input pass (.whole plan) pass'

theorem visitScan_visits {s : NamedRelation} {out : Option Relation}
    (h : o.visitScan s.name pass = .ok (plan, pass')) :
    o.Visits (.scan s out) pass (.whole plan) pass' := by
  obtain ⟨r, hr, h⟩ := bind_eq_ok.mp h
  rw [Catalogue.lookup_eq_ok] at hr
  obtain ⟨base, hb, h⟩ := bind_eq_ok.mp h
  obtain ⟨⟨valued, mid⟩, hv, h⟩ := bind_eq_ok.mp h
  obtain ⟨⟨equated, next⟩, he, h⟩ := bind_eq_ok.mp h
  obtain ⟨narrowed, hn, h⟩ := bind_eq_ok.mp h
  cases pure_eq_ok.mp h
  obtain ⟨hm, -, hd⟩ := pushEqualities_moves [s.name] (List.nil_append _).symm (by simp) he
  exact .scan hr hb hv hm hd hn

theorem settle_visits {input : Plan} {v : Visited} {mid : Pass} (hv : o.Visits input pass v mid)
    (h : o.settle v mid = .ok (plan, pass')) : o.Visits input pass (.whole plan) pass' := by
  cases v with
  | whole whole =>
    cases h
    exact hv
  | cluster fragments =>
    obtain ⟨rest, hm, ho, hp⟩ := combine_moves h
    exact .settle hv hm ho hp

theorem walk_visits {input : Plan} {v : Visited} (h : o.walk input pass = .ok (v, pass')) :
    o.Visits input pass v pass' := by
  induction input generalizing pass v pass' with
  | scan s out =>
    obtain ⟨⟨plan, next⟩, hs, h⟩ := bind_eq_ok.mp h
    cases pure_eq_ok.mp h
    exact visitScan_visits hs
  | select input p out ih =>
    obtain ⟨⟨visited, mid⟩, hi, h⟩ := bind_eq_ok.mp h
    obtain ⟨⟨plan, next⟩, hs, h⟩ := bind_eq_ok.mp h
    cases pure_eq_ok.mp h
    exact .select (settle_visits (ih hi) hs)
  | project input listed out ih =>
    rw [walk] at h
    split at h
    · cases h
    · next hl =>
      obtain ⟨⟨visited, mid⟩, hi, h⟩ := bind_eq_ok.mp h
      obtain ⟨⟨inner, below⟩, hs, h⟩ := bind_eq_ok.mp h
      obtain ⟨schema, ho, h⟩ := bind_eq_ok.mp h
      obtain ⟨keep, hk, h⟩ := bind_eq_ok.mp h
      have hl : listed ≠ [] := by simpa using hl
      have hin := settle_visits (ih hi) hs
      have ho := Plan.output_eq_ok.mp ho
      dsimp only at h
      split at h
      · next hlt =>
        obtain ⟨plan, he, h⟩ := bind_eq_ok.mp h
        cases pure_eq_ok.mp h
        exact .project hl hin ho hk (.inl ⟨hlt, he⟩)
      · next hge =>
        cases pure_eq_ok.mp h
        exact .project hl hin ho hk (.inr ⟨Nat.not_lt.mp hge, rfl⟩)
  | product left right out ihl ihr =>
    obtain ⟨⟨l, mid⟩, hl, h⟩ := bind_eq_ok.mp h
    obtain ⟨⟨r, next⟩, hr, h⟩ := bind_eq_ok.mp h
    cases pure_eq_ok.mp h
    exact .product (ihl hl) (ihr hr)
  | join => cases h

theorem visit_visits {input : Plan} (h : o.visit input pass = .ok (plan, pass')) :
    o.Visits input pass (.whole plan) pass' := by
  obtain ⟨⟨visited, mid⟩, hw, h⟩ := bind_eq_ok.mp h
  exact settle_visits (walk_visits hw) h

theorem optimise_eq_ok {input : Plan} : o.optimise input = .ok plan ↔
    ∃ pass, o.visit input .initial = .ok (plan, pass) ∧ pass.pending = [] := by
  have hpending : ∀ pass : Pass, o.unplaced? pass plan = none ↔ pass.pending = [] := by
    intro pass
    unfold unplaced? Pass.pending
    cases pass.values <;> cases pass.joins <;> simp
  unfold optimise
  rw [bind_eq_ok]
  constructor
  · rintro ⟨⟨result, pass⟩, hv, h⟩
    dsimp only at h
    split at h
    · cases h
    · next hu =>
      cases pure_eq_ok.mp h
      exact ⟨pass, hv, (hpending pass).mp hu⟩
  · rintro ⟨pass, hv, hp⟩
    refine ⟨_, hv, ?_⟩
    simp only [(hpending pass).mpr hp]
    rfl

theorem optimise_visits {input : Plan} (h : o.optimise input = .ok plan) :
    ∃ pass, o.Visits input .initial (.whole plan) pass ∧ pass.pending = [] := by
  obtain ⟨pass, hv, hp⟩ := optimise_eq_ok.mp h
  exact ⟨pass, visit_visits hv, hp⟩

end QueryPlan.Optimiser
