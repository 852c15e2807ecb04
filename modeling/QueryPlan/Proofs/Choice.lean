import QueryPlan.Proofs.Run

/-! The choice of joins. In every round of a run, once the selections within fragments are made,
the join is one with the fewest tuples, and of those the one whose equality was met first. The
rounds end when no waiting equality has an owner for each of its sides. -/

namespace QueryPlan
open Outcome

def Predicate.equalities (ps : List Predicate) : List Predicate := ps.filter fun p => !p.isValue

namespace Candidate
variable {fs : List Fragment} {b c d : Candidate fs}

/-- Fewer tuples or, at a tie, an equality that was met no later. -/
def Beats (c d : Candidate fs) : Prop :=
  c.tuples < d.tuples ∨ c.tuples = d.tuples ∧ c.position ≤ d.position

theorem Beats.refl (c : Candidate fs) : c.Beats c := .inr ⟨rfl, Nat.le_refl _⟩

theorem Beats.trans (h : b.Beats c) (h' : c.Beats d) : b.Beats d := by
  rcases h with h | ⟨h, hpos⟩
  · rcases h' with h' | ⟨h', -⟩
    · exact .inl (UInt64.lt_trans h h')
    · exact .inl (h' ▸ h)
  · rcases h' with h' | ⟨h', hpos'⟩
    · exact .inl (h ▸ h')
    · exact .inr ⟨h.trans h', Nat.le_trans hpos hpos'⟩

end Candidate

namespace Optimiser
open Predicate

def Connects (o : Optimiser) (fs : List Fragment) (l r : Attribute) : Prop :=
  ∃ i j, o.resolve? fs l = some i ∧ o.resolve? fs r = some j ∧ i ≠ j

structure Offers (o : Optimiser) (fs : List Fragment) (joins : List Predicate)
    (c : Candidate fs) : Prop where
  lt : c.left < c.right
  sides : ∃ l r, (joins[c.position]? = some (.join l r) ∨ joins[c.position]? = some (.join r l)) ∧
    c.predicate = .join l r ∧ o.resolve? fs l = some c.left ∧ o.resolve? fs r = some c.right
  estimate : ∃ left right out, (fs.get c.left).plan.output? = some left ∧
    (fs.get c.right).plan.output? = some right ∧ Estimate.join left right c.predicate = .ok out ∧
      c.tuples = out.tupleCount

/-- The candidate beats what every equality that connects two fragments has to offer. -/
structure Chosen (o : Optimiser) (fs : List Fragment) (joins : List Predicate)
    (c : Candidate fs) : Prop where
  offers : o.Offers fs joins c
  beats : ∀ k l r, joins[k]? = some (.join l r) → o.Connects fs l r →
    ∃ d, d.position = k ∧ o.Offers fs joins d ∧ c.Beats d

/-- How a round turns out once the selections within fragments have left `fs` and `pass`. -/
structure Greedy (o : Optimiser) (fs : List Fragment) (pass : Pass) (turn : Round) : Prop where
  joins : (∃ l r, .join l r ∈ pass.joins ∧ o.Connects fs l r) → ∃ c joined plan next,
    o.Chosen fs pass.joins c ∧
      next = { pass.release c.predicate.attributes with joins := pass.joins.eraseIdx c.position } ∧
      (Plan.join (fs.get c.left).plan (fs.get c.right).plan c.predicate).estimateRoot = .ok joined ∧
      o.narrow next joined = .ok plan ∧
      turn = .joined ((fs.set c.left
        ⟨(fs.get c.left).relations ++ (fs.get c.right).relations, plan⟩).eraseIdx c.right) next
  stops : ∀ rest last, turn = .settled rest last → rest = fs ∧ last = pass ∧
    ∀ l r, .join l r ∈ pass.joins → o.resolve? fs l = none ∨ o.resolve? fs r = none

/-- Of the predicates met, those that wait and those applied in the fragments at hand account for
all. The equalities that wait do so in the order in which they were met. -/
structure Surroundings.Outstanding (s : Surroundings) (fs : List Fragment) (pass : Pass) :
    Prop where
  order : pass.joins.Sublist (equalities s.met)
  matched : Matches s.met (applied (s.aside ++ fs) ++ pass.pending)

variable {o : Optimiser} {root result plan : Plan} {s : Surroundings} {m : Moment}
  {fs gs : List Fragment} {pass pass' : Pass} {position : Nat} {p : Predicate}
  {rest joins met more : List Predicate} {best next : Option (Candidate fs)} {b c d : Candidate fs}

theorem prefer_beats (h : prefer best next = some c)
    (hlt : ∀ b, best = some b → ∀ d, next = some d → b.position < d.position) :
    (∀ b, best = some b → c.Beats b) ∧ ∀ d, next = some d → c.Beats d := by
  cases best with
  | none =>
    cases (show next = some c from h)
    refine ⟨fun b hb => (nomatch hb), ?_⟩
    rintro d ⟨⟩
    exact .refl _
  | some b =>
    cases next with
    | none =>
      cases h
      refine ⟨?_, fun d hd => (nomatch hd)⟩
      rintro d ⟨⟩
      exact .refl _
    | some d =>
      have hbefore := hlt b rfl d rfl
      rw [prefer] at h
      split at h
      · next hless =>
        cases h
        refine ⟨?_, ?_⟩
        · rintro b ⟨⟩
          exact .inl hless
        · rintro d ⟨⟩
          exact .refl _
      · next hmore =>
        cases h
        refine ⟨?_, ?_⟩
        · rintro b ⟨⟩
          exact .refl _
        · rintro d ⟨⟩
          rcases UInt64.lt_or_eq_of_le (UInt64.not_lt.mp hmore) with hless | heq
          · exact .inl hless
          · exact .inr ⟨heq, Nat.le_of_lt hbefore⟩

theorem beats_of_prefer (hlt : ∀ b, best = some b → ∀ d, next = some d → b.position < d.position)
    (h : ∀ e, prefer best next = some e → c.Beats e) :
    (∀ b, best = some b → c.Beats b) ∧ ∀ d, next = some d → c.Beats d := by
  cases hp : prefer best next with
  | none =>
    obtain ⟨rfl, rfl⟩ := prefer_eq_none hp
    exact ⟨fun b hb => (nomatch hb), fun d hd => (nomatch hd)⟩
  | some e =>
    obtain ⟨hbest, hnext⟩ := prefer_beats hp hlt
    have he := h e hp
    exact ⟨fun b hb => he.trans (hbest b hb), fun d hd => he.trans (hnext d hd)⟩

/-- The search asks every equality, and its result beats all that they offer. -/
theorem bestFrom_beats (h : o.bestFrom fs position rest best = .ok (some c))
    (hb : ∀ b, best = some b → b.position < position) :
    (∀ b, best = some b → c.Beats b) ∧ ∀ k p, rest[k]? = some p →
      ∃ next, o.candidate? fs (position + k) p = .ok next ∧ ∀ d, next = some d → c.Beats d := by
  induction rest generalizing position best with
  | nil =>
    cases h
    refine ⟨?_, fun k p hp => (nomatch hp)⟩
    rintro b ⟨⟩
    exact .refl _
  | cons q rest ih =>
    obtain ⟨next, hn, h⟩ := bind_eq_ok.mp h
    have hnext : ∀ d, next = some d → d.position = position := by
      rintro d rfl
      exact (candidate?_eq_some hn).1
    have hprefer : ∀ b, prefer best next = some b → b.position < position + 1 := by
      intro b hpb
      rcases prefer_eq_some hpb with hbest | hnew
      · have := hb b hbest
        omega
      · have := hnext b hnew
        omega
    obtain ⟨hfirst, hrest⟩ := ih h hprefer
    -- whichever is preferred stays the best so far, and the result beats that
    have hlt : ∀ b, best = some b → ∀ d, next = some d → b.position < d.position := by
      intro b hbb d hd
      rw [hnext d hd]
      exact hb b hbb
    obtain ⟨hbest, hnew⟩ := beats_of_prefer hlt hfirst
    refine ⟨hbest, fun k p hk => ?_⟩
    cases k with
    | zero =>
      cases hk
      exact ⟨next, hn, hnew⟩
    | succ k =>
      obtain ⟨later, hl, hbeats⟩ := hrest k p (by simpa using hk)
      rw [Nat.add_assoc, Nat.add_comm 1 k] at hl
      exact ⟨later, hl, hbeats⟩

theorem candidate?_offers (hp : joins[position]? = some p)
    (h : o.candidate? fs position p = .ok (some c)) :
    c.position = position ∧ o.Offers fs joins c := by
  obtain ⟨rfl, hlt, ⟨l, r, hlr, hsides⟩, hestimate⟩ := candidate?_eq_some h
  refine ⟨rfl, hlt, ⟨l, r, ?_, hsides⟩, hestimate⟩
  rcases hlr with rfl | rfl
  · exact .inl hp
  · exact .inr hp

theorem candidate?_of_connects {l r : Attribute} (hc : o.Connects fs l r)
    (h : o.candidate? fs position (.join l r) = .ok next) : ∃ d, next = some d := by
  obtain ⟨i, j, hi, hj, hne⟩ := hc
  cases next with
  | some d => exact ⟨d, rfl⟩
  | none =>
    have howners := candidate?_eq_none h
    simp only [← resolve?_map_val, hi, hj, Option.map_some] at howners
    rcases howners with hnone | hnone | ⟨k, hk, hk'⟩
    · cases hnone
    · cases hnone
    · cases hk
      exact absurd (Fin.ext (Option.some.inj hk')).symm hne

theorem chosen_of_bestFrom (h : o.bestFrom fs 0 joins none = .ok (some c)) :
    o.Chosen fs joins c := by
  obtain ⟨-, hbeats⟩ := bestFrom_beats h fun b hb => (nomatch hb)
  refine ⟨?_, fun k l r hk hc => ?_⟩
  · rcases bestFrom_eq_some h with hnone | ⟨k, p, hk, hc⟩
    · cases hnone
    · rw [Nat.zero_add] at hc
      exact (candidate?_offers hk hc).2
  · obtain ⟨next, hn, hall⟩ := hbeats k _ hk
    rw [Nat.zero_add] at hn
    obtain ⟨d, rfl⟩ := candidate?_of_connects hc hn
    obtain ⟨hpos, hoffers⟩ := candidate?_offers hk hn
    exact ⟨d, hpos, hoffers, hall d rfl⟩

theorem round_greedy {turn : Round} (h : o.round fs pass = .ok turn) :
    ∃ gs mid, o.applyLocal [] pass.joins fs pass = .ok (gs, mid) ∧ o.Greedy gs mid turn := by
  obtain ⟨⟨gs, mid⟩, hl, hround⟩ := bind_eq_ok.mp h
  obtain ⟨best, hb, hround⟩ := bind_eq_ok.mp hround
  refine ⟨gs, mid, hl, ?_⟩
  cases best with
  | none =>
    cases pure_eq_ok.mp hround
    obtain ⟨-, hnone⟩ := round_settled h
    have hunresolved : ∀ l r, .join l r ∈ mid.joins →
        o.resolve? gs l = none ∨ o.resolve? gs r = none := by
      intro l r hlr
      simpa only [← resolve?_map_val, Option.map_eq_none_iff] using hnone l r hlr
    refine ⟨?_, ?_⟩
    · rintro ⟨l, r, hlr, i, j, hi, hj, -⟩
      rcases hunresolved l r hlr with hno | hno
      · rw [hi] at hno
        cases hno
      · rw [hj] at hno
        cases hno
    · rintro _ _ ⟨⟩
      exact ⟨rfl, rfl, hunresolved⟩
  | some c =>
    obtain ⟨⟨joined, next⟩, hj, hround⟩ := bind_eq_ok.mp hround
    cases pure_eq_ok.mp hround
    obtain ⟨base, he, hj⟩ := bind_eq_ok.mp hj
    obtain ⟨plan, hn, hj⟩ := bind_eq_ok.mp hj
    cases pure_eq_ok.mp hj
    refine ⟨fun _ => ?_, fun _ _ hs => (nomatch hs)⟩
    exact ⟨c, base, plan, _, chosen_of_bestFrom hb, rfl, he, hn, rfl⟩

theorem equalities_append (ps qs : List Predicate) :
    equalities (ps ++ qs) = equalities ps ++ equalities qs := List.filter_append ..

theorem joins_defer (pass : Pass) (p : Predicate) :
    (pass.defer p).joins = pass.joins ++ equalities [p] := by
  cases p with
  | value => exact (List.append_nil _).symm
  | join => rfl

theorem Rewrites.joins_sublist {input : Plan} {v : Visited} (h : o.Rewrites input pass v pass') :
    pass'.joins.Sublist (pass.joins ++ equalities input.selections) := by
  induction h with
  | scan _ _ hs =>
    have hjoins := Steps.joins_sublist hs
    rwa [Plan.selections, equalities, List.filter_nil, List.append_nil]
  | @select input _ p _ pass _ _ ih =>
    rwa [joins_defer, List.append_assoc, ← equalities_append] at ih
  | project _ _ _ _ _ ih => exact ih
  | product _ _ ihl ihr =>
    rw [Plan.selections, equalities_append, ← List.append_assoc]
    exact ihr.trans (ihl.append_right _)
  | settle _ hs _ ih => exact (Steps.joins_sublist hs).trans ih

def Moment.ahead : Moment → List Predicate
  | .visit plan _ => plan.selections
  | .walk plan _ => plan.selections
  | _ => []

theorem Reaches.met_prefix (h : o.Reaches root s m) : (s.met ++ m.ahead) <+: root.selections := by
  induction h with
  | root => exact List.prefix_refl _
  | select _ ih =>
    rw [List.append_assoc]
    exact ih
  | left _ ih =>
    refine List.IsPrefix.trans ?_ ih
    exact (List.prefix_append_right_inj _).mpr (List.prefix_append _ _)
  | right _ _ ih =>
    rw [List.append_assoc]
    exact ih
  | @rounds s plan _ _ _ _ _ ih =>
    show s.met ++ plan.selections ++ [] <+: root.selections
    rw [List.append_nil]
    exact ih
  | _ => assumption

theorem Reaches.joins_sublist (h : o.Reaches root s m) :
    m.pass.joins.Sublist (equalities s.met) := by
  apply h.invariant (P := fun _ met pass => pass.joins.Sublist (equalities met))
  · exact .refl _
  · intro _ met pass p hsub
    rw [joins_defer, equalities_append]
    exact hsub.append_right _
  · intro _ _ _ _ _ hsub
    exact hsub
  · intro _ met _ _ input _ hr hsub
    rw [equalities_append]
    exact hr.joins_sublist.trans (hsub.append_right _)
  · intro _ _ _ _ _ _ hs hsub
    exact (Steps.joins_sublist hs).trans hsub
  · intro _ _ _ _ _ _ _ hj _ hsub
    exact (sublist_of_split hj).trans hsub

theorem applied_append (fs gs : List Fragment) : applied (fs ++ gs) = applied fs ++ applied gs :=
  List.flatMap_append ..

theorem matches_extend (h : Matches met (applied fs ++ pass.pending))
    (h' : Matches (more ++ pass.pending) (applied gs ++ pass'.pending)) :
    Matches (met ++ more) (applied (fs ++ gs) ++ pass'.pending) := by
  have hmet : Matches (met ++ more) (applied fs ++ pass.pending ++ more) :=
    h.append (matches_of_perm (.refl _))
  have hrest : Matches (applied fs ++ (more ++ pass.pending))
      (applied fs ++ (applied gs ++ pass'.pending)) := (matches_of_perm (.refl _)).append h'
  rw [List.append_assoc] at hmet
  rw [applied_append, List.append_assoc]
  refine hmet.trans (.trans (matches_of_perm ?_) hrest)
  exact List.perm_append_comm.append_left _

theorem Surroundings.Outstanding.steps (h : s.Outstanding fs pass)
    (hs : o.Steps ⟨fs, pass⟩ ⟨gs, pass'⟩) : s.Outstanding gs pass' := by
  refine ⟨(Steps.joins_sublist hs).trans h.order, ?_⟩
  have hrest : Matches (applied s.aside ++ (applied fs ++ pass.pending))
      (applied s.aside ++ (applied gs ++ pass'.pending)) :=
    (matches_of_perm (.refl _)).append (Steps.matches hs)
  have hmet := h.matched
  rw [applied_append, List.append_assoc] at hmet ⊢
  exact hmet.trans hrest

/-- Where a visit begins, all that was met waits or is applied beside the visited subtree; between
rounds, also in the fragments at hand. -/
def Moment.Matched (s : Surroundings) : Moment → Prop
  | .visit _ pass => Matches s.met (applied s.aside ++ pass.pending)
  | .walk _ pass => Matches s.met (applied s.aside ++ pass.pending)
  | .rounds _ fs pass => Matches s.met (applied (s.aside ++ fs) ++ pass.pending)
  | _ => True

theorem Reaches.matched (h : o.Reaches root s m) : m.Matched s := by
  induction h with
  | root => exact matches_of_perm (.refl _)
  | @select s _ p _ pass _ ih =>
    have hdeferred : Matches ([p] ++ pass.pending) (applied [] ++ (pass.defer p).pending) :=
      matches_of_perm (Pass.pending_defer pass p).symm
    have hmet := matches_extend ih hdeferred
    rwa [List.append_nil] at hmet
  | right _ hl ih => exact matches_extend ih (walk_rewrites hl).matches
  | rounds _ hw ih => exact matches_extend ih (walk_rewrites hw).matches
  | nextRound h hr ih =>
    have houtstanding : Surroundings.Outstanding _ _ _ := ⟨h.joins_sublist, ih⟩
    exact (houtstanding.steps (round_joined hr).1.steps).matched
  | _ => trivial

/-- The joins of a run are chosen greedily. At each of its moments the equalities wait in the order
in which the given plan's selections list them, from the root down and from left to right. At each
turn of a loop that joins fragments, what the selections within fragments leave accounts for all
that was met, and the turn makes the best join if there is one to make. -/
theorem optimise_greedy (h : o.optimise root = .ok result) :
    (∀ s m, o.Reaches root s m →
      s.met <+: root.selections ∧ m.pass.joins.Sublist (equalities s.met)) ∧
      ∀ s n fs pass, o.Reaches root s (.rounds n fs pass) → 0 < n ∧ ∃ gs mid turn,
        o.applyLocal [] pass.joins fs pass = .ok (gs, mid) ∧ o.round fs pass = .ok turn ∧
          s.Outstanding gs mid ∧ o.Greedy gs mid turn := by
  obtain ⟨last, hv, -⟩ := optimise_eq_ok.mp h
  refine ⟨?_, ?_⟩
  · intro s m hm
    exact ⟨(List.prefix_append _ _).trans hm.met_prefix, hm.joins_sublist⟩
  · intro s n fs pass hm
    have hpos : 0 < n := Nat.lt_of_le_of_lt (Nat.zero_le _) hm.aligned
    obtain ⟨n, rfl⟩ := Nat.exists_eq_succ_of_ne_zero (Nat.ne_of_gt hpos)
    obtain ⟨r, hr⟩ := hm.ends ⟨_, hv⟩
    obtain ⟨turn, hturn, -⟩ := rounds_succ hr
    obtain ⟨gs, mid, hl, hgreedy⟩ := round_greedy hturn
    have houtstanding : s.Outstanding fs pass := ⟨hm.joins_sublist, hm.matched⟩
    have hselected := (applyLocal_moves (List.nil_append _).symm (by simp) hl).1
    exact ⟨hpos, gs, mid, turn, hl, hturn, houtstanding.steps hselected.steps, hgreedy⟩

theorem optimise_greedy_sample : ∃ result s n fs pass,
    (⟨.sample, true⟩ : Optimiser).optimise .sample = .ok result ∧
      (⟨.sample, true⟩ : Optimiser).Reaches .sample s (.rounds n fs pass) ∧
      fs.map (·.relations) = [["Employee"], ["Works_On"]] ∧
      pass.joins = [.join (.named "SSN") (.named "ESSN")] ∧
      s.met = Plan.sample.selections ∧ ∃ gs mid turn,
        (⟨.sample, true⟩ : Optimiser).applyLocal [] pass.joins fs pass = .ok (gs, mid) ∧
        (⟨.sample, true⟩ : Optimiser).round fs pass = .ok turn ∧
          s.Outstanding gs mid ∧ (⟨.sample, true⟩ : Optimiser).Greedy gs mid turn := by
  obtain ⟨result, h⟩ : ∃ result, (⟨.sample, true⟩ : Optimiser).optimise .sample = .ok result :=
    ⟨_, rfl⟩
  have hselect : (⟨.sample, true⟩ : Optimiser).Reaches .sample _ _ :=
    .select (.walk (.select (.walk (.project (.walk .root) (by decide)))))
  have hrounds := Reaches.rounds hselect rfl
  obtain ⟨-, hgreedy⟩ := (optimise_greedy h).2 _ _ _ _ hrounds
  exact ⟨result, _, _, _, _, h, hrounds, rfl, rfl, rfl, hgreedy⟩

end Optimiser
end QueryPlan
