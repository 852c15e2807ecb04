import QueryPlan.Command
import QueryPlan.Proofs.Outcome

/-! Where the catalogue of a described plan comes from. A description that brings a catalogue is
planned over that one, and nothing outside is asked for another; a description that brings none is
planned over the one from outside. That a catalogue is missing is said in the second case alone,
because neither a definition nor a step can fail in this way. -/

namespace QueryPlan
open Outcome

theorem SourceError.ofPlan_ne_missingCatalogue {α : Type} (x : Except PlanError α) :
    ofPlan x ≠ .error .missingCatalogue := by
  cases x <;> simp [ofPlan]

section Steps
variable {c : Catalogue} {number : Nat} {before : Option Plan}

theorem Step.extend_ne_missingCatalogue (step : Step) :
    step.extend c number before ≠ .error .missingCatalogue := by
  cases step with
  | scan relation =>
    rw [extend]
    split
    · simp
    · apply bind_ne_error (SourceError.ofPlan_ne_missingCatalogue _)
      intro s _
      cases before <;> exact ok_ne_error
  | select column value equals =>
    cases before <;> cases value <;> cases equals <;> simp [extend]
  | project columns => cases before <;> cases columns <;> simp [extend]

theorem extendAll_ne_missingCatalogue (steps : List Step) :
    extendAll c number steps before ≠ .error .missingCatalogue := by
  induction steps generalizing number before with
  | nil => exact ok_ne_error
  | cons step rest ih => exact bind_ne_error step.extend_ne_missingCatalogue fun p _ => ih

theorem Plan.ofSteps_ne_missingCatalogue (steps : List QueryPlan.Step) :
    ofSteps c steps ≠ .error .missingCatalogue := by
  apply bind_ne_error (extendAll_ne_missingCatalogue steps)
  intro p _
  cases p <;> simp [pure, Except.pure]

end Steps

namespace Description
variable {d : Description} {ds : List Definition}

theorem describe_of_some (h : d.catalogue = some ds) (given : Option Catalogue) :
    d.describe given = do
      let c ← SourceError.ofPlan (Catalogue.ofDefinitions ds)
      return ⟨some c, ← Plan.ofSteps c d.steps⟩ := by
  simp only [describe, embedded, h, bind_assoc, pure_bind, Option.some_or]

theorem describe_of_none (h : d.catalogue = none) : d.describe none = .error .missingCatalogue := by
  simp only [describe, embedded, h, ok_bind, Option.none_or]

theorem describe_ne_missingCatalogue (h : d.catalogue = some ds) (given : Option Catalogue) :
    d.describe given ≠ .error .missingCatalogue := by
  rw [describe_of_some h]
  apply bind_ne_error (SourceError.ofPlan_ne_missingCatalogue _)
  intro c _
  exact bind_ne_error (Plan.ofSteps_ne_missingCatalogue d.steps) fun p _ => ok_ne_error

theorem catalogue_of_describe (h : d.catalogue = some ds) {given : Option Catalogue} {r : Described}
    (hr : d.describe given = .ok r) :
    ∃ c, Catalogue.ofDefinitions ds = .ok c ∧ r.catalogue = some c := by
  rw [describe_of_some h] at hr
  obtain ⟨c, hc, hr⟩ := bind_eq_ok.mp hr
  obtain ⟨p, -, hr⟩ := bind_eq_ok.mp hr
  cases pure_eq_ok.mp hr
  cases hdefinitions : Catalogue.ofDefinitions ds with
  | ok c' =>
    rw [hdefinitions] at hc
    cases hc
    exact ⟨c, rfl, rfl⟩
  | error e =>
    rw [hdefinitions] at hc
    cases hc

theorem readBy_error {read : String → Option Description} {text : String} {e : SourceError}
    (h : readBy read text = .error e) : e = .yaml := by
  unfold readBy at h
  split at h
  · cases h
  · cases h
    rfl

end Description

namespace Command

variable (read : String → Option Description)

def describeOver (text : String) : Except Failure Catalogue → Except Failure (Catalogue × Plan)
  | .error failure => .error failure
  | .ok c =>
    match Described.readBy read (some c) text with
    | .ok r => .ok (c, r.plan)
    | .error e => .error (.source e)

variable {read} {m : Type → Type} [Monad m] {text : String} {r : Described} {e : SourceError}

theorem describe_of_ok (h : Described.readBy read none text = .ok r)
    (outside : Attempt m Catalogue) :
    describe read text outside = pure (r.catalogue.getD .empty, r.plan) := by
  rw [describe, h]

theorem describe_of_error (h : Described.readBy read none text = .error e)
    (hne : e ≠ .missingCatalogue) (outside : Attempt m Catalogue) :
    describe read text outside = throw (.source e) := by
  rw [describe, h]
  cases e <;> first | rfl | exact absurd rfl hne

theorem describe_of_missing (h : Described.readBy read none text = .error .missingCatalogue)
    (outside : Attempt m Catalogue) : describe read text outside = do
      let c ← outside
      let r ← source (Described.readBy read (some c) text)
      return (c, r.plan) := by
  rw [describe, h]

theorem run_describe_of_missing [LawfulMonad m]
    (h : Described.readBy read none text = .error .missingCatalogue)
    (outside : Attempt m Catalogue) :
    (describe read text outside).run = describeOver read text <$> outside.run := by
  rw [describe_of_missing h, ExceptT.run_bind, map_eq_pure_bind]
  apply bind_congr
  intro found
  cases found with
  | error failure => rfl
  | ok c =>
    cases hr : Described.readBy read (some c) text with
    | ok r => simp [describeOver, hr, source]
    | error e => simp [describeOver, hr, source]

/-- Whatever reads the texts, one whose description brings a catalogue has one outcome, whatever
catalogue is given, and the command has the same without asking outside. If the description brings
none, the command asks, and then has the outcome over the catalogue it gets. A text that is no
description fails as such. -/
theorem describe_shielded (read : String → Option Description) (text : String) :
    (∀ d ds, Description.readBy read text = .ok d → d.catalogue = some ds →
      (∀ given, Described.readBy read given text = Described.readBy read none text) ∧
      (∀ r, Described.readBy read none text = .ok r → ∃ c, Catalogue.ofDefinitions ds = .ok c ∧
        r.catalogue = some c ∧ ∀ (m : Type → Type) [Monad m] (outside : Attempt m Catalogue),
          describe read text outside = pure (c, r.plan)) ∧
      ∀ e, Described.readBy read none text = .error e →
        ∀ (m : Type → Type) [Monad m] (outside : Attempt m Catalogue),
          describe read text outside = throw (.source e)) ∧
    (∀ d, Description.readBy read text = .ok d → d.catalogue = none →
      (∀ (m : Type → Type) [Monad m] (outside : Attempt m Catalogue),
        describe read text outside = do
        let c ← outside
        let r ← source (Described.readBy read (some c) text)
        return (c, r.plan)) ∧
      ∀ (m : Type → Type) [Monad m] [LawfulMonad m] (outside : Attempt m Catalogue),
        (describe read text outside).run = describeOver read text <$> outside.run) ∧
    ∀ e, Description.readBy read text = .error e → e = .yaml ∧
      (∀ given, Described.readBy read given text = .error .yaml) ∧
      ∀ (m : Type → Type) [Monad m] (outside : Attempt m Catalogue),
        describe read text outside = throw (.source .yaml) := by
  refine ⟨fun d ds hd hc => ?_, fun d hd hc => ?_, fun e he => ?_⟩
  · have hread (given : Option Catalogue) :
        Described.readBy read given text = d.describe given := by
      rw [Described.readBy, hd, ok_bind]
    simp only [hread]
    refine ⟨fun given => ?_, fun r hr => ?_, fun e he m _ outside => ?_⟩
    · rw [Description.describe_of_some hc, Description.describe_of_some hc]
    · obtain ⟨c, hds, hown⟩ := Description.catalogue_of_describe hc hr
      refine ⟨c, hds, hown, fun m _ outside => ?_⟩
      rw [describe_of_ok ((hread none).trans hr), hown, Option.getD_some]
    · apply describe_of_error ((hread none).trans he)
      rintro rfl
      exact Description.describe_ne_missingCatalogue hc none he
  · have hmissing : Described.readBy read none text = .error .missingCatalogue := by
      rw [Described.readBy, hd, ok_bind, Description.describe_of_none hc]
    exact ⟨fun m _ => describe_of_missing hmissing, fun m _ _ => run_describe_of_missing hmissing⟩
  · obtain rfl := Description.readBy_error he
    have hread (given : Option Catalogue) : Described.readBy read given text = .error .yaml := by
      rw [Described.readBy, he]
      rfl
    exact ⟨rfl, hread, fun m _ outside => describe_of_error (hread none) (by simp) outside⟩

def sampleEmbedded : String :=
  "catalogue: [ {name: R, tuples: 5} ]\nsteps:\n- {op: scan, relation: R}\n"

def sampleFaulty : String :=
  "catalogue: [ {name: R, tuples: 5} ]\nsteps:\n- {op: scan, relation: R}\n" ++
    "- {op: select, attribute: a}\n"

def sampleOpen : String := "steps:\n- {op: scan, relation: R}\n"

open Description (ofText?) in
theorem describe_shielded_sample :
    (∀ (m : Type → Type) [Monad m] (outside : Attempt m Catalogue),
      ∃ c plan, describe ofText? sampleEmbedded outside = pure (c, plan) ∧
        plan.baseRelations = ["R"]) ∧
    (∀ (m : Type → Type) [Monad m] (outside : Attempt m Catalogue),
      describe ofText? sampleFaulty outside = throw (.source (.step 2 .notOneOperand))) ∧
    (describe ofText? sampleOpen (throw (.file .missing) : Attempt Id Catalogue)).run =
      .error (.file .missing) ∧
    (describe ofText? sampleOpen (pure .empty : Attempt Id Catalogue)).run =
      .error (.source (.plan (.unknownRelation "R"))) ∧
    ∀ (m : Type → Type) [Monad m] (outside : Attempt m Catalogue),
      describe ofText? "steps: [" outside = throw (.source .yaml) := by
  have hembedded : Description.readBy ofText? sampleEmbedded =
      .ok ⟨some [⟨"R", 5, []⟩], [.scan "R"]⟩ := by decide +kernel
  have hfaulty : Description.readBy ofText? sampleFaulty =
      .ok ⟨some [⟨"R", 5, []⟩], [.scan "R", .select "a" none none]⟩ := by decide +kernel
  have hopen : Description.readBy ofText? sampleOpen = .ok ⟨none, [.scan "R"]⟩ := by decide +kernel
  have hbroken : Description.readBy ofText? "steps: [" = .error .yaml := by decide +kernel
  obtain ⟨r, hr, hbase⟩ : ∃ r, Described.readBy ofText? none sampleEmbedded = .ok r ∧
      r.plan.baseRelations = ["R"] := by
    rw [Described.readBy, hembedded]
    exact ⟨_, rfl, rfl⟩
  have hstep : Described.readBy ofText? none sampleFaulty = .error (.step 2 .notOneOperand) := by
    rw [Described.readBy, hfaulty]
    rfl
  have hunknown : Described.readBy ofText? (some .empty) sampleOpen =
      .error (.plan (.unknownRelation "R")) := by
    rw [Described.readBy, hopen]
    rfl
  obtain ⟨-, hok, -⟩ := (describe_shielded ofText? sampleEmbedded).1 _ _ hembedded rfl
  obtain ⟨-, -, herror⟩ := (describe_shielded ofText? sampleFaulty).1 _ _ hfaulty rfl
  obtain ⟨-, hasks⟩ := (describe_shielded ofText? sampleOpen).2.1 _ hopen rfl
  obtain ⟨-, -, hyaml⟩ := (describe_shielded ofText? "steps: [").2.2 _ hbroken
  obtain ⟨c, -, -, hplan⟩ := hok r hr
  refine ⟨fun m _ outside => ⟨c, r.plan, hplan m outside, hbase⟩, herror _ hstep, ?_, ?_, hyaml⟩
  · rw [hasks]
    rfl
  · rw [hasks]
    change describeOver ofText? sampleOpen (.ok .empty) = _
    rw [describeOver, hunknown]

end Command
end QueryPlan
