import QueryPlan.Catalogue.Definition
import QueryPlan.Catalogue.Register
import Mathlib.Data.List.Nodup

/-! A register that was filled by calls on an empty one, refused or not, is in step with a
catalogue: the same relations in the same order, with an index that says where each name is. One call
keeps them in step, so every history of calls does; and what a register holds can be read off the
calls that it accepted. -/

namespace QueryPlan

def NamedRelation.declare (relation : String) (a : Attribute) (s : NamedRelation) : NamedRelation :=
  if s.name = relation then ⟨s.name, { s.relation with attributes := s.relation.attributes ++ [a] }⟩
  else s

theorem NamedRelation.declare_name (relation : String) (a : Attribute) (s : NamedRelation) :
    (s.declare relation a).name = s.name := by
  unfold declare
  split <;> rfl

theorem Relation.contains_eq_any (r : Relation) (name : String) :
    r.contains name = r.attributes.any (·.name == name) :=
  List.isSome_find?

theorem Relation.insert?_eq_none {r : Relation} {a : Attribute} :
    r.insert? a = none ↔ a.name ∈ r.names := by
  rw [insert?, ← contains_eq_true]
  split
  · next h => exact iff_of_true rfl h
  · next h => exact iff_of_false (Option.some_ne_none _) h

theorem Relation.insert?_eq_some {r s : Relation} {a : Attribute} :
    r.insert? a = some s ↔
      a.name ∉ r.names ∧ s = { r with attributes := r.attributes ++ [a] } := by
  rw [insert?, ← contains_eq_true]
  split
  · next h => exact iff_of_false (fun e => Option.some_ne_none s e.symm) fun e => e.1 h
  · next h => rw [Option.some.injEq, eq_comm, and_iff_right h]

namespace Catalogue
variable {c d : Catalogue} {name relation : String} {tuples values : Count} {s : NamedRelation}

theorem mem_names : name ∈ c.names ↔ ∃ s ∈ c.relations, s.name = name := List.mem_map

theorem names_unique {t : NamedRelation} (hs : s ∈ c.relations) (ht : t ∈ c.relations)
    (h : s.name = t.name) : s = t :=
  List.inj_on_of_nodup_map c.names_nodup hs ht h

theorem find?_eq_some : c.find? name = some s ↔ s ∈ c.relations ∧ s.name = name := by
  constructor
  · intro h
    exact ⟨mem_of_find? h, by simpa using List.find?_some h⟩
  · rintro ⟨hs, rfl⟩
    cases h : c.find? s.name with
    | none => exact absurd (List.mem_map_of_mem hs) (find?_eq_none_iff.mp h)
    | some t =>
      have ht : t.name = s.name := by simpa using List.find?_some h
      rw [names_unique (mem_of_find? h) hs ht]

theorem createRelation_cases (c : Catalogue) (name : String) (tuples : Count) :
    (name ∈ c.names ∧ c.createRelation name tuples = .error (.duplicateRelation name)) ∨
      (name ∉ c.names ∧ ∃ d, c.createRelation name tuples = .ok d ∧
        d.relations = c.relations ++ [⟨name, ⟨tuples, []⟩⟩]) := by
  by_cases h : c.find? name = none
  · exact .inr ⟨find?_eq_none_iff.mp h, _, dif_pos h, rfl⟩
  · exact .inl ⟨not_not.mp (mt find?_eq_none_iff.mpr h), dif_neg h⟩

theorem createAttribute_cases (c : Catalogue) (relation name : String) (values : Count) :
    (relation ∉ c.names ∧
        c.createAttribute relation name values = .error (.unknownRelation relation)) ∨
      ∃ s ∈ c.relations, s.name = relation ∧
        (name ∈ s.relation.names ∧
            c.createAttribute relation name values = .error (.duplicateAttribute relation name) ∨
          name ∉ s.relation.names ∧ ∃ d, c.createAttribute relation name values = .ok d ∧
            d.relations = c.relations.map (·.declare relation ⟨name, values.atLeastOne⟩)) := by
  unfold createAttribute
  split
  · next hr => exact .inl ⟨find?_eq_none_iff.mp hr, rfl⟩
  · next s hr =>
    obtain ⟨hs, hname⟩ := find?_eq_some.mp hr
    refine .inr ⟨s, hs, hname, ?_⟩
    split
    · next hinsert => exact .inl ⟨Relation.insert?_eq_none.mp hinsert, rfl⟩
    · next t hinsert =>
      obtain ⟨hfresh, rfl⟩ := Relation.insert?_eq_some.mp hinsert
      refine .inr ⟨hfresh, _, rfl, List.map_congr_left fun u hu => ?_⟩
      unfold NamedRelation.declare
      split
      · next hu' =>
        rw [names_unique hu hs (hu'.trans hname.symm), hname]
      · rfl

theorem names_declare {a : Attribute} (h : d.relations = c.relations.map (·.declare relation a)) :
    d.names = c.names := by
  rw [names, h, List.map_map]
  exact List.map_congr_left fun s _ => s.declare_name relation a

section Definitions
variable {e : PlanError} {ds : List Definition}

theorem foldlM_createAttribute_error {as : List (String × Count)} (hr : relation ∈ c.names)
    (h : as.foldlM (fun c (name, n) => c.createAttribute relation name n) c = .error e) :
    ∃ a ∈ as, e = .duplicateAttribute relation a.1 := by
  induction as generalizing c with
  | nil => cases h
  | cons a as ih =>
    obtain ⟨name, n⟩ := a
    simp only [List.foldlM_cons] at h
    obtain ⟨hmissing, -⟩ | ⟨s, -, -, ⟨-, herror⟩ | ⟨-, d, hok, hd⟩⟩ :=
      c.createAttribute_cases relation name n
    · exact absurd hr hmissing
    · rw [herror] at h
      exact ⟨_, List.mem_cons_self, (Except.error.inj h).symm⟩
    · rw [hok] at h
      obtain ⟨b, hb, he⟩ := ih (names_declare hd ▸ hr) h
      exact ⟨b, List.mem_cons_of_mem _ hb, he⟩

theorem define_error {d : Definition} (h : c.define d = .error e) :
    e = .duplicateRelation d.name ∨ ∃ a ∈ d.attributes, e = .duplicateAttribute d.name a.1 := by
  rw [define] at h
  obtain ⟨-, herror⟩ | ⟨-, c', hok, hc'⟩ := c.createRelation_cases d.name d.tuples
  · rw [herror] at h
    exact .inl (Except.error.inj h).symm
  · rw [hok] at h
    refine .inr (foldlM_createAttribute_error (c := c') ?_ h)
    rw [names, hc', List.map_append]
    exact List.mem_append_right _ (List.mem_singleton.mpr rfl)

theorem ofDefinitions_error (h : ofDefinitions ds = .error e) :
    ∃ d ∈ ds, e = .duplicateRelation d.name ∨
      ∃ a ∈ d.attributes, e = .duplicateAttribute d.name a.1 := by
  rw [ofDefinitions] at h
  generalize empty = c at h
  induction ds generalizing c with
  | nil => cases h
  | cons d ds ih =>
    rw [List.foldlM_cons] at h
    cases hd : c.define d with
    | error f =>
      rw [hd] at h
      obtain rfl := Except.error.inj h
      exact ⟨d, List.mem_cons_self, define_error hd⟩
    | ok c' =>
      rw [hd] at h
      obtain ⟨d', hd', he⟩ := ih c' h
      exact ⟨d', List.mem_cons_of_mem d hd', he⟩

end Definitions

def call (c : Catalogue) : Call → Except PlanError Catalogue
  | .register name tuples => c.createRelation name tuples
  | .declare relation name values => c.createAttribute relation name values

theorem slot?_eq (c : Catalogue) (name : String) : c.slot? name = c.names.findIdx? (· == name) := by
  rw [names, List.findIdx?_map]
  rfl

theorem slot?_eq_some {slot : Nat} :
    c.slot? name = some slot ↔ c.names[slot]? = some name := by
  rw [slot?_eq, List.findIdx?_eq_some_iff_getElem, List.getElem?_eq_some_iff]
  constructor
  · rintro ⟨hlt, hname, -⟩
    exact ⟨hlt, beq_iff_eq.mp hname⟩
  · rintro ⟨hlt, hname⟩
    refine ⟨hlt, beq_iff_eq.mpr hname, fun j hj he => ?_⟩
    have hsame : c.names[j] = c.names[slot] := (beq_iff_eq.mp he).trans hname.symm
    exact Nat.ne_of_lt hj ((c.names_nodup.getElem_inj_iff).mp hsame)

theorem slot?_eq_none : c.slot? name = none ↔ name ∉ c.names := by
  rw [slot?_eq, List.findIdx?_eq_none_iff]
  constructor
  · intro h hmem
    exact beq_eq_false_iff_ne.mp (h name hmem) rfl
  · intro h n hn
    exact beq_eq_false_iff_ne.mpr fun e => h (e ▸ hn)

theorem slot?_append (hd : d.names = c.names ++ [relation]) (hr : relation ∉ c.names) :
    d.slot? name = if name = relation then some c.relations.length else c.slot? name := by
  rw [slot?_eq, hd, List.findIdx?_append, ← slot?_eq]
  split
  · next h =>
    subst h
    rw [slot?_eq_none.mpr hr]
    simp [names]
  · next h =>
    have hlast : [relation].findIdx? (· == name) = none := by simpa using Ne.symm h
    rw [hlast, Option.map_none, Option.or_none]

theorem set_declare {slot : Nat} (hslot : c.relations[slot]? = some s) (a : Attribute) :
    c.relations.set slot ⟨s.name, { s.relation with attributes := s.relation.attributes ++ [a] }⟩ =
      c.relations.map (·.declare s.name a) := by
  have hplace {i : Nat} {t : NamedRelation} (hi : c.relations[i]? = some t) :
      c.slot? t.name = some i := by
    rw [slot?_eq_some, names, List.getElem?_map, hi, Option.map_some]
  refine List.ext_getElem? fun i => ?_
  rw [List.getElem?_set, List.getElem?_map]
  split
  · next h =>
    subst h
    rw [if_pos (List.getElem?_eq_some_iff.mp hslot).1, hslot, Option.map_some,
      NamedRelation.declare, if_pos rfl]
  · next h =>
    cases hi : c.relations[i]? with
    | none => rfl
    | some t =>
      have hne : t.name ≠ s.name := by
        intro he
        have hsame := hplace hi
        rw [he, hplace hslot] at hsame
        exact h (Option.some.inj hsame)
      rw [Option.map_some, NamedRelation.declare, if_neg hne]

end Catalogue

/-- A register holds what a catalogue holds, and its index is right about it. -/
structure Register.InStep (r : Register) (c : Catalogue) : Prop where
  relations : r.relations = c.relations
  slots : ∀ name, r.slot? name = c.slot? name

namespace Register
variable {r : Register} {c : Catalogue} {name : String}

theorem InStep.empty : Register.empty.InStep Catalogue.empty := ⟨rfl, fun _ => rfl⟩

theorem InStep.slot?_of_mem (h : r.InStep c) {s : NamedRelation} (hs : s ∈ c.relations) :
    ∃ slot, r.slot? s.name = some slot ∧ r.relations[slot]? = some s := by
  obtain ⟨slot, hslot⟩ := List.mem_iff_getElem?.mp hs
  refine ⟨slot, ?_, h.relations ▸ hslot⟩
  rw [h.slots, Catalogue.slot?_eq_some, Catalogue.names, List.getElem?_map, hslot, Option.map_some]

theorem InStep.slot?_of_not_mem (h : r.InStep c) (hn : name ∉ c.names) : r.slot? name = none := by
  rw [h.slots, Catalogue.slot?_eq_none.mpr hn]

theorem InStep.createRelation (h : r.InStep c) (name : String) (tuples : Count) :
    (∃ e, c.createRelation name tuples = .error e ∧
        r.createRelation name tuples = (.error e, r)) ∨
      ∃ d s, c.createRelation name tuples = .ok d ∧ r.createRelation name tuples = (.ok (), s) ∧
        s.InStep d := by
  unfold Register.createRelation
  obtain ⟨hname, herror⟩ | ⟨hname, d, hok, hd⟩ := c.createRelation_cases name tuples
  · obtain ⟨s, hs, rfl⟩ := Catalogue.mem_names.mp hname
    obtain ⟨slot, hslot, -⟩ := h.slot?_of_mem hs
    rw [hslot]
    exact .inl ⟨_, herror, rfl⟩
  · rw [h.slot?_of_not_mem hname]
    have hnames : d.names = c.names ++ [name] := by
      rw [Catalogue.names, hd, List.map_append]
      rfl
    refine .inr ⟨d, _, hok, rfl, by rw [hd, h.relations], fun n => ?_⟩
    rw [Catalogue.slot?_append hnames hname, slot?, List.lookup_cons, ← slot?, h.slots,
      h.relations]
    by_cases hn : n = name
    · rw [if_pos hn, beq_iff_eq.mpr hn]
    · rw [if_neg hn, beq_eq_false_iff_ne.mpr hn]

theorem InStep.createAttribute (h : r.InStep c) (relation name : String) (values : Count) :
    (∃ e, c.createAttribute relation name values = .error e ∧
        r.createAttribute relation name values = some (.error e, r)) ∨
      ∃ d s, c.createAttribute relation name values = .ok d ∧
        r.createAttribute relation name values = some (.ok (), s) ∧ s.InStep d := by
  unfold Register.createAttribute
  obtain ⟨hr, herror⟩ | ⟨s, hs, rfl, hcases⟩ := c.createAttribute_cases relation name values
  · rw [h.slot?_of_not_mem hr]
    exact .inl ⟨_, herror, rfl⟩
  · obtain ⟨slot, hslot, hget⟩ := h.slot?_of_mem hs
    rw [hslot]
    obtain ⟨hname, herror⟩ | ⟨hname, d, hok, hd⟩ := hcases
    · have hinsert := (Relation.insert?_eq_none (a := ⟨name, values.atLeastOne⟩)).mpr hname
      refine .inl ⟨_, herror, ?_⟩
      simp only [hget, Option.bind_eq_bind, Option.bind_some, hinsert]
      rfl
    · have hinsert := (Relation.insert?_eq_some (a := ⟨name, values.atLeastOne⟩)).mpr ⟨hname, rfl⟩
      refine .inr ⟨d, { r with relations := d.relations }, hok, ?_, rfl, fun n => ?_⟩
      · rw [h.relations] at hget
        simp only [h.relations, hget, Option.bind_eq_bind, Option.bind_some, hinsert,
          Catalogue.set_declare hget, hd]
        rfl
      · rw [Catalogue.slot?_eq, Catalogue.names_declare hd, ← Catalogue.slot?_eq]
        exact h.slots n

theorem InStep.call (h : r.InStep c) (k : Call) :
    (∃ e, c.call k = .error e ∧ r.call k = some (.error e, r)) ∨
      ∃ d s, c.call k = .ok d ∧ r.call k = some (.ok (), s) ∧ s.InStep d := by
  cases k with
  | register name tuples =>
    obtain ⟨e, hc, hr⟩ | ⟨d, s, hc, hr, hd⟩ := h.createRelation name tuples
    · exact .inl ⟨e, hc, congrArg some hr⟩
    · exact .inr ⟨d, s, hc, congrArg some hr, hd⟩
  | declare relation name values => exact h.createAttribute relation name values

end Register

namespace Call

def name? : Call → Option String
  | register name _ => some name
  | declare .. => none

def attribute? (relation : String) : Call → Option Attribute
  | register .. => none
  | declare r name values => if r = relation then some ⟨name, values.atLeastOne⟩ else none

def relation? (calls : List Call) : Call → Option NamedRelation
  | register name tuples => some ⟨name, ⟨tuples, calls.filterMap (attribute? name)⟩⟩
  | declare .. => none

def accepted : List Call → List Answer → List Call
  | call :: calls, .ok _ :: answers => call :: accepted calls answers
  | _ :: calls, .error _ :: answers => accepted calls answers
  | _, _ => []

/-- Why a call is not carried out after others. -/
inductive Refused (calls : List Call) : Call → PlanError → Prop
  | duplicateRelation {name : String} {tuples : Count} :
    name ∈ calls.filterMap name? → Refused calls (register name tuples) (.duplicateRelation name)
  | unknownRelation {relation name : String} {values : Count} :
    relation ∉ calls.filterMap name? →
      Refused calls (declare relation name values) (.unknownRelation relation)
  | duplicateAttribute {relation name : String} {values : Count} :
    relation ∈ calls.filterMap name? → name ∈ (calls.filterMap (attribute? relation)).map (·.name) →
      Refused calls (declare relation name values) (.duplicateAttribute relation name)

variable {calls : List Call} {relation name : String} {values tuples : Count}

theorem attributes_append (calls : List Call) (k : Call) (name : String) :
    (calls ++ [k]).filterMap (attribute? name) =
      calls.filterMap (attribute? name) ++ (attribute? name k).toList := by
  rw [List.filterMap_append]
  cases h : attribute? name k with
  | none => rw [List.filterMap_cons_none h, List.filterMap_nil, Option.toList_none]
  | some a => rw [List.filterMap_cons_some h, List.filterMap_nil, Option.toList_some]

theorem relation?_append_register (calls : List Call) (k : Call) :
    relation? (calls ++ [register name tuples]) k = relation? calls k := by
  cases k with
  | register n t =>
    simp only [relation?, attributes_append, attribute?, Option.toList_none, List.append_nil]
  | declare r n v => rfl

theorem relation?_append_declare (calls : List Call) (k : Call) :
    relation? (calls ++ [declare relation name values]) k =
      (relation? calls k).map (·.declare relation ⟨name, values.atLeastOne⟩) := by
  cases k with
  | register n t =>
    simp only [relation?, attributes_append, attribute?, Option.map_some, NamedRelation.declare]
    by_cases hr : relation = n
    · rw [if_pos hr, if_pos hr.symm, Option.toList_some]
    · rw [if_neg hr, if_neg (Ne.symm hr), Option.toList_none, List.append_nil]
  | declare r n v => rfl

end Call

/-- The relations of a catalogue are those that the calls describe, and no call declares an attribute
on any other. -/
structure Catalogue.Holds (c : Catalogue) (calls : List Call) : Prop where
  relations : c.relations = calls.filterMap (Call.relation? calls)
  unregistered : ∀ name, name ∉ c.names → calls.filterMap (Call.attribute? name) = []

namespace Catalogue
open Call
variable {c d : Catalogue} {done : List Call} {k : Call} {e : PlanError}

theorem Holds.empty : Catalogue.empty.Holds [] := ⟨rfl, fun _ _ => rfl⟩

theorem Holds.call (h : c.Holds done) (hk : c.call k = .ok d) : d.Holds (done ++ [k]) := by
  cases k with
  | register name tuples =>
    obtain ⟨-, herror⟩ | ⟨hname, d', hok, hd⟩ := c.createRelation_cases name tuples
    · rw [Catalogue.call, herror] at hk
      cases hk
    · rw [Catalogue.call, hok] at hk
      obtain rfl := Except.ok.inj hk
      refine ⟨?_, fun n hn => ?_⟩
      · rw [hd, h.relations, List.filterMap_append,
          List.filterMap_congr fun k _ => relation?_append_register done k]
        simp only [List.filterMap_cons, List.filterMap_nil, relation?, attributes_append, attribute?,
          h.unregistered name hname, Option.toList_none, List.append_nil]
      · rw [names, hd, List.map_append, List.mem_append, not_or] at hn
        rw [attributes_append, h.unregistered n hn.1]
        rfl
  | declare relation name values =>
    obtain ⟨-, herror⟩ | ⟨s, hs, hname, ⟨-, herror⟩ | ⟨-, d', hok, hd⟩⟩ :=
      c.createAttribute_cases relation name values
    · rw [Catalogue.call, herror] at hk
      cases hk
    · rw [Catalogue.call, herror] at hk
      cases hk
    · rw [Catalogue.call, hok] at hk
      obtain rfl := Except.ok.inj hk
      refine ⟨?_, fun n hn => ?_⟩
      · rw [hd, h.relations, List.map_filterMap, List.filterMap_append,
          List.filterMap_congr fun k _ => relation?_append_declare done k]
        exact (List.append_nil _).symm
      · rw [names_declare hd] at hn
        have hne : relation ≠ n := fun e => hn (e ▸ hname ▸ List.mem_map_of_mem hs)
        rw [attributes_append, h.unregistered n hn, attribute?, if_neg hne]
        rfl

theorem Holds.names (h : c.Holds done) : c.names = done.filterMap name? := by
  rw [Catalogue.names, h.relations, List.map_filterMap]
  exact List.filterMap_congr fun k _ => by cases k <;> rfl

theorem Holds.attributes (h : c.Holds done) {s : NamedRelation} (hs : s ∈ c.relations) :
    s.relation.attributes = done.filterMap (attribute? s.name) := by
  rw [h.relations] at hs
  obtain ⟨k, -, hk⟩ := List.mem_filterMap.mp hs
  cases k with
  | register name tuples => rw [← Option.some.inj hk]
  | declare relation name values => cases hk

theorem Holds.call_eq_error (h : c.Holds done) : c.call k = .error e ↔ Refused done k e := by
  cases k with
  | register name tuples =>
    rw [Catalogue.call]
    obtain ⟨hname, herror⟩ | ⟨hname, d, hok, -⟩ := c.createRelation_cases name tuples
    · rw [herror, Except.error.injEq]
      constructor
      · rintro rfl
        exact .duplicateRelation (h.names ▸ hname)
      · rintro ⟨⟩
        rfl
    · rw [hok]
      refine iff_of_false nofun ?_
      rintro ⟨hmem⟩
      exact hname (h.names ▸ hmem)
  | declare relation name values =>
    rw [Catalogue.call]
    obtain ⟨hr, herror⟩ | ⟨s, hs, rfl, hcases⟩ := c.createAttribute_cases relation name values
    · rw [herror, Except.error.injEq]
      constructor
      · rintro rfl
        exact .unknownRelation (h.names ▸ hr)
      · rintro (_ | _ | ⟨hmem, -⟩)
        · rfl
        · exact absurd (h.names ▸ hmem) hr
    · have hr : s.name ∈ done.filterMap name? := h.names ▸ List.mem_map_of_mem hs
      rw [Relation.names, h.attributes hs] at hcases
      obtain ⟨hname, herror⟩ | ⟨hname, d, hok, -⟩ := hcases
      · rw [herror, Except.error.injEq]
        constructor
        · rintro rfl
          exact .duplicateAttribute hr hname
        · rintro (_ | hmem | _)
          · exact absurd hr hmem
          · rfl
      · rw [hok]
        refine iff_of_false nofun ?_
        rintro (_ | hmem | ⟨-, hmem⟩)
        · exact hmem hr
        · exact hname hmem

end Catalogue

namespace Register
open Call
variable {r : Register} {c : Catalogue} {done : List Call}

theorem InStep.run (h : r.InStep c) (hc : c.Holds done) (calls : List Call) :
    ∃ answers s d, r.run calls = some (answers, s) ∧ answers.length = calls.length ∧ s.InStep d ∧
      d.Holds (done ++ accepted calls answers) := by
  induction calls generalizing r c done with
  | nil => exact ⟨[], r, c, rfl, rfl, h, (List.append_nil done).symm ▸ hc⟩
  | cons k calls ih =>
    obtain ⟨e, -, hk⟩ | ⟨c', r', hcall, hk, h'⟩ := h.call k
    · obtain ⟨answers, s, d, hrun, hlength, hs, hd⟩ := ih h hc
      refine ⟨.error e :: answers, s, d, ?_, congrArg (· + 1) hlength, hs, hd⟩
      simp only [Register.run, hk, hrun, Option.bind_eq_bind, Option.bind_some]
      rfl
    · obtain ⟨answers, s, d, hrun, hlength, hs, hd⟩ := ih h' (hc.call hcall)
      refine ⟨.ok () :: answers, s, d, ?_, congrArg (· + 1) hlength, hs, ?_⟩
      · simp only [Register.run, hk, hrun, Option.bind_eq_bind, Option.bind_some]
        rfl
      · rwa [List.append_assoc, List.singleton_append] at hd

structure Sound (r : Register) : Prop where
  slot_iff : ∀ name slot,
    r.slot? name = some slot ↔ ∃ s, r.relations[slot]? = some s ∧ s.name = name
  names_nodup : r.names.Nodup
  attributes_nodup : ∀ s ∈ r.relations, s.relation.names.Nodup
  one_le_valueCount : ∀ s ∈ r.relations, ∀ a ∈ s.relation.attributes, 1 ≤ a.valueCount.toNat

/-- What can be looked up is what the calls stored, in their order. -/
structure Recounts (r : Register) (calls : List Call) : Prop where
  names : r.names = calls.filterMap name?
  lookup_of_registered : ∀ name tuples, .register name tuples ∈ calls →
    r.lookup name = some (.ok ⟨name, ⟨tuples, calls.filterMap (attribute? name)⟩⟩)
  lookup_of_not_registered : ∀ name, name ∉ calls.filterMap name? →
    r.lookup name = some (.error (.unknownRelation name))
  ownerOf? : ∀ column, r.ownerOf? column = (calls.filterMap name?).find? fun name =>
    (calls.filterMap (attribute? name)).any (·.name == column)

theorem InStep.sound (h : r.InStep c) : r.Sound where
  slot_iff name slot := by
    rw [h.slots, Catalogue.slot?_eq_some, Catalogue.names, List.getElem?_map,
      Option.map_eq_some_iff, h.relations]
  names_nodup := by
    rw [names, h.relations]
    exact c.names_nodup
  attributes_nodup := h.relations ▸ c.attributes_nodup
  one_le_valueCount s hs a ha := by
    have hne := c.valueCount_ne_zero s (h.relations ▸ hs) a ha
    exact Nat.one_le_iff_ne_zero.mpr fun hz => hne (UInt64.toNat_inj.mp hz)

theorem InStep.recounts (h : r.InStep c) (hc : c.Holds done) : r.Recounts done := by
  refine ⟨?_, ?_, ?_, ?_⟩
  · rw [names, h.relations]
    exact hc.names
  · intro name tuples hmem
    have hs : ⟨name, ⟨tuples, done.filterMap (attribute? name)⟩⟩ ∈ c.relations := by
      rw [hc.relations]
      exact List.mem_filterMap.mpr ⟨_, hmem, rfl⟩
    obtain ⟨slot, hslot, hget⟩ := h.slot?_of_mem hs
    rw [lookup, hslot]
    simp only [hget]
    rfl
  · intro name hname
    rw [lookup, h.slot?_of_not_mem (hc.names ▸ hname)]
  · intro column
    have hsame (k : Call) : (relation? done k).any (·.relation.contains column) =
        (name? k).any fun name => (done.filterMap (attribute? name)).any (·.name == column) := by
      cases k with
      | register name tuples => exact Relation.contains_eq_any _ column
      | declare relation name values => rfl
    rw [Register.ownerOf?, h.relations, hc.relations, List.find?_filterMap, List.find?_filterMap,
      Option.map_bind]
    simp only [hsame]
    congr 1
    funext k
    cases k <;> rfl

/-- Every history of calls on an empty register runs to its end, and so does one more call. It is
refused for the reasons that there are and no others, and then the register stays as it was. -/
theorem run_empty (calls : List Call) :
    ∃ answers r, empty.run calls = some (answers, r) ∧ answers.length = calls.length ∧
      (∀ call, (∃ e, Refused (accepted calls answers) call e ∧ r.call call = some (.error e, r)) ∨
        (∀ e, ¬Refused (accepted calls answers) call e) ∧ ∃ s, r.call call = some (.ok (), s)) ∧
      r.Sound ∧ r.Recounts (accepted calls answers) := by
  obtain ⟨answers, r, c, hrun, hlength, h, hc⟩ := InStep.empty.run Catalogue.Holds.empty calls
  rw [List.nil_append] at hc
  refine ⟨answers, r, hrun, hlength, fun call => ?_, h.sound, h.recounts hc⟩
  obtain ⟨e, herror, hr⟩ | ⟨d, s, hok, hr, -⟩ := h.call call
  · exact .inl ⟨e, hc.call_eq_error.mp herror, hr⟩
  · refine .inr ⟨fun e he => ?_, s, hr⟩
    rw [hc.call_eq_error.mpr he] at hok
    cases hok

end Register
end QueryPlan
