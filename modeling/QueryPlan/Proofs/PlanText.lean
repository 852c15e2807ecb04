import QueryPlan.Manifest
import QueryPlan.Proofs.JsonText
import Mathlib.Order.MinMax

/-! The text of a plan determines the plan. Every record is written with its fields in one order
and under names of their own, so it is read back field by field; the reader gives up only where the
text opens more arrays and objects than it may. -/

namespace QueryPlan

namespace Json

mutual

def nesting : Json → Nat
  | array items => itemsNesting items + 1
  | object members => membersNesting members + 1
  | _ => 0

def itemsNesting : List Json → Nat
  | [] => 0
  | j :: rest => max j.nesting (itemsNesting rest)

def membersNesting : List (String × Json) → Nat
  | [] => 0
  | (_, j) :: rest => max j.nesting (membersNesting rest)

end

attribute [simp] nesting itemsNesting membersNesting

section Records
variable {members : List (String × Json)} {name : String} {j : Json}

theorem filter_name (hn : (members.map Prod.fst).Nodup) (hm : (name, j) ∈ members) :
    members.filter (·.1 == name) = [(name, j)] := by
  induction members with
  | nil => cases hm
  | cons m members ih =>
    obtain ⟨hhead, htail⟩ := List.nodup_cons.mp hn
    rcases List.mem_cons.mp hm with rfl | hm
    · have hnil : members.filter (·.1 == name) = [] := by
        refine List.filter_eq_nil_iff.mpr fun m hm he => hhead ?_
        exact List.mem_map.mpr ⟨m, hm, beq_iff_eq.mp he⟩
      rw [List.filter_cons, hnil, if_pos (beq_self_eq_true name)]
    · have hne : ¬(m.1 == name) = true := fun he =>
        hhead (beq_iff_eq.mp he ▸ List.mem_map_of_mem hm)
      rw [List.filter_cons, if_neg hne, ih htail hm]

theorem unique?_of_mem (hn : (members.map Prod.fst).Nodup) (hm : (name, j) ∈ members) :
    unique? members name = some (some j) := by
  rw [unique?, filter_name hn hm]

theorem record?_object {fields : List (String × Json)} (hn : (members.map Prod.fst).Nodup)
    (hf : fields ⊆ members) :
    record? (fields.map Prod.fst) (object members) = some (fields.map Prod.snd) := by
  induction fields with
  | nil => rfl
  | cons f fields ih =>
    obtain ⟨hmem, hfields⟩ := List.cons_subset.mp hf
    have htail := ih hfields
    rw [record?] at htail ⊢
    rw [List.map_cons, List.mapM_cons, unique?_of_mem hn hmem, htail]
    rfl

theorem extended?_object (fields : List (String × Json)) {extra : String} {o : Json}
    (hn : ((fields ++ [(extra, o)]).map Prod.fst).Nodup) :
    extended? (fields.map Prod.fst) extra (object (fields ++ [(extra, o)])) =
      some (fields.map Prod.snd, o) := by
  have hextra : (extra, o) ∈ fields ++ [(extra, o)] := List.mem_append_right _ List.mem_cons_self
  rw [extended?, record?_object hn (List.subset_append_left _ _), unique?_of_mem hn hextra]
  rfl

end Records

/-- What is written is read back, exactly if the levels suffice for it. -/
def Codec {α : Type} (write : α → Json) (read? : Nat → Json → Option α) : Prop :=
  ∀ levels a b, read? levels (write a) = some b ↔ (write a).nesting ≤ levels ∧ a = b

section Codec
variable {α : Type} {write : α → Json} {read? : Nat → Json → Option α}

theorem Codec.injective (h : Codec write read?) : Function.Injective write := by
  intro a b hab
  have hread := (h _ a a).mpr ⟨Nat.le_refl _, rfl⟩
  rw [hab] at hread
  exact ((h _ b a).mp hread).2.symm

theorem inside?_eq_some {levels inner : Nat} :
    inside? levels = some inner ↔ levels = inner + 1 := by
  cases levels <;> simp [inside?, eq_comm]

theorem itemsNesting_map_le {xs : List α} {levels : Nat} :
    itemsNesting (xs.map write) ≤ levels ↔ ∀ a ∈ xs, (write a).nesting ≤ levels := by
  induction xs with
  | nil => simp
  | cons a xs ih => rw [List.map_cons, itemsNesting, Nat.max_le, ih, List.forall_mem_cons]

theorem Codec.mapM (h : Codec write read?) {levels : Nat} {xs ys : List α} :
    (xs.map write).mapM (read? levels) = some ys ↔
      (∀ a ∈ xs, (write a).nesting ≤ levels) ∧ xs = ys := by
  induction xs generalizing ys with
  | nil => simp [eq_comm]
  | cons a xs ih =>
    simp only [List.map_cons, List.mapM_cons, Option.bind_eq_bind, Option.bind_eq_some_iff, h _ a,
      ih, List.forall_mem_cons]
    constructor
    · rintro ⟨b, ⟨ha, rfl⟩, zs, ⟨hxs, rfl⟩, he⟩
      exact ⟨⟨ha, hxs⟩, Option.some.inj he⟩
    · rintro ⟨⟨ha, hxs⟩, rfl⟩
      exact ⟨a, ⟨ha, rfl⟩, xs, ⟨hxs, rfl⟩, rfl⟩

theorem Codec.list (h : Codec write read?) :
    Codec (fun xs => array (xs.map write)) fun levels j => j.list? levels read? := by
  intro levels xs ys
  simp only [list?, nesting, Option.bind_eq_bind, Option.bind_eq_some_iff, inside?_eq_some, h.mapM]
  constructor
  · rintro ⟨inner, rfl, hxs, rfl⟩
    exact ⟨Nat.succ_le_succ (itemsNesting_map_le.mpr hxs), rfl⟩
  · rintro ⟨hle, rfl⟩
    obtain ⟨inner, rfl⟩ := Nat.exists_eq_add_one_of_ne_zero (Nat.ne_zero_of_lt hle)
    exact ⟨inner, rfl, itemsNesting_map_le.mp (Nat.le_of_succ_le_succ hle), rfl⟩

@[simp] theorem count?_ofCount (n : Count) : (ofCount n).count? = some n :=
  Count.ofNat?_eq_some.mpr rfl

@[simp] theorem plain_ofCount (n : Count) : (ofCount n).Plain := .natural _

@[simp] theorem nesting_ofCount (n : Count) : (ofCount n).nesting = 0 := by
  rw [ofCount, nesting] <;> exact fun _ h => nomatch h

end Codec
end Json

namespace Digest

theorem toList_loop (bytes : ByteArray) (i : Nat) (read : List UInt8) :
    ByteArray.toList.loop bytes i read = read.reverse ++ bytes.data.toList.drop i := by
  fun_induction ByteArray.toList.loop bytes i read with
  | case1 i read hlt ih =>
    have hget : bytes.get! i = bytes.data[i] := getElem!_pos bytes.data i hlt
    rw [ih, List.reverse_cons, List.append_assoc, hget, ← Array.getElem_toList hlt,
      List.singleton_append, ← List.drop_eq_getElem_cons]
  | case2 i read hge =>
    have hnil : bytes.data.toList.drop i = [] := List.drop_eq_nil_of_le (Nat.le_of_not_lt hge)
    rw [hnil, List.append_nil]

theorem toUTF8_toList_inj {s t : String} : s.toUTF8.toList = t.toUTF8.toList ↔ s = t := by
  have hdata (b : ByteArray) : b.toList = b.data.toList := by
    rw [ByteArray.toList, toList_loop]
    rfl
  rw [hdata, hdata, Array.toList_inj, ← String.toByteArray_inj]
  exact ByteArray.ext_iff.symm

end Digest

open Json

theorem Attribute.plain (a : Attribute) : a.toJson.Plain := by
  simp [toJson, Plain.string]

theorem Relation.plain (r : Relation) : r.toJson.Plain := by
  simp [toJson, Attribute.plain]

theorem NamedRelation.plain (r : NamedRelation) : r.toJson.Plain := by
  simp [toJson, Plain.string, r.relation.plain]

theorem Predicate.plain (p : Predicate) : p.toJson.Plain := by
  cases p <;> simp [toJson, Plain.string, Attribute.plain]

namespace Plan

theorem plain_outputJson (o : Option Relation) : (outputJson o).Plain := by
  cases o with
  | none => exact .null
  | some r => exact r.plain

theorem plain (p : Plan) : p.toJson.Plain := by
  induction p with
  | scan s o => simp [toJson, toJson.node, s.plain, plain_outputJson]
  | select i p o ih => simp [toJson, toJson.node, ih, p.plain, plain_outputJson]
  | project i as o ih => simp [toJson, toJson.node, ih, Attribute.plain, plain_outputJson]
  | product l r o ihl ihr => simp [toJson, toJson.node, ihl, ihr, plain_outputJson]
  | join l r p o ihl ihr => simp [toJson, toJson.node, ihl, ihr, p.plain, plain_outputJson]

end Plan

theorem Attribute.codec : Codec Attribute.toJson Attribute.ofJson? := by
  rintro levels ⟨n, v⟩ b
  have hrecord : record? ["name", "value_count"]
      (.object [("name", .string n), ("value_count", ofCount v)]) = some [.string n, ofCount v] :=
    record?_object (by simp) (List.Subset.refl _)
  cases levels <;>
    simp [ofJson?, toJson, hrecord, inside?, text?]

theorem Relation.codec : Codec Relation.toJson Relation.ofJson? := by
  rintro levels ⟨n, as⟩ b
  have hrecord : record? ["tuple_count", "attributes"]
      (.object [("tuple_count", ofCount n), ("attributes", .array (as.map Attribute.toJson))]) =
        some [ofCount n, .array (as.map Attribute.toJson)] :=
    record?_object (by simp) (List.Subset.refl _)
  have hlist := Attribute.codec.list
  cases levels <;>
    simp [ofJson?, toJson, hrecord, inside?, Option.bind_eq_some_iff, hlist _ as]

theorem NamedRelation.codec : Codec NamedRelation.toJson NamedRelation.ofJson? := by
  rintro levels ⟨n, r⟩ b
  have hrecord : record? ["name", "relation"]
      (.object [("name", .string n), ("relation", r.toJson)]) = some [.string n, r.toJson] :=
    record?_object (by simp) (List.Subset.refl _)
  cases levels <;>
    simp [ofJson?, toJson, hrecord, inside?, text?, Option.bind_eq_some_iff, Relation.codec _ r]

theorem Predicate.codec : Codec Predicate.toJson Predicate.ofJson? := by
  rintro levels p b
  cases p with
  | value l v =>
    have hrecord : record? ["left", "value"]
        (.object [("left", l.toJson), ("value", .string v)]) = some [l.toJson, .string v] :=
      record?_object (by simp) (List.Subset.refl _)
    rcases levels with _ | _ | levels <;>
      simp [ofJson?, toJson, variant?, hrecord, inside?, text?, Option.bind_eq_some_iff,
        Attribute.codec _ l]
  | join l r =>
    have hrecord : record? ["left", "right"]
        (.object [("left", l.toJson), ("right", r.toJson)]) = some [l.toJson, r.toJson] :=
      record?_object (by simp) (List.Subset.refl _)
    rcases levels with _ | _ | levels <;>
      simp [ofJson?, toJson, variant?, hrecord, inside?, Option.bind_eq_some_iff,
        Attribute.codec _ l, Attribute.codec _ r, and_assoc]

namespace Plan

theorem outputCodec : Codec outputJson outputOfJson? := by
  rintro levels (_ | r) b
  · simp [outputJson, outputOfJson?]
  · have hobject : outputOfJson? levels r.toJson =
        (Relation.ofJson? levels r.toJson).map some := rfl
    simp [outputJson, hobject, Relation.codec _ r]

theorem codec : Codec toJson ofJson? := by
  -- a node opens two levels at once, so with fewer there is nothing to be read
  intro levels p b
  induction p generalizing levels b with
  | scan s o =>
    have hrecord : extended? ["relation"] "output"
        (.object [("relation", s.toJson), ("output", outputJson o)]) =
          some ([s.toJson], outputJson o) :=
      extended?_object [("relation", s.toJson)] (by simp)
    rcases levels with _ | _ | levels <;>
      simp [ofJson?, toJson, toJson.node, variant?, hrecord,
        Option.bind_eq_some_iff, NamedRelation.codec _ s, outputCodec _ o, and_assoc]
  | select i p o ih =>
    have hrecord : extended? ["input", "predicate"] "output"
        (.object [("input", i.toJson), ("predicate", p.toJson), ("output", outputJson o)]) =
          some ([i.toJson, p.toJson], outputJson o) :=
      extended?_object [("input", i.toJson), ("predicate", p.toJson)] (by simp)
    rcases levels with _ | _ | levels <;>
      simp [ofJson?, toJson, toJson.node, variant?, hrecord,
        Option.bind_eq_some_iff, ih, Predicate.codec _ p, outputCodec _ o, and_assoc]
  | project i as o ih =>
    have hrecord : extended? ["input", "attributes"] "output"
        (.object [("input", i.toJson), ("attributes", .array (as.map Attribute.toJson)),
          ("output", outputJson o)]) =
            some ([i.toJson, .array (as.map Attribute.toJson)], outputJson o) :=
      extended?_object [("input", i.toJson), ("attributes", .array (as.map Attribute.toJson))]
        (by simp)
    have hlist := Attribute.codec.list
    rcases levels with _ | _ | levels <;>
      simp [ofJson?, toJson, toJson.node, variant?, hrecord,
        Option.bind_eq_some_iff, ih, hlist _ as, outputCodec _ o, and_assoc]
  | product l r o ihl ihr =>
    have hrecord : extended? ["left", "right"] "output"
        (.object [("left", l.toJson), ("right", r.toJson), ("output", outputJson o)]) =
          some ([l.toJson, r.toJson], outputJson o) :=
      extended?_object [("left", l.toJson), ("right", r.toJson)] (by simp)
    rcases levels with _ | _ | levels <;>
      simp [ofJson?, toJson, toJson.node, variant?, hrecord,
        Option.bind_eq_some_iff, ihl, ihr, outputCodec _ o, and_assoc]
  | join l r p o ihl ihr =>
    have hrecord : extended? ["left", "right", "predicate"] "output"
        (.object [("left", l.toJson), ("right", r.toJson), ("predicate", p.toJson),
          ("output", outputJson o)]) =
            some ([l.toJson, r.toJson, p.toJson], outputJson o) :=
      extended?_object [("left", l.toJson), ("right", r.toJson), ("predicate", p.toJson)] (by simp)
    rcases levels with _ | _ | levels <;>
      simp [ofJson?, toJson, toJson.node, variant?, hrecord,
        Option.bind_eq_some_iff, ihl, ihr, Predicate.codec _ p, outputCodec _ o,
        and_assoc]

variable {p q : Plan}

theorem parse?_written (p : Plan) : parse? p.written = some p.toJson :=
  parse?_compact p.plain

theorem ofWritten?_written : ofWritten? p.written = some q ↔
    p.toJson.nesting ≤ maxNesting ∧ p = q := by
  rw [ofWritten?, parse?_written]
  exact codec maxNesting p q

theorem written_injective : Function.Injective written := by
  intro p q h
  have hjson := congrArg parse? h
  rw [parse?_written, parse?_written] at hjson
  exact codec.injective (Option.some.inj hjson)

/-- A plan is determined, with all counts and estimates, by the bytes whose digest is its
fingerprint; and its text is read back as the same plan and no other, exactly if it opens no more
arrays and objects at a place than a reader allows. -/
theorem written_determines (p q : Plan) :
    p.fingerprint = Digest.ofBytes p.written.toUTF8.toList ∧
      (p.written.toUTF8.toList = q.written.toUTF8.toList ↔ p = q) ∧
      (ofWritten? p.written = some q ↔ p.toJson.nesting ≤ maxNesting ∧ p = q) :=
  ⟨rfl, Digest.toUTF8_toList_inj.trans written_injective.eq_iff, ofWritten?_written⟩

end Plan
end QueryPlan
