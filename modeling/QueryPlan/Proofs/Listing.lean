import QueryPlan.Plan.Listing
import QueryPlan.Proofs.Expense
import QueryPlan.Proofs.Freshness
import QueryPlan.Proofs.TextLines
import Mathlib.Data.List.Forall2
import Mathlib.Data.List.TakeWhile

/-! What a listing tells of a plan. Where no name and no literal breaks a line, the lines are the
nodes in pre-order, indented by their depth. A line starts with the operator of its node, whatever
names follow, and the operator has a fixed number of children. So the operators, line after line,
are the plan in prefix notation, and two plans with one listing have the same operators at the same
places. -/

namespace QueryPlan

def Predicate.words : Predicate → List String
  | value l v => [l.name, v]
  | join l r => [l.name, r.name]

namespace Plan

def labelWords : Plan → List String
  | scan s _ => [s.name]
  | select _ c _ => c.words
  | project _ as _ => as.map (·.name)
  | product .. => []
  | join _ _ c _ => c.words

def words (p : Plan) : List String := p.labelWords ++ p.output?.elim [] Relation.names

/-- No name and no literal of the plan contains a line feed. -/
def Unbroken (p : Plan) : Prop := ∀ node ∈ p.subplans, ∀ w ∈ node.words, '\n' ∉ w.toList

def at? : Plan → List Nat → Option Plan
  | p, [] => some p
  | p, i :: a => p.children[i]?.bind fun q => q.at? a

def addresses : Plan → List (List Nat)
  | scan .. => [[]]
  | select i _ _ => [] :: i.addresses.map (0 :: ·)
  | project i _ _ => [] :: i.addresses.map (0 :: ·)
  | product l r _ => [] :: (l.addresses.map (0 :: ·) ++ r.addresses.map (1 :: ·))
  | join l r _ _ => [] :: (l.addresses.map (0 :: ·) ++ r.addresses.map (1 :: ·))

def Shows (p : Plan) (a : List Nat) (line : List Char) : Prop :=
  ∃ node, p.at? a = some node ∧ line = (node.line a.length).toList ∧
    (line.takeWhile (· = ' ')).length = 2 * a.length

def SameKinds (p q : Plan) : Prop := ∀ a, (p.at? a).map kind = (q.at? a).map kind

def kinds (p : Plan) : List Kind := p.subplans.map kind

def Kind.ofLine? (line : List Char) : Option Kind :=
  [scan, select, project, product, join].find? fun k =>
    k.text.toList.isPrefixOf (line.dropWhile (· = ' '))

variable {p q : Plan} {ps qs : List Plan} {a : List Nat} {k l : Kind} {c : Char} {depth : Nat}

theorem mem_addresses_iff : a ∈ p.addresses ↔ (p.at? a).isSome := by
  induction p generalizing a with
  | scan s o => cases a <;> simp [addresses, at?, children]
  | select i c o ih =>
    rcases a with _ | ⟨_ | n, a⟩ <;> simp [addresses, at?, children, ih]
  | project i as o ih =>
    rcases a with _ | ⟨_ | n, a⟩ <;> simp [addresses, at?, children, ih]
  | product l r o ihl ihr =>
    rcases a with _ | ⟨_ | _ | n, a⟩ <;> simp [addresses, at?, children, ihl, ihr]
  | join l r c o ihl ihr =>
    rcases a with _ | ⟨_ | _ | n, a⟩ <;> simp [addresses, at?, children, ihl, ihr]

theorem sorted_map_cons {as : List (List Nat)} (i : Nat) (h : as.Pairwise (· < ·)) :
    (as.map (i :: ·)).Pairwise (· < ·) := by
  rw [List.pairwise_map]
  exact h.imp fun hlt => List.cons_lt_cons_iff.mpr (.inr ⟨rfl, hlt⟩)

theorem sorted_children {as bs : List (List Nat)} (ha : as.Pairwise (· < ·))
    (hb : bs.Pairwise (· < ·)) :
    ([] :: (as.map (0 :: ·) ++ bs.map (1 :: ·))).Pairwise (· < ·) := by
  have hbefore : ∀ x ∈ as.map (0 :: ·), ∀ y ∈ bs.map (1 :: ·), x < y := by
    intro x hx y hy
    obtain ⟨a, -, rfl⟩ := List.mem_map.mp hx
    obtain ⟨b, -, rfl⟩ := List.mem_map.mp hy
    exact List.cons_lt_cons_iff.mpr (.inl Nat.zero_lt_one)
  refine List.pairwise_cons.mpr ⟨fun x hx => ?_, ?_⟩
  · simp only [List.mem_append, List.mem_map] at hx
    rcases hx with ⟨a, -, rfl⟩ | ⟨b, -, rfl⟩ <;> exact List.nil_lt_cons _ _
  · exact List.pairwise_append.mpr ⟨sorted_map_cons 0 ha, sorted_map_cons 1 hb, hbefore⟩

theorem addresses_sorted (p : Plan) : p.addresses.Pairwise (· < ·) := by
  induction p with
  | scan s o => exact List.pairwise_singleton _ _
  | select i c o ih => simpa [addresses] using sorted_children ih .nil
  | project i as o ih => simpa [addresses] using sorted_children ih .nil
  | product l r o ihl ihr => exact sorted_children ihl ihr
  | join l r c o ihl ihr => exact sorted_children ihl ihr

theorem map_at?_addresses (p : Plan) : p.addresses.map p.at? = p.subplans.map some := by
  induction p with
  | scan s o => rfl
  | select i c o ih => simpa [addresses, at?, children, Function.comp_def] using ih
  | project i as o ih => simpa [addresses, at?, children, Function.comp_def] using ih
  | product l r o ihl ihr =>
    simp [addresses, at?, children, Function.comp_def, ihl, ihr]
  | join l r c o ihl ihr =>
    simp [addresses, at?, children, Function.comp_def, ihl, ihr]

theorem length_addresses (p : Plan) : p.addresses.length = p.nodeCount := by
  have hmap := congrArg List.length p.map_at?_addresses
  rwa [List.length_map, List.length_map, ← nodeCount_eq] at hmap

theorem mem_subplans_of_at? (h : p.at? a = some q) : q ∈ p.subplans := by
  induction a generalizing p with
  | nil =>
    rw [at?, Option.some_inj] at h
    exact h ▸ mem_subplans_self
  | cons i a ih =>
    rw [at?, Option.bind_eq_some_iff] at h
    obtain ⟨child, hchild, hq⟩ := h
    have hmem : child ∈ p.children := List.mem_of_getElem? hchild
    exact subplans_subset (mem_subplans_of_mem_children mem_subplans_self hmem) (ih hq)

theorem line_eq (depth : Nat) (p : Plan) : p.line depth =
    String.ofList (List.replicate (2 * depth) ' ') ++ p.label ++ "  " ++
      p.output?.elim "unestimated" Relation.summary := by
  unfold line
  cases p.output? <;> rfl

theorem exists_label_eq (p : Plan) : ∃ rest, p.label.toList = p.kind.text.toList ++ rest := by
  cases p with
  | scan s o => exact ⟨' ' :: s.name.toList, by simp [label, kind, Kind.text]⟩
  | select i c o => exact ⟨" [".toList ++ c.text.toList ++ [']'], by simp [label, kind, Kind.text]⟩
  | project i as o =>
    exact ⟨" [".toList ++ (",".intercalate (as.map (·.name))).toList ++ [']'], by
      simp [label, kind, Kind.text]⟩
  | product l r o => exact ⟨[], by simp [label, kind, Kind.text]⟩
  | join l r c o => exact ⟨" [".toList ++ c.text.toList ++ [']'], by simp [label, kind, Kind.text]⟩

theorem exists_line_eq (depth : Nat) (p : Plan) : ∃ rest, (p.line depth).toList =
    List.replicate (2 * depth) ' ' ++ (p.kind.text.toList ++ rest) := by
  obtain ⟨rest, hlabel⟩ := p.exists_label_eq
  refine ⟨rest ++ ("  " ++ p.output?.elim "unestimated" Relation.summary).toList, ?_⟩
  rw [line_eq]
  simp only [String.toList_append, String.toList_ofList, hlabel, List.append_assoc]

theorem Kind.text_head (k : Kind) : ∃ c rest, k.text.toList = c :: rest ∧ c ≠ ' ' := by
  cases k <;> exact ⟨_, _, rfl, by decide⟩

theorem spaces_of_line (n : Nat) (k : Kind) (rest : List Char) :
    (List.replicate n ' ' ++ (k.text.toList ++ rest)).takeWhile (· = ' ') = List.replicate n ' ' ∧
    (List.replicate n ' ' ++ (k.text.toList ++ rest)).dropWhile (· = ' ') =
      k.text.toList ++ rest := by
  obtain ⟨c, tail, htext, hc⟩ := k.text_head
  have hspaces : ∀ b ∈ List.replicate n ' ', decide (b = ' ') = true := by
    intro b hb
    exact decide_eq_true (List.eq_of_mem_replicate hb)
  rw [List.takeWhile_append_of_pos hspaces, List.dropWhile_append_of_pos hspaces, htext]
  simp [hc]

theorem Kind.eq_of_text (h : k.text.toList <+: l.text.toList) : k = l := by
  cases k <;> cases l <;> first | rfl | exact absurd h (by decide)

theorem Kind.ofLine?_line (depth : Nat) (p : Plan) :
    ofLine? (p.line depth).toList = some p.kind := by
  obtain ⟨rest, hline⟩ := exists_line_eq depth p
  obtain ⟨-, hdrop⟩ := spaces_of_line (2 * depth) p.kind rest
  rw [ofLine?, hline, hdrop]
  have hown : p.kind.text.toList <+: p.kind.text.toList ++ rest := List.prefix_append _ _
  cases hfound : [scan, select, project, product, join].find? fun k =>
      k.text.toList.isPrefixOf (p.kind.text.toList ++ rest) with
  | none =>
    have hmem : p.kind ∈ [scan, select, project, product, join] := by cases p.kind <;> simp
    exact absurd (List.isPrefixOf_iff_prefix.mpr hown) (List.find?_eq_none.mp hfound _ hmem)
  | some k =>
    have hk : k.text.toList <+: p.kind.text.toList ++ rest := by
      simpa using List.find?_some hfound
    rcases List.prefix_or_prefix_of_prefix hk hown with h | h
    · rw [eq_of_text h]
    · rw [eq_of_text h]

theorem map_ofLine?_lines (depth : Nat) (p : Plan) :
    (p.lines depth).map (fun line => Kind.ofLine? line.toList) = p.kinds.map some := by
  unfold kinds
  induction p generalizing depth with
  | scan s o => simp [lines, Kind.ofLine?_line]
  | select i c o ih => simp [lines, Kind.ofLine?_line, ih]
  | project i as o ih => simp [lines, Kind.ofLine?_line, ih]
  | product l r o ihl ihr => simp [lines, Kind.ofLine?_line, ihl, ihr]
  | join l r c o ihl ihr => simp [lines, Kind.ofLine?_line, ihl, ihr]

theorem map_line_addresses (depth : Nat) (p : Plan) :
    p.addresses.map (fun a => (p.at? a).map fun node => node.line (depth + a.length)) =
      (p.lines depth).map some := by
  induction p generalizing depth with
  | scan s o => rfl
  | select i c o ih =>
    have hi := ih (depth + 1)
    simp [addresses, at?, children, lines, ← hi, Function.comp_def, Nat.add_assoc, Nat.add_comm 1]
  | project i as o ih =>
    have hi := ih (depth + 1)
    simp [addresses, at?, children, lines, ← hi, Function.comp_def, Nat.add_assoc, Nat.add_comm 1]
  | product l r o ihl ihr =>
    have hl := ihl (depth + 1)
    have hr := ihr (depth + 1)
    simp [addresses, at?, children, lines, ← hl, ← hr, Function.comp_def, Nat.add_assoc,
      Nat.add_comm 1]
  | join l r c o ihl ihr =>
    have hl := ihl (depth + 1)
    have hr := ihr (depth + 1)
    simp [addresses, at?, children, lines, ← hl, ← hr, Function.comp_def, Nat.add_assoc,
      Nat.add_comm 1]

theorem not_mem_intercalate {sep : String} {pieces : List String} (hsep : c ∉ sep.toList)
    (h : ∀ piece ∈ pieces, c ∉ piece.toList) : c ∉ (sep.intercalate pieces).toList := by
  rw [String.toList_intercalate]
  intro hmem
  rcases Text.mem_of_mem_intercalate hmem with hc | ⟨_, hmapped, hc⟩
  · exact hsep hc
  · obtain ⟨piece, hpiece, rfl⟩ := List.mem_map.mp hmapped
    exact h piece hpiece hc

theorem not_mem_toString (n : Nat) : '\n' ∉ (toString n).toList := by
  intro h
  have hdigit : Text.isDigit '\n' = true := Text.isDigit_of_mem_toDigits (by simpa using h)
  revert hdigit
  decide

theorem not_mem_text {c : Predicate} (h : ∀ w ∈ c.words, '\n' ∉ w.toList) :
    '\n' ∉ c.text.toList := by
  cases c with
  | value l v =>
    obtain ⟨hl, hv⟩ : '\n' ∉ l.name.toList ∧ '\n' ∉ v.toList := by
      simpa [Predicate.words] using h
    simp [Predicate.text, hl, hv]
  | join l r =>
    obtain ⟨hl, hr⟩ : '\n' ∉ l.name.toList ∧ '\n' ∉ r.name.toList := by
      simpa [Predicate.words] using h
    simp [Predicate.text, hl, hr]

theorem not_mem_label (h : ∀ w ∈ p.labelWords, '\n' ∉ w.toList) : '\n' ∉ p.label.toList := by
  cases p with
  | scan s o =>
    have hname : '\n' ∉ s.name.toList := h _ List.mem_cons_self
    simp [label, hname]
  | select i c o =>
    have htext : '\n' ∉ c.text.toList := not_mem_text h
    simp [label, htext]
  | project i as o =>
    have hnames : '\n' ∉ (",".intercalate (as.map (·.name))).toList :=
      not_mem_intercalate (by decide) h
    simp only [label, String.toList_append, List.mem_append, not_or]
    exact ⟨⟨by decide, hnames⟩, by decide⟩
  | product l r o => simp [label]
  | join l r c o =>
    have htext : '\n' ∉ c.text.toList := not_mem_text h
    simp [label, htext]

theorem not_mem_summary {r : Relation} (h : ∀ w ∈ r.names, '\n' ∉ w.toList) :
    '\n' ∉ r.summary.toList := by
  have hlist : '\n' ∉ (", ".intercalate
      (r.attributes.map fun a => a.name ++ ":" ++ toString a.valueCount.toNat)).toList := by
    apply not_mem_intercalate (by decide)
    intro piece hpiece
    obtain ⟨a, ha, rfl⟩ := List.mem_map.mp hpiece
    have hname : '\n' ∉ a.name.toList := h _ (List.mem_map_of_mem ha)
    have hcount := not_mem_toString a.valueCount.toNat
    simp only [String.toList_append, List.mem_append, not_or]
    exact ⟨⟨hname, by decide⟩, hcount⟩
  have hcount := not_mem_toString r.tupleCount.toNat
  simp only [Relation.summary, String.toList_append, List.mem_append, not_or]
  exact ⟨⟨⟨⟨by decide, hcount⟩, by decide⟩, hlist⟩, by decide⟩

theorem not_mem_line (h : ∀ w ∈ p.words, '\n' ∉ w.toList) : '\n' ∉ (p.line depth).toList := by
  obtain ⟨hlabel, hnames⟩ := List.forall_mem_append.mp h
  have hstored : '\n' ∉ (p.output?.elim "unestimated" Relation.summary).toList := by
    cases ho : p.output? with
    | none => decide
    | some r =>
      rw [ho] at hnames
      exact not_mem_summary hnames
  rw [line_eq]
  have hspaces : '\n' ∉ List.replicate (2 * depth) ' ' := by simp
  simp only [String.toList_append, String.toList_ofList, List.mem_append, not_or]
  exact ⟨⟨⟨hspaces, not_mem_label hlabel⟩, by decide⟩, hstored⟩

theorem getLast?_line (depth : Nat) (p : Plan) :
    (p.line depth).toList.getLast? ≠ some '\r' := by
  have hlast : (p.output?.elim "unestimated" Relation.summary).toList.getLast? = some 'd' ∨
      (p.output?.elim "unestimated" Relation.summary).toList.getLast? = some ']' := by
    cases p.output? with
    | none => exact .inl (by decide)
    | some r =>
      refine .inr ?_
      change r.summary.toList.getLast? = some ']'
      rw [Relation.summary, String.toList_append, List.getLast?_append]
      rfl
  rw [line_eq, String.toList_append, List.getLast?_append]
  rcases hlast with h | h <;> simp [h]

theorem lines_listing (h : p.Unbroken) :
    Text.lines p.listing.toList = (p.lines 0).map String.toList := by
  have hclean : ∀ line ∈ (p.lines 0).map String.toList,
      '\n' ∉ line ∧ line.getLast? ≠ some '\r' := by
    intro line hline
    obtain ⟨text, htext, rfl⟩ := List.mem_map.mp hline
    have hsome : some text ∈ (p.lines 0).map some := List.mem_map_of_mem htext
    rw [← map_line_addresses] at hsome
    obtain ⟨a, -, ha⟩ := List.mem_map.mp hsome
    obtain ⟨node, hnode, rfl⟩ := Option.map_eq_some_iff.mp ha
    exact ⟨not_mem_line (h node (mem_subplans_of_at? hnode)), getLast?_line _ node⟩
  rw [← Text.lines_flatMap hclean, listing, String.toList_join]
  simp [List.flatMap_map]

theorem kinds_eq (p : Plan) : p.kinds = p.kind :: p.children.flatMap kinds := by
  unfold kinds
  rw [subplans_eq, List.map_cons, List.map_flatMap]

theorem length_children (h : p.kind = q.kind) : p.children.length = q.children.length := by
  cases p <;> cases q <;> first | rfl | cases h

theorem sameKinds_of_children (hkind : p.kind = q.kind)
    (h : List.Forall₂ SameKinds p.children q.children) : SameKinds p q := by
  intro a
  cases a with
  | nil => exact congrArg some hkind
  | cons i a =>
    rw [at?, at?]
    cases hp : p.children[i]? with
    | none =>
      have hq : q.children[i]? = none := by
        rw [List.getElem?_eq_none_iff] at hp ⊢
        exact h.length_eq ▸ hp
      rw [hq]
    | some child =>
      obtain ⟨hi, rfl⟩ := List.getElem?_eq_some_iff.mp hp
      have hj : i < q.children.length := h.length_eq ▸ hi
      have hsame : SameKinds p.children[i] q.children[i] := h.get hi hj
      rw [List.getElem?_eq_getElem hj]
      exact hsame a

/-- The kinds of as many trees one after the other, whatever follows, are split in one way only. -/
theorem sameKinds_of_flatMap_kinds {xs ys : List Kind}
    (ih : ∀ p ∈ ps, ∀ q (xs ys : List Kind), p.kinds ++ xs = q.kinds ++ ys →
      SameKinds p q ∧ xs = ys)
    (hlength : ps.length = qs.length) (h : ps.flatMap kinds ++ xs = qs.flatMap kinds ++ ys) :
    List.Forall₂ SameKinds ps qs ∧ xs = ys := by
  induction ps generalizing qs with
  | nil =>
    obtain rfl := List.eq_nil_of_length_eq_zero hlength.symm
    exact ⟨.nil, h⟩
  | cons p ps ihps =>
    cases qs with
    | nil => cases hlength
    | cons q qs =>
      obtain ⟨hp, hps⟩ := List.forall_mem_cons.mp ih
      rw [List.flatMap_cons, List.flatMap_cons, List.append_assoc, List.append_assoc] at h
      obtain ⟨hsame, hrest⟩ := hp q _ _ h
      obtain ⟨hall, hxs⟩ := ihps hps (Nat.succ.inj hlength) hrest
      exact ⟨.cons hsame hall, hxs⟩

theorem sameKinds_of_kinds_append (p q : Plan) (xs ys : List Kind)
    (h : p.kinds ++ xs = q.kinds ++ ys) : SameKinds p q ∧ xs = ys := by
  induction p using induct_children generalizing q xs ys with
  | h p ih =>
    rw [kinds_eq, kinds_eq, List.cons_append, List.cons_append, List.cons_eq_cons] at h
    obtain ⟨hkind, hbelow⟩ := h
    obtain ⟨hchildren, hrest⟩ := sameKinds_of_flatMap_kinds ih (length_children hkind) hbelow
    exact ⟨sameKinds_of_children hkind hchildren, hrest⟩

theorem sameKinds_of_kinds (h : p.kinds = q.kinds) : SameKinds p q := by
  obtain ⟨hsame, -⟩ := sameKinds_of_kinds_append p q [] [] (congrArg (· ++ []) h)
  exact hsame

theorem kinds_of_listing (hp : p.Unbroken) (hq : q.Unbroken) (h : p.listing = q.listing) :
    p.kinds = q.kinds := by
  have hlines : (p.lines 0).map String.toList = (q.lines 0).map String.toList := by
    rw [← lines_listing hp, ← lines_listing hq, h]
  have hread := congrArg (List.map Kind.ofLine?) hlines
  rw [List.map_map, List.map_map] at hread
  have hkinds : p.kinds.map some = q.kinds.map some :=
    (map_ofLine?_lines 0 p).symm.trans (hread.trans (map_ofLine?_lines 0 q))
  exact List.map_injective_iff.mpr (Option.some_injective _) hkinds

theorem shows_lines (p : Plan) :
    List.Forall₂ p.Shows p.addresses ((p.lines 0).map String.toList) := by
  have hlines : List.Forall₂ (· = ·)
      (p.addresses.map fun a => (p.at? a).map fun node => node.line (0 + a.length))
      ((p.lines 0).map some) := by
    rw [map_line_addresses]
    exact List.forall₂_same.mpr fun _ _ => rfl
  rw [List.forall₂_map_left_iff, List.forall₂_map_right_iff] at hlines
  rw [List.forall₂_map_right_iff]
  refine hlines.imp fun a line hline => ?_
  obtain ⟨node, hnode, rfl⟩ := Option.map_eq_some_iff.mp hline
  rw [Nat.zero_add]
  refine ⟨node, hnode, rfl, ?_⟩
  obtain ⟨rest, hsplit⟩ := exists_line_eq a.length node
  obtain ⟨hspaces, -⟩ := spaces_of_line (2 * a.length) node.kind rest
  rw [hsplit, hspaces, List.length_replicate]

/-- As long as no name and no literal contains a line feed, the listing has one line for every node,
in pre-order, each with two spaces for every level in front; and plans with the same listing have
nodes at the same places and of the same kinds. -/
theorem listing_faithful :
    (∀ p : Plan, p.addresses.Pairwise (· < ·) ∧ ∀ a, a ∈ p.addresses ↔ (p.at? a).isSome) ∧
    (∀ p : Plan, p.Unbroken → (Text.lines p.listing.toList).length = p.nodeCount ∧
      List.Forall₂ p.Shows p.addresses (Text.lines p.listing.toList)) ∧
    ∀ p q : Plan, p.Unbroken → q.Unbroken → p.listing = q.listing → SameKinds p q := by
  refine ⟨fun p => ⟨p.addresses_sorted, fun a => mem_addresses_iff⟩, fun p hp => ?_,
    fun p q hp hq h => sameKinds_of_kinds (kinds_of_listing hp hq h)⟩
  have hshows : List.Forall₂ p.Shows p.addresses (Text.lines p.listing.toList) := by
    rw [lines_listing hp]
    exact shows_lines p
  exact ⟨hshows.length_eq ▸ length_addresses p, hshows⟩

def sampleLiteral : Plan :=
  .select (.scan ⟨"R", ⟨5, [⟨"a", 2⟩]⟩⟩) (.value (.named "a") "x]  unestimated SCAN R")

def sampleQuoted : Plan :=
  .select (.scan ⟨"R", ⟨7, []⟩⟩) (.join (.named "a") (.named "\"x]  unestimated SCAN R\""))

theorem listing_faithful_sample :
    sampleLiteral ≠ sampleQuoted ∧ sampleLiteral.listing = sampleQuoted.listing ∧
    SameKinds sampleLiteral sampleQuoted ∧
    (Text.lines Plan.sample.listing.toList).length = 6 ∧
    List.Forall₂ Plan.sample.Shows [[], [0], [0, 0], [0, 0, 0], [0, 0, 0, 0], [0, 0, 0, 1]]
      (Text.lines Plan.sample.listing.toList) := by
  have hliteral : sampleLiteral.Unbroken := by unfold Unbroken; decide +kernel
  have hquoted : sampleQuoted.Unbroken := by unfold Unbroken; decide +kernel
  have hsample : Plan.sample.Unbroken := by unfold Unbroken; decide +kernel
  have hlisting : sampleLiteral.listing = sampleQuoted.listing := by decide +kernel
  obtain ⟨-, hlines, hkinds⟩ := listing_faithful
  obtain ⟨hlength, hshows⟩ := hlines Plan.sample hsample
  exact ⟨by decide, hlisting, hkinds _ _ hliteral hquoted hlisting, hlength, hshows⟩

end Plan
end QueryPlan
