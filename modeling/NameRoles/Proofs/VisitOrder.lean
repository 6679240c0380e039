import Mathlib.Data.List.Nodup
import NameRoles.Proofs.ChildMembers

/-! The order in which the slots of a loaded node are visited. Ordering slots takes out those of one
name after the other, and what remains stays behind. This is the stable sort by the ranks of the
slots, so the slots of a loaded node are those of its members, sorted. -/

namespace NameRoles

/-- The place of a slot name among those that are visited first; all other names share the place
behind them. -/
def NodeType.visitRank (type : NodeType) (field : Field) : Nat :=
  (type.visitOrder.map Part.text).idxOf field.text

namespace Slot

variable {rank : Slot → Nat}

theorem rank_le_trans (first second third : Slot) (hle : decide (rank first ≤ rank second) = true)
    (hle' : decide (rank second ≤ rank third) = true) :
    decide (rank first ≤ rank third) = true := by
  rw [decide_eq_true_eq] at hle hle' ⊢
  exact Nat.le_trans hle hle'

theorem rank_le_total (first second : Slot) :
    (decide (rank first ≤ rank second) || decide (rank second ≤ rank first)) = true := by
  rw [Bool.or_eq_true, decide_eq_true_eq, decide_eq_true_eq]
  exact Nat.le_total _ _

theorem pairwise_mergeSort_rank (rank : Slot → Nat) (slots : List Slot) :
    (slots.mergeSort (rank · ≤ rank ·)).Pairwise (rank · ≤ rank ·) :=
  (List.pairwise_mergeSort rank_le_trans rank_le_total slots).imp of_decide_eq_true

/-- Sorting slots by their ranks leaves the order of those that have one rank. -/
theorem filter_mergeSort_rank (rank : Slot → Nat) (slots : List Slot) (place : Nat) :
    (slots.mergeSort (rank · ≤ rank ·)).filter (rank · = place) =
      slots.filter (rank · = place) := by
  have hranks : (slots.filter (rank · = place)).Pairwise fun first second =>
      decide (rank first ≤ rank second) = true := by
    apply List.pairwise_of_forall_mem_list
    intro first hfirst second hsecond
    have hfirst := of_decide_eq_true (List.mem_filter.mp hfirst).2
    have hsecond := of_decide_eq_true (List.mem_filter.mp hsecond).2
    rw [hfirst, hsecond]
    exact decide_eq_true (Nat.le_refl _)
  have hlevel := (List.sublist_mergeSort rank_le_trans rank_le_total hranks
    List.filter_sublist).filter (rank · = place)
  rw [List.filter_filter] at hlevel
  simp only [Bool.and_self] at hlevel
  have hperm := (List.mergeSort_perm slots (rank · ≤ rank ·)).filter (rank · = place)
  exact (hlevel.eq_of_length hperm.length_eq.symm).symm

theorem rank_head_le {slot other : Slot} {slots others : List Slot}
    (hsorted : (slot :: slots).Pairwise (rank · ≤ rank ·))
    (hlevel : (slot :: slots).filter (rank · = rank other) =
      (other :: others).filter (rank · = rank other)) : rank slot ≤ rank other := by
  have hmem : other ∈ (slot :: slots).filter (rank · = rank other) := by
    rw [hlevel]
    exact List.mem_filter.mpr ⟨List.mem_cons_self, decide_eq_true rfl⟩
  rcases List.mem_cons.mp (List.mem_filter.mp hmem).1 with rfl | hother
  · exact Nat.le_refl _
  · exact (List.pairwise_cons.mp hsorted).1 other hother

/-- Slots in the order of their ranks are determined by the slots of each rank. -/
theorem eq_of_filter_rank_eq {slots others : List Slot}
    (hslots : slots.Pairwise (rank · ≤ rank ·)) (hothers : others.Pairwise (rank · ≤ rank ·))
    (hlevels : ∀ place, slots.filter (rank · = place) = others.filter (rank · = place)) :
    slots = others := by
  induction slots generalizing others with
  | nil =>
      cases others with
      | nil => rfl
      | cons other others => simpa using hlevels (rank other)
  | cons slot slots ih =>
      cases others with
      | nil => simpa using hlevels (rank slot)
      | cons other others =>
          have hrank : rank slot = rank other :=
            Nat.le_antisymm (rank_head_le hslots (hlevels _))
              (rank_head_le hothers (hlevels _).symm)
          have hhead := hlevels (rank slot)
          rw [List.filter_cons_of_pos (by simp), List.filter_cons_of_pos (by simp [hrank])] at hhead
          obtain ⟨rfl, -⟩ := List.cons.inj hhead
          congr 1
          apply ih hslots.of_cons hothers.of_cons
          intro place
          have hlevel := hlevels place
          rw [List.filter_cons, List.filter_cons] at hlevel
          split at hlevel
          · exact (List.cons.inj hlevel).2
          · exact hlevel

end Slot

namespace Load

theorem orderSlots_eq (order : List Field) (slots : List Slot) :
    orderSlots order slots =
      order.flatMap (fun field => slots.filter (·.field = field)) ++
        slots.filter (·.field ∉ order) := by
  simp [orderSlots]

theorem orderSlots_nil (slots : List Slot) : orderSlots [] slots = slots := by
  simp [orderSlots]

/-- The slots of the first name come first, and all others are ordered by the other names. -/
theorem orderSlots_cons {field : Field} {order : List Field} (slots : List Slot)
    (hfield : field ∉ order) :
    orderSlots (field :: order) slots =
      slots.filter (·.field = field) ++ orderSlots order (slots.filter (·.field ≠ field)) := by
  have hlisted : (order.flatMap fun wanted => slots.filter (·.field = wanted)) =
      order.flatMap fun wanted =>
        (slots.filter (·.field ≠ field)).filter (·.field = wanted) := by
    rw [List.flatMap_def, List.flatMap_def]
    congr 1
    apply List.map_congr_left
    intro wanted hwanted
    rw [List.filter_filter]
    apply List.filter_congr
    intro slot _
    by_cases hslot : slot.field = wanted
    · have hne : wanted ≠ field := by
        rintro rfl
        exact hfield hwanted
      simp [hslot, hne]
    · simp [hslot]
  have hunlisted : slots.filter (fun slot => !(field :: order).contains slot.field) =
      (slots.filter (·.field ≠ field)).filter fun slot => !order.contains slot.field := by
    rw [List.filter_filter]
    apply List.filter_congr
    intro slot _
    by_cases hslot : slot.field = field <;> simp [hslot]
  rw [orderSlots, orderSlots, List.flatMap_cons, hlisted, hunlisted, List.append_assoc]

/-- Ordering slots leaves those behind that have none of the names, and leaves their order. -/
theorem filter_not_mem_orderSlots (order : List Field) (slots : List Slot) :
    (orderSlots order slots).filter (·.field ∉ order) = slots.filter (·.field ∉ order) := by
  have hlisted : (order.flatMap fun field => slots.filter (·.field = field)).filter
      (·.field ∉ order) = [] := by
    rw [List.filter_eq_nil_iff]
    intro slot hslot
    obtain ⟨field, hfield, hslot⟩ := List.mem_flatMap.mp hslot
    rw [of_decide_eq_true (List.mem_filter.mp hslot).2]
    simpa using hfield
  rw [orderSlots_eq, List.filter_append, hlisted, List.nil_append, List.filter_filter]
  simp

variable {order : List Field}

/-- Ordered slots are in the order of their ranks. -/
theorem pairwise_orderSlots (slots : List Slot) (horder : order.Nodup) :
    (orderSlots order slots).Pairwise fun first second =>
      order.idxOf first.field ≤ order.idxOf second.field := by
  induction order generalizing slots with
  | nil => simp [List.pairwise_iff_forall_sublist]
  | cons field order ih =>
      obtain ⟨hfield, horder⟩ := List.nodup_cons.mp horder
      rw [orderSlots_cons slots hfield, List.pairwise_append]
      have hfirst : ∀ slot ∈ slots.filter (·.field = field),
          (field :: order).idxOf slot.field = 0 := by
        intro slot hslot
        rw [of_decide_eq_true (List.mem_filter.mp hslot).2, List.idxOf_cons_self]
      refine ⟨?_, ?_, ?_⟩
      · apply List.Pairwise.imp_of_mem _ (List.pairwise_of_forall fun _ _ => trivial)
        intro first second hmem _ _
        rw [hfirst first hmem]
        exact Nat.zero_le _
      · apply List.Pairwise.imp_of_mem _ (ih (slots.filter (·.field ≠ field)) horder)
        intro first second hmem hmem' hle
        have hne := of_decide_eq_true (List.mem_filter.mp (mem_orderSlots.mp hmem)).2
        have hne' := of_decide_eq_true (List.mem_filter.mp (mem_orderSlots.mp hmem')).2
        rw [List.idxOf_cons_ne _ (Ne.symm hne), List.idxOf_cons_ne _ (Ne.symm hne')]
        omega
      · intro first hmem second _
        rw [hfirst first hmem]
        exact Nat.zero_le _

/-- Ordering slots leaves the order of those that have one place. -/
theorem filter_idxOf_orderSlots (slots : List Slot) (horder : order.Nodup) (place : Nat) :
    (orderSlots order slots).filter (order.idxOf ·.field = place) =
      slots.filter (order.idxOf ·.field = place) := by
  by_cases hplace : place < order.length
  · have hiff (slot : Slot) : order.idxOf slot.field = place ↔ slot.field = order[place] := by
      constructor
      · rintro rfl
        rw [List.getElem_idxOf]
      · intro hfield
        rw [hfield, horder.idxOf_getElem]
    simp only [hiff]
    exact filter_orderSlots _ slots horder
  · have hiff (slot : Slot) :
        order.idxOf slot.field = place ↔ order.length = place ∧ slot.field ∉ order := by
      rw [← List.idxOf_eq_length_iff]
      have hle : order.idxOf slot.field ≤ order.length := List.idxOf_le_length
      omega
    have hfilter (slots : List Slot) : slots.filter (order.idxOf ·.field = place) =
        (slots.filter (·.field ∉ order)).filter fun _ => order.length = place := by
      rw [List.filter_filter]
      simp only [hiff, Bool.decide_and]
    rw [hfilter, hfilter, filter_not_mem_orderSlots]

end Load

/-- The rank of a slot name that is read from its text is its place among the names of the parts. -/
theorem NodeType.idxOf_visitOrder {field : Field} (type : NodeType)
    (hfield : Field.ofText field.text = field) :
    (type.visitOrder.map Field.known).idxOf field = type.visitRank field := by
  rw [visitRank]
  induction type.visitOrder with
  | nil => rfl
  | cons part parts ih =>
      have hpart : Field.known part = field ↔ part.text = field.text := by
        constructor
        · rintro rfl
          rfl
        · intro htext
          rw [← hfield, ← htext]
          exact (Field.reading.ofText_of_some (Part.table.find?_name part)).symm
      rw [List.map_cons, List.map_cons]
      by_cases heq : Field.known part = field
      · rw [heq, hpart.mp heq, List.idxOf_cons_self, List.idxOf_cons_self]
      · rw [List.idxOf_cons_ne _ heq, List.idxOf_cons_ne _ (mt hpart.mpr heq), ih]

namespace Load

/-- Ordering slots is the stable sort by their places in the order. -/
theorem orderSlots_eq_mergeSort {order : List Field} {rank : Slot → Nat} {slots : List Slot}
    (horder : order.Nodup) (hrank : ∀ slot ∈ slots, order.idxOf slot.field = rank slot) :
    orderSlots order slots = slots.mergeSort (rank · ≤ rank ·) := by
  have hranked (slot : Slot) (hslot : slot ∈ orderSlots order slots) :
      order.idxOf slot.field = rank slot := hrank slot (mem_orderSlots.mp hslot)
  apply Slot.eq_of_filter_rank_eq _ (Slot.pairwise_mergeSort_rank rank slots)
  · intro place
    calc (orderSlots order slots).filter (rank · = place)
        = (orderSlots order slots).filter (order.idxOf ·.field = place) :=
          List.filter_congr fun slot hslot => by rw [hranked slot hslot]
      _ = slots.filter (order.idxOf ·.field = place) := filter_idxOf_orderSlots slots horder place
      _ = slots.filter (rank · = place) :=
          List.filter_congr fun slot hslot => by rw [hrank slot hslot]
      _ = (slots.mergeSort (rank · ≤ rank ·)).filter (rank · = place) :=
          (Slot.filter_mergeSort_rank rank slots place).symm
  · apply (pairwise_orderSlots slots horder).imp_of_mem
    intro first second hfirst hsecond hle
    rwa [hranked first hfirst, hranked second hsecond] at hle

/-- The slots of a node are arranged by the stable sort by their ranks. -/
theorem slots_arrange {node : Node}
    (hfields : ∀ slot ∈ node.slots, Field.ofText slot.field.text = slot.field) :
    (arrange node).slots = node.slots.mergeSort fun first second =>
      node.type.visitRank first.field ≤ node.type.visitRank second.field :=
  orderSlots_eq_mergeSort node.type.nodup_visitOrder fun slot hslot =>
    node.type.idxOf_visitOrder (hfields slot hslot)

end Load

namespace Json

variable {value : Json}

theorem ofText_text_field_nodeWith {build : Json → Node} {slot : Slot}
    (hslot : slot ∈ (value.nodeWith build).slots) :
    Field.ofText slot.field.text = slot.field := by
  rw [slots_nodeWith] at hslot
  obtain ⟨member, -, rfl⟩ := List.mem_map.mp hslot
  rw [field_slot, Field.text_ofText]

/-- The slots of a loaded node are those of its members, sorted by their ranks. -/
theorem slots_tree (value : Json) :
    value.tree.slots = (value.nodeWith tree).slots.mergeSort fun first second =>
      value.tree.type.visitRank first.field ≤ value.tree.type.visitRank second.field := by
  rw [type_tree, tree_eq]
  exact Load.slots_arrange fun slot hslot => ofText_text_field_nodeWith hslot

theorem slots_tree_perm (value : Json) :
    value.tree.slots.Perm (value.nodeWith tree).slots := by
  rw [slots_tree]
  exact List.mergeSort_perm _ _

theorem pairwise_visitRank_tree (value : Json) :
    value.tree.slots.Pairwise fun first second =>
      value.tree.type.visitRank first.field ≤ value.tree.type.visitRank second.field := by
  have hsorted := Slot.pairwise_mergeSort_rank (value.tree.type.visitRank ·.field)
    (value.nodeWith tree).slots
  rwa [← slots_tree] at hsorted

theorem ofText_text_field {slot : Slot} (hslot : slot ∈ value.tree.slots) :
    Field.ofText slot.field.text = slot.field :=
  ofText_text_field_nodeWith ((slots_tree_perm value).mem_iff.mp hslot)

end Json

end NameRoles
