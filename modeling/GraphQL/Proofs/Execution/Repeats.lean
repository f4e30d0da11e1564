import Mathlib.Data.List.Forall2
import Mathlib.Data.List.Induction
import GraphQL.Proofs.Execution.Groups

/-
  Fields that are met again: a list of fields with some of them
  repeated gives the same groups, each of them with some of its
  fields repeated.

  Main declarations:
    * `Repeats`
    * `FieldGroup.ofNodes`
    * `FieldGroup.forall₂_ofNodes`
-/

------------------------------------------------------------
-- Repetition
------------------------------------------------------------

namespace GraphQL

/- The second list is the first with members met again. -/
inductive Repeats {α : Type} : List α → List α → Prop where
  | nil : Repeats [] []
  | first {xs ys : List α} (a : α) :
      Repeats xs ys → Repeats (xs ++ [a]) (ys ++ [a])
  | again {xs ys : List α} {a : α} :
      Repeats xs ys → a ∈ ys → Repeats xs (ys ++ [a])

namespace Repeats

variable {α β : Type}
variable {xs ys zs ws : List α}

/- A list repeats itself. -/
theorem refl (xs : List α) : Repeats xs xs := by
  induction xs using List.reverseRecOn with
  | nil => exact .nil
  | append_singleton xs a ih => exact .first a ih

/- What is repeated was there before. -/
theorem mem_iff (h : Repeats xs ys) (a : α) :
    a ∈ xs ↔ a ∈ ys := by
  induction h with
  | nil => exact Iff.rfl
  | first b _ ih => simp [ih]
  | again _ hMem ih =>
      constructor
      · intro h
        exact List.mem_append_left _ (ih.mp h)
      · intro h
        rcases List.mem_append.mp h with h | h
        · exact ih.mpr h
        · rw [List.mem_singleton] at h
          exact ih.mpr (h ▸ hMem)

/- Members of a list may be repeated after it in any order. -/
theorem append_subset (h : Repeats xs ys) (hSub : ws ⊆ ys) :
    Repeats xs (ys ++ ws) := by
  induction ws using List.reverseRecOn with
  | nil => simpa using h
  | append_singleton ws a ih =>
      have hRest : ws ⊆ ys := fun b hb =>
        hSub (List.mem_append_left _ hb)
      have hLast : a ∈ ys := hSub (by simp)
      rw [← List.append_assoc]
      exact .again (ih hRest) (List.mem_append_left _ hLast)

/- Lists may be repeated one after the other. -/
theorem append (h : Repeats xs ys) (hNext : Repeats zs ws) :
    Repeats (xs ++ zs) (ys ++ ws) := by
  induction hNext with
  | nil => simpa using h
  | first a _ ih =>
      rw [← List.append_assoc, ← List.append_assoc]
      exact .first a ih
  | again _ hMem ih =>
      rw [← List.append_assoc]
      exact .again ih (List.mem_append_right _ hMem)

/- What comes of members is repeated with them. -/
theorem flatMap (h : Repeats xs ys) (f : α → List β) :
    Repeats (xs.flatMap f) (ys.flatMap f) := by
  induction h with
  | nil => exact .nil
  | first a _ ih =>
      rw [List.flatMap_append, List.flatMap_append]
      exact ih.append (.refl _)
  | @again xs ys a _ hMem ih =>
      have hSub : [a].flatMap f ⊆ ys.flatMap f := by
        intro b hb
        rw [List.flatMap_singleton] at hb
        exact List.mem_flatMap.mpr ⟨a, hMem, hb⟩
      rw [List.flatMap_append]
      exact ih.append_subset hSub

/-
  Repetition of a list that ends in a member: the member comes
  last in both lists, or was there before.
-/
theorem append_singleton_cases {a : α}
    (h : Repeats xs (ys ++ [a])) :
    (∃ zs, xs = zs ++ [a] ∧ Repeats zs ys) ∨
      (a ∈ ys ∧ Repeats xs ys) := by
  generalize hList : ys ++ [a] = list at h
  cases h with
  | nil => simp at hList
  | first b h =>
      rcases List.append_inj' hList rfl with ⟨hYs, hLast⟩
      cases hLast
      subst hYs
      exact .inl ⟨_, rfl, h⟩
  | again h hMem =>
      rcases List.append_inj' hList rfl with ⟨hYs, hLast⟩
      cases hLast
      subst hYs
      exact .inr ⟨hMem, h⟩

/- What is repeated may be repeated again. -/
theorem trans (h : Repeats xs ys) (hNext : Repeats ys zs) :
    Repeats xs zs := by
  induction hNext generalizing xs with
  | nil => exact h
  | first a hNext ih =>
      rcases h.append_singleton_cases with
        ⟨ws, rfl, hInit⟩ | ⟨hMem, hInit⟩
      · exact .first a (ih hInit)
      · exact .again (ih hInit) ((hNext.mem_iff a).mp hMem)
  | again _ hMem ih => exact .again (ih h) hMem

/- Both lists have the same first member. -/
theorem head?_eq (h : Repeats xs ys) : xs.head? = ys.head? := by
  induction h with
  | nil => rfl
  | first a _ ih => simp [List.head?_append, ih]
  | @again xs ys a _ hMem ih =>
      cases ys with
      | nil => simp at hMem
      | cons b ys => simpa using ih

end Repeats

------------------------------------------------------------
-- Groups
------------------------------------------------------------

namespace FieldGroup

/- Add fields in order, each under its response key. -/
def addAll (nodes : List FieldNode) (groups : List FieldGroup) :
    List FieldGroup :=
  nodes.foldl
    (fun groups node => add node.head.responseKey node groups)
    groups

/- The groups of fields. -/
def ofNodes (nodes : List FieldNode) : List FieldGroup :=
  addAll nodes []

/- A last field is added last. -/
theorem ofNodes_append_singleton
    (nodes : List FieldNode)
    (node : FieldNode) :
    ofNodes (nodes ++ [node]) =
      add node.head.responseKey node (ofNodes nodes) := by
  simp [ofNodes, addAll]

/- Groups of fields have distinct keys. -/
theorem nodup_keys_ofNodes (nodes : List FieldNode) :
    ((ofNodes nodes).map FieldGroup.key).Nodup := by
  induction nodes using List.reverseRecOn with
  | nil => exact List.nodup_nil
  | append_singleton nodes node ih =>
      rw [ofNodes_append_singleton]
      exact nodup_keys_add _ node ih

/- A field is in a group of its key. -/
def Holds (key : String) (node : FieldNode)
    (groups : List FieldGroup) : Prop :=
  ∃ group ∈ groups, group.key = key ∧ node ∈ group.nodes

/- A field that is added is in a group of its key. -/
theorem holds_add
    (key : String)
    (node : FieldNode)
    (groups : List FieldGroup) :
    Holds key node (add key node groups) := by
  induction groups with
  | nil =>
      exact ⟨_, List.mem_singleton_self _, rfl, by simp [nodes]⟩
  | cons group rest ih =>
      rw [add]
      split
      · next hKey =>
          exact ⟨_, List.mem_cons_self, hKey, by simp [nodes]⟩
      · rcases ih with ⟨found, hMem, hFound⟩
        exact ⟨found, List.mem_cons_of_mem _ hMem, hFound⟩

/- Fields stay where they are when others are added. -/
theorem Holds.add
    {key : String}
    {node : FieldNode}
    {groups : List FieldGroup}
    (h : Holds key node groups)
    (other : String)
    (last : FieldNode) :
    Holds key node (FieldGroup.add other last groups) := by
  rcases h with ⟨found, hMem, hKey, hNode⟩
  induction groups with
  | nil => cases hMem
  | cons group rest ih =>
      rw [FieldGroup.add]
      rcases List.mem_cons.mp hMem with rfl | hMem
      · split
        · refine ⟨_, List.mem_cons_self, hKey, ?_⟩
          simp only [nodes, List.mem_cons, List.mem_append]
            at hNode ⊢
          rcases hNode with hNode | hNode
          · exact .inl hNode
          · exact .inr (.inl hNode)
        · exact ⟨found, List.mem_cons_self, hKey, hNode⟩
      · split
        · exact ⟨found, List.mem_cons_of_mem _ hMem, hKey, hNode⟩
        · rcases ih hMem with ⟨found, hMem, hFound⟩
          exact ⟨found, List.mem_cons_of_mem _ hMem, hFound⟩

/- Every field is in a group of its key. -/
theorem holds_ofNodes
    {nodes : List FieldNode}
    {node : FieldNode}
    (h : node ∈ nodes) :
    Holds node.head.responseKey node (ofNodes nodes) := by
  induction nodes using List.reverseRecOn with
  | nil => cases h
  | append_singleton nodes last ih =>
      rw [ofNodes_append_singleton]
      rcases List.mem_append.mp h with h | h
      · exact (ih h).add _ last
      · rw [List.mem_singleton] at h
        subst h
        exact holds_add _ _ _

------------------------------------------------------------
-- Groups with Repetition
------------------------------------------------------------

/-
  Groups of one key, the second with some fields repeated and
  all of them changed.
-/
structure Restates
    (change : FieldNode → FieldNode)
    (group other : FieldGroup) : Prop where
  key : other.key = group.key
  nodes : Repeats (group.nodes.map change) other.nodes

variable {change : FieldNode → FieldNode}
variable {groups others : List FieldGroup}

/- The first field of a group is changed like the others. -/
theorem Restates.first_eq {group other : FieldGroup}
    (h : Restates change group other) :
    other.first = change group.first := by
  have hHead := h.nodes.head?_eq
  simp only [FieldGroup.nodes, List.map_cons, List.head?_cons,
    Option.some.injEq] at hHead
  exact hHead.symm

/- A field may be added to both lists of groups. -/
theorem forall₂_add
    (h : List.Forall₂ (Restates change) groups others)
    (key : String)
    (node : FieldNode) :
    List.Forall₂ (Restates change) (add key node groups)
      (add key (change node) others) := by
  induction h with
  | nil => exact .cons ⟨rfl, .refl _⟩ .nil
  | @cons group other groups others hFirst hRest ih =>
      by_cases hKey : group.key = key
      · have hOther : other.key = key := hFirst.key.trans hKey
        have hNodes := hFirst.nodes.first (change node)
        simp only [add, hKey, hOther, if_true]
        refine .cons ⟨rfl, ?_⟩ hRest
        simpa [FieldGroup.nodes] using hNodes
      · have hOther : other.key ≠ key := fun h =>
          hKey (hFirst.key.symm.trans h)
        simp only [add, hKey, hOther, if_false]
        exact .cons hFirst ih

/- A field that is there may be added to the second groups. -/
theorem forall₂_add_again
    (h : List.Forall₂ (Restates change) groups others)
    {key : String}
    {node : FieldNode}
    (hHolds : Holds key node others)
    (hNodup : (others.map FieldGroup.key).Nodup) :
    List.Forall₂ (Restates change) groups
      (add key node others) := by
  rcases hHolds with ⟨found, hMem, hFound, hNode⟩
  induction h with
  | nil => cases hMem
  | @cons group other groups others hFirst hRest ih =>
      rw [List.map_cons, List.nodup_cons] at hNodup
      rw [add]
      rcases List.mem_cons.mp hMem with rfl | hMem
      · rw [if_pos hFound]
        refine .cons ⟨hFirst.key, ?_⟩ hRest
        exact .again hFirst.nodes hNode
      · -- keys are distinct, so the group is not the first
        have hOther : other.key ≠ key := by
          intro h
          have hKeys :=
            List.mem_map_of_mem (f := FieldGroup.key) hMem
          rw [hFound, ← h] at hKeys
          exact hNodup.1 hKeys
        rw [if_neg hOther]
        exact .cons hFirst (ih hNodup.2 hMem)

/-
  Fields that are repeated make the same groups, each with
  some of its fields repeated.
-/
theorem forall₂_ofNodes
    {nodes others : List FieldNode}
    (hKey : ∀ node,
      (change node).head.responseKey = node.head.responseKey)
    (h : Repeats (nodes.map change) others) :
    List.Forall₂ (Restates change) (ofNodes nodes)
      (ofNodes others) := by
  generalize hList : nodes.map change = list at h
  induction h generalizing nodes with
  | nil =>
      rw [List.map_eq_nil_iff] at hList
      subst hList
      exact .nil
  | first a _ ih =>
      rcases List.map_eq_append_iff.mp hList with
        ⟨init, last, rfl, hInit, hLast⟩
      rcases List.map_eq_singleton_iff.mp hLast with
        ⟨node, rfl, rfl⟩
      rw [ofNodes_append_singleton, ofNodes_append_singleton,
        hKey]
      exact forall₂_add (ih hInit) _ node
  | again _ hMem ih =>
      rw [ofNodes_append_singleton]
      exact forall₂_add_again (ih hList) (holds_ofNodes hMem)
        (nodup_keys_ofNodes _)

end FieldGroup

end GraphQL
