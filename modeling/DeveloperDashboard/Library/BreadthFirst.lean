import Mathlib.Data.List.Nodup
import Mathlib.Algebra.BigOperators.Group.List.Basic
import Mathlib.Algebra.GroupWithZero.Nat

namespace Library

/-!
# Breadth-first walks

A walk takes the first node of its queue and puts the children of that node at
the end.  It visits what the queue leads to, each node once where the children
of different nodes differ, and ends when children weigh less than their parent.
-/

variable {fuel : Nat}

namespace BreadthFirst

variable {Node : Type} (children : Node → List Node)

/-- The nodes in the order of the queue, as long as there is fuel. -/
def walk : Nat → List Node → List Node
  | 0, _ => []
  | _, [] => []
  | fuel + 1, node :: rest =>
    node :: walk fuel (rest ++ children node)

abbrev LeadsTo : Node → Node → Prop :=
  Relation.ReflTransGen fun parent child => child ∈ children parent

variable {children}

theorem leadsTo_of_mem_walk {queue : List Node} {node : Node}
    (visited : node ∈ walk children fuel queue) :
    ∃ first ∈ queue, LeadsTo children first node := by
  induction fuel generalizing queue with
  | zero => contradiction
  | succ fuel ih =>
    cases queue with
    | nil => contradiction
    | cons head rest =>
      rcases List.mem_cons.mp visited with rfl | later
      · exact ⟨node, List.mem_cons_self, .refl⟩
      · obtain ⟨first, member, leads⟩ := ih later
        rcases List.mem_append.mp member with queued | child
        · exact ⟨first, List.mem_cons_of_mem _ queued, leads⟩
        · exact ⟨head, List.mem_cons_self, leads.head child⟩

theorem forall_mem_walk {queue : List Node} (holds : Node → Prop)
    (initially : ∀ node ∈ queue, holds node)
    (passes :
      ∀ parent, holds parent → ∀ child ∈ children parent, holds child) :
    ∀ node ∈ walk children fuel queue, holds node := by
  intro node visited
  obtain ⟨first, member, leads⟩ := leadsTo_of_mem_walk visited
  clear visited
  induction leads with
  | refl => exact initially first member
  | tail _ step ih =>
    exact passes _ ih _ step

theorem mem_walk_of_leadsTo (weight : Node → Nat)
    (lighter : ∀ node, ((children node).map weight).sum < weight node)
    {queue : List Node} {first node : Node}
    (enough : (queue.map weight).sum ≤ fuel) (member : first ∈ queue)
    (leads : LeadsTo children first node) :
    node ∈ walk children fuel queue := by
  induction fuel generalizing queue first with
  | zero =>
    have light : weight first = 0 :=
      List.sum_eq_zero_iff_forall_eq_nat.mp (Nat.le_zero.mp enough) _
        (List.mem_map_of_mem member)
    have heavy := lighter first
    rw [light] at heavy
    exact absurd heavy (Nat.not_lt_zero _)
  | succ fuel ih =>
    cases queue with
    | nil => contradiction
    | cons head rest =>
      have less := lighter head
      rw [List.map_cons, List.sum_cons] at enough
      have still :
          ((rest ++ children head).map weight).sum ≤ fuel := by
        rw [List.map_append, List.sum_append]
        omega
      rw [walk, List.mem_cons]
      rcases List.mem_cons.mp member with rfl | queued
      · rcases leads.cases_head with rfl | ⟨child, isChild, later⟩
        · exact .inl rfl
        · exact .inr (ih still
            (List.mem_append_right rest isChild) later)
      · exact .inr (ih still
          (List.mem_append_left _ queued) leads)

theorem walk_of_enough (weight : Node → Nat)
    (lighter : ∀ node, ((children node).map weight).sum < weight node)
    {other : Nat} {queue : List Node}
    (enough : (queue.map weight).sum ≤ fuel)
    (enoughToo : (queue.map weight).sum ≤ other) :
    walk children fuel queue = walk children other queue := by
  induction fuel generalizing queue other with
  | zero =>
    cases queue with
    | nil => cases other <;> rfl
    | cons head rest =>
      have heavy := lighter head
      rw [List.map_cons, List.sum_cons] at enough
      omega
  | succ fuel ih =>
    cases queue with
    | nil => cases other <;> rfl
    | cons head rest =>
      have less := lighter head
      rw [List.map_cons, List.sum_cons] at enough enoughToo
      cases other with
      | zero => omega
      | succ other =>
        rw [walk, walk, ih]
        · rw [List.map_append, List.sum_append]
          omega
        · rw [List.map_append, List.sum_append]
          omega

theorem pairwise_level_walk (level : Node → Nat)
    (deeper :
      ∀ node, ∀ child ∈ children node, level child = level node + 1)
    {queue : List Node}
    (sorted : queue.Pairwise fun one other => level one ≤ level other)
    (together :
      ∀ one ∈ queue, ∀ other ∈ queue, level other ≤ level one + 1) :
    (walk children fuel queue).Pairwise fun one other =>
      level one ≤ level other := by
  induction fuel generalizing queue with
  | zero => exact .nil
  | succ fuel ih =>
    cases queue with
    | nil => exact .nil
    | cons head rest =>
      obtain ⟨least, restSorted⟩ := List.pairwise_cons.mp sorted
      have within :
          ∀ node ∈ rest ++ children head,
            level head ≤ level node ∧ level node ≤ level head + 1 := by
        intro node member
        rcases List.mem_append.mp member with queued | child
        · exact ⟨least node queued, together head List.mem_cons_self node
              (List.mem_cons_of_mem _ queued)⟩
        · rw [deeper head node child]
          exact ⟨Nat.le_succ _, Nat.le_refl _⟩
      refine List.pairwise_cons.mpr ⟨?_, ih ?_ ?_⟩
      · refine forall_mem_walk (fun node => level head ≤ level node)
          (fun node member => (within node member).1) ?_
        intro parent holds child member
        rw [deeper parent child member]
        exact Nat.le_succ_of_le holds
      · refine List.pairwise_append.mpr ⟨restSorted, ?_, ?_⟩
        · refine List.pairwise_of_forall_mem_list ?_
          intro one member other otherMember
          refine Nat.le_of_eq ?_
          rw [deeper head one member, deeper head other otherMember]
        · intro one queued other child
          rw [deeper head other child]
          exact (within one (List.mem_append_left _ queued)).2
      · intro one member other otherMember
        exact Nat.le_trans (within other otherMember).2
          (Nat.succ_le_succ (within one member).1)

def Apart (children : Node → List Node) {Key : Type} (key : Node → Key)
    (one other : Node) :
    Prop :=
  ∀ left right,
    LeadsTo children one left → LeadsTo children other right →
      key left ≠ key right

theorem nodup_walk {Key : Type} (key : Node → Key)
    (branching :
      ∀ node, (children node).Pairwise (Apart children key))
    (acyclic :
      ∀ node, ∀ child ∈ children node, ∀ last,
        LeadsTo children child last → key node ≠ key last)
    {queue : List Node} (apart : queue.Pairwise (Apart children key)) :
    ((walk children fuel queue).map key).Nodup := by
  induction fuel generalizing queue with
  | zero => exact List.nodup_nil
  | succ fuel ih =>
    cases queue with
    | nil => exact List.nodup_nil
    | cons head rest =>
      obtain ⟨fromRest, restApart⟩ := List.pairwise_cons.mp apart
      rw [walk, List.map_cons, List.nodup_cons]
      constructor
      · intro again
        obtain ⟨node, visited, same⟩ := List.mem_map.mp again
        obtain ⟨first, member, leads⟩ := leadsTo_of_mem_walk visited
        rcases List.mem_append.mp member with queued | child
        · exact fromRest first queued head node .refl leads same.symm
        · exact acyclic head first child node leads same.symm
      · refine ih (List.pairwise_append.mpr
          ⟨restApart, branching head, ?_⟩)
        intro queued member child isChild left right leads leadsRight
        exact (fromRest queued member right left
          (leadsRight.head isChild) leads).symm

end BreadthFirst

end Library
