import MarkupNesting.Tree.Binary

/-! How many nodes a tree has, counted one by one with a stack of the trees still to come. -/

namespace MarkupNesting

namespace Tree

@[simp] theorem countAll_reverse (ts : List Tree) : countAll ts.reverse = countAll ts := by
  induction ts with
  | nil => rfl
  | cons t ts ih => simp [countAll, ih, Nat.add_comm]

/-- Counts the nodes of the trees on a stack on top of a number. Of the children of a node the last
one comes to lie on top. -/
def countFrom (n : Nat) : List Tree → Nat
  | [] => n
  | t :: stack => countFrom (n + 1) (t.children.reverse ++ stack)
termination_by stack => countAll stack
decreasing_by
  obtain ⟨id, tag, children, depth, attributes⟩ := t
  simp [countAll, count]

def nodeCount (t : Tree) : Nat := countFrom 0 [t]

theorem countFrom_eq (n : Nat) (stack : List Tree) : countFrom n stack = n + countAll stack := by
  induction n, stack using countFrom.induct with
  | case1 n => rw [countFrom, countAll, Nat.add_zero]
  | case2 n t stack ih =>
    have ht : t.count = countAll t.children + 1 := by
      cases t
      rfl
    rw [List.unattach_reverse, List.unattach_attach] at ih
    rw [countFrom, ih, countAll_append, countAll_reverse, countAll, ht]
    omega

theorem nodeCount_eq (t : Tree) : t.nodeCount = t.count := by
  rw [nodeCount, countFrom_eq, countAll, countAll, Nat.zero_add, Nat.add_zero]

end Tree

namespace BinaryTree

def countAll : List BinaryTree → Nat
  | [] => 0
  | b :: bs => b.count + countAll bs

@[simp] theorem countAll_append (bs cs : List BinaryTree) :
    countAll (bs ++ cs) = countAll bs + countAll cs := by
  induction bs with
  | nil => simp [countAll]
  | cons b bs ih => simp [countAll, ih, Nat.add_assoc]

@[simp] theorem countAll_toList (link : Option BinaryTree) : countAll link.toList = countLink link := by
  cases link <;> simp [countAll, countLink]

/-- Counts the nodes of the binary trees on a stack on top of a number. What a right link leads to
comes to lie on top. -/
def countFrom (n : Nat) : List BinaryTree → Nat
  | [] => n
  | b :: stack => countFrom (n + 1) (b.right.toList ++ (b.left.toList ++ stack))
termination_by stack => countAll stack
decreasing_by
  obtain ⟨id, tag, left, right⟩ := b
  simp [countAll, count]
  omega

def nodeCount (b : BinaryTree) : Nat := countFrom 0 [b]

theorem countFrom_eq (n : Nat) (stack : List BinaryTree) : countFrom n stack = n + countAll stack := by
  induction n, stack using countFrom.induct with
  | case1 n => rw [countFrom, countAll, Nat.add_zero]
  | case2 n b stack ih =>
    have hb : b.count = countLink b.left + countLink b.right + 1 := by
      cases b
      rfl
    rw [countFrom, ih, countAll_append, countAll_append, countAll_toList, countAll_toList, countAll, hb]
    omega

theorem nodeCount_eq (b : BinaryTree) : b.nodeCount = b.count := by
  rw [nodeCount, countFrom_eq, countAll, countAll, Nat.zero_add, Nat.add_zero]

end BinaryTree

end MarkupNesting
