import Scriptlet.Syntax.Walk

/-!
# The numbers of expressions

An expression is numbered behind its parts, and its parts from left to right. So
the numbers of a tree that was read ascend when each expression is listed behind
its parts. Expressions of different places in a program need not be numbered in
the order in which they stand; their numbers are only different.
-/

namespace Scriptlet

mutual

/-- The numbers in an expression: those of its parts from left to right, then its own. -/
def Expr.numbers : Expr → List Nat
  | .literal id _ => [id]
  | .unary id _ operand => operand.numbers ++ [id]
  | .binary id left _ right => left.numbers ++ right.numbers ++ [id]
  | .logical id left _ right => left.numbers ++ right.numbers ++ [id]
  | .group id inner => inner.numbers ++ [id]
  | .var id _ => [id]
  | .receiver id _ => [id]
  | .assign id _ value => value.numbers ++ [id]
  | .call id callee _ arguments => callee.numbers ++ Expr.numbersOfAll arguments ++ [id]
  | .get id object _ => object.numbers ++ [id]
  | .set id object _ value => object.numbers ++ value.numbers ++ [id]

/-- The numbers in expressions one after the other. -/
def Expr.numbersOfAll : List Expr → List Nat
  | [] => []
  | e :: rest => e.numbers ++ Expr.numbersOfAll rest

end

/-- The numbers in expressions are those in each of them, one after the other. -/
theorem Expr.numbersOfAll_eq_flatMap (es : List Expr) :
    Expr.numbersOfAll es = es.flatMap Expr.numbers := by
  induction es with
  | nil => rfl
  | cons e rest ih => rw [numbersOfAll, ih, List.flatMap_cons]

/-- The numbers in an expression are those in its parts and then its own. -/
theorem Expr.numbers_eq (e : Expr) : e.numbers = e.children.flatMap Expr.numbers ++ [e.id] := by
  cases e <;> simp [numbers, children, id, numbersOfAll_eq_flatMap]

mutual

/-- The numbers in an expression are those of the expressions in it. -/
theorem Expr.numbers_perm : ∀ e : Expr, e.numbers.Perm (e.nodes.map Expr.id)
  | .literal _ _ => .refl _
  | .unary id operator operand => by
    have hoperand := operand.numbers_perm
    rw [numbers, nodes, List.map_cons]
    exact (List.perm_append_singleton id _).trans (hoperand.cons id)
  | .binary id left operator right => by
    have hboth := left.numbers_perm.append right.numbers_perm
    rw [numbers, nodes, List.map_cons, List.map_append]
    exact (List.perm_append_singleton id _).trans (hboth.cons id)
  | .logical id left operator right => by
    have hboth := left.numbers_perm.append right.numbers_perm
    rw [numbers, nodes, List.map_cons, List.map_append]
    exact (List.perm_append_singleton id _).trans (hboth.cons id)
  | .group id inner => by
    have hinner := inner.numbers_perm
    rw [numbers, nodes, List.map_cons]
    exact (List.perm_append_singleton id _).trans (hinner.cons id)
  | .var _ _ => .refl _
  | .receiver _ _ => .refl _
  | .assign id name value => by
    have hvalue := value.numbers_perm
    rw [numbers, nodes, List.map_cons]
    exact (List.perm_append_singleton id _).trans (hvalue.cons id)
  | .call id callee paren arguments => by
    have hboth := callee.numbers_perm.append (Expr.numbersOfAll_perm arguments)
    rw [numbers, nodes, List.map_cons, List.map_append]
    exact (List.perm_append_singleton id _).trans (hboth.cons id)
  | .get id object name => by
    have hobject := object.numbers_perm
    rw [numbers, nodes, List.map_cons]
    exact (List.perm_append_singleton id _).trans (hobject.cons id)
  | .set id object name value => by
    have hboth := object.numbers_perm.append value.numbers_perm
    rw [numbers, nodes, List.map_cons, List.map_append]
    exact (List.perm_append_singleton id _).trans (hboth.cons id)

/-- The numbers in expressions are those of the expressions in them. -/
theorem Expr.numbersOfAll_perm :
    ∀ es : List Expr, (Expr.numbersOfAll es).Perm ((Expr.nodesOfAll es).map Expr.id)
  | [] => .refl _
  | e :: rest => by
    rw [numbersOfAll, nodesOfAll, List.map_append]
    exact e.numbers_perm.append (Expr.numbersOfAll_perm rest)

end

mutual

/-- The numbers in an expression inside another are among those of the other, in order. -/
theorem Expr.numbers_sublist : ∀ e : Expr, ∀ inner ∈ e.nodes, inner.numbers.Sublist e.numbers
  | .literal _ _, inner, h => by
    obtain rfl := List.mem_singleton.mp h
    exact .refl _
  | .unary id operator operand, inner, h => by
    rcases List.mem_cons.mp h with rfl | h
    · exact .refl _
    · exact (operand.numbers_sublist inner h).trans (List.sublist_append_left _ _)
  | .binary id left operator right, inner, h => by
    rcases List.mem_cons.mp h with rfl | h
    · exact .refl _
    refine List.Sublist.trans ?_ (List.sublist_append_left _ _)
    rcases List.mem_append.mp h with h | h
    · exact (left.numbers_sublist inner h).trans (List.sublist_append_left _ _)
    · exact (right.numbers_sublist inner h).trans (List.sublist_append_right _ _)
  | .logical id left operator right, inner, h => by
    rcases List.mem_cons.mp h with rfl | h
    · exact .refl _
    refine List.Sublist.trans ?_ (List.sublist_append_left _ _)
    rcases List.mem_append.mp h with h | h
    · exact (left.numbers_sublist inner h).trans (List.sublist_append_left _ _)
    · exact (right.numbers_sublist inner h).trans (List.sublist_append_right _ _)
  | .group id e, inner, h => by
    rcases List.mem_cons.mp h with rfl | h
    · exact .refl _
    · exact (e.numbers_sublist inner h).trans (List.sublist_append_left _ _)
  | .var _ _, inner, h => by
    obtain rfl := List.mem_singleton.mp h
    exact .refl _
  | .receiver _ _, inner, h => by
    obtain rfl := List.mem_singleton.mp h
    exact .refl _
  | .assign id name value, inner, h => by
    rcases List.mem_cons.mp h with rfl | h
    · exact .refl _
    · exact (value.numbers_sublist inner h).trans (List.sublist_append_left _ _)
  | .call id callee paren arguments, inner, h => by
    rcases List.mem_cons.mp h with rfl | h
    · exact .refl _
    refine List.Sublist.trans ?_ (List.sublist_append_left _ _)
    rcases List.mem_append.mp h with h | h
    · exact (callee.numbers_sublist inner h).trans (List.sublist_append_left _ _)
    · exact (Expr.numbersOfAll_sublist arguments inner h).trans (List.sublist_append_right _ _)
  | .get id object name, inner, h => by
    rcases List.mem_cons.mp h with rfl | h
    · exact .refl _
    · exact (object.numbers_sublist inner h).trans (List.sublist_append_left _ _)
  | .set id object name value, inner, h => by
    rcases List.mem_cons.mp h with rfl | h
    · exact .refl _
    refine List.Sublist.trans ?_ (List.sublist_append_left _ _)
    rcases List.mem_append.mp h with h | h
    · exact (object.numbers_sublist inner h).trans (List.sublist_append_left _ _)
    · exact (value.numbers_sublist inner h).trans (List.sublist_append_right _ _)

/-- The numbers in an expression inside one of several are among theirs, in order. -/
theorem Expr.numbersOfAll_sublist :
    ∀ es : List Expr, ∀ inner ∈ Expr.nodesOfAll es, inner.numbers.Sublist (Expr.numbersOfAll es)
  | [], inner, h => absurd h List.not_mem_nil
  | e :: rest, inner, h => by
    rcases List.mem_append.mp h with h | h
    · exact (e.numbers_sublist inner h).trans (List.sublist_append_left _ _)
    · exact (Expr.numbersOfAll_sublist rest inner h).trans (List.sublist_append_right _ _)

end

/-- The numbers ascend, from `n` on and below `m`. -/
structure Ascends (n m : Nat) (ids : List Nat) : Prop where
  /-- The range goes upward. -/
  le : n ≤ m
  /-- Each number is greater than those before it. -/
  sorted : ids.Pairwise (· < ·)
  /-- The numbers lie in the range. -/
  range : ∀ id ∈ ids, n ≤ id ∧ id < m

namespace Ascends

variable {n m k j : Nat} {ids others : List Nat}

/-- No numbers ascend in every range. -/
theorem none (h : n ≤ m) : Ascends n m [] :=
  ⟨h, .nil, fun _ hmem => absurd hmem List.not_mem_nil⟩

/-- Numbers of two ranges, one behind the other. -/
theorem append (h : Ascends n m ids) (hothers : Ascends m k others) :
    Ascends n k (ids ++ others) := by
  have hle := h.le
  have hle' := hothers.le
  refine ⟨by omega, ?_, ?_⟩
  · rw [List.pairwise_append]
    refine ⟨h.sorted, hothers.sorted, ?_⟩
    intro id hid other hother
    have hlow := (h.range id hid).2
    have hhigh := (hothers.range other hother).1
    omega
  · intro id hid
    rcases List.mem_append.mp hid with hid | hid
    · have hrange := h.range id hid
      omega
    · have hrange := hothers.range id hid
      omega

/-- The number that comes next, behind ascending ones. -/
theorem snoc (h : Ascends n m ids) : Ascends n (m + 1) (ids ++ [m]) := by
  refine h.append ⟨Nat.le_succ m, List.pairwise_singleton _ _, ?_⟩
  intro id hid
  rw [List.mem_singleton.mp hid]
  omega

/-- One number alone. -/
theorem one (n : Nat) : Ascends n (n + 1) [n] := (none (Nat.le_refl n)).snoc

/-- A wider range does no harm. -/
theorem widen (h : Ascends n m ids) (hlow : k ≤ n) (hhigh : m ≤ j) : Ascends k j ids := by
  have hle := h.le
  refine ⟨by omega, h.sorted, ?_⟩
  intro id hid
  have hrange := h.range id hid
  omega

/-- The first of ascending numbers ascend. -/
theorem left (h : Ascends n m (ids ++ others)) : Ascends n m ids :=
  ⟨h.le, (List.pairwise_append.mp h.sorted).1,
    fun id hid => h.range id (List.mem_append_left others hid)⟩

end Ascends

/-- The expressions have different numbers, from `n` on and below `m`, and the
numbers in each of them ascend. -/
structure Spread (n m : Nat) (es : List Expr) : Prop where
  /-- The range goes upward. -/
  le : n ≤ m
  /-- No number occurs twice. -/
  nodup : (es.map Expr.id).Nodup
  /-- The numbers lie in the range. -/
  range : ∀ e ∈ es, n ≤ e.id ∧ e.id < m
  /-- Every expression is numbered behind its parts. -/
  sorted : ∀ e ∈ es, e.numbers.Pairwise (· < ·)

namespace Spread

variable {n m k j : Nat} {es others : List Expr}

/-- No expressions are spread over every range. -/
theorem none (h : n ≤ m) : Spread n m [] :=
  ⟨h, List.nodup_nil, fun _ hmem => absurd hmem List.not_mem_nil,
    fun _ hmem => absurd hmem List.not_mem_nil⟩

/-- Expressions of two ranges, one behind the other. -/
theorem append (h : Spread n m es) (hothers : Spread m k others) : Spread n k (es ++ others) := by
  have hle := h.le
  have hle' := hothers.le
  refine ⟨by omega, ?_, ?_, ?_⟩
  · rw [List.map_append, List.nodup_append]
    refine ⟨h.nodup, hothers.nodup, ?_⟩
    intro id hid other hother heq
    obtain ⟨e, he, rfl⟩ := List.mem_map.mp hid
    obtain ⟨e', he', rfl⟩ := List.mem_map.mp hother
    have hlow := (h.range e he).2
    have hhigh := (hothers.range e' he').1
    omega
  · intro e he
    rcases List.mem_append.mp he with he | he
    · have hrange := h.range e he
      omega
    · have hrange := hothers.range e he
      omega
  · intro e he
    exact (List.mem_append.mp he).elim (h.sorted e) (hothers.sorted e)

/-- The order of the expressions does not matter. -/
theorem perm (h : Spread n m es) (hperm : es.Perm others) : Spread n m others :=
  ⟨h.le, (hperm.map Expr.id).nodup_iff.mp h.nodup, fun e he => h.range e (hperm.mem_iff.mpr he),
    fun e he => h.sorted e (hperm.mem_iff.mpr he)⟩

end Spread

/-- An expression has its number among those in it. -/
theorem Expr.id_mem_numbers {e inner : Expr} (h : inner ∈ e.nodes) : inner.id ∈ e.numbers :=
  e.numbers_perm.mem_iff.mpr (List.mem_map.mpr ⟨inner, h, rfl⟩)

/-- The expressions inside one whose numbers ascend are spread over its range. -/
theorem Ascends.spread {n m : Nat} {e : Expr} (h : Ascends n m e.numbers) :
    Spread n m e.nodes where
  le := h.le
  nodup := e.numbers_perm.nodup_iff.mp (h.sorted.imp Nat.ne_of_lt)
  range := fun _ hinner => h.range _ (Expr.id_mem_numbers hinner)
  sorted := fun inner hinner => h.sorted.sublist (e.numbers_sublist inner hinner)

end Scriptlet
