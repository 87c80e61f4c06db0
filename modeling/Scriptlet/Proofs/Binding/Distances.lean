import Mathlib.Order.Bounds.Basic
import Scriptlet.Proofs.Binding.Recorded
import Scriptlet.Proofs.Binding.Scoping
import Scriptlet.Proofs.Grammar.Counting

/-!
# Distances are those of the scopes of a program

A name is recorded at the distance of the nearest scope around it that has declared it before. This
holds of every occurrence of a name in every program that the grammar yields, also where binding
notes violations, because recording goes on behind these.
-/

namespace Scriptlet

open Binding

namespace Piece

/-- The name that an expression at a position looks up. The receiver is looked up in classes only. -/
inductive LooksUp (x : Piece) (p : Path) : Expr → Token → Prop where
  | read (id : Nat) (name : Token) : LooksUp x p (.var id name) name
  | write (id : Nat) (name : Token) (value : Expr) : LooksUp x p (.assign id name value) name
  | receiver (id : Nat) (keyword : Token) (h : x.around isClass p ≠ []) :
    LooksUp x p (.receiver id keyword) keyword

/-- So many scopes outward from a position is one that has declared a name before it. -/
def DeclaredOut (x : Piece) (p : Path) (name : String) (steps : Nat) : Prop :=
  ∃ scope, (x.scopesAround p)[steps]? = some scope ∧ name ∈ x.declaredBefore p scope

/-- What surrounds a position are the routines and classes around it, and what surrounds the whole. -/
theorem contextAt_spec {p : Path} : ∀ {x z : Piece}, x.at? p = some z → ∀ ctx : Context,
    ((contextAt ctx x p).inRoutine = true ↔ x.around isRoutine p ≠ [] ∨ ctx.inRoutine = true) ∧
      ((contextAt ctx x p).inClass = true ↔ x.around isClass p ≠ [] ∨ ctx.inClass = true) := by
  induction p with
  | nil => exact fun _ _ => ⟨(or_iff_right fun h => h rfl).symm, (or_iff_right fun h => h rfl).symm⟩
  | cons i p ih =>
    intro x z hz ctx
    obtain ⟨y, hy, hz⟩ := at?_cons.mp hz
    obtain ⟨hroutine, hclass⟩ := ih hz (x.contextIn ctx)
    rw [contextAt, hy, around_cons isRoutine hy, around_cons isClass hy]
    refine ⟨hroutine.trans ?_, hclass.trans ?_⟩
    · cases hx : x.isRoutine <;> simp [contextIn, hx]
    · cases hx : x.isClass <;> simp [contextIn, hx]

/-- In a program the receiver is looked up exactly where a class is around it. -/
theorem name?_eq_some_iff {x z : Piece} {p : Path} (hz : x.at? p = some z) (e : Expr)
    (name : Token) : name? (contextAt {} x p) e = some name ↔ x.LooksUp p e name := by
  have hclass : (contextAt {} x p).inClass = true ↔ x.around isClass p ≠ [] :=
    (contextAt_spec hz {}).2.trans (or_iff_left Bool.false_ne_true)
  constructor
  · intro h
    cases e with
    | var id token =>
      cases h
      exact .read id _
    | assign id token value =>
      cases h
      exact .write id _ value
    | receiver id keyword =>
      unfold name? at h
      dsimp only at h
      split at h
      · rename_i hinside
        cases h
        exact .receiver id _ (hclass.mp hinside)
      · cases h
    | _ => cases h
  · intro h
    cases h with
    | read id => rfl
    | write id name value => rfl
    | receiver id keyword h =>
      unfold name?
      dsimp only
      rw [if_pos (hclass.mpr h)]

/-- The distance of a name is the least number of scopes to one that has it. -/
theorem distance?_eq_some_iff (scopes : List Scope) (name : String) (d : Nat) :
    distance? scopes name = some d ↔
      IsLeast {k | ∃ names, (scopes.map Scope.names)[k]? = some names ∧ name ∈ names} d := by
  have hmem : ∀ k, (∃ names, (scopes.map Scope.names)[k]? = some names ∧ name ∈ names) ↔
      ∃ h : k < scopes.length, scopes[k].contains name = true := by
    intro k
    constructor
    · rintro ⟨names, hnames, hname⟩
      rw [List.getElem?_map] at hnames
      obtain ⟨scope, hscope, rfl⟩ := Option.map_eq_some_iff.mp hnames
      obtain ⟨hk, rfl⟩ := List.getElem?_eq_some_iff.mp hscope
      exact ⟨hk, hname⟩
    · rintro ⟨hk, hname⟩
      refine ⟨scopes[k].names, ?_, hname⟩
      rw [List.getElem?_map, List.getElem?_eq_getElem hk]
      rfl
  unfold distance?
  rw [List.findIdx?_eq_some_iff_getElem]
  constructor
  · rintro ⟨hd, hname, hleast⟩
    refine ⟨(hmem d).mpr ⟨hd, hname⟩, fun k hk => ?_⟩
    obtain ⟨_, hfound⟩ := (hmem k).mp hk
    exact Nat.le_of_not_lt fun hless => hleast k hless hfound
  · rintro ⟨hfound, hleast⟩
    obtain ⟨hd, hname⟩ := (hmem d).mp hfound
    refine ⟨hd, hname, fun k hk hother => ?_⟩
    exact absurd (hleast ((hmem k).mpr ⟨Nat.lt_trans hk hd, hother⟩)) (Nat.not_le_of_lt hk)

/-- From the top level the walk has open just the scopes around a position. -/
theorem names_scopesAt_nil {x z : Piece} {p : Path} (hz : x.at? p = some z) :
    (scopesAt [] x p).map Scope.names = (x.scopesAround p).map (x.declaredBefore p) :=
  (names_scopesAt hz []).trans (List.append_nil _)

/-- At a position the distance of a name is the least number of scopes outward to one that has
declared it before. -/
theorem distance?_scopesAt {x z : Piece} {p : Path} (hz : x.at? p = some z) (name : String)
    (d : Nat) :
    distance? (scopesAt [] x p) name = some d ↔ IsLeast {k | x.DeclaredOut p name k} d := by
  have hset : {k | ∃ names, ((x.scopesAround p).map (x.declaredBefore p))[k]? = some names ∧
      name ∈ names} = {k | x.DeclaredOut p name k} := by
    ext k
    constructor
    · rintro ⟨names, hnames, hname⟩
      rw [List.getElem?_map] at hnames
      obtain ⟨scope, hscope, rfl⟩ := Option.map_eq_some_iff.mp hnames
      exact ⟨scope, hscope, hname⟩
    · rintro ⟨scope, hscope, hname⟩
      refine ⟨x.declaredBefore p scope, ?_, hname⟩
      rw [List.getElem?_map, hscope]
      rfl
  rw [distance?_eq_some_iff, names_scopesAt_nil hz, hset]

end Piece

namespace Binding

open Piece

/-- Where all numbers of a program are different, the distance that is recorded for an occurrence of a
name is the least number of scopes outward to one that has declared the name before. -/
theorem get?_hops_iff {program : Program} (hnodup : (Piece.program program).ids.Nodup) {p : Path}
    {e : Expr} (he : (Piece.program program).at? p = some (.expr e)) (d : Nat) :
    (bindProgram program).hops.get? e.id = some d ↔
      ∃ name, (Piece.program program).LooksUp p e name ∧
        IsLeast {k | (Piece.program program).DeclaredOut p name.lexeme k} d := by
  have hwalk : (bindProgram program).hops.get? e.id =
      (distance (contextAt {} (.program program) p) (scopesAt [] (.program program) p) e).or none :=
    walk_hops hnodup he {} {}
  rw [hwalk, Option.or_none, distance, Option.bind_eq_some_iff]
  refine exists_congr fun name => ?_
  rw [name?_eq_some_iff he, distance?_scopesAt he]

/-- Binding records distances for the expressions of the program only. -/
theorem exists_of_get?_hops {program : Program} {n d : Nat}
    (h : (bindProgram program).hops.get? n = some d) :
    ∃ p e, (Piece.program program).at? p = some (.expr e) ∧ e.id = n := by
  refine (mem_ids_iff_at? _).mp (by_contra fun hn => ?_)
  have hnone : (bindProgram program).hops.get? n = none :=
    walk_hops_of_not_mem (.program program) hn {} {}
  rw [hnone] at h
  cases h

/-- Whatever program the grammar yields, binding records a distance for an expression exactly if the
expression looks up a name that some scope around it has declared before, and the distance is the
least number of scopes outward to such a one. For other numbers no distance is recorded. -/
theorem hops_declarative (tokens : List Token) (firstId : Nat) :
    let program := (parse tokens firstId).program
    let whole := Piece.program program
    (∀ p e d, whole.at? p = some (.expr e) →
      ((bindProgram program).hops.get? e.id = some d ↔
        ∃ name, whole.LooksUp p e name ∧ IsLeast {k | whole.DeclaredOut p name.lexeme k} d)) ∧
    ∀ n d, (bindProgram program).hops.get? n = some d →
      ∃ p e, whole.at? p = some (.expr e) ∧ e.id = n := by
  intro program whole
  have hnodup : whole.ids.Nodup := (Grammar.parse_spread tokens firstId).nodup
  exact ⟨fun p e d he => get?_hops_iff hnodup he d, fun n d h => exists_of_get?_hops h⟩

/-- A name that is declared in a block and printed in a block inside it. -/
theorem hops_declarative_nested :
    let ts : List Token := [⟨.leftBrace, "\x7b", none, 1⟩, ⟨.kwVar, "var", none, 1⟩,
      ⟨.identifier, "a", none, 1⟩, ⟨.semicolon, ";", none, 1⟩, ⟨.leftBrace, "\x7b", none, 1⟩,
      ⟨.kwPrint, "print", none, 1⟩, ⟨.identifier, "a", none, 1⟩, ⟨.semicolon, ";", none, 1⟩,
      ⟨.rightBrace, "\x7d", none, 1⟩, ⟨.rightBrace, "\x7d", none, 1⟩, Token.endAt 1]
    let whole := Piece.program (parse ts 0).program
    whole.at? [0, 1, 0, 0] = some (.expr (.var 0 ⟨.identifier, "a", none, 1⟩)) ∧
      IsLeast {k | whole.DeclaredOut [0, 1, 0, 0] "a" k} 1 := by
  intro ts whole
  have hparse : (parse ts 0).program = [.block [.var ⟨.identifier, "a", none, 1⟩ none,
      .block [.print (.var 0 ⟨.identifier, "a", none, 1⟩)]]] := by cbv
  have hplace : whole.at? [0, 1, 0, 0] = some (.expr (.var 0 ⟨.identifier, "a", none, 1⟩)) := by
    dsimp only [whole]
    rw [hparse]
    rfl
  have hentry : (bindProgram (parse ts 0).program).hops.get? 0 = some 1 := by
    rw [hparse]
    rfl
  obtain ⟨name, hname, hleast⟩ :=
    ((hops_declarative ts 0).1 [0, 1, 0, 0] _ 1 hplace).mp hentry
  cases hname
  exact ⟨hplace, hleast⟩

end Binding

end Scriptlet
