import Scriptlet.Proofs.Grammar.Planned
import Scriptlet.Proofs.Grammar.SoundStmt

/-!
# Reading without recovery

The same readers, save that a declaration that cannot be read is not skipped: its
violation is handed on, through everything around it, and ends the reading. So the
first violation that gives a statement up is also the last thing that is read.
-/

namespace Scriptlet.Grammar

namespace Strict

mutual

/-- A declaration or statement, which has to be read. -/
def declaration : Nat → Reader (Option Stmt)
  | 0 => exhausted
  | fuel + 1 => some <$> declarationRule (declaration fuel) (statement fuel) (fuel + 1)

/-- A statement, all of whose declarations have to be read. -/
def statement : Nat → Reader Stmt
  | 0 => exhausted
  | fuel + 1 => statementRule (declaration fuel) (statement fuel) (fuel + 1)

end

/-- A whole program, all of whose declarations have to be read. -/
def program (fuel : Nat) : Reader Program := programFrom (declaration fuel) fuel

/-- What is read without recovery has its meaning. -/
theorem declaration_statement_obey (fuel : Nat) :
    Declares fuel (declaration fuel) ∧
      Obeys fuel 1 (statement fuel) (Part.SaysStmt .statement) := by
  induction fuel with
  | zero => exact ⟨fun c _ => Nat.zero_le _, .exhausted⟩
  | succ fuel ih =>
    rw [declaration, statement]
    refine ⟨fun c _ => ?_, statementRule_obeys ih.1 ih.2⟩
    have hrule := declarationRule_obeys ih.1 ih.2
    have hsome : Obeys (fuel + 1) 1
        (some <$> declarationRule (declaration fuel) (statement fuel) (fuel + 1)) SaysDeclared := by
      rw [map_eq_pure_bind]
      refine .bind hrule (Nat.le_refl _) fun s => .pure ?_
      rintro m rest n used hs
      rw [List.append_nil]
      exact ⟨s, rfl, hs⟩
    exact hsome c

/-- Reading without recovery runs dry only before as many tokens as it has fuel. -/
theorem program_ne_exhausted {fuel : Nat} {c after : Cursor} (hfuel : c.rest.length < fuel) :
    program fuel c ≠ .error .exhausted after := by
  intro hdry
  have hyields := programFrom_obeys (declaration_statement_obey fuel).1 fuel c
  change programFrom (declaration fuel) fuel c = _ at hdry
  rw [hdry] at hyields
  change min fuel fuel ≤ c.rest.length at hyields
  omega

/-- Every reader without recovery follows a plan. -/
theorem declaration_statement_planned (fuel : Nat) :
    Planned (declaration fuel) ∧ Planned (statement fuel) := by
  induction fuel with
  | zero =>
    rw [declaration, statement]
    exact ⟨.exhausted, .exhausted⟩
  | succ fuel ih =>
    rw [declaration, statement]
    exact ⟨.map (declarationRule_planned ih.1 ih.2 (fuel + 1)),
      statementRule_planned ih.1 ih.2 (fuel + 1)⟩

/-- A whole program follows a plan without recovery as well. -/
theorem program_planned (fuel : Nat) : Planned (program fuel) :=
  programFrom_planned (declaration_statement_planned fuel).1 fuel

end Strict

end Scriptlet.Grammar
