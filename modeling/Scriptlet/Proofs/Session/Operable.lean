import Scriptlet.Proofs.Machine.Operable
import Scriptlet.Proofs.Machine.Returns
import Scriptlet.Proofs.Session.Analysis
import Scriptlet.Proofs.Session.Runs

/-!
# Branches that no session takes

The machine has a branch for operators it does not know and one for a statement at the
top level that returns. The grammar reads no such operator, binding refuses every program
with such a statement, and what earlier sources left behind has passed both, so that
neither branch is ever taken.
-/

namespace Scriptlet

/-- A failure that is possible is not worded like one for an operator without a rule. -/
theorem RuntimeFault.Possible.message_ne {fault : RuntimeFault} (h : fault.Possible) :
    fault.message ≠ "Invalid unary operator." ∧ fault.message ≠ "Invalid binary operator." := by
  -- Where the wording depends on the failure, its first letter already differs.
  have hfirst : ∀ {text : String}, text.toList.head? ≠ some 'I' →
      text ≠ "Invalid unary operator." ∧ text ≠ "Invalid binary operator." := by
    intro text htext
    constructor
    · rintro rfl
      simp at htext
    · rintro rfl
      simp at htext
  unfold RuntimeFault.message
  cases fault with
  | invalidUnary => exact h.elim
  | invalidBinary => exact h.elim
  | wrongArity expected given =>
    refine hfirst ?_
    rw [String.toList_append, String.toList_append, String.toList_append, String.toList_append]
    simp
  | undefinedProperty name => exact hfirst (by simp)
  | undefinedVariable name => exact hfirst (by simp)
  | _ => decide

namespace Session

open Machine

variable {n m : Nat} {source : String} {program : Program} {hops : Hops}

/-- In a source that is let through every operator can be applied. -/
theorem analyse_operable (h : analyse n source = ⟨m, .ok (program, hops)⟩) :
    AllOperable (Stmt.exprsOfAll program) :=
  (analyse_eq_ok_iff.mp h).2.1.operable

/-- In a source that is let through no `return` stands outside routines. -/
theorem analyse_noReturn (h : analyse n source = ⟨m, .ok (program, hops)⟩) :
    NoReturn (Stmt.partsOfAll program) := by
  obtain ⟨-, -, hbound⟩ := analyse_eq_ok_iff.mp h
  exact Binding.bindProgram_noReturn (congrArg Bound.errors hbound)

/-- Whether a source may fare so when all operators can be applied. -/
def Possible (outcome : Outcome) : Prop :=
  ∀ line, outcome ≠ .failed (.runtime line "Invalid unary operator.") ∧
    outcome ≠ .failed (.runtime line "Invalid binary operator.")

/-- A run that stops for a possible reason reports one. -/
theorem possible_ofStop {stop : Stop} (h : stop.Possible) : Possible (.ofStop stop) := by
  intro line
  cases stop with
  | fault e =>
    obtain ⟨hunary, hbinary⟩ := RuntimeFault.Possible.message_ne h
    constructor
    · intro heq
      simp only [Outcome.ofStop, RuntimeError.diagnostic, Outcome.failed.injEq,
        Diagnostic.runtime.injEq] at heq
      exact hunary heq.2
    · intro heq
      simp only [Outcome.ofStop, RuntimeError.diagnostic, Outcome.failed.injEq,
        Diagnostic.runtime.injEq] at heq
      exact hbinary heq.2
  | sink fault => exact ⟨nofun, nofun⟩
  | exhausted => exact ⟨nofun, nofun⟩

/-- A source leaves routines whose operators can be applied, and fares accordingly. -/
theorem run_operable {s : Session} (h : s.machine.store.Operable) (fuel : Nat) (source : String) :
    (s.run fuel source).2.machine.store.Operable ∧ Possible (s.run fuel source).1 := by
  rcases hseen : analyse s.nextId source with ⟨m, errors | ⟨program, hops⟩⟩
  · rw [run_of_refused hseen]
    exact ⟨h, fun _ => ⟨nofun, nofun⟩⟩
  · obtain ⟨hkept, hstop⟩ := interpret_operates fuel (analyse_operable hseen) hops s.machine h
    rw [run_of_bound hseen, ended_session]
    refine ⟨hkept, ?_⟩
    cases heq : interpret fuel program hops s.machine with
    | ok _ machine => exact fun _ => ⟨nofun, nofun⟩
    | error stop machine => exact possible_ofStop (hstop stop machine heq)

/-- Sources one after the other leave such routines, and fare accordingly. -/
theorem runAll_operable {s : Session} (h : s.machine.store.Operable)
    (history : List (Nat × String)) : ∀ outcome ∈ (s.runAll history).1, Possible outcome := by
  induction history generalizing s with
  | nil => exact fun _ hmem => absurd hmem List.not_mem_nil
  | cons first rest ih =>
    obtain ⟨fuel, source⟩ := first
    obtain ⟨hkept, hpossible⟩ := run_operable h fuel source
    exact List.forall_mem_cons.mpr ⟨hpossible, ih hkept⟩

/-- Whatever sources a session runs, none ends with a failure for an operator without a rule, and
no part of a statement at the top level of a source that is let through ends by returning, on
whatever machine it is executed. -/
theorem impossible_branches_unreachable (sink : Sink) (clock : Clock)
    (history : List (Nat × String)) :
    let seen := (start sink clock).runAll history
    (∀ outcome ∈ seen.1, ∀ line,
      outcome ≠ .failed (.runtime line "Invalid unary operator.") ∧
      outcome ≠ .failed (.runtime line "Invalid binary operator.")) ∧
    ∀ source m program hops, analyse seen.2.nextId source = ⟨m, .ok (program, hops)⟩ →
      ∀ s ∈ program, ∀ part ∈ s.parts, ∀ fuel machine value after,
        execute fuel part machine ≠ .ok (.returned value) after := by
  intro seen
  have hstart : (start sink clock).machine.store.Operable :=
    ⟨fun _ _ hfound => (by cases hfound), fun _ _ _ _ hfound => (by cases hfound)⟩
  refine ⟨runAll_operable hstart history, ?_⟩
  intro source m program hops h s hs part hpart fuel
  have hparts : NoReturn part.parts := fun inner hinner =>
    (analyse_noReturn h).member hs inner (Stmt.parts_subset s hpart hinner)
  exact execute_neverReturns fuel hparts

/-- A source that fails for an operand, and behind it a statement in a block. -/
theorem unreachable_behind_negation :
    let seen := (start {} {}).runAll [(9, "-nil;")]
    let inner := Stmt.print (.literal 2 .nil)
    seen.1 = [.failed (.runtime 1 "Operand must be a number.")] ∧
      Possible (.failed (.runtime 1 "Operand must be a number.")) ∧
      analyse seen.2.nextId "\x7bprint nil;\x7d" = ⟨3, .ok ([.block [inner]], {})⟩ ∧
      ∀ fuel machine value after, execute fuel inner machine ≠ .ok (.returned value) after := by
  intro seen inner
  have hscan : (scan "-nil;").tokens = [⟨.minus, "-", none, 1⟩, ⟨.kwNil, "nil", none, 1⟩,
      ⟨.semicolon, ";", none, 1⟩, Token.endAt 1] := rfl
  have herrors : (scan "-nil;").errors = [] := rfl
  have hparse : parse [⟨.minus, "-", none, 1⟩, ⟨.kwNil, "nil", none, 1⟩,
      ⟨.semicolon, ";", none, 1⟩, Token.endAt 1] 0 =
      ⟨[.expr (.unary 1 ⟨.minus, "-", none, 1⟩ (.literal 0 .nil))], [], 2⟩ := rfl
  have hfirst : analyse 0 "-nil;" =
      ⟨2, .ok ([.expr (.unary 1 ⟨.minus, "-", none, 1⟩ (.literal 0 .nil))], {})⟩ := by
    unfold analyse
    dsimp only
    rw [hscan, herrors, hparse]
    rfl
  obtain ⟨machine, hrun⟩ : ∃ machine, (start {} {}).run 9 "-nil;" =
      (.failed (.runtime 1 "Operand must be a number."), ⟨machine, 2⟩) := by
    rw [run_of_bound (s := start {} {}) hfirst]
    exact ⟨_, rfl⟩
  have hseen : seen = ([.failed (.runtime 1 "Operand must be a number.")], ⟨machine, 2⟩) := by
    simp only [seen, runAll, hrun]
  have hscan' : (scan "\x7bprint nil;\x7d").tokens = [⟨.leftBrace, "\x7b", none, 1⟩,
      ⟨.kwPrint, "print", none, 1⟩, ⟨.kwNil, "nil", none, 1⟩, ⟨.semicolon, ";", none, 1⟩,
      ⟨.rightBrace, "\x7d", none, 1⟩, Token.endAt 1] := rfl
  have herrors' : (scan "\x7bprint nil;\x7d").errors = [] := rfl
  have hparse' : parse [⟨.leftBrace, "\x7b", none, 1⟩,
      ⟨.kwPrint, "print", none, 1⟩, ⟨.kwNil, "nil", none, 1⟩, ⟨.semicolon, ";", none, 1⟩,
      ⟨.rightBrace, "\x7d", none, 1⟩, Token.endAt 1] 2 = ⟨[.block [inner]], [], 3⟩ := rfl
  have hlet : analyse 2 "\x7bprint nil;\x7d" = ⟨3, .ok ([.block [inner]], {})⟩ := by
    unfold analyse
    dsimp only
    rw [hscan', herrors', hparse']
    rfl
  have hunreachable := impossible_branches_unreachable {} {} [(9, "-nil;")]
  dsimp only at hunreachable
  rw [show (start {} {}).runAll [(9, "-nil;")] = _ from hseen] at hunreachable
  rw [hseen]
  have hpart : inner ∈ (Stmt.block [inner]).parts :=
    List.mem_cons_of_mem _ (List.mem_append_left _ (Stmt.mem_parts inner))
  exact ⟨rfl, hunreachable.1 _ List.mem_cons_self, hlet,
    hunreachable.2 _ _ _ _ hlet _ List.mem_cons_self inner hpart⟩

end Session

end Scriptlet
