import Scriptlet.Proofs.Session.Joined
import Scriptlet.Proofs.Source.Layout

/-!
# Layout does not show

The lines of tokens go into reports and nowhere else. So sources that fall into the same
tokens run alike from the same session, whatever their lines are: they write the same, end
in the same way with the same words, and leave the same behind, apart from lines. Blanks
and comments between segments change nothing but lines, and so they change no run.
-/

namespace Scriptlet

/-- All numbers correspond to themselves, and every line to every line. -/
def exceptLines : Likeness := ⟨Eq, fun _ _ => True⟩

/-- Tokens that are the same on no line are alike apart from their lines. -/
theorem Token.allAlike_of_unplaced {ts ts' : List Token}
    (h : ts.map unplaced = ts'.map unplaced) : AllAlike exceptLines ts ts' := by
  rw [← List.forall₂_eq_eq_eq, List.forall₂_map_left_iff, List.forall₂_map_right_iff] at h
  refine h.imp fun t t' ht => ?_
  exact ⟨(congrArg Token.kind ht :), (congrArg Token.lexeme ht :), (congrArg Token.literal ht :),
    trivial⟩

/-- Lexical errors that are the same on no line are alike apart from their lines. -/
theorem LexError.allAlike_of_unplaced {es es' : List LexError}
    (h : es.map unplaced = es'.map unplaced) :
    List.Forall₂ (LexError.Alike exceptLines) es es' := by
  rw [← List.forall₂_eq_eq_eq, List.forall₂_map_left_iff, List.forall₂_map_right_iff] at h
  exact h.imp fun e e' he => ⟨trivial, (congrArg LexError.fault he :)⟩

namespace Session

open Machine

variable {s : Session} {source source' : String}

/-- From one session, sources whose tokens and lexical errors are alike apart from their lines
run alike. -/
theorem run_exceptLines (hself : s.machine.Alike exceptLines s.machine)
    (h : (scan source).Alike exceptLines (scan source')) (fuel : Nat) :
    let after := s.run fuel source
    let after' := s.run fuel source'
    after.1.Alike exceptLines after'.1 ∧ after.2.machine.Alike exceptLines after'.2.machine ∧
      after.2.nextId = after'.2.nextId := by
  obtain ⟨hanalysed, hnumbers⟩ := analyse_alike h s.nextId s.nextId
  rcases hseen : analyse s.nextId source with ⟨m, result⟩
  rcases hseen' : analyse s.nextId source' with ⟨m', result'⟩
  rw [hseen, hseen'] at hanalysed hnumbers
  obtain rfl : m = m' := Nat.add_right_cancel hnumbers
  cases hanalysed with
  | refused errors =>
    rw [run_of_refused hseen, run_of_refused hseen']
    exact ⟨.refused (errors.imp fun _ _ hd => hd.imp fun _ _ => id), hself, rfl⟩
  | @bound program program' hops hops' halike distances =>
    obtain ⟨hwell, hrange⟩ := analyse_hops hseen
    obtain ⟨hwell', hrange'⟩ := analyse_hops hseen'
    have hsame := get?_eq_of_range distances hrange hrange'
    have hhops : Hops.Alike exceptLines (s.machine.hops.insertAll hops.entries)
        (s.machine.hops.insertAll hops'.entries) := by
      rintro i _ rfl
      rw [hwell.get?_insertAll, hwell'.get?_insertAll, hsame]
    have hprogram : Stmt.AllAlike exceptLines program program' := by
      refine Stmt.AllAlike.imp halike (fun _ _ => id) ?_
      rintro e - i ⟨-, -, hsum⟩
      exact Nat.add_right_cancel hsum
    have hinterpret := interpret_alike fuel
      (hself.learn ⟨fun _ _ => id, fun _ _ => id⟩ hhops) hprogram
    rw [run_of_bound hseen, run_of_bound hseen']
    obtain ⟨houtcome, hmachine⟩ := ended_alike hinterpret m m
    exact ⟨houtcome, hmachine, by rw [ended_session, ended_session]⟩

/-- Layout does not show. From a session that was reached by running sources, two sources that
fall into tokens of the same kinds, texts and literals, with the same lexical errors if any, fare
alike: their outcomes have the same form and the same reports in the same order but for their
lines, what was written is the same, and what they leave behind is the same but for the lines of
its tokens. And a run of blanks, or a space and a comment with the newline that ends it, inserted
into a source between two of its segments, changes what scanning it yields only in the lines. -/
theorem layout_invisible :
    (∀ sink clock history fuel source source',
      (scan source).Alike exceptLines (scan source') →
        let s := ((start sink clock).runAll history).2
        let after := s.run fuel source
        let after' := s.run fuel source'
        after.1.Alike exceptLines after'.1 ∧ after.2.machine.sink = after'.2.machine.sink ∧
          after.2.machine.Alike exceptLines after'.2.machine ∧
          after.2.nextId = after'.2.nextId) ∧
    ∀ source before after gap, Segment.split source.toList = before ++ after → after ≠ [] →
      Segment.Gap gap →
      (scan (String.ofList
        (before.flatMap Segment.text ++ (gap ++ after.flatMap Segment.text)))).Alike exceptLines
        (scan source) := by
  constructor
  · intro sink clock history fuel source source' h s after after'
    obtain ⟨numbers, hself, hnumbers⟩ := runAll_alike_self sink clock history
    have hwithin : Likeness.Within ⟨numbers, Eq⟩ exceptLines := ⟨hnumbers, fun _ _ _ => trivial⟩
    have hhops : Hops.Alike exceptLines s.machine.hops s.machine.hops := by
      rintro i _ rfl
      rfl
    obtain ⟨houtcome, hmachine, hnext⟩ :=
      run_exceptLines (hself.machine.learn hwithin hhops) h fuel
    exact ⟨houtcome, hmachine.sink, hmachine, hnext⟩
  · intro source before after gap h hafter hgap
    obtain ⟨htokens, herrors⟩ := scan_inserted hgap hafter h
    exact ⟨Token.allAlike_of_unplaced htokens, LexError.allAlike_of_unplaced herrors⟩

/-- A comment between a `print` and its value, and the line break that ends it. -/
theorem layout_invisible_comment :
    let s := ((start {} {}).runAll []).2
    let before := [Segment.token .kwPrint ['p', 'r', 'i', 'n', 't']]
    let after := [Segment.blank ' ', .token .kwNil ['n', 'i', 'l'], .token .semicolon [';']]
    let gap := [' ', '/', '/', 'x', '\n']
    Segment.split "print nil;".toList = before ++ after ∧ after ≠ [] ∧ Segment.Gap gap ∧
      (scan "print //x\n nil;").Alike exceptLines (scan "print nil;") ∧
      (s.run 9 "print //x\n nil;").1.Alike exceptLines (s.run 9 "print nil;").1 ∧
      (s.run 9 "print //x\n nil;").2.machine.sink = (s.run 9 "print nil;").2.machine.sink := by
  intro s before after gap
  have hsplit : Segment.split "print nil;".toList = before ++ after := rfl
  have hafter : after ≠ [] := List.cons_ne_nil _ _
  have hbody : '\n' ∉ ['x'] := by decide
  have hgap : Segment.Gap gap := .comment hbody
  have hscan := layout_invisible.2 "print nil;" before after gap hsplit hafter hgap
  have hspaced : String.ofList
      (before.flatMap Segment.text ++ (gap ++ after.flatMap Segment.text)) =
        "print //x\n nil;" := rfl
  rw [hspaced] at hscan
  have hrun := layout_invisible.1 {} {} [] 9 _ _ hscan
  dsimp only at hrun
  refine ⟨hsplit, hafter, hgap, hscan, ?_⟩
  simp only [s]
  exact ⟨hrun.1, hrun.2.1⟩

end Session

end Scriptlet
