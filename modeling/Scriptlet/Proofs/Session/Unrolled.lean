import Scriptlet.Proofs.Alike.Pairs
import Scriptlet.Proofs.Binding.Distances
import Scriptlet.Proofs.Grammar.Unrolled
import Scriptlet.Proofs.Session.Refused

/-!
# A loop with clauses runs as the plain loop it stands for

Behind scanning a session sees tokens only. Tokens that are parsed without errors to
programs alike, whatever the numbers are, run alike in every session: in neither program
a number occurs twice, so the numbers correspond faithfully, and none of them was used
before. A loop with clauses and the plain loop are such tokens.
-/

namespace Scriptlet.Session

open Binding Grammar

/-- Look at tokens whose expressions are numbered from `n` on. -/
def analyseTokens (n : Nat) (tokens : List Token) : Analysis :=
  let parsed := parse tokens n
  let errors := parsed.errors.map SyntaxError.diagnostic
  if errors ≠ [] then ⟨parsed.nextId, .error errors⟩
  else
    let bound := bindProgram parsed.program
    if bound.errors ≠ [] then ⟨parsed.nextId, .error (bound.errors.map ScopeError.diagnostic)⟩
    else ⟨parsed.nextId, .ok (parsed.program, bound.hops)⟩

/-- Run tokens unless they have a static failure. -/
def runTokens (s : Session) (fuel : Nat) (tokens : List Token) : Outcome × Session :=
  s.runAnalysed fuel (analyseTokens s.nextId tokens)

/-- Running a source is running its tokens, if there is nothing else in it. -/
theorem run_eq_runTokens {source : String} (h : (scan source).errors = []) (s : Session)
    (fuel : Nat) : s.run fuel source = s.runTokens fuel (scan source).tokens := by
  have hseen : analyse s.nextId source = analyseTokens s.nextId (scan source).tokens := by
    unfold analyse analyseTokens
    dsimp only
    rw [h]
    rfl
  rw [run_eq_runAnalysed, hseen]
  rfl

variable {K : Likeness} {s s' : Session} {n n' : Nat} {tokens tokens' : List Token}

/-- The expressions in tokens have numbers among those handed out. -/
theorem parse_range {i : Nat}
    (h : i ∈ (Stmt.exprsOfAll (parse tokens n).program).map Expr.id) :
    n ≤ i ∧ i < (parse tokens n).nextId := by
  obtain ⟨e, he, rfl⟩ := List.mem_map.mp h
  exact (parse_spread tokens n).range e he

/-- Distances are recorded only for the expressions of the tokens, each once. -/
theorem bindProgram_range (clean : (bindProgram (parse tokens n).program).errors = []) :
    let hops := (bindProgram (parse tokens n).program).hops
    hops.Wellformed ∧ ∀ id, hops.contains id = true → n ≤ id ∧ id < (parse tokens n).nextId := by
  intro hops
  refine ⟨?_, fun id hid => ?_⟩
  · have hsites : hops = _ := (bindProgram_legal clean).1
    rw [hsites]
    exact wellformed_foldl_record Table.wellformed_empty
  · obtain ⟨d, hd⟩ := Option.isSome_iff_exists.mp hid
    obtain ⟨p, e, he, hnumber⟩ := exists_of_get?_hops hd
    exact parse_range ((Piece.mem_ids_iff_at? _).mpr ⟨p, e, he, hnumber⟩)

/-- What is known of tokens that are parsed without errors. -/
theorem analyseTokens_of_clean (clean : (parse tokens n).errors = []) :
    let bound := bindProgram (parse tokens n).program
    analyseTokens n tokens = ⟨(parse tokens n).nextId,
      if bound.errors ≠ [] then .error (bound.errors.map ScopeError.diagnostic)
      else .ok ((parse tokens n).program, bound.hops)⟩ := by
  unfold analyseTokens
  dsimp only
  rw [clean, List.map_nil, if_neg (not_not_intro rfl)]
  split <;> rfl

/-- Looking at tokens keeps the numbers. -/
theorem analyseTokens_keeps (clean : (parse tokens n).errors = []) :
    (analyseTokens n tokens).Keeps n := by
  rw [analyseTokens_of_clean clean]
  refine ⟨(parse_spread tokens n).le, fun program hops h => ?_⟩
  dsimp only at h ⊢
  split at h
  · cases h
  · rename_i hbound
    cases h
    exact bindProgram_range (Decidable.not_not.mp hbound)

/-- Tokens that are parsed to programs alike are known alike, with new numbers that correspond. -/
theorem analyseTokens_alike (clean : (parse tokens n).errors = [])
    (clean' : (parse tokens' n').errors = [])
    (h : Stmt.AllAlike exceptNumbers (parse tokens n).program (parse tokens' n').program) :
    ∃ new : Nat → Nat → Prop, Likeness.Faithful ⟨new, Eq⟩ ∧
      (∀ i i', new i i' → (n ≤ i ∧ i < (analyseTokens n tokens).nextId) ∧
        n' ≤ i' ∧ i' < (analyseTokens n' tokens').nextId) ∧
      Analysed ⟨new, Eq⟩ (analyseTokens n tokens).result (analyseTokens n' tokens').result := by
  obtain ⟨new, hfaithful, halike, hnew⟩ :=
    h.exists_faithful (parse_spread tokens n).nodup (parse_spread tokens' n').nodup
  obtain ⟨hdistances, hscoping⟩ := bindProgram_alike hfaithful halike
  rw [analyseTokens_of_clean clean, analyseTokens_of_clean clean']
  refine ⟨new, hfaithful, fun i i' hi => ?_, ?_⟩
  · exact ⟨parse_range (hnew i i' hi).1, parse_range (hnew i i' hi).2⟩
  · dsimp only
    -- There are violations on both sides or on neither.
    split
    · rename_i hsome
      rw [if_pos ((forall₂_ne_nil hscoping).mp hsome)]
      exact .refused (List.rel_map (R := ScopeError.Alike ⟨new, Eq⟩)
        (fun _ _ he => he.diagnostic) hscoping)
    · rename_i hnone
      rw [if_neg (mt (forall₂_ne_nil hscoping).mpr hnone)]
      exact .bound halike hdistances

/-- Tokens that are parsed to programs alike have the same scoping violations. -/
theorem bindProgram_errors_same
    (h : Stmt.AllAlike exceptNumbers (parse tokens n).program (parse tokens' n').program) :
    (bindProgram (parse tokens n).program).errors =
      (bindProgram (parse tokens' n').program).errors := by
  obtain ⟨new, hfaithful, halike, -⟩ :=
    h.exists_faithful (parse_spread tokens n).nodup (parse_spread tokens' n').nodup
  obtain ⟨-, hscoping⟩ := bindProgram_alike hfaithful halike
  rw [← List.forall₂_eq_eq_eq]
  refine hscoping.imp fun e e' he => ?_
  obtain ⟨place, fault⟩ := e
  obtain ⟨_, _⟩ := e'
  obtain rfl : place = _ := he.place.eq fun _ _ => id
  obtain rfl : fault = _ := he.fault
  rfl

/-- Sessions alike with the same lines report the same of whatever runs in them. -/
theorem Alike.reports_same (h : s.Alike K s') (hK : K.lines = Eq) (runs : List (Nat × String)) :
    s.reports runs = s'.reports runs := by
  induction runs generalizing s s' K with
  | nil => rfl
  | cons first rest ih =>
    obtain ⟨fuel, source⟩ := first
    obtain ⟨hreport, _, hlines, hafter⟩ := h.run_same hK fuel source
    exact congrArg₂ List.cons hreport (ih hafter hlines)

/-- In a session alike to itself, tokens that are parsed to programs alike fare the same. -/
theorem runTokens_same {numbers : Nat → Nat → Prop} (hself : s.Alike ⟨numbers, Eq⟩ s)
    (clean : (parse tokens s.nextId).errors = []) (clean' : (parse tokens' s.nextId).errors = [])
    (h : Stmt.AllAlike exceptNumbers (parse tokens s.nextId).program
      (parse tokens' s.nextId).program) (fuel : Nat) :
    let after := s.runTokens fuel tokens
    let after' := s.runTokens fuel tokens'
    after.1 = after'.1 ∧ after.2.machine.sink = after'.2.machine.sink ∧
      ∀ later, after.2.reports later = after'.2.reports later := by
  obtain ⟨new, hfaithful, hnew, hanalysed⟩ := analyseTokens_alike clean clean' h
  obtain ⟨houtcome, hafter⟩ := hself.runAnalysed (analyseTokens_keeps clean)
    (analyseTokens_keeps clean') hnew hfaithful hanalysed fuel
  exact ⟨houtcome.eq fun _ _ => id, hafter.machine.sink, hafter.reports_same rfl⟩

/-- A loop with clauses is the plain loop it stands for. Wherever the word `for` stands before the end
in tokens that are parsed without errors, a loop with clauses begins whose body is the whole
statement there. Let its tokens be replaced by those of a plain loop, with the first clause before
it and the step behind the body in blocks, if there are such clauses, and with `true` for an absent
condition. Then, from every number on, the tokens are parsed without errors to a program that
differs in its numbers only and has the same scoping violations. And in whatever session that was
reached by running sources both fare the same: they have the same outcome, with the same reports on
the same lines, the same output is written, and whatever sources run behind them have the same
outcomes and the same output. -/
theorem for_is_while (tokens : List Token) (n : Nat) (clean : (parse tokens n).errors = [])
    (before : List Token) (keyword : Token) (rest : List Token)
    (htokens : tokens = before ++ keyword :: rest) (hkeyword : keyword.kind = .kwFor)
    (hbefore : ∀ t ∈ before, t.kind ≠ .endOfFile) :
    (∃ (f : ForStatement) (behind : List Token), keyword :: rest = f.tokens ++ behind ∧
      f.TakesBody behind) ∧
    ∀ (f : ForStatement) (behind : List Token), keyword :: rest = f.tokens ++ behind →
      f.TakesBody behind → ∀ w,
        let replaced := before ++ (f.unrolled w ++ behind)
        (∀ n', (parse replaced n').errors = [] ∧
          Stmt.AllAlike exceptNumbers (parse tokens n).program (parse replaced n').program ∧
          (bindProgram (parse tokens n).program).errors =
            (bindProgram (parse replaced n').program).errors) ∧
        ∀ sink clock history fuel,
          let s := ((start sink clock).runAll history).2
          let after := s.runTokens fuel tokens
          let after' := s.runTokens fuel replaced
          after.1 = after'.1 ∧ after.2.machine.sink = after'.2.machine.sink ∧
            ∀ later, after.2.reports later = after'.2.reports later := by
  subst htokens
  refine ⟨(parse_unrolled clean hkeyword hbefore).1, ?_⟩
  intro f behind hall hbody w replaced
  have hparse := fun n n' clean =>
    (parse_unrolled (n := n) clean hkeyword hbefore).2 f behind hall hbody w n'
  constructor
  · intro n'
    obtain ⟨clean', halike⟩ := hparse n n' clean
    exact ⟨clean', halike, bindProgram_errors_same halike⟩
  · intro sink clock history fuel s
    obtain ⟨numbers, hself, -⟩ := runAll_alike_self sink clock history
    have cleanHere := clean_from clean s.nextId
    obtain ⟨clean', halike⟩ := hparse s.nextId s.nextId cleanHere
    exact runTokens_same hself cleanHere clean' halike fuel

/-- The loop `for (a; b; c) print d;`, all on one line. -/
def printLoop : ForStatement where
  keyword := ⟨.kwFor, "for", none, 1⟩
  left := ⟨.leftParen, "(", none, 1⟩
  initial := [⟨.identifier, "a", none, 1⟩]
  initialStop := ⟨.semicolon, ";", none, 1⟩
  condition := [⟨.identifier, "b", none, 1⟩]
  conditionStop := ⟨.semicolon, ";", none, 1⟩
  step := [⟨.identifier, "c", none, 1⟩]
  right := ⟨.rightParen, ")", none, 1⟩
  body := [⟨.kwPrint, "print", none, 1⟩, ⟨.identifier, "d", none, 1⟩, ⟨.semicolon, ";", none, 1⟩]
  keyword_kind := rfl
  left_kind := rfl
  initial_legible := ⟨0, _, 1, .initialExpr (.exprStmt (.ofPrimary (.name rfl)) rfl)⟩
  condition_legible := ⟨0, _, 1, .clausePresent (.ofPrimary (.name rfl))⟩
  conditionStop_kind := rfl
  step_legible := ⟨0, _, 1, .clausePresent (.ofPrimary (.name rfl))⟩
  right_kind := rfl

/-- The tokens of a plain loop, on a line of their own. -/
def plainTokens : LoopTokens where
  opening := ⟨.leftBrace, "\x7b", none, 7⟩
  closing := ⟨.rightBrace, "\x7d", none, 7⟩
  keyword := ⟨.kwWhile, "while", none, 7⟩
  left := ⟨.leftParen, "(", none, 7⟩
  constant := ⟨.kwTrue, "true", none, 7⟩
  right := ⟨.rightParen, ")", none, 7⟩
  bodyOpening := ⟨.leftBrace, "\x7b", none, 7⟩
  stepStop := ⟨.semicolon, ";", none, 7⟩
  bodyClosing := ⟨.rightBrace, "\x7d", none, 7⟩
  opening_kind := rfl
  closing_kind := rfl
  keyword_kind := rfl
  left_kind := rfl
  constant_kind := rfl
  right_kind := rfl
  bodyOpening_kind := rfl
  stepStop_kind := rfl
  bodyClosing_kind := rfl

/-- The loop in a block, behind which the source ends, and the plain loop there. -/
theorem for_is_while_print :
    let opening : Token := ⟨.leftBrace, "\x7b", none, 1⟩
    let behind : List Token := [⟨.rightBrace, "\x7d", none, 1⟩, Token.endAt 1]
    let tokens := [opening] ++ (printLoop.tokens ++ behind)
    let replaced := [opening] ++ (printLoop.unrolled plainTokens ++ behind)
    let s := ((start {} {}).runAll []).2
    replaced.map Token.lexeme = ["\x7b", "\x7b", "a", ";", "while", "(", "b", ")", "\x7b", "print", "d",
        ";", "c", ";", "\x7d", "\x7d", "\x7d", ""] ∧
      (parse tokens 0).errors = [] ∧ printLoop.keyword.kind = .kwFor ∧
      (∀ t ∈ [opening], t.kind ≠ .endOfFile) ∧ printLoop.TakesBody behind ∧
      (parse replaced 0).errors = [] ∧
      Stmt.AllAlike exceptNumbers (parse tokens 0).program (parse replaced 0).program ∧
      (s.runTokens 9 tokens).1 = (s.runTokens 9 replaced).1 := by
  intro opening behind tokens replaced s
  have clean : (parse tokens 0).errors = [] := by cbv
  have hbefore : ∀ t ∈ [opening], t.kind ≠ .endOfFile := by decide
  have hbody : printLoop.TakesBody behind :=
    ⟨0, _, false, 1, .statementPrint rfl (.ofPrimary (.name rfl)) rfl,
      fun himpossible => by cases himpossible⟩
  have hall := (for_is_while tokens 0 clean [opening] printLoop.keyword _ rfl rfl hbefore).2
    printLoop behind rfl hbody plainTokens
  obtain ⟨clean', halike, -⟩ := hall.1 0
  exact ⟨rfl, clean, rfl, hbefore, hbody, clean', halike, (hall.2 {} {} [] 9).1⟩

end Scriptlet.Session
