import Scriptlet.Proofs.Alike.Sessions
import Scriptlet.Proofs.Grammar.Acceptance
import Scriptlet.Proofs.Grammar.Shadows
import Scriptlet.Proofs.Grammar.ViableStmt

/-!
# The first violation is reported as early as possible

Reading without recovery ends at the first violation that gives a statement up, and the
parse notes that one behind violations that do not. What was passed before it can be read
on to a whole program, because every reader can go on from the tokens it has passed; with
the token at which it shows, nothing can be read on, because a reader looks no further
than at that token.
-/

namespace Scriptlet.Grammar

/-- Parsing notes a violation that gives a statement up. -/
def GivesUp (tokens : List Token) (n : Nat) : Prop :=
  ∃ e ∈ (parse tokens n).errors, e.fault.abandons = true

variable {ts : List Token} {stop : Token} {n fuel : Nat} {p : Program} {e : SyntaxError}
  {after : Cursor}

/-- What stands at the cursor is the token at that place of the whole list. -/
theorem Cursor.getElem?_here (used rest : List Token) (stop : Token) (n : Nat)
    (errors : List SyntaxError) :
    (used ++ rest ++ [stop])[used.length]? =
      some (⟨rest, stop, n, errors⟩ : Cursor).here := by
  rw [List.append_assoc, List.getElem?_append_right (Nat.le_refl _), Nat.sub_self]
  cases rest <;> rfl

/-- A program is read without recovery, or it ends at the first violation that gives a
statement up. -/
theorem parse_strict (hts : ∀ t ∈ ts, t.kind ≠ .endOfFile) (hstop : stop.kind = .endOfFile)
    (n : Nat) :
    (∃ p after, Strict.program (ts.length + 1) ⟨ts, stop, n, []⟩ = .ok p after ∧
      ¬ GivesUp (ts ++ [stop]) n) ∨
    ∃ e after, Strict.program (ts.length + 1) ⟨ts, stop, n, []⟩ = .error (.failed e) after ∧
      (∀ e ∈ after.errors, e.fault.abandons = false) ∧ e.place = after.here ∧
      e.fault.abandons = true ∧
      FirstCaught (program (ts.length + 1)) ⟨ts, stop, n, []⟩ e after ∧
      after.errors ++ [e] <+: (parse (ts ++ [stop]) n).errors := by
  obtain ⟨p, reached, hprogram, -⟩ := program_reads ts stop n
  obtain ⟨plan, hplan, hagrees⟩ := program_shadow (Nat.le_refl (ts.length + 1))
  have hagrees := hagrees ⟨ts, stop, n, []⟩
  unfold GivesUp
  rw [parse_of_program hts hstop hprogram]
  unfold Agrees at hagrees
  rw [hplan, hprogram] at hagrees
  revert hagrees
  rcases hresult : Strict.program (ts.length + 1) ⟨ts, stop, n, []⟩ with ⟨q, after⟩ | ⟨halt, after⟩
  · rintro ⟨hsame, -, found, hfound, hmild⟩
    cases hsame
    refine .inl ⟨p, reached, rfl, ?_⟩
    rintro ⟨e, he, habandons⟩
    rw [hfound, List.nil_append] at he
    rw [hmild e he] at habandons
    cases habandons
  · cases halt with
    | exhausted => exact absurd hresult (Strict.program_ne_exhausted (Nat.lt_succ_self _))
    | failed e =>
      rintro ⟨⟨found, hfound, hmild⟩, hplace, habandons, ⟨hsame, -⟩ | ⟨hcaught, hnoted⟩⟩
      · cases hsame
      · rw [List.nil_append] at hfound
        exact .inr ⟨e, after, rfl, hfound ▸ hmild, hplace, habandons, ⟨plan, hplan, hcaught⟩,
          hnoted⟩

/-- What is read without recovery with some fuel is parsed without giving up. -/
theorem not_givesUp_of_strict (hts : ∀ t ∈ ts, t.kind ≠ .endOfFile)
    (hstop : stop.kind = .endOfFile) (h : Strict.program fuel ⟨ts, stop, n, []⟩ = .ok p after) :
    ¬ GivesUp (ts ++ [stop]) n := by
  rcases parse_strict hts hstop n with ⟨_, _, -, hgentle⟩ | ⟨_, _, hfailed, -⟩
  · exact hgentle
  · exact absurd hfailed (Strict.program_not_both rfl h)

/-- Where reading without recovery ends at a violation with some fuel, the parse gives up. -/
theorem givesUp_of_strict (hts : ∀ t ∈ ts, t.kind ≠ .endOfFile) (hstop : stop.kind = .endOfFile)
    (h : Strict.program fuel ⟨ts, stop, n, []⟩ = .error (.failed e) after) :
    GivesUp (ts ++ [stop]) n := by
  rcases parse_strict hts hstop n with ⟨_, _, hok, -⟩ | ⟨e, reached, -, -, -, habandons, -, hnoted⟩
  · exact absurd h (Strict.program_not_both rfl hok)
  · exact ⟨e, hnoted.subset (List.mem_append_right _ List.mem_cons_self), habandons⟩

/-- Whether a parse gives up does not depend on the numbers it hands out. -/
theorem GivesUp.renumber (hstop : stop.kind = .endOfFile) (h : GivesUp (ts ++ [stop]) n)
    (n' : Nat) : GivesUp (ts ++ [stop]) n' := by
  let K : Likeness := ⟨Eq, Eq⟩
  have hall : Token.AllAlike K (ts ++ [stop]) (ts ++ [stop]) :=
    List.forall₂_same.mpr fun t _ => ⟨rfl, rfl, rfl, rfl⟩
  have hend : ∃ t ∈ ts ++ [stop], t.isEnd = true :=
    ⟨stop, List.mem_append_right _ List.mem_cons_self, beq_iff_eq.mpr hstop⟩
  obtain ⟨-, herrors, -⟩ := parse_handedOut hall hend n n'
  obtain ⟨e, he, habandons⟩ := h
  have hfaults : (parse (ts ++ [stop]) n).errors.map SyntaxError.fault =
      (parse (ts ++ [stop]) n').errors.map SyntaxError.fault := by
    rw [← List.forall₂_eq_eq_eq]
    exact List.rel_map (fun _ _ he => he.fault) herrors
  have hmem : e.fault ∈ (parse (ts ++ [stop]) n').errors.map SyntaxError.fault :=
    hfaults ▸ List.mem_map_of_mem he
  obtain ⟨e', he', hfault⟩ := List.mem_map.mp hmem
  exact ⟨e', he', hfault ▸ habandons⟩

/-- Tokens that were passed on the way to a first violation go on to a program. -/
theorem completed_of_strict (hts : ∀ t ∈ ts, t.kind ≠ .endOfFile) {used : List Token}
    (h : Strict.program (ts.length + 1) ⟨ts, stop, n, []⟩ = .error (.failed e) after)
    (hused : ts = used ++ after.rest) :
    ∃ more, (∀ t ∈ more, t.kind ≠ .endOfFile) ∧ ∀ stop' n', stop'.kind = .endOfFile →
      ¬ GivesUp (used ++ more ++ [stop']) n' := by
  have hviable := Strict.program_viable (ts.length + 1)
  have hinner : ∀ t ∈ used, t.kind ≠ .endOfFile :=
    fun t ht => hts t (hused ▸ List.mem_append_left _ ht)
  obtain ⟨more, hmore, p, m, hgives⟩ :
      ∃ more, Finishes (· = []) (Strict.program (ts.length + 1)) n used more := by
    cases used with
    | nil => exact ⟨[], hviable.fresh (Nat.succ_pos _) n⟩
    | cons t used =>
      refine hviable.resumed _ e after (t :: used) h hused (List.cons_ne_nil t used) ?_
      have hlength := congrArg List.length hused
      rw [List.length_append] at hlength
      omega
  refine ⟨more, hmore, fun stop' n' hstop' hgivesUp => ?_⟩
  have hall : ∀ t ∈ used ++ more, t.kind ≠ .endOfFile :=
    fun t ht => (List.mem_append.mp ht).elim (hinner t) (hmore t)
  obtain ⟨found, hread⟩ := hgives [] rfl stop' []
  rw [List.append_nil] at hread
  exact not_givesUp_of_strict hall hstop' hread (hgivesUp.renumber hstop' n)

/-- A first violation shows again wherever the same tokens and the same next token stand. -/
theorem givesUp_of_head (h : Strict.program fuel ⟨ts, stop, n, []⟩ = .error (.failed e) after)
    {used left : List Token} (hused : ts = used ++ after.rest)
    (hleft : ∀ t ∈ used ++ left, t.kind ≠ .endOfFile) (hhead : left.head? = after.rest.head?)
    {stop' : Token} (hstop' : stop'.kind = .endOfFile) (n' : Nat) :
    GivesUp (used ++ left ++ [stop']) n' := by
  obtain ⟨place, reached, hfailed⟩ :=
    (Strict.program_planned fuel).fails h hused hhead stop' []
  exact (givesUp_of_strict hleft hstop' hfailed).renumber hstop' n'

/-- The first violation of a parse that gives a statement up shows at the token at this
place, and this is the earliest place at which it can show. -/
structure FirstViolation (ts : List Token) (stop : Token) (n i : Nat) (e : SyntaxError) :
    Prop where
  /-- Reading without recovery ends at this violation, before the token at this place; with
  recovery it is the first one to reach it there, and the parse notes it behind violations
  that do not give a statement up. -/
  first : ∃ m earlier later,
    Strict.program (ts.length + 1) ⟨ts, stop, n, []⟩ =
      .error (.failed e) ⟨ts.drop i, stop, m, earlier⟩ ∧
    FirstCaught (program (ts.length + 1)) ⟨ts, stop, n, []⟩ e ⟨ts.drop i, stop, m, earlier⟩ ∧
    (parse (ts ++ [stop]) n).errors = earlier ++ e :: later ∧
    ∀ e ∈ earlier, e.fault.abandons = false
  abandons : e.fault.abandons = true
  place : (ts ++ [stop])[i]? = some e.place
  /-- The report carries the line of the token and its text, or says that it is the end. -/
  report : e.diagnostic.text = Diagnostic.lineTag e.place.line ++ " Error" ++
    Diagnostic.location e.place ++ ": " ++ e.fault.message
  /-- The tokens before it begin tokens that are parsed without giving up. -/
  begins : ∃ more, (∀ t ∈ more, t.kind ≠ .endOfFile) ∧ ∀ stop' n', stop'.kind = .endOfFile →
    ¬ GivesUp (ts.take i ++ more ++ [stop']) n'
  /-- No tokens that begin with these and the token itself are parsed without giving up;
  where it is the end, these alone are not. -/
  ends : ∀ others stop' n', (∀ t ∈ others, t.kind ≠ .endOfFile) → stop'.kind = .endOfFile →
    i < ts.length ∧ ts.take (i + 1) <+: others ∨ i = ts.length ∧ others = ts →
      GivesUp (others ++ [stop']) n'

/-- Where a parse gives up, its first violation that gives a statement up shows at the
earliest place possible. -/
theorem parse_earliest (ts : List Token) (stop : Token) (n : Nat)
    (hts : ∀ t ∈ ts, t.kind ≠ .endOfFile) (hstop : stop.kind = .endOfFile)
    (h : GivesUp (ts ++ [stop]) n) : ∃ i ≤ ts.length, ∃ e, FirstViolation ts stop n i e := by
  rcases parse_strict hts hstop n with ⟨_, _, -, hgentle⟩ | ⟨e, after, hfailed, hmild, hplace,
    habandons, hcaught, later, hlater⟩
  · exact absurd h hgentle
  have hkept := (Strict.program_planned (ts.length + 1)).keeps_stop ⟨ts, stop, n, []⟩
  rw [hfailed] at hkept
  obtain ⟨used, hused⟩ := (Strict.program_planned (ts.length + 1)).passes_error hfailed
  obtain ⟨rest, stop', m, earlier⟩ := after
  dsimp only at hkept hused hmild hlater
  obtain rfl : stop' = stop := hkept
  have htake : ts.take used.length = used := by rw [hused, List.take_left]
  have hdrop : ts.drop used.length = rest := by rw [hused, List.drop_left]
  have hlength : used.length ≤ ts.length := by
    rw [hused, List.length_append]
    exact Nat.le_add_right _ _
  refine ⟨used.length, hlength, e, ?_, habandons, ?_, rfl, ?_, ?_⟩
  · refine ⟨m, earlier, later, hdrop ▸ hfailed, hdrop ▸ hcaught, ?_, hmild⟩
    rw [← hlater, List.append_assoc]
    rfl
  · rw [hplace, hused]
    exact Cursor.getElem?_here used rest stop' m earlier
  · rw [htake]
    exact completed_of_strict hts hfailed hused
  · intro others end' n' hothers hend hbegins
    obtain ⟨left, rfl, hhead⟩ : ∃ left, others = used ++ left ∧ left.head? = rest.head? := by
      rcases hbegins with ⟨hless, left, rfl⟩ | ⟨-, rfl⟩
      · -- The next token is among those that were given.
        cases rest with
        | nil =>
          rw [hused, List.append_nil] at hless
          exact absurd hless (Nat.lt_irrefl _)
        | cons t rest =>
          refine ⟨t :: left, ?_, rfl⟩
          rw [hused, List.take_length_add_append]
          exact List.append_assoc used [t] left
      · exact ⟨rest, hused, rfl⟩
    exact givesUp_of_head hfailed hused hothers hhead hend n'

/-- The tokens of `nil = nil; \x7b print a \x7d x`. -/
def unendedPrint : List Token :=
  [⟨.kwNil, "nil", none, 1⟩, ⟨.equal, "=", none, 1⟩, ⟨.kwNil, "nil", none, 1⟩,
    ⟨.semicolon, ";", none, 1⟩, ⟨.leftBrace, "\x7b", none, 1⟩, ⟨.kwPrint, "print", none, 2⟩,
    ⟨.identifier, "a", none, 2⟩, ⟨.rightBrace, "\x7d", none, 3⟩, ⟨.identifier, "x", none, 4⟩]

/-- The closing brace stands where the semicolon of the `print` is missing: this is the
first violation that gives a statement up, not the assignment before it. -/
theorem parse_unendedPrint :
    (∀ t ∈ unendedPrint, t.kind ≠ .endOfFile) ∧ (Token.endAt 4).kind = .endOfFile ∧
      GivesUp (unendedPrint ++ [Token.endAt 4]) 0 ∧
      FirstViolation unendedPrint (Token.endAt 4) 0 7
        ⟨⟨.rightBrace, "\x7d", none, 3⟩, .missing .printEnd⟩ := by
  have hts : ∀ t ∈ unendedPrint, t.kind ≠ .endOfFile := by decide
  have herrors : (parse (unendedPrint ++ [Token.endAt 4]) 0).errors =
      [⟨⟨.equal, "=", none, 1⟩, .invalidTarget⟩,
        ⟨⟨.rightBrace, "\x7d", none, 3⟩, .missing .printEnd⟩,
        ⟨Token.endAt 4, .missing .blockClose⟩] := by
    cbv
  have hgivesUp : GivesUp (unendedPrint ++ [Token.endAt 4]) 0 := by
    unfold GivesUp
    rw [herrors]
    exact ⟨_, List.mem_cons_of_mem _ List.mem_cons_self, rfl⟩
  have hstrict : Strict.program 10 ⟨unendedPrint, Token.endAt 4, 0, []⟩ =
      .error (.failed ⟨⟨.rightBrace, "\x7d", none, 3⟩, .missing .printEnd⟩)
        ⟨[⟨.rightBrace, "\x7d", none, 3⟩, ⟨.identifier, "x", none, 4⟩], Token.endAt 4, 3,
          [⟨⟨.equal, "=", none, 1⟩, .invalidTarget⟩]⟩ := by
    cbv
  obtain ⟨i, hi, e, hfirst⟩ := @parse_earliest unendedPrint (Token.endAt 4) 0 hts rfl hgivesUp
  obtain ⟨m, earlier, later, hends, -⟩ := hfirst.first
  obtain ⟨hhalt, hcursor⟩ := EStateM.Result.error.inj (hstrict.symm.trans hends)
  obtain rfl : i = 7 := by
    have hlength : 2 = 9 - i := by
      simpa [unendedPrint] using congrArg (fun c => c.rest.length) hcursor
    omega
  rw [← Halt.failed.inj hhalt] at hfirst
  exact ⟨hts, rfl, hgivesUp, hfirst⟩

end Scriptlet.Grammar
