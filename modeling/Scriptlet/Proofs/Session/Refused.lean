import Scriptlet.Proofs.Alike.Sessions

/-!
# Refused sources leave no trace

A source that is refused leaves the machine alone, so that nothing it could have
changed is different behind it: neither the output nor a frame, an object or a
recorded distance. It does use up numbers for its expressions, and every later
source is numbered differently. That shows nowhere: sessions that differ by refused
sources are alike, with the same lines, and sessions alike report the same.
-/

namespace Scriptlet

variable {K : Likeness}

/-- Tokens alike on the same lines are the same. -/
theorem Token.Alike.eq {t t' : Token} (h : t.Alike K t') (hK : ∀ a b, K.lines a b → a = b) :
    t = t' := by
  obtain ⟨kind, lexeme, literal, line⟩ := t
  obtain ⟨_, _, _, _⟩ := t'
  obtain rfl : kind = _ := h.kind
  obtain rfl : lexeme = _ := h.lexeme
  obtain rfl : literal = _ := h.literal
  obtain rfl : line = _ := hK _ _ h.line
  rfl

/-- Reports alike on the same lines are the same. -/
theorem Diagnostic.Alike.eq {d d' : Diagnostic} (h : d.Alike K d')
    (hK : ∀ a b, K.lines a b → a = b) : d = d' := by
  cases h with
  | lexical line message => rw [hK _ _ line]
  | grammar place message => rw [place.eq hK]
  | scoping place message => rw [place.eq hK]
  | runtime line message => rw [hK _ _ line]
  | output message => rfl
  | encoding fault => rfl

/-- Outcomes alike on the same lines are the same. -/
theorem Outcome.Alike.eq {o o' : Outcome} (h : o.Alike K o') (hK : ∀ a b, K.lines a b → a = b) :
    o = o' := by
  cases h with
  | ok => rfl
  | @refused ds ds' errors =>
    have heq : List.Forall₂ Eq ds ds' := errors.imp fun _ _ hd => hd.eq hK
    rw [List.forall₂_eq_eq_eq] at heq
    rw [heq]
  | failed error => rw [error.eq hK]
  | unfinished => rfl

/-- What a source yields is alike to itself where every line corresponds to itself. -/
theorem Scan.alike_self (hK : ∀ a, K.lines a a) (s : Scan) : s.Alike K s where
  tokens := List.forall₂_same.mpr fun t _ => ⟨rfl, rfl, rfl, hK t.line⟩
  errors := List.forall₂_same.mpr fun e _ => ⟨hK e.line, rfl⟩

namespace Session

/-- What sources show that run one after the other: for each its outcome, and the
output behind it. -/
def reports : Session → List (Nat × String) → List (Outcome × Sink)
  | _, [] => []
  | s, (fuel, source) :: rest =>
    let first := s.run fuel source
    (first.1, first.2.machine.sink) :: reports first.2 rest

variable {s s' : Session} {fuel : Nat} {source : String} {errors : List Diagnostic}

/-- What a source leaves that is refused: the same machine, and other numbers to come. -/
theorem run_eq_of_refused (h : (s.run fuel source).1 = .refused errors) :
    (s.run fuel source).2 = { s with nextId := (analyse s.nextId source).nextId } := by
  cases hseen : analyse s.nextId source with
  | mk m result =>
  cases result with
  | error errors' => rw [run_of_refused hseen]
  | ok bound =>
    obtain ⟨program, hops⟩ := bound
    rw [run_of_bound hseen] at h
    revert h
    cases Machine.interpret fuel program hops s.machine with
    | ok _ machine => exact fun h => by cases h
    | error stop machine => cases stop <;> exact fun h => by cases h

/-- Sessions stay alike when a source runs in one of them that is refused. -/
theorem Alike.skip (h : s.Alike K s') (hrefused : (s.run fuel source).1 = .refused errors) :
    (s.run fuel source).2.Alike K s' := by
  have hle := le_analyse_nextId s.nextId source
  rw [run_eq_of_refused hrefused]
  refine ⟨h.machine, h.faithful, fun i i' hi => ?_, fun i hi => ?_, h.fresh'⟩
  · have hused := h.used i i' hi
    exact ⟨Nat.lt_of_lt_of_le hused.1 hle, hused.2⟩
  · exact h.fresh i (Nat.le_trans hle hi)

/-- Whatever has run, a session is alike to itself, number by number and line by line. -/
theorem runAll_alike_self (sink : Sink) (clock : Clock) (runs : List (Nat × String)) :
    let s := ((start sink clock).runAll runs).2
    ∃ numbers, s.Alike ⟨numbers, Eq⟩ s ∧ ∀ i i', numbers i i' → i = i' := by
  have hall : ∀ (runs : List (Nat × String)) (s : Session) numbers,
      s.Alike ⟨numbers, Eq⟩ s → (∀ i i', numbers i i' → i = i') →
      ∃ numbers', (s.runAll runs).2.Alike ⟨numbers', Eq⟩ (s.runAll runs).2 ∧
        ∀ i i', numbers' i i' → i = i' := by
    intro runs
    induction runs with
    | nil => exact fun s numbers hs hnumbers => ⟨numbers, hs, hnumbers⟩
    | cons first rest ih =>
      obtain ⟨fuel, source⟩ := first
      intro s numbers hs hnumbers
      have hrun := hs.run (Scan.alike_self (fun _ => rfl) (scan source)) fuel
      refine ih _ _ hrun.2 ?_
      rintro i i' (hi | ⟨-, -, hsum⟩)
      · exact hnumbers i i' hi
      · omega
  exact hall runs _ _ (start_alike Eq sink clock) fun _ _ himpossible => himpossible.elim

/-- Sessions alike with the same lines report the same of a source, and are so behind it. -/
theorem Alike.run_same (h : s.Alike K s') (hK : K.lines = Eq) (fuel : Nat) (source : String) :
    let after := s.run fuel source
    let after' := s'.run fuel source
    (after.1, after.2.machine.sink) = (after'.1, after'.2.machine.sink) ∧
      ∃ K' : Likeness, K'.lines = Eq ∧ after.2.Alike K' after'.2 := by
  intro after after'
  have hscan : (scan source).Alike K (scan source) := Scan.alike_self (fun _ => hK ▸ rfl) _
  obtain ⟨houtcome, hafter⟩ := h.run hscan fuel
  have heq : ∀ a b, K.lines a b → a = b := fun a b hab => by rwa [hK] at hab
  exact ⟨Prod.ext (houtcome.eq heq) hafter.machine.sink,
    Alike.extended K s.nextId s'.nextId after.2.nextId, hK, hafter⟩

/-- Sessions alike report the same, also when in one of them sources run that are
refused, and that the other does not see. -/
theorem Alike.reports_eq (h : s.Alike K s') (hK : K.lines = Eq)
    (runs : List (Bool × Nat × String))
    (hrefused : ∀ entry ∈ runs.zip (s.reports (runs.map Prod.snd)), entry.1.1 = false →
      ∃ errors, entry.2.1 = .refused errors) :
    ((runs.zip (s.reports (runs.map Prod.snd))).filter (·.1.1)).map Prod.snd =
      s'.reports ((runs.filter Prod.fst).map Prod.snd) := by
  induction runs generalizing s s' K with
  | nil => rfl
  | cons first rest ih =>
    obtain ⟨keep, fuel, source⟩ := first
    obtain ⟨hfirst, hrest⟩ := List.forall_mem_cons.mp hrefused
    cases keep with
    | false =>
      obtain ⟨errors, herrors⟩ := hfirst rfl
      exact ih (h.skip herrors) hK hrest
    | true =>
      obtain ⟨hreport, _, hlines, hafter⟩ := h.run_same hK fuel source
      exact congrArg₂ List.cons hreport (ih hafter hlines hrest)

/-- A refused source is invisible. In every session it leaves the machine as it was:
the output, the globals and all other frames, every object, and the recorded
distances. And in whatever session that was reached by running sources, if among
further sources some are inserted that are refused where they stand, then the others
have the same outcomes, with the same reports, and the output behind each of them
is the same as if the inserted ones had not run. -/
theorem refused_invisible :
    (∀ (s : Session) fuel source errors, (s.run fuel source).1 = .refused errors →
      (s.run fuel source).2.machine = s.machine) ∧
    ∀ sink clock history (runs : List (Bool × Nat × String)),
      let s := ((start sink clock).runAll history).2
      let reported := runs.zip (s.reports (runs.map Prod.snd))
      (∀ entry ∈ reported, entry.1.1 = false → ∃ errors, entry.2.1 = .refused errors) →
        (reported.filter (·.1.1)).map Prod.snd =
          s.reports ((runs.filter Prod.fst).map Prod.snd) := by
  constructor
  · intro s fuel source errors h
    rw [run_eq_of_refused h]
  · intro sink clock history runs s reported hrefused
    obtain ⟨numbers, hself, -⟩ := runAll_alike_self sink clock history
    exact hself.reports_eq rfl runs hrefused

/-- A second constant in place of the end of a statement. -/
def secondNil : Diagnostic :=
  .grammar ⟨.kwNil, "nil", none, 1⟩ "Expect ';' after expression."

/-- The first of two constants is read and takes a number, and the second is refused. -/
theorem analyse_secondNil (n : Nat) : analyse n "nil nil" = ⟨n + 1, .error [secondNil]⟩ := by
  have hscan : (scan "nil nil").tokens =
      [⟨.kwNil, "nil", none, 1⟩, ⟨.kwNil, "nil", none, 1⟩, Token.endAt 1] := rfl
  have herrors : (scan "nil nil").errors = [] := rfl
  have hparse : parse [⟨.kwNil, "nil", none, 1⟩, ⟨.kwNil, "nil", none, 1⟩, Token.endAt 1] n =
      ⟨[], [⟨⟨.kwNil, "nil", none, 1⟩, .missing .expressionEnd⟩], n + 1⟩ := rfl
  unfold analyse
  dsimp only
  rw [hscan, herrors, hparse]
  rfl

/-- The distance of a block's own variable is recorded at the number that comes next. -/
theorem analyse_ownVariable (n : Nat) : analyse n "\x7bvar b;print b;\x7d" =
    ⟨n + 1, .ok ([.block [.var ⟨.identifier, "b", none, 1⟩ none,
      .print (.var n ⟨.identifier, "b", none, 1⟩)]], ⟨[(n, 0)]⟩)⟩ := by
  let b : Token := ⟨.identifier, "b", none, 1⟩
  let ts : List Token := [⟨.leftBrace, "\x7b", none, 1⟩, ⟨.kwVar, "var", none, 1⟩, b,
    ⟨.semicolon, ";", none, 1⟩, ⟨.kwPrint, "print", none, 1⟩, b, ⟨.semicolon, ";", none, 1⟩,
    ⟨.rightBrace, "\x7d", none, 1⟩, Token.endAt 1]
  have hscan : (scan "\x7bvar b;print b;\x7d").tokens = ts := rfl
  have herrors : (scan "\x7bvar b;print b;\x7d").errors = [] := rfl
  have hparse : parse ts n = ⟨[.block [.var b none, .print (.var n b)]], [], n + 1⟩ := rfl
  unfold analyse
  dsimp only
  rw [hscan, herrors, hparse]
  rfl

/-- Behind the block its number is used up, and has a recorded distance. -/
theorem run_ownVariable (s : Session) (fuel : Nat) :
    let after := (s.run fuel "\x7bvar b;print b;\x7d").2
    after.nextId = s.nextId + 1 ∧
      after.machine.hops.entries = Table.put s.nextId 0 s.machine.hops.entries := by
  obtain ⟨hnext, hhops⟩ := run_learns s fuel "\x7bvar b;print b;\x7d"
  rw [analyse_ownVariable] at hnext hhops
  exact ⟨hnext, congrArg Table.entries hhops⟩

/-- Between two runs of one block a source is refused that takes a number. The name in the second
block has another number for that, at which its distance is recorded; but the block reports
the same. -/
theorem refused_shift_invisible :
    let runs := [(false, 9, "nil nil"), (true, 9, "\x7bvar b;print b;\x7d")]
    let s := ((start {} {}).runAll [(9, "\x7bvar b;print b;\x7d")]).2
    let reported := runs.zip (s.reports (runs.map Prod.snd))
    let behind := (s.run 9 "nil nil").2
    (s.run 9 "nil nil").1 = .refused [secondNil] ∧ behind.machine = s.machine ∧
      (s.run 9 "\x7bvar b;print b;\x7d").2.machine.hops.entries = [(0, 0), (1, 0)] ∧
      (behind.run 9 "\x7bvar b;print b;\x7d").2.machine.hops.entries = [(0, 0), (2, 0)] ∧
      (reported.filter (·.1.1)).map Prod.snd = s.reports ((runs.filter Prod.fst).map Prod.snd) := by
  intro runs s reported behind
  have hs : s.nextId = 1 ∧ s.machine.hops.entries = [(0, 0)] := by
    simp only [s, runAll]
    exact run_ownVariable (start {} {}) 9
  have hrun := run_of_refused (analyse_secondNil s.nextId) 9
  have hrefused : (s.run 9 "nil nil").1 = .refused [secondNil] := by
    rw [hrun]
  have hkept : behind.machine = s.machine := refused_invisible.1 s 9 "nil nil" _ hrefused
  have hnext : behind.nextId = 2 := by
    simp only [behind, hrun, hs.1]
  have hmarked : ∀ entry ∈ reported, entry.1.1 = false →
      ∃ errors, entry.2.1 = .refused errors := by
    simp only [reported, runs, reports, List.map_cons, List.zip_cons_cons, List.forall_mem_cons]
    refine ⟨fun _ => ⟨_, hrefused⟩, fun hmark => absurd hmark (by decide), ?_⟩
    exact fun _ hmem => absurd hmem List.not_mem_nil
  have hshifted := (run_ownVariable behind 9).2
  rw [hnext, hkept, hs.2] at hshifted
  have hplain := (run_ownVariable s 9).2
  rw [hs.1, hs.2] at hplain
  exact ⟨hrefused, hkept, hplain, hshifted,
    refused_invisible.2 {} {} [(9, "\x7bvar b;print b;\x7d")] runs hmarked⟩

end Session

end Scriptlet
