import Scriptlet.Proofs.Machine.Globals
import Scriptlet.Proofs.Session.Heap
import Scriptlet.Proofs.Session.Joined

/-!
# Locals never become globals

A source that is let through adds to the globals of its session the names that its own
statements declare, and none of those declared further inside. If it stops, only the statements
before the one at which it stopped have added theirs.
-/

namespace Scriptlet

open Binding

/-- Statements at the top level have their places among those of the program. -/
theorem Stmt.sites_subset {program : Program} {s : Stmt} (h : s ∈ program) :
    s.sites [] ⊆ program.sites := by
  unfold Program.sites
  induction program with
  | nil => exact absurd h List.not_mem_nil
  | cons first rest ih =>
    rw [Stmt.sitesOfAll, Stmt.scopesAfter_nil]
    rcases List.mem_cons.mp h with rfl | hrest
    · exact List.subset_append_left _ _
    · exact List.subset_append_of_subset_right _ (ih hrest)

/-- A statement whose places are as the grammar promises declares nothing in its branches. -/
theorem Stmt.plain_of_shaped {scopes : List Scope} {s : Stmt}
    (h : ∀ site ∈ s.sites scopes, site.Shaped) : s.Plain := by
  intro hnone
  cases s with
  | var name initial => cases hnone
  | function routine => cases hnone
  | classDecl name methods => cases hnone
  | expr value => rfl
  | print value => rfl
  | block body => rfl
  | ret keyword value => rfl
  | ifThen condition yes =>
    exact h ⟨scopes, .branch yes⟩ (List.mem_append_right _ List.mem_cons_self)
  | loop condition body =>
    exact h ⟨scopes, .branch body⟩ (List.mem_append_right _ List.mem_cons_self)
  | ifElse condition yes no =>
    have hyes : yes.declares = false :=
      h ⟨scopes, .branch yes⟩ (List.mem_append_right _ List.mem_cons_self)
    have hno : no.declares = false :=
      h ⟨yes.scopesAfter scopes, .branch no⟩ (List.mem_append_right _
        (List.mem_cons_of_mem _ (List.mem_append_right _ List.mem_cons_self)))
    exact Bool.or_eq_false_iff.mpr ⟨hyes, hno⟩

namespace Machine

/-- A run of a program stops behind so many of its statements: these came to their ends, and then
the next one stops, or there is none left and the output cannot be flushed. -/
inductive StopsAt (fuel : Nat) (program : Program) (hops : Hops) (m : Machine) (k : Nat)
    (stop : Stop) : Prop where
  /-- The next statement stops. -/
  | statement (middle after : Machine) (s : Stmt)
    (before : executeProgramBy .recorded fuel (program.take k) (m.knowing hops) = .ok () middle)
    (next : program[k]? = some s) (stopped : execute fuel s middle = .error stop after)
  /-- The output cannot be flushed behind the last statement. -/
  | flush (middle after : Machine) (last : k = program.length)
    (before : executeProgramBy .recorded fuel (program.take k) (m.knowing hops) = .ok () middle)
    (stopped : Machine.flush middle = .error stop after)

/-- Statements one after the other stop only where one of them does. -/
theorem exists_stopped {fuel : Nat} {program : Program} {m after : Machine} {stop : Stop}
    (h : executeProgramBy .recorded fuel program m = .error stop after) :
    ∃ k middle s, executeProgramBy .recorded fuel (program.take k) m = .ok () middle ∧
      program[k]? = some s ∧ execute fuel s middle = .error stop after := by
  induction program generalizing m with
  | nil => cases h
  | cons s rest ih =>
    change EStateM.bind (execute fuel s) _ m = _ at h
    unfold EStateM.bind at h
    split at h
    · rename_i flow middle hfirst
      obtain ⟨k, last, t, hbefore, hnext, hstopped⟩ := ih h
      refine ⟨k + 1, last, t, ?_, hnext, hstopped⟩
      change EStateM.bind (execute fuel s) _ m = _
      unfold EStateM.bind
      rw [hfirst]
      exact hbefore
    · rename_i stop' middle hfirst
      cases h
      exact ⟨0, m, s, rfl, rfl, hfirst⟩

/-- Statements one after the other stop where the first of them does that stops. -/
theorem executeProgramBy_stopped {fuel k : Nat} {program : Program} {m middle after : Machine}
    {s : Stmt} {stop : Stop}
    (hbefore : executeProgramBy .recorded fuel (program.take k) m = .ok () middle)
    (hnext : program[k]? = some s) (hstopped : execute fuel s middle = .error stop after) :
    executeProgramBy .recorded fuel program m = .error stop after := by
  obtain ⟨hk, rfl⟩ := List.getElem?_eq_some_iff.mp hnext
  rw [← List.take_append_drop k program, executeProgramBy_append, List.drop_eq_getElem_cons hk]
  change EStateM.bind _ _ m = _
  unfold EStateM.bind
  rw [hbefore]
  change EStateM.bind (execute fuel program[k]) _ middle = _
  unfold EStateM.bind
  rw [hstopped]

/-- From the outermost frame a run of a program learns its distances, executes its statements and
flushes the output. -/
theorem interpret_knowing {m : Machine} (hm : m.scope = m.globals) (fuel : Nat) (program : Program)
    (hops : Hops) :
    interpret fuel program hops m =
      EStateM.bind (executeProgramBy .recorded fuel program) (fun _ => flush) (m.knowing hops) :=
  interpret_eq hm fuel program hops

variable {m after : Machine} {fuel : Nat} {program : Program} {hops : Hops}

/-- A program that runs to its end adds the names that its statements declare. -/
theorem interpret_globalNames (hplain : ∀ s ∈ program, s.Plain) (hscope : m.scope = m.globals)
    (hglobals : m.globals < m.store.frames.size)
    (h : interpret fuel program hops m = .ok () after) :
    after.globalNames = m.globalNames ∪ Program.declaredNames program := by
  rw [interpret_knowing hscope] at h
  unfold EStateM.bind at h
  split at h
  · rename_i value middle hexecuted
    have hflush : flush middle = .ok () after := h
    have hsame := reached_flush middle
    rw [hflush] at hsame
    change after = middle at hsame
    rw [hsame]
    exact (executeProgramBy_adds fuel hplain (m := m.knowing hops) hscope hglobals hexecuted).1
  · cases h

/-- A program that does not run to its end stops behind some of its statements. -/
theorem exists_stopsAt (hscope : m.scope = m.globals) {stop : Stop}
    (h : interpret fuel program hops m = .error stop after) :
    ∃ k, StopsAt fuel program hops m k stop := by
  rw [interpret_knowing hscope] at h
  unfold EStateM.bind at h
  split at h
  · rename_i value middle hexecuted
    refine ⟨program.length, .flush middle after rfl ?_ h⟩
    rw [List.take_length]
    exact hexecuted
  · rename_i stop' middle hstopped
    cases h
    obtain ⟨k, before, s, hbefore, hnext, hs⟩ := exists_stopped hstopped
    exact ⟨k, .statement before after s hbefore hnext hs⟩

/-- A program that stops behind some of its statements adds the names that these declare. -/
theorem StopsAt.globalNames {k : Nat} {stop : Stop} (h : StopsAt fuel program hops m k stop)
    (hplain : ∀ s ∈ program, s.Plain) (hscope : m.scope = m.globals)
    (hglobals : m.globals < m.store.frames.size) :
    ∃ after, interpret fuel program hops m = .error stop after ∧
      after.globalNames = m.globalNames ∪ Program.declaredNames (program.take k) := by
  have hplain' : ∀ s ∈ program.take k, s.Plain := fun s hs => hplain s (List.mem_of_mem_take hs)
  rw [interpret_knowing hscope]
  unfold EStateM.bind
  cases h with
  | statement middle after s before next stopped =>
    obtain ⟨hnames, hmiddle, hsize⟩ :=
      executeProgramBy_adds fuel hplain' (m := m.knowing hops) hscope hglobals before
    rw [executeProgramBy_stopped before next stopped]
    refine ⟨after, rfl, ?_⟩
    have hs := hplain s (List.mem_of_getElem? next)
    rw [(execute_adds fuel hs hmiddle hsize).stopped stop after stopped]
    exact hnames
  | flush middle after last before stopped =>
    have hsame := reached_flush middle
    rw [stopped] at hsame
    change after = middle at hsame
    have hexecuted := before
    rw [last, List.take_length] at hexecuted
    rw [hexecuted]
    refine ⟨after, stopped, ?_⟩
    rw [hsame]
    exact (executeProgramBy_adds fuel hplain' (m := m.knowing hops) hscope hglobals before).1

end Machine

namespace Session

open Machine

variable {n m : Nat} {source : String} {program : Program} {hops : Hops}

/-- In a source that is let through no branch declares a name where it stands. -/
theorem analyse_plain (h : analyse n source = ⟨m, .ok (program, hops)⟩) :
    ∀ s ∈ program, s.Plain := by
  obtain ⟨horderly, -, -⟩ := analyse_places h
  exact fun s hs => Stmt.plain_of_shaped fun site hsite =>
    horderly.shaped site (Stmt.sites_subset hs hsite)

/-- In every session a source that is let through changes the names of the globals only by those
that its own statements declare. If it comes to its end, all of these are added. If it stops,
then behind some of its statements, and those that these declare are added. -/
theorem run_globalNames (sink : Sink) (clock : Clock) (history : List (Nat × String)) (fuel : Nat)
    (h : analyse ((start sink clock).runAll history).2.nextId source = ⟨m, .ok (program, hops)⟩) :
    let s := ((start sink clock).runAll history).2
    let ended := s.run fuel source
    (ended.1 = .ok → ended.2.machine.globalNames =
      s.machine.globalNames ∪ Program.declaredNames program) ∧
    (∀ k stop, StopsAt fuel program hops s.machine k stop →
      ended.1 = .ofStop stop ∧ ended.2.machine.globalNames =
        s.machine.globalNames ∪ Program.declaredNames (program.take k)) ∧
    (ended.1 ≠ .ok → ∃ k stop, StopsAt fuel program hops s.machine k stop) := by
  intro s ended
  have hplain := analyse_plain h
  have hscope : s.machine.scope = s.machine.globals := runAll_outermost rfl history
  have hglobals : s.machine.globals < s.machine.store.frames.size :=
    ((runAll_steps (s := start sink clock) rfl history).heap (rooted_start sink clock)).rooted.globals
  have hended : ended = Session.ended m (interpret fuel program hops s.machine) :=
    run_of_bound h fuel
  rw [hended]
  refine ⟨?_, ?_, ?_⟩
  · intro hok
    cases hresult : interpret fuel program hops s.machine with
    | ok value machine => exact interpret_globalNames hplain hscope hglobals hresult
    | error stop machine =>
      rw [hresult] at hok
      cases stop <;> cases hok
  · intro k stop hstops
    obtain ⟨machine, hresult, hnames⟩ := hstops.globalNames hplain hscope hglobals
    rw [hresult]
    exact ⟨rfl, hnames⟩
  · intro hok
    cases hresult : interpret fuel program hops s.machine with
    | ok value machine =>
      rw [hresult] at hok
      exact absurd rfl hok
    | error stop machine =>
      obtain ⟨k, hstops⟩ := exists_stopsAt hscope hresult
      exact ⟨k, stop, hstops⟩

/-- A source that declares a name, and then fails in a block behind a declaration there. -/
theorem run_globalNames_failing :
    let source := "var a;\x7bvar b;-a;\x7d"
    let program : Program := [.var ⟨.identifier, "a", none, 1⟩ none,
      .block [.var ⟨.identifier, "b", none, 1⟩ none,
        .expr (.unary 1 ⟨.minus, "-", none, 1⟩ (.var 0 ⟨.identifier, "a", none, 1⟩))]]
    analyse 0 source = ⟨2, .ok (program, {})⟩ ∧
      ((start {} {}).run 9 source).1 = .failed (.runtime 1 "Operand must be a number.") ∧
      ((start {} {}).run 9 source).2.machine.globalNames =
        (start {} {}).machine.globalNames ∪ {"a"} := by
  intro source program
  let a : Token := ⟨.identifier, "a", none, 1⟩
  let ts : List Token := [⟨.kwVar, "var", none, 1⟩, a, ⟨.semicolon, ";", none, 1⟩,
    ⟨.leftBrace, "\x7b", none, 1⟩, ⟨.kwVar, "var", none, 1⟩, ⟨.identifier, "b", none, 1⟩,
    ⟨.semicolon, ";", none, 1⟩, ⟨.minus, "-", none, 1⟩, a, ⟨.semicolon, ";", none, 1⟩,
    ⟨.rightBrace, "\x7d", none, 1⟩, Token.endAt 1]
  have hscan : (scan "var a;\x7bvar b;-a;\x7d").tokens = ts := rfl
  have herrors : (scan "var a;\x7bvar b;-a;\x7d").errors = [] := rfl
  have hparse : parse ts 0 = ⟨program, [], 2⟩ := by cbv
  have hlet : analyse 0 source = ⟨2, .ok (program, {})⟩ := by
    unfold analyse
    dsimp only
    rw [hscan, herrors, hparse]
    rfl
  have hseen : analyse ((start {} {}).runAll []).2.nextId source = ⟨2, .ok (program, {})⟩ := hlet
  have hstops : StopsAt 9 program {} (start {} {}).machine 1 (.fault ⟨1, .operandNotNumber⟩) :=
    .statement _ _ _ rfl rfl rfl
  obtain ⟨-, hnames, -⟩ := run_globalNames {} {} [] 9 hseen
  obtain ⟨houtcome, hglobals⟩ := hnames 1 _ hstops
  have hfirst : (Stmt.var a none).declared? = some a := rfl
  have hdeclared : Program.declaredNames (program.take 1) = {"a"} :=
    Program.declaredNames_of_some hfirst
  rw [hdeclared] at hglobals
  exact ⟨hlet, houtcome, hglobals⟩

end Session

end Scriptlet
