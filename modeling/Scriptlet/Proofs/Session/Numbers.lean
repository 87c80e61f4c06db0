import Scriptlet.Proofs.Grammar.Counting
import Scriptlet.Proofs.Machine.Scope

/-!
# Expression numbers in a session

The numbers of the expressions of one source are different, and no number occurs
in two sources. So the distances that are learned with a source are about its own
expressions, and those that it finds recorded later are the ones it came with. Of
the sources only those that are let through are learned.
-/

namespace Scriptlet.Session

open Binding Machine

/-- The program of a source and its distances, if it is let through. -/
def Analysis.bound? (seen : Analysis) : Option (Program × Hops) := seen.result.toOption

/-- The programs with their distances that are learned when sources run one after
the other. -/
def learnedOfAll : Session → List (Nat × String) → List (Program × Hops)
  | _, [] => []
  | s, (fuel, source) :: rest =>
    (analyse s.nextId source).bound?.toList ++ learnedOfAll (s.run fuel source).2 rest

variable {n m : Nat} {source : String} {program : Program} {hops : Hops}

/-- The expressions of a source that is let through have its numbers. -/
theorem analyse_spread (h : analyse n source = ⟨m, .ok (program, hops)⟩) :
    Spread n m (Stmt.exprsOfAll program) := by
  obtain ⟨-, hreads, -⟩ := analyse_eq_ok_iff.mp h
  have hproper := tokensIn_proper 1 (Segment.split_proper source.toList)
  have hparse : parse (tokensIn 1 (Segment.split source.toList) ++ [Token.endAt 1]) n =
      ⟨program, [], m⟩ := hreads.parse (fun t ht => (hproper t ht).1) rfl
  have hspread := Grammar.parse_spread
    (tokensIn 1 (Segment.split source.toList) ++ [Token.endAt 1]) n
  rw [hparse] at hspread
  exact hspread

/-- Orderly places record distances only at their numbers. -/
theorem contains_foldl_record {sites : List Site} (h : Orderly n m sites) {id : Nat}
    (hcontains : Table.contains (sites.foldl Site.record {}) id = true) : n ≤ id ∧ id < m := by
  refine Decidable.byContradiction fun hout => ?_
  have hnot : id ∉ sites.filterMap Site.id? := fun hmem => hout (h.range id hmem)
  have hnone := get?_foldl_record_of_not_mem {} hnot
  unfold Table.contains at hcontains
  rw [hnone] at hcontains
  cases hcontains

/-- Distances are recorded only for the numbers of their source, each once. -/
theorem analyse_hops (h : analyse n source = ⟨m, .ok (program, hops)⟩) :
    hops.Wellformed ∧ ∀ id, hops.contains id = true → n ≤ id ∧ id < m := by
  obtain ⟨horderly, -, rfl⟩ := analyse_places h
  exact ⟨wellformed_foldl_record Table.wellformed_empty, fun _ => contains_foldl_record horderly⟩

/-- Running a program with its distances adds those to the recorded ones, however it ends. -/
theorem hops_interpret (fuel : Nat) (program : Program) (hops : Hops) (m : Machine) :
    (reached (interpret fuel program hops m)).hops = m.hops.insertAll hops.entries := by
  have hprogram := (executeProgramBy_goes .recorded fuel program
    { m with hops := m.hops.insertAll hops.entries }).rest.1
  change (reached (EStateM.bind (backToGlobals (executeProgramBy .recorded fuel program))
    (fun _ => flush) { m with hops := m.hops.insertAll hops.entries })).hops = _
  unfold EStateM.bind backToGlobals
  revert hprogram
  cases executeProgramBy .recorded fuel program
    { m with hops := m.hops.insertAll hops.entries } with
  | ok _ after =>
    intro hafter
    dsimp only
    rw [reached_flush]
    exact hafter
  | error stop after => exact id

/-- The recorded distances behind a source, and the number of the next expression. -/
theorem run_learns (s : Session) (fuel : Nat) (source : String) :
    (s.run fuel source).2.nextId = (analyse s.nextId source).nextId ∧
      (s.run fuel source).2.machine.hops = match (analyse s.nextId source).bound? with
        | none => s.machine.hops
        | some bound => s.machine.hops.insertAll bound.2.entries := by
  unfold Analysis.bound?
  cases hseen : analyse s.nextId source with
  | mk m result =>
  cases result with
  | error errors =>
    rw [run_of_refused hseen]
    exact ⟨rfl, rfl⟩
  | ok bound =>
    obtain ⟨program, hops⟩ := bound
    have hhops := hops_interpret fuel program hops s.machine
    rw [run_of_bound hseen]
    revert hhops
    cases interpret fuel program hops s.machine <;> exact fun hhops => ⟨rfl, hhops⟩

/-- What is learned with a source that is let through: its distances at its own
numbers, and nothing at the numbers before them. -/
theorem run_get? {s : Session} (hfree : ∀ id, s.nextId ≤ id → s.machine.hops.get? id = none)
    (fuel : Nat) (h : analyse s.nextId source = ⟨m, .ok (program, hops)⟩) :
    (∀ id, id < s.nextId → (s.run fuel source).2.machine.hops.get? id = s.machine.hops.get? id) ∧
      ∀ id, s.nextId ≤ id → (s.run fuel source).2.machine.hops.get? id = hops.get? id := by
  obtain ⟨hwell, hrange⟩ := analyse_hops h
  have hlearns := (run_learns s fuel source).2
  rw [h] at hlearns
  have hget : ∀ id, (s.run fuel source).2.machine.hops.get? id =
      (hops.get? id).or (s.machine.hops.get? id) := by
    intro id
    rw [hlearns]
    exact hwell.get?_insertAll s.machine.hops id
  constructor
  · intro id hid
    have hnone : hops.get? id = none := Table.get?_eq_none (mt (hrange id) (by omega))
    rw [hget, hnone, Option.none_or]
  · intro id hid
    rw [hget, hfree id hid, Option.or_none]

/-- No distance is recorded behind a source for a number that is still free. -/
theorem run_fresh {s : Session} (hfree : ∀ id, s.nextId ≤ id → s.machine.hops.get? id = none)
    (fuel : Nat) (source : String) :
    ∀ id, (s.run fuel source).2.nextId ≤ id →
      (s.run fuel source).2.machine.hops.get? id = none := by
  intro id hid
  obtain ⟨hnext, hhops⟩ := run_learns s fuel source
  have hle := le_analyse_nextId s.nextId source
  rw [hnext] at hid
  cases hseen : analyse s.nextId source with
  | mk m result =>
  rw [hseen] at hhops hid hle
  dsimp only at hid hle
  cases result with
  | error errors =>
    rw [hhops]
    exact hfree id (by omega)
  | ok bound =>
    obtain ⟨program, hops⟩ := bound
    obtain ⟨-, hrange⟩ := analyse_hops hseen
    obtain ⟨-, hlearned⟩ := run_get? hfree fuel hseen
    rw [hlearned id (by omega)]
    exact Table.get?_eq_none (mt (hrange id) (by omega))

/-- Sources one after the other: what was recorded stays, what is learned has new
numbers, no number has two distances, and each expression keeps its own. -/
theorem learnedOfAll_apart {s : Session}
    (hfree : ∀ id, s.nextId ≤ id → s.machine.hops.get? id = none) (runs : List (Nat × String)) :
    let learned := learnedOfAll s runs
    let last := (s.runAll runs).2.machine.hops
    (∀ id, id < s.nextId → last.get? id = s.machine.hops.get? id) ∧
      (∀ run ∈ learned, ∀ id, run.2.contains id = true → s.nextId ≤ id) ∧
      learned.Pairwise (fun a b => ∀ id, a.2.contains id = true → b.2.contains id = false) ∧
      ∀ run ∈ learned, ∀ e ∈ Stmt.exprsOfAll run.1, last.get? e.id = run.2.get? e.id := by
  induction runs generalizing s with
  | nil =>
    exact ⟨fun _ _ => rfl, fun _ hmem => absurd hmem List.not_mem_nil, .nil,
      fun _ hmem => absurd hmem List.not_mem_nil⟩
  | cons first rest ih =>
    obtain ⟨fuel, source⟩ := first
    obtain ⟨hnext, hhops⟩ := run_learns s fuel source
    have hle := le_analyse_nextId s.nextId source
    unfold learnedOfAll runAll
    cases hseen : analyse s.nextId source with
    | mk m result =>
    rw [hseen] at hnext hhops hle
    dsimp only at hnext hle
    cases result with
    | error errors =>
      have hsame : (s.run fuel source).2.machine.hops = s.machine.hops := hhops
      obtain ⟨hold, hnew, hapart, hown⟩ := ih (run_fresh hfree fuel source)
      refine ⟨?_, ?_, hapart, hown⟩
      · intro id hid
        rw [← hsame]
        exact hold id (by omega)
      · intro run hrun id hid
        have := hnew run hrun id hid
        omega
    | ok bound =>
      obtain ⟨program, hops⟩ := bound
      have hspread := analyse_spread hseen
      obtain ⟨-, hrange⟩ := analyse_hops hseen
      obtain ⟨hkept, hlearned⟩ := run_get? hfree fuel hseen
      obtain ⟨hold, hnew, hapart, hown⟩ := ih (run_fresh hfree fuel source)
      refine ⟨?_, ?_, ?_, ?_⟩
      · intro id hid
        exact (hold id (by omega)).trans (hkept id hid)
      · intro run hrun id hid
        rcases List.mem_cons.mp hrun with rfl | hrun
        · exact (hrange id hid).1
        · have := hnew run hrun id hid
          omega
      · refine List.pairwise_cons.mpr ⟨?_, hapart⟩
        intro run hrun id hid
        rw [Bool.eq_false_iff]
        intro hcontains
        have hlow := hnew run hrun id hcontains
        have hhigh := (hrange id hid).2
        omega
      · intro run hrun e he
        rcases List.mem_cons.mp hrun with rfl | hrun
        · have hid := hspread.range e he
          exact (hold e.id (by omega)).trans (hlearned e.id hid.1)
        · exact hown run hrun e he

/-- Expression numbers are unique for the life of a session. Whatever the tokens are,
and whether or not they can be read, the expressions of the statements that were
read have different numbers among those handed out, ascending in each expression
from its parts to itself. So whatever sources run one after the other, no two that
are let through have a distance for one number, and the distance recorded in the
end for an expression is the one that its own source came with, or none. -/
theorem expression_numbers_unique :
    (∀ tokens n,
      let parsed := parse tokens n
      let exprs := Stmt.exprsOfAll parsed.program
      (exprs.map Expr.id).Nodup ∧
        ∀ e ∈ exprs, n ≤ e.id ∧ e.id < parsed.nextId ∧ e.numbers.Pairwise (· < ·)) ∧
    ∀ sink clock runs,
      let learned := learnedOfAll (start sink clock) runs
      let last := ((start sink clock).runAll runs).2.machine.hops
      learned.Pairwise (fun a b => ∀ id, a.2.contains id = true → b.2.contains id = false) ∧
        ∀ run ∈ learned, ∀ e ∈ Stmt.exprsOfAll run.1, last.get? e.id = run.2.get? e.id := by
  constructor
  · intro tokens n parsed exprs
    have hspread := Grammar.parse_spread tokens n
    refine ⟨hspread.nodup, fun e he => ?_⟩
    have hrange := hspread.range e he
    exact ⟨hrange.1, hrange.2, hspread.sorted e he⟩
  · intro sink clock runs learned last
    have hall := learnedOfAll_apart (s := start sink clock) (fun _ _ => rfl) runs
    exact ⟨hall.2.2.1, hall.2.2.2⟩

end Scriptlet.Session
