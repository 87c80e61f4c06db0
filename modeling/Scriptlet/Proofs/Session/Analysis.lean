import Scriptlet.Machine.Lemmas
import Scriptlet.Proofs.Binding.Settled
import Scriptlet.Proofs.Grammar.Acceptance
import Scriptlet.Session

/-!
# Sources without static failures

A source is let through exactly when its text falls into tokens, these can be
read as a program, and binding the program finds no violation. The program and
the next number are then those of the reading. Its places are orderly and
legal, so that learning its distances settles them.
-/

namespace Scriptlet.Session

open Binding Grammar

variable {n m : Nat} {source : String} {program : Program} {hops : Hops}

/-- Looking at a source never takes numbers back. -/
theorem le_analyse_nextId (n : Nat) (source : String) : n ≤ (analyse n source).nextId := by
  have hproper := tokensIn_proper 1 (Segment.split_proper source.toList)
  have hle : n ≤ (parse (scan source).tokens n).nextId := by
    rw [scan_tokens]
    exact le_parse_nextId n (fun t ht => (hproper t ht).1) rfl
  unfold analyse
  dsimp only
  split
  · exact hle
  · split <;> exact hle

/-- A source is let through exactly when every phase finds nothing to note. -/
theorem analyse_eq_ok_iff : analyse n source = ⟨m, .ok (program, hops)⟩ ↔
    (scan source).errors = [] ∧
      Reads .declarations n (tokensIn 1 (Segment.split source.toList)) (.stmts program) m ∧
      bindProgram program = ⟨hops, []⟩ := by
  have hproper := tokensIn_proper 1 (Segment.split_proper source.toList)
  have hts : ∀ t ∈ tokensIn 1 (Segment.split source.toList), t.kind ≠ .endOfFile :=
    fun t ht => (hproper t ht).1
  constructor
  · intro h
    unfold analyse at h
    dsimp only at h
    split at h
    · cases h
    rename_i hclean
    obtain ⟨hlexical, hgrammar⟩ := List.append_eq_nil_iff.mp (Decidable.not_not.mp hclean)
    split at h
    · cases h
    rename_i hbound
    simp only [Analysis.mk.injEq, Except.ok.injEq, Prod.mk.injEq] at h
    obtain ⟨rfl, rfl, rfl⟩ := h
    refine ⟨List.map_eq_nil_iff.mp hlexical, ?_, ?_⟩
    · have hreads := reads_of_parse hts rfl (List.map_eq_nil_iff.mp (scan_tokens source ▸ hgrammar))
      rw [scan_tokens]
      exact hreads
    · rw [← Decidable.not_not.mp hbound]
  · rintro ⟨hlexical, hreads, hbound⟩
    have hparse : parse (scan source).tokens n = ⟨program, [], m⟩ := by
      rw [scan_tokens]
      exact hreads.parse hts rfl
    unfold analyse
    dsimp only
    rw [hparse, hlexical]
    dsimp only
    rw [hbound]
    rfl

/-- A source that is let through has orderly and legal places, and its distances
are those of its uses. -/
theorem analyse_places (h : analyse n source = ⟨m, .ok (program, hops)⟩) :
    Orderly n m program.sites ∧ (∀ site ∈ program.sites, site.Legal) ∧
      hops = program.sites.foldl Site.record {} := by
  obtain ⟨-, hreads, hbound⟩ := analyse_eq_ok_iff.mp h
  have hproper := tokensIn_proper 1 (Segment.split_proper source.toList)
  have horderly : Orderly n m program.sites := hreads.orderly (fun t ht => (hproper t ht).2) []
  obtain ⟨hhops, hlegal⟩ := bindProgram_legal (congrArg Bound.errors hbound)
  rw [hbound] at hhops
  exact ⟨horderly, hlegal, hhops⟩

/-- Running a source that is let through settles its places. -/
theorem Settles.analyse {seen : List Site} {known : Hops} (hsettles : Settles seen known n)
    (h : analyse n source = ⟨m, .ok (program, hops)⟩) :
    Settles (seen ++ program.sites) (known.insertAll hops.entries) m := by
  obtain ⟨horderly, hlegal, rfl⟩ := analyse_places h
  exact hsettles.learn horderly hlegal

/-- A source with static failures leaves the machine alone, however names are looked up. -/
theorem runBy_of_refused {s : Session} {errors : List Diagnostic}
    (h : analyse s.nextId source = ⟨m, .error errors⟩) (names : Machine.Names) (fuel : Nat) :
    s.runBy names fuel source = (.refused errors, { s with nextId := m }) := by
  unfold runBy
  rw [h]

/-- A source with static failures leaves the machine alone. -/
theorem run_of_refused {s : Session} {errors : List Diagnostic}
    (h : analyse s.nextId source = ⟨m, .error errors⟩) (fuel : Nat) :
    s.run fuel source = (.refused errors, { s with nextId := m }) :=
  runBy_of_refused h .recorded fuel

/-- The outcome of a run of a program, and the session behind it. -/
def ended (m : Nat) : EStateM.Result Stop Machine Unit → Outcome × Session
  | .ok _ machine => (.ok, ⟨machine, m⟩)
  | .error stop machine => (.ofStop stop, ⟨machine, m⟩)

/-- A session has the machine that the run of its program left behind. -/
theorem ended_session (m : Nat) (result : EStateM.Result Stop Machine Unit) :
    (ended m result).2 = ⟨Machine.reached result, m⟩ := by
  cases result <;> rfl

/-- A source without static failures runs on the machine, however names are looked up. -/
theorem runBy_of_bound {s : Session} (h : analyse s.nextId source = ⟨m, .ok (program, hops)⟩)
    (names : Machine.Names) (fuel : Nat) :
    s.runBy names fuel source = ended m (Machine.interpretBy names fuel program hops s.machine) := by
  unfold runBy executeBy
  rw [h]
  rfl

/-- A source without static failures runs on the machine. -/
theorem run_of_bound {s : Session} (h : analyse s.nextId source = ⟨m, .ok (program, hops)⟩)
    (fuel : Nat) : s.run fuel source = ended m (Machine.interpret fuel program hops s.machine) :=
  runBy_of_bound h .recorded fuel

end Scriptlet.Session
