import Scriptlet.Proofs.Lexical.Simulation
import Scriptlet.Proofs.Session.Runs

/-!
# Sessions under lexical scoping

A session and a session under lexical scoping that start alike stay alike from
source to source: whatever the sources are, they have the same outcomes and
print the same bytes, and no access to a name sets off the watch.
-/

namespace Scriptlet.Lexical

open Binding Machine

variable {seen : List Site} {hops : Hops} {p : Pairing}

/-- The statements of a program go side by side at the top level. -/
theorem Stands.program (hsettled : ∀ site ∈ seen, site.Settled hops) (alarm : Stop) (fuel : Nat)
    (program : Program) (h : Stands seen hops none [] p)
    (hsites : Stmt.sitesOfAll [] program ⊆ seen) :
    Follows seen hops p (Machine.executeProgramBy .recorded fuel program)
      (Machine.executeProgramBy (.watched seen alarm) fuel program) (executeProgram fuel program)
      fun _ q => Stands seen hops none [] q := by
  induction program generalizing p with
  | nil => exact .pure h
  | cons s rest ih =>
    obtain ⟨hfirst, hrest⟩ := List.append_subset.mp hsites
    rw [Stmt.scopesAfter_nil] at hrest
    refine ((evaluates_and_executes hsettled alarm fuel).2 [] s p h hfirst).bind ?_
    rintro _ q ⟨hstands, -⟩
    rw [Stmt.scopesAfter_nil] at hstands
    exact ih hstands hrest

/-- How two runs of one program end: with the same outcome, back at the top level. -/
def EndsOutside (seen : List Site) (hops : Hops) :
    EStateM.Result Stop Scriptlet.Machine Unit → EStateM.Result Stop State Unit → Prop
  | .ok _ m, .ok _ r => ∃ layout, Stands seen hops none [] ⟨layout, m, r⟩
  | .error stop m, .error stop' r =>
    stop' = stop ∧ ∃ layout, Stands seen hops none [] ⟨layout, m, r⟩
  | .ok _ _, .error _ _ => False
  | .error _ _, .ok _ _ => False

/-- Back at the top level, however the statements of a program have ended. -/
theorem Stands.backToGlobals {plain watched : Scriptlet.Run Unit} {lexical : Run Unit}
    (h : Stands seen hops none [] p)
    (hfollows : Follows seen hops p plain watched lexical fun _ q => Stands seen hops none [] q) :
    Machine.backToGlobals watched p.machine = Machine.backToGlobals plain p.machine ∧
      EndsOutside seen hops (Machine.backToGlobals plain p.machine)
        (Lexical.within none lexical p.state) := by
  obtain ⟨hwatch, hends⟩ := hfollows
  have henv : p.state.env = none := h.lies.outermost.2
  have hstate : { p.state with env := none } = p.state := by rw [← henv]
  unfold Machine.backToGlobals Lexical.within
  rw [hwatch, hstate, henv]
  refine ⟨rfl, ?_⟩
  revert hends
  cases plain p.machine with
  | ok _ m =>
    cases lexical p.state with
    | ok _ r =>
      rintro ⟨-, layout, hstands⟩
      have hnone : r.env = none := hstands.lies.outermost.2
      have hsame : { r with env := none } = r := by rw [← hnone]
      refine ⟨layout, ?_⟩
      rw [hsame]
      exact hstands
    | error stop r => exact id
  | error stop m =>
    cases lexical p.state with
    | ok _ r => exact id
    | error stop' r =>
      rintro ⟨hstop, layout, hagrees⟩
      exact ⟨hstop, layout, Stands.outside hagrees⟩

/-- Flushing keeps both sides alike. -/
theorem Stands.flush (h : Stands seen hops none [] p) :
    EndsOutside seen hops (Machine.flush p.machine) (Lexical.flush p.state) := by
  unfold Machine.flush Lexical.flush
  rw [h.agrees.sink]
  cases p.machine.sink.flush with
  | none => exact ⟨p.layout, h⟩
  | some f => exact ⟨rfl, p.layout, h⟩

/-- A program is run alike from a place at the top level where its distances have
been learned. -/
theorem Stands.interpret (hsettled : ∀ site ∈ seen, site.Settled hops) (alarm : Stop) (fuel : Nat)
    (program : Program) {m : Scriptlet.Machine} {r : State} {layout : Layout} (known : Hops)
    (h : Stands seen hops none []
      ⟨layout, { m with hops := m.hops.insertAll known.entries }, r⟩)
    (hsites : program.sites ⊆ seen) :
    Machine.interpretBy (.watched seen alarm) fuel program known m =
        Machine.interpretBy .recorded fuel program known m ∧
      EndsOutside seen hops (Machine.interpretBy .recorded fuel program known m)
        (Lexical.interpret fuel program r) := by
  obtain ⟨hwatch, hends⟩ := h.backToGlobals (h.program hsettled alarm fuel program hsites)
  have hmachine : ∀ names : Names, Machine.interpretBy names fuel program known m =
      EStateM.bind (Machine.backToGlobals (Machine.executeProgramBy names fuel program))
        (fun _ => Machine.flush) { m with hops := m.hops.insertAll known.entries } := fun _ => rfl
  have hstate : Lexical.interpret fuel program r =
      EStateM.bind (Lexical.within none (executeProgram fuel program))
        (fun _ => Lexical.flush) r := rfl
  rw [hmachine, hmachine, hstate]
  unfold EStateM.bind
  rw [hwatch]
  refine ⟨rfl, ?_⟩
  revert hends
  dsimp only
  generalize Machine.backToGlobals (Machine.executeProgramBy .recorded fuel program)
    { m with hops := m.hops.insertAll known.entries } = result
  cases result with
  | ok _ after =>
    cases Lexical.within none (executeProgram fuel program) r with
    | ok _ after' =>
      rintro ⟨layout', hstands⟩
      exact hstands.flush
    | error stop after' => exact fun hends => hends.elim
  | error stop after =>
    cases Lexical.within none (executeProgram fuel program) r with
    | ok _ after' => exact fun hends => hends.elim
    | error stop' after' => exact id

/-- Two sessions are alike when their machine and state stand together at the top
level and the next number is the same. -/
structure Together (seen : List Site) (s : Scriptlet.Session) (t : Session) : Prop where
  /-- Machine and state stand together. -/
  stands : ∃ layout, Stands seen s.machine.hops none [] ⟨layout, s.machine, t.state⟩
  /-- What the sources so far have settled. -/
  settles : Settles seen s.machine.hops s.nextId
  /-- The next number is the same. -/
  nextId : t.nextId = s.nextId

/-- Machine and state agree before the first source. -/
theorem agrees_start (sink : Sink) (clock : Clock) :
    Agrees [] {} ⟨[], Scriptlet.Machine.start sink clock, State.start sink clock⟩ where
  distances := rfl
  cells := rfl
  values := by
    intro location frame name hplace
    cases hplace
  distinct := List.nodup_nil
  placed := by
    intro frame name hmem
    cases hmem
  listed := by
    intro frame name hne hbinds
    have hout : (Scriptlet.Machine.start sink clock).store.frames[frame]? = none :=
      Array.getElem?_eq_none (Nat.pos_of_ne_zero hne)
    unfold Store.binds Store.local? at hbinds
    rw [hout] at hbinds
    cases hbinds
  exists_globals := Nat.one_pos
  outermost := rfl
  globals := fun _ => rfl
  functions := ⟨rfl, fun i a b ha => by cases ha⟩
  classes := ⟨rfl, fun i a b ha => by cases ha⟩
  objects := rfl
  sink := rfl
  clock := rfl

/-- Sessions start alike. -/
theorem Together.start (sink : Sink) (clock : Clock) :
    Together [] (Scriptlet.Session.start sink clock) (Session.start sink clock) where
  stands := ⟨[], Stands.outside (agrees_start sink clock)⟩
  settles := .start
  nextId := rfl

/-- Sessions are alike when machine and state stand together at the top level. -/
theorem Together.of_stands {layout : Layout} {m : Scriptlet.Machine} {r : State} {n : Nat}
    (h : Stands seen hops none [] ⟨layout, m, r⟩) (hsettles : Settles seen hops n) :
    Together seen ⟨m, n⟩ ⟨r, n⟩ := by
  have hhops : m.hops = hops := h.agrees.distances
  subst hhops
  exact ⟨⟨layout, h⟩, hsettles, rfl⟩

/-- A source keeps sessions alike: it has the same outcome in both, and does not set
off the watch. -/
theorem Together.run {s : Scriptlet.Session} {t : Session} (h : Together seen s t)
    (fuel : Nat) (source : String) :
    (t.run fuel source).1 = (s.run fuel source).1 ∧
      (∀ alarm, s.runBy (.watched (seen ++ (Scriptlet.Session.analyse s.nextId source).places) alarm)
        fuel source = s.run fuel source) ∧
      Together (seen ++ (Scriptlet.Session.analyse s.nextId source).places) (s.run fuel source).2
        (t.run fuel source).2 := by
  obtain ⟨⟨layout, hstands⟩, hsettles, hnext⟩ := h
  have hle := Scriptlet.Session.le_analyse_nextId s.nextId source
  unfold Scriptlet.Session.run Scriptlet.Session.runBy Session.run
  rw [hnext]
  cases hanalyse : Scriptlet.Session.analyse s.nextId source with
  | mk m result =>
  rw [hanalyse] at hle
  cases result with
  | error errors =>
    dsimp only [Scriptlet.Session.Analysis.places]
    rw [List.append_nil]
    exact ⟨rfl, fun _ => rfl, ⟨layout, hstands⟩, hsettles.skip hle, rfl⟩
  | ok bound =>
    obtain ⟨program, known⟩ := bound
    have hsettles' := Scriptlet.Session.Settles.analyse hsettles hanalyse
    have hstands' : Stands (seen ++ program.sites) (s.machine.hops.insertAll known.entries) none []
        ⟨layout, { s.machine with hops := s.machine.hops.insertAll known.entries }, t.state⟩ :=
      ⟨hstands.agrees.learn (List.subset_append_left _ _) _, hstands.lies, hstands.exact⟩
    have hinterpret := fun alarm => hstands'.interpret hsettles'.settled alarm fuel program known
      (List.subset_append_right _ _)
    have hwatch := fun alarm => (hinterpret alarm).1
    have hends := (hinterpret .exhausted).2
    dsimp only [Scriptlet.Session.Analysis.places, Scriptlet.Session.executeBy]
    rw [and_left_comm]
    refine ⟨fun alarm => by rw [hwatch alarm], ?_⟩
    revert hends
    cases Machine.interpretBy .recorded fuel program known s.machine with
    | ok _ after =>
      cases Lexical.interpret fuel program t.state with
      | ok _ after' =>
        rintro ⟨layout', hafter⟩
        exact ⟨rfl, .of_stands hafter hsettles'⟩
      | error stop after' => exact fun hends => hends.elim
    | error stop after =>
      cases Lexical.interpret fuel program t.state with
      | ok _ after' => exact fun hends => hends.elim
      | error stop' after' =>
        rintro ⟨rfl, layout', hafter⟩
        exact ⟨rfl, .of_stands hafter hsettles'⟩

/-- Run sources one after the other, each with its fuel: the outcomes in order, and
the session behind the last source. -/
def Session.runAll : Session → List (Nat × String) → List Outcome × Session
  | t, [] => ([], t)
  | t, (fuel, source) :: rest =>
    let first := t.run fuel source
    let others := Session.runAll first.2 rest
    (first.1 :: others.1, others.2)

/-- Sources one after the other keep sessions alike. -/
theorem Together.runAll {s : Scriptlet.Session} {t : Session} (h : Together seen s t)
    (runs : List (Nat × String)) :
    (t.runAll runs).1 = (s.runAll runs).1 ∧
      Together (seen ++ Scriptlet.Session.placesOfAll s runs) (s.runAll runs).2
        (t.runAll runs).2 := by
  induction runs generalizing seen s t with
  | nil =>
    refine ⟨rfl, ?_⟩
    unfold Scriptlet.Session.placesOfAll
    rw [List.append_nil]
    exact h
  | cons first rest ih =>
    obtain ⟨fuel, source⟩ := first
    obtain ⟨houtcome, -, hafter⟩ := h.run fuel source
    obtain ⟨houtcomes, hlast⟩ := ih hafter
    unfold Session.runAll Scriptlet.Session.runAll Scriptlet.Session.placesOfAll
    dsimp only
    rw [← List.append_assoc, houtcome, houtcomes]
    exact ⟨rfl, hlast⟩

/-- Names at recorded distances mean what they mean under lexical scoping: whatever
sources are run one after the other, with whatever fuel, the outcomes and the
bytes printed are the same, and the same sources come to an end. -/
theorem runAll_lexical (sink : Sink) (clock : Clock) (runs : List (Nat × String)) :
    ((Scriptlet.Session.start sink clock).runAll runs).1 =
        ((Session.start sink clock).runAll runs).1 ∧
      ((Scriptlet.Session.start sink clock).runAll runs).2.machine.sink =
        ((Session.start sink clock).runAll runs).2.state.sink ∧
      ∀ source,
        (∃ fuel, (((Scriptlet.Session.start sink clock).runAll runs).2.run fuel source).1 ≠
          .unfinished) ↔
        ∃ fuel, (((Session.start sink clock).runAll runs).2.run fuel source).1 ≠ .unfinished := by
  obtain ⟨houtcomes, htogether⟩ := (Together.start sink clock).runAll runs
  obtain ⟨layout, hstands⟩ := htogether.stands
  refine ⟨houtcomes.symm, hstands.agrees.sink.symm, ?_⟩
  intro source
  refine exists_congr fun fuel => ?_
  rw [(htogether.run fuel source).1]

end Scriptlet.Lexical

namespace Scriptlet.Session

open Binding Machine

/-- Recorded distances match the links at run time: whatever sources have been run,
no access of the next one sets off the watch. The numbers under which distances
are recorded belong to one place each, and there they are the distances in the
scopes that are open. So a name with a recorded distance is never found
undefined, unless it is assigned in its own initial value. -/
theorem runBy_watched (sink : Sink) (clock : Clock) (runs : List (Nat × String)) (fuel : Nat)
    (source : String) :
    let s := ((start sink clock).runAll runs).2
    let seen := placesOfAll (start sink clock) runs ++ (analyse s.nextId source).places
    (∀ alarm, s.runBy (.watched seen alarm) fuel source = s.run fuel source) ∧
      (seen.filterMap Site.id?).Nodup ∧
      (∀ site ∈ seen, site.Recorded (s.run fuel source).2.machine.hops) ∧
      ∀ (m : Machine) id name d, m.hops.get? id = some d →
        (Lawful seen m id name false → ∃ value, readName id name m = .ok value m) ∧
        ∀ value, Lawful seen m id name true → (∃ after, writeName id name value m = .ok () after) ∨
          ∃ site ∈ seen, site.uses id name true = true ∧ isPending site.scopes name.lexeme = true := by
  intro s seen
  obtain ⟨-, htogether⟩ := (Lexical.Together.start sink clock).runAll runs
  obtain ⟨-, hwatch, hafter⟩ := htogether.run fuel source
  refine ⟨hwatch, hafter.settles.nodup, ?_, ?_⟩
  · intro site hsite
    exact (hafter.settles.settled site hsite).recorded
  · intro m id name d hd
    exact ⟨fun hlawful => readName_of_lawful hlawful hd,
      fun value hlawful => writeName_of_lawful hlawful hd value⟩

end Scriptlet.Session
