import Scriptlet.Proofs.Session.Refused
import Scriptlet.Proofs.Source.Joined

/-!
# Line by line or all at once

Two sources run one after the other do what they do when they are joined at a line
break and run as one. Each phase goes over the joined source part by part: the
tokens of the second part only stand some lines later, no declaration begins with
what could prolong the one before it, the numbers of expressions go on where the
first part ended, no scope is open between statements of the top level, and the
distances of both parts, learned together, are the same as learned in turn.
-/

namespace Scriptlet

namespace Grammar

/-- Declarations that follow others are read on from the number at which those end. -/
theorem Reads.append {n m k : Nat} {ts us : List Token} {p q : Program}
    (h : Reads .declarations n ts (.stmts p) m) (hothers : Reads .declarations m us (.stmts q) k) :
    Reads .declarations n (ts ++ us) (.stmts (p ++ q)) k := by
  induction p generalizing n ts with
  | nil =>
    cases h
    exact hothers
  | cons s rest ih =>
    cases h with
    | declarationsMore first others =>
      rw [List.append_assoc]
      exact .declarationsMore first (ih others)

/-- What can be read can be read from another number and on other lines. -/
theorem Reads.alike {K : Likeness} {n m : Nat} {ts ts' : List Token} {p : Program}
    (h : Reads .declarations n ts (.stmts p) m) (hts : ∀ t ∈ ts, t.kind ≠ .endOfFile)
    (halike : Token.AllAlike K ts ts') {line line' : Nat} (hline : K.lines line line') (n' : Nat) :
    ∃ p' m', Reads .declarations n' ts' (.stmts p') m' ∧
      Stmt.AllAlike (.handedOut K.lines n n' m) p p' ∧ m + n' = m' + n := by
  have hstop : (Token.endAt line).Alike K (Token.endAt line') := ⟨rfl, rfl, rfl, hline⟩
  have hall := List.rel_append halike (.cons hstop .nil)
  have hts' : ∀ t ∈ ts', t.kind ≠ .endOfFile := by
    intro t' ht'
    obtain ⟨t, ht, hkind⟩ : ∃ t ∈ ts, t.kind = t'.kind := by
      clear h hts hall
      induction halike with
      | nil => exact absurd ht' List.not_mem_nil
      | @cons t _ ts _ first _ ih =>
        rcases List.mem_cons.mp ht' with rfl | ht'
        · exact ⟨t, List.mem_cons_self, first.kind⟩
        · obtain ⟨t, ht, hkind⟩ := ih ht'
          exact ⟨t, List.mem_cons_of_mem _ ht, hkind⟩
    rw [← hkind]
    exact hts t ht
  have hend : ∃ t ∈ ts ++ [Token.endAt line], t.isEnd = true :=
    ⟨_, List.mem_append_right _ List.mem_cons_self, rfl⟩
  obtain ⟨hprogram, herrors, hnumbers⟩ := parse_handedOut hall hend n n'
  rw [h.parse hts rfl] at hprogram herrors hnumbers
  have hclean := (List.forall₂_nil_left_iff.mp herrors : _ = [])
  exact ⟨_, _, reads_of_parse hts' rfl hclean, hprogram, hnumbers⟩

end Grammar

namespace Binding

/-- What places add to the recorded distances does not depend on those that were
recorded before, and is found before them. -/
theorem get?_foldl_record (sites : List Site) (hops : Hops) (id : Nat) :
    (sites.foldl Site.record hops).get? id =
      ((sites.foldl Site.record {}).get? id).or (hops.get? id) := by
  have hone : ∀ (site : Site) (hops : Hops),
      (site.record hops).get? id = ((site.record {}).get? id).or (hops.get? id) := by
    intro site hops
    unfold Site.record
    split
    · split
      · rw [Table.get?_insert, Table.get?_insert]
        split <;> rfl
      · rfl
    · rfl
    · rfl
  induction sites generalizing hops with
  | nil => rfl
  | cons site rest ih =>
    rw [List.foldl_cons, List.foldl_cons, ih, ih (site.record {}), hone, Option.or_assoc]

/-- At the top level statements open no scope. -/
theorem scopesAfterAll_nil (program : Program) : Stmt.scopesAfterAll [] program = [] := by
  induction program with
  | nil => rfl
  | cons s rest ih =>
    change Stmt.scopesAfterAll (s.scopesAfter []) rest = []
    rw [Stmt.scopesAfter_nil]
    exact ih

/-- Walking over statements that follow others. -/
theorem walkStmts_append (ctx : Context) (w : Walk) (p q : List Stmt) :
    walkStmts ctx w (p ++ q) = walkStmts ctx (walkStmts ctx w p) q := by
  induction p generalizing w with
  | nil => rfl
  | cons s rest ih => exact ih (walkStmt ctx w s)

/-- Binding statements that follow others notes the violations of both, and records
the distances of both. -/
theorem bindProgram_append (p q : Program) :
    (bindProgram (p ++ q)).errors = (bindProgram p).errors ++ (bindProgram q).errors ∧
      ∀ id, (bindProgram (p ++ q)).hops.get? id =
        ((bindProgram q).hops.get? id).or ((bindProgram p).hops.get? id) := by
  obtain ⟨places, found, hp, -⟩ := walkStmts_walks Context.Sees.outermost p
  obtain ⟨places', found', hq, -⟩ := walkStmts_walks Context.Sees.outermost q
  rw [scopesAfterAll_nil] at hp hq
  have hfirst : walkStmts {} {} p = ⟨[], places.foldl Site.record {}, found⟩ := hp {} []
  have hsecond : walkStmts {} {} q = ⟨[], places'.foldl Site.record {}, found'⟩ := hq {} []
  have hboth : walkStmts {} {} (p ++ q) =
      ⟨[], places'.foldl Site.record (places.foldl Site.record {}), found ++ found'⟩ := by
    rw [walkStmts_append, hfirst]
    exact hq _ _
  unfold bindProgram
  rw [hfirst, hsecond, hboth]
  exact ⟨rfl, get?_foldl_record places' _⟩

end Binding

namespace Machine

/-- Executing statements that follow others. -/
theorem executeProgramBy_append (names : Names) (fuel : Nat) (p q : Program) :
    executeProgramBy names fuel (p ++ q) =
      (executeProgramBy names fuel p >>= fun _ => executeProgramBy names fuel q) := by
  induction p with
  | nil => rfl
  | cons s rest ih =>
    rw [List.cons_append, executeProgramBy, executeProgramBy, bind_assoc, ih]

/-- Coming back behind one action after another is coming back behind each of them. -/
theorem backToGlobals_bind {α β : Type} (first : Run β) (next : β → Run α) :
    backToGlobals (first >>= next) =
      (backToGlobals first >>= fun b => backToGlobals (next b)) := by
  funext m
  change backToGlobals (EStateM.bind first next) m = EStateM.bind (backToGlobals first) _ m
  simp only [EStateM.bind, backToGlobals]
  cases first m <;> rfl

/-- Executing a program changes neither the recorded distances nor whether the output
can be flushed. -/
theorem backToGlobals_keeps (fuel : Nat) (program : Program) (m : Machine) :
    let after := reached (backToGlobals (executeProgramBy .recorded fuel program) m)
    after.hops = m.hops ∧ after.sink.flush = m.sink.flush := by
  have hsteps := executeProgramBy_goes .recorded fuel program m
  have hkept := And.intro hsteps.rest.1 hsteps.rest.2.2.2
  unfold backToGlobals
  revert hkept
  cases executeProgramBy .recorded fuel program m <;> exact id

/-- A machine that has learned the distances of a program. -/
def knowing (m : Machine) (hops : Hops) : Machine :=
  { m with hops := m.hops.insertAll hops.entries }

/-- Distances that are those of two programs together are learned with the same effect
as those of the one and then those of the other. -/
theorem get?_knowing {hops others merged : Hops} (hhops : hops.Wellformed)
    (hothers : others.Wellformed) (hmerged : merged.Wellformed)
    (h : ∀ id, merged.get? id = (others.get? id).or (hops.get? id)) (m : Machine) (id : Nat) :
    (m.knowing merged).hops.get? id = ((m.knowing hops).knowing others).hops.get? id := by
  unfold knowing
  rw [hmerged.get?_insertAll, hothers.get?_insertAll, hhops.get?_insertAll, h, Option.or_assoc]

/-- Distances that are learned change nothing at the numbers that they are not about. -/
theorem get?_knowing_of_not_contains {others : Hops} (hothers : others.Wellformed) {id : Nat}
    (h : ¬ others.contains id = true) (m : Machine) :
    (m.knowing others).hops.get? id = m.hops.get? id := by
  unfold knowing
  rw [hothers.get?_insertAll, Table.get?_eq_none h, Option.none_or]

/-- Where the output can be flushed, running a program is learning its distances and
executing it. -/
theorem interpret_of_flush {m : Machine} (h : m.sink.flush = none) (fuel : Nat) (program : Program)
    (hops : Hops) :
    interpret fuel program hops m =
      backToGlobals (executeProgramBy .recorded fuel program) (m.knowing hops) := by
  have hkept := (backToGlobals_keeps fuel program (m.knowing hops)).2
  change EStateM.bind (backToGlobals _) (fun _ => flush) (m.knowing hops) = _
  unfold EStateM.bind
  revert hkept
  cases backToGlobals (executeProgramBy .recorded fuel program) (m.knowing hops) with
  | error stop after => exact fun _ => rfl
  | ok value after =>
    intro hkept
    have hflush : after.sink.flush = none := hkept.trans h
    unfold flush
    dsimp only
    rw [hflush]

/-- Where the output can be flushed, running statements that follow others is running
those and going on unless they stop. -/
theorem interpret_append {m : Machine} (h : m.sink.flush = none) (fuel : Nat) (p q : Program)
    (hops : Hops) :
    interpret fuel (p ++ q) hops m =
      match backToGlobals (executeProgramBy .recorded fuel p) (m.knowing hops) with
      | .ok _ after => backToGlobals (executeProgramBy .recorded fuel q) after
      | .error stop after => .error stop after := by
  rw [interpret_of_flush h, executeProgramBy_append, backToGlobals_bind]
  change EStateM.bind _ _ (m.knowing hops) = _
  unfold EStateM.bind
  cases backToGlobals (executeProgramBy .recorded fuel p) (m.knowing hops) <;> rfl

end Machine

namespace Session

open Machine

variable {s : Session} {n m k fuel : Nat} {source other : String} {program others : Program}
  {hops otherHops : Hops} {numbers : Nat → Nat → Prop}

/-- A source that is not refused is let through. -/
theorem exists_bound (h : ∀ errors, (s.run fuel source).1 ≠ .refused errors) :
    ∃ m program hops, analyse s.nextId source = ⟨m, .ok (program, hops)⟩ := by
  cases hseen : analyse s.nextId source with
  | mk m result =>
  cases result with
  | ok bound => exact ⟨m, bound.1, bound.2, rfl⟩
  | error errors =>
    rw [run_of_refused hseen] at h
    exact absurd rfl (h errors)

/-- A source that is let through is so from whatever number its expressions are
numbered, and its programs are alike. -/
theorem exists_bound_from (h : analyse n source = ⟨m, .ok (program, hops)⟩) (n' : Nat) :
    ∃ m' program' hops', analyse n' source = ⟨m', .ok (program', hops')⟩ ∧
      Stmt.AllAlike (.handedOut Eq n n' m) program program' := by
  have hself : (scan source).Alike ⟨Eq, Eq⟩ (scan source) := Scan.alike_self (fun _ => rfl) _
  have hseen := (analyse_alike hself n n').1
  rw [h] at hseen
  cases hseen' : analyse n' source with
  | mk m' result =>
  rw [hseen'] at hseen
  cases hseen with
  | bound hprogram _ => exact ⟨m', _, _, rfl, hprogram⟩

/-- Declarations bound without violations have distances recorded only at their numbers. -/
theorem recorded_range {ts : List Token}
    (h : Grammar.Reads .declarations n ts (.stmts program) m) (hts : ∀ t ∈ ts, t.Spelled)
    (hclean : (bindProgram program).errors = []) {id : Nat}
    (hcontains : (bindProgram program).hops.contains id = true) : n ≤ id ∧ id < m := by
  have horderly : Binding.Orderly n m program.sites := h.orderly hts []
  rw [(Binding.bindProgram_legal hclean).1] at hcontains
  exact contains_foldl_record horderly hcontains

/-- Distances that agree at the same numbers, and are recorded only there, agree everywhere. -/
theorem get?_eq_of_range {lines : Nat → Nat → Prop}
    (h : Hops.Alike (.handedOut lines n n m) hops otherHops)
    (hrange : ∀ id, hops.contains id = true → n ≤ id ∧ id < m)
    (hrange' : ∀ id, otherHops.contains id = true → n ≤ id ∧ id < m) (id : Nat) :
    hops.get? id = otherHops.get? id := by
  by_cases hid : n ≤ id ∧ id < m
  · exact h id id ⟨hid.1, hid.2, rfl⟩
  · rw [Table.get?_eq_none (mt (hrange id) hid), Table.get?_eq_none (mt (hrange' id) hid)]

/-- The tokens of a source that is let through are, some lines later, a program alike that
is bound without violations and with the same distances. -/
theorem exists_later (h : analyse n source = ⟨m, .ok (program, hops)⟩) (lines : Nat) :
    ∃ later, Grammar.Reads .declarations n
        ((tokensIn 1 (Segment.split source.toList)).map (Token.later lines)) (.stmts later) m ∧
      Stmt.AllAlike (.handedOut (fun a b => b = a + lines) n n m) program later ∧
      (bindProgram later).errors = [] ∧ ∀ i, (bindProgram later).hops.get? i = hops.get? i := by
  obtain ⟨-, hreads, hbound⟩ := analyse_eq_ok_iff.mp h
  obtain ⟨-, hrange⟩ := analyse_hops h
  have hproper := tokensIn_proper 1 (Segment.split_proper source.toList)
  let K : Likeness := ⟨fun _ _ => False, fun a b => b = a + lines⟩
  have hlines : Token.AllAlike K (tokensIn 1 (Segment.split source.toList))
      ((tokensIn 1 (Segment.split source.toList)).map (Token.later lines)) :=
    List.forall₂_map_right_iff.mpr (List.forall₂_same.mpr fun _ _ => ⟨rfl, rfl, rfl, rfl⟩)
  have hline : K.lines 1 (1 + lines) := rfl
  obtain ⟨later, m', hlater, halike, hsum⟩ :=
    hreads.alike (fun t ht => (hproper t ht).1) hlines hline n
  obtain rfl : m = m' := by omega
  obtain ⟨hdistances, hscoping⟩ := bindProgram_alike (Likeness.faithful_handedOut _ _ _ _) halike
  rw [hbound] at hdistances hscoping
  have hclean : (bindProgram later).errors = [] := List.forall₂_nil_left_iff.mp hscoping
  have hspelled : ∀ t ∈ (tokensIn 1 (Segment.split source.toList)).map (Token.later lines),
      t.Spelled := by
    intro t ht
    obtain ⟨u, hu, rfl⟩ := List.mem_map.mp ht
    exact (hproper u hu).2
  have hsame := get?_eq_of_range hdistances hrange fun _ => recorded_range hlater hspelled hclean
  exact ⟨later, hlater, halike, hclean, fun i => (hsame i).symm⟩

/-- Sources that are let through one behind the other are let through when they are
joined at a line break: the program is that of the first one followed by that of the
second one on later lines, and the distances are those of both. -/
theorem analyse_joined (h : analyse n source = ⟨m, .ok (program, hops)⟩)
    (hother : analyse m other = ⟨k, .ok (others, otherHops)⟩) :
    ∃ later merged, analyse n (source ++ "\n" ++ other) = ⟨k, .ok (program ++ later, merged)⟩ ∧
      Stmt.AllAlike (.handedOut (fun a b => b = a + (source.toList.count '\n' + 1)) m m k)
        others later ∧
      ∀ i, merged.get? i = (otherHops.get? i).or (hops.get? i) := by
  obtain ⟨herrors, hreads, hbound⟩ := analyse_eq_ok_iff.mp h
  obtain ⟨herrors', -, -⟩ := analyse_eq_ok_iff.mp hother
  obtain ⟨later, hlater, halike, hclean, hsame⟩ := exists_later hother
    (source.toList.count '\n' + 1)
  obtain ⟨hviolations, hmerged⟩ := Binding.bindProgram_append program later
  rw [hbound, hclean] at hviolations
  rw [hbound] at hmerged
  have hclosed : ∀ e ∈ (scan source).errors, e.fault ≠ .unterminatedString := by
    rw [herrors]
    exact fun _ hmem => absurd hmem List.not_mem_nil
  refine ⟨later, (bindProgram (program ++ later)).hops, analyse_eq_ok_iff.mpr ⟨?_, ?_, ?_⟩,
    halike, ?_⟩
  · rw [scan_errors_joined hclosed, herrors, herrors']
    rfl
  · rw [tokensIn_joined hclosed]
    exact hreads.append hlater
  · exact congrArg (Bound.mk _) hviolations
  · intro i
    rw [hmerged, hsame]

/-- The numbers below a bound correspond to themselves, and the lines to themselves. -/
def below (m : Nat) : Likeness := ⟨fun i i' => i = i' ∧ i < m, Eq⟩

/-- All numbers correspond to themselves, and a line to itself or to that so many lines later. -/
def orLater (lines : Nat) : Likeness := ⟨Eq, fun a b => b = a ∨ b = a + lines⟩

/-- A program runs the same where more distances are learned with its own, provided that
they are not about its numbers or earlier ones. -/
theorem execute_below (hself : s.Alike ⟨numbers, Eq⟩ s) (hnumbers : ∀ i i', numbers i i' → i = i')
    (h : analyse s.nextId source = ⟨m, .ok (program, hops)⟩) {merged : Hops}
    (hmerged : ∀ i, i < m →
      (s.machine.knowing hops).hops.get? i = (s.machine.knowing merged).hops.get? i)
    (fuel : Nat) :
    ResultAlike (below m) Eq
      (backToGlobals (executeProgramBy .recorded fuel program) (s.machine.knowing hops))
      (backToGlobals (executeProgramBy .recorded fuel program) (s.machine.knowing merged)) := by
  have hle : s.nextId ≤ m := by
    have hle := le_analyse_nextId s.nextId source
    rwa [h] at hle
  have hwithin : Likeness.Within ⟨numbers, Eq⟩ (below m) := by
    refine ⟨fun i i' hi => ?_, fun _ _ => id⟩
    have hused := (hself.used i i' hi).1
    exact ⟨hnumbers i i' hi, by omega⟩
  have hhops : Hops.Alike (below m) (s.machine.knowing hops).hops
      (s.machine.knowing merged).hops := by
    rintro i _ ⟨rfl, hi⟩
    exact hmerged i hi
  have hprogram : Stmt.AllAlike (below m) program program := by
    obtain ⟨m', program', hops', hseen, halike⟩ := exists_bound_from h s.nextId
    rw [h] at hseen
    cases hseen
    refine Stmt.AllAlike.imp halike (fun _ _ => id) ?_
    rintro e - i ⟨-, hi, hsum⟩
    exact ⟨by omega, hi⟩
  exact backToGlobals_tracks (executeProgramBy_tracks fuel hprogram) _ _
    (hself.machine.learn hwithin hhops)

/-- Running a source that is let through, where the output can be flushed. -/
theorem run_of_flush (hflush : s.machine.sink.flush = none)
    (h : analyse s.nextId source = ⟨m, .ok (program, hops)⟩) (fuel : Nat) :
    s.run fuel source =
      ended m (backToGlobals (executeProgramBy .recorded fuel program) (s.machine.knowing hops)) := by
  rw [run_of_bound h, interpret_of_flush hflush]

/-- A program runs alike on later lines, where its distances were learned before. -/
theorem execute_later {after after' : Machine} (h : after.Alike (below m) after') {lines : Nat}
    {later : Program}
    (hlater : Stmt.AllAlike (.handedOut (fun a b => b = a + lines) m m k) others later)
    (hlearned : ∀ i, after'.hops.get? i = (after.knowing otherHops).hops.get? i) (fuel : Nat) :
    ResultAlike (orLater lines) Eq
      (backToGlobals (executeProgramBy .recorded fuel others) (after.knowing otherHops))
      (backToGlobals (executeProgramBy .recorded fuel later) after') := by
  have hwithin : (below m).Within (orLater lines) :=
    ⟨fun _ _ hi => hi.1, fun _ _ hline => Or.inl hline.symm⟩
  have hhops : Hops.Alike (orLater lines) (after.knowing otherHops).hops after'.hops := by
    rintro i _ rfl
    exact (hlearned i).symm
  have hothers : Stmt.AllAlike (orLater lines) others later := by
    refine Stmt.AllAlike.imp hlater (fun _ _ => Or.inr) ?_
    rintro e - i ⟨-, -, hsum⟩
    exact Nat.add_right_cancel hsum
  exact backToGlobals_tracks (executeProgramBy_tracks fuel hothers) _ _
    (h.learn hwithin hhops)

/-- A session in which two sources are let through one behind the other, joined or not.
Where the first one ends, the second one ends alike both ways; where the first one fails,
it fails the same when more follows. -/
theorem run_joined (hself : s.Alike ⟨numbers, Eq⟩ s) (hnumbers : ∀ i i', numbers i i' → i = i')
    (hflush : s.machine.sink.flush = none)
    (h : analyse s.nextId source = ⟨m, .ok (program, hops)⟩)
    (hother : analyse m other = ⟨k, .ok (others, otherHops)⟩) (fuel : Nat) :
    let first := s.run fuel source
    let second := first.2.run fuel other
    let whole := s.run fuel (source ++ "\n" ++ other)
    let K := orLater (source.toList.count '\n' + 1)
    (first.1 = .ok → second.1.Alike K whole.1 ∧ second.2.machine.Alike K whole.2.machine ∧
      second.2.nextId = whole.2.nextId) ∧
    ∀ e, first.1 = .failed e → whole.1 = .failed e ∧
      whole.2.machine.sink = first.2.machine.sink := by
  obtain ⟨later, merged, hjoined, hlater, hmerged⟩ := analyse_joined h hother
  obtain ⟨hwell, -⟩ := analyse_hops h
  obtain ⟨hwell', hrange⟩ := analyse_hops hother
  obtain ⟨hwell'', -⟩ := analyse_hops hjoined
  have hlearned := get?_knowing hwell hwell' hwell'' hmerged s.machine
  have hbefore : ∀ i, i < m →
      (s.machine.knowing hops).hops.get? i = (s.machine.knowing merged).hops.get? i := by
    intro i hi
    rw [hlearned, get?_knowing_of_not_contains hwell' (mt (hrange i) (by omega))]
  have hfirst := execute_below hself hnumbers h hbefore fuel
  have hkept := backToGlobals_keeps fuel program (s.machine.knowing hops)
  have hkept' := backToGlobals_keeps fuel program (s.machine.knowing merged)
  rw [run_of_flush hflush h, run_of_bound hjoined, interpret_append hflush]
  generalize backToGlobals (executeProgramBy .recorded fuel program)
    (s.machine.knowing hops) = result at hfirst hkept ⊢
  generalize backToGlobals (executeProgramBy .recorded fuel program)
    (s.machine.knowing merged) = result' at hfirst hkept' ⊢
  cases hfirst with
  | @error stop _ _ _ why machine =>
    refine ⟨fun hok => ?_, fun e he => ?_⟩
    · have hstopped : Outcome.ofStop stop = .ok := hok
      cases stop <;> cases hstopped
    · exact ⟨(why.outcome.eq fun _ _ => id).symm.trans he, machine.sink.symm⟩
  | @ok _ _ after after' _ machine =>
    refine ⟨fun _ => ?_, fun e he => by cases he⟩
    have hmiddle : (after.knowing otherHops).hops =
        ((s.machine.knowing hops).knowing otherHops).hops :=
      congrArg (fun known => known.insertAll otherHops.entries) hkept.1
    have hmiddle' : after'.hops = (s.machine.knowing merged).hops := hkept'.1
    have hknown : ∀ i, after'.hops.get? i = (after.knowing otherHops).hops.get? i := by
      intro i
      rw [hmiddle', hmiddle, hlearned]
    have hresults := execute_later machine hlater hknown fuel
    have hsecond := run_of_flush (s := ⟨after, m⟩) (hkept.2.trans hflush) hother fuel
    change Outcome.Alike _ (Session.run ⟨after, m⟩ fuel other).1 _ ∧
      Machine.Alike _ (Session.run ⟨after, m⟩ fuel other).2.machine _ ∧
      (Session.run ⟨after, m⟩ fuel other).2.nextId = _
    rw [hsecond]
    obtain ⟨houtcome, hmachine⟩ := ended_alike hresults k k
    exact ⟨houtcome, hmachine, by rw [ended_session, ended_session]⟩

/-- Running line by line is running the whole. In whatever session that was reached by
running sources, and whose output can be flushed, let two sources be let through. If the
first one ends, then running the second one behind it and running both at once, joined
at a line break, have the same outcome, up to the line of a failure, and leave the same
output, frames, objects and distances, the same number of the next expression, and
routines that differ only in their lines; a line of the second source is later by the
lines of the first. If the first one fails, then running both at once fails in exactly
the same way, with the same output. -/
theorem line_by_line (sink : Sink) (clock : Clock) (history : List (Nat × String)) (fuel : Nat)
    (source other : String) :
    let s := ((start sink clock).runAll history).2
    let first := s.run fuel source
    let second := first.2.run fuel other
    let whole := s.run fuel (source ++ "\n" ++ other)
    let K := orLater (source.toList.count '\n' + 1)
    s.machine.sink.flush = none → (∀ errors, first.1 ≠ .refused errors) →
      (∀ errors, (s.run fuel other).1 ≠ .refused errors) →
      (first.1 = .ok → second.1.Alike K whole.1 ∧ second.2.machine.Alike K whole.2.machine ∧
        second.2.nextId = whole.2.nextId) ∧
      ∀ e, first.1 = .failed e → whole.1 = .failed e ∧
        whole.2.machine.sink = first.2.machine.sink := by
  intro s first second whole K hflush hfirst hother
  obtain ⟨numbers, hself, hnumbers⟩ := runAll_alike_self sink clock history
  obtain ⟨m, program, hops, hseen⟩ := exists_bound hfirst
  obtain ⟨_, _, _, hseen'⟩ := exists_bound hother
  obtain ⟨k, others, otherHops, hbehind, -⟩ := exists_bound_from hseen' m
  exact run_joined hself hnumbers hflush hseen hbehind fuel

/-- The declaration of a variable and the use of it, in both orders: the use ends only
behind the declaration, and otherwise fails alone as it fails with it. -/
theorem line_by_line_print :
    let s := ((start {} {}).runAll []).2
    let declares := s.run 9 "var a;"
    let whole := s.run 9 ("var a;" ++ "\n" ++ "print a;")
    let turned := s.run 9 ("print a;" ++ "\n" ++ "var a;")
    let undeclared := RuntimeError.diagnostic (.undefined ⟨.identifier, "a", none, 1⟩)
    s.machine.sink.flush = none ∧ declares.1 = .ok ∧
      (s.run 9 "print a;").1 = .failed undeclared ∧
      (declares.2.run 9 "print a;").1.Alike (orLater 1) whole.1 ∧
      (declares.2.run 9 "print a;").2.machine.Alike (orLater 1) whole.2.machine ∧
      turned.1 = .failed undeclared := by
  intro s declares whole turned undeclared
  have hscan : (scan "var a;").tokens = [⟨.kwVar, "var", none, 1⟩, ⟨.identifier, "a", none, 1⟩,
      ⟨.semicolon, ";", none, 1⟩, Token.endAt 1] := rfl
  have hscan' : (scan "print a;").tokens = [⟨.kwPrint, "print", none, 1⟩,
      ⟨.identifier, "a", none, 1⟩, ⟨.semicolon, ";", none, 1⟩, Token.endAt 1] := rfl
  have herrors : (scan "var a;").errors = [] := rfl
  have herrors' : (scan "print a;").errors = [] := rfl
  have hparse : parse [⟨.kwVar, "var", none, 1⟩, ⟨.identifier, "a", none, 1⟩,
      ⟨.semicolon, ";", none, 1⟩, Token.endAt 1] 0 =
      ⟨[.var ⟨.identifier, "a", none, 1⟩ none], [], 0⟩ := rfl
  have hparse' : parse [⟨.kwPrint, "print", none, 1⟩, ⟨.identifier, "a", none, 1⟩,
      ⟨.semicolon, ";", none, 1⟩, Token.endAt 1] 0 =
      ⟨[.print (.var 0 ⟨.identifier, "a", none, 1⟩)], [], 1⟩ := rfl
  have hseen : analyse s.nextId "var a;" =
      ⟨0, .ok ([.var ⟨.identifier, "a", none, 1⟩ none], {})⟩ := by
    change analyse 0 "var a;" = _
    unfold analyse
    dsimp only
    rw [hscan, herrors, hparse]
    rfl
  have hseen' : analyse s.nextId "print a;" =
      ⟨1, .ok ([.print (.var 0 ⟨.identifier, "a", none, 1⟩)], {})⟩ := by
    change analyse 0 "print a;" = _
    unfold analyse
    dsimp only
    rw [hscan', herrors', hparse']
    rfl
  have hok : declares.1 = .ok := by
    have hrun : declares = _ := run_of_bound hseen 9
    rw [hrun]
    rfl
  have hfailed : (s.run 9 "print a;").1 = .failed undeclared := by
    rw [run_of_bound hseen']
    rfl
  have hflush : s.machine.sink.flush = none := rfl
  have hlet : ∀ errors, declares.1 ≠ .refused errors := by
    intro errors
    rw [hok]
    exact fun himpossible => by cases himpossible
  have hlet' : ∀ errors, (s.run 9 "print a;").1 ≠ .refused errors := by
    intro errors
    rw [hfailed]
    exact fun himpossible => by cases himpossible
  have hcount : "var a;".toList.count '\n' + 1 = 1 := by decide
  have hwhole := (line_by_line {} {} [] 9 "var a;" "print a;" hflush hlet hlet').1 hok
  rw [hcount] at hwhole
  have hturned := (line_by_line {} {} [] 9 "print a;" "var a;" hflush hlet' hlet).2 _ hfailed
  refine ⟨hflush, hok, hfailed, ?_⟩
  simp only [turned, whole, declares, s]
  exact ⟨hwhole.1, hwhole.2.1, hturned.1⟩

end Session

end Scriptlet
