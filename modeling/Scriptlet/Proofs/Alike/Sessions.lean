import Scriptlet.Proofs.Alike.Reading
import Scriptlet.Proofs.Alike.Running
import Scriptlet.Proofs.Session.Numbers

/-!
# Sessions that are alike

Sources whose tokens are alike are read alike, wherever their expressions begin to
be numbered. So two sessions that are alike stay alike when such sources run in
them, one after the other: the numbers that are handed out on both sides correspond
from then on, next to those that corresponded before.
-/

namespace Scriptlet

variable {K K' : Likeness}

/-- Lexical errors alike. -/
structure LexError.Alike (K : Likeness) (e e' : LexError) : Prop where
  line : K.lines e.line e'.line
  fault : e.fault = e'.fault

/-- What scanning yields, alike. -/
structure Scan.Alike (K : Likeness) (s s' : Scan) : Prop where
  tokens : Token.AllAlike K s.tokens s'.tokens
  errors : List.Forall₂ (LexError.Alike K) s.errors s'.errors

/-- What parsing yields, alike: the numbers still to be handed out correspond as well. -/
structure Parsed.Alike (K : Likeness) (p p' : Parsed) : Prop where
  program : Stmt.AllAlike K p.program p'.program
  errors : List.Forall₂ (SyntaxError.Alike K) p.errors p'.errors
  numbers : ∀ j, K.numbers (p.nextId + j) (p'.nextId + j)

/-- Reports alike: with the same words, at places that correspond. -/
inductive Diagnostic.Alike (K : Likeness) : Diagnostic → Diagnostic → Prop where
  | lexical {l l' : Nat} (line : K.lines l l') (message : String) :
    Diagnostic.Alike K (.lexical l message) (.lexical l' message)
  | grammar {t t' : Token} (place : t.Alike K t') (message : String) :
    Diagnostic.Alike K (.grammar t message) (.grammar t' message)
  | scoping {t t' : Token} (place : t.Alike K t') (message : String) :
    Diagnostic.Alike K (.scoping t message) (.scoping t' message)
  | runtime {l l' : Nat} (line : K.lines l l') (message : String) :
    Diagnostic.Alike K (.runtime l message) (.runtime l' message)
  | output (message : String) : Diagnostic.Alike K (.output message) (.output message)
  | encoding (fault : Text.Utf8Fault) : Diagnostic.Alike K (.encoding fault) (.encoding fault)

/-- Reports stay alike when more lines correspond. -/
theorem Diagnostic.Alike.imp {d d' : Diagnostic} (h : d.Alike K d')
    (hlines : ∀ a b, K.lines a b → K'.lines a b) : d.Alike K' d' := by
  cases h with
  | lexical line message => exact .lexical (hlines _ _ line) message
  | grammar place message => exact .grammar (place.imp hlines) message
  | scoping place message => exact .scoping (place.imp hlines) message
  | runtime line message => exact .runtime (hlines _ _ line) message
  | output message => exact .output message
  | encoding fault => exact .encoding fault

/-- Outcomes alike. -/
inductive Outcome.Alike (K : Likeness) : Outcome → Outcome → Prop where
  | ok : Outcome.Alike K .ok .ok
  | refused {ds ds' : List Diagnostic} (errors : List.Forall₂ (Diagnostic.Alike K) ds ds') :
    Outcome.Alike K (.refused ds) (.refused ds')
  | failed {d d' : Diagnostic} (error : d.Alike K d') : Outcome.Alike K (.failed d) (.failed d')
  | unfinished : Outcome.Alike K .unfinished .unfinished

/-- What stops a run alike shows alike. -/
theorem Stop.Alike.outcome {stop stop' : Stop} (h : stop.Alike K stop') :
    (Outcome.ofStop stop).Alike K (.ofStop stop') := by
  cases h with
  | fault h =>
    unfold Outcome.ofStop RuntimeError.diagnostic
    dsimp only
    rw [h.fault]
    exact .failed (.runtime h.line _)
  | sink f => exact .failed (.output _)
  | exhausted => exact .unfinished

/-- Reports of violations alike. -/
theorem SyntaxError.Alike.diagnostic {e e' : SyntaxError} (h : e.Alike K e') :
    e.diagnostic.Alike K e'.diagnostic := by
  unfold SyntaxError.diagnostic
  rw [h.fault]
  exact .grammar h.place _

/-- Reports of scoping violations alike. -/
theorem ScopeError.Alike.diagnostic {e e' : ScopeError} (h : e.Alike K e') :
    e.diagnostic.Alike K e'.diagnostic := by
  unfold ScopeError.diagnostic
  rw [h.fault]
  exact .scoping h.place _

/-- The numbers from `n` and from `n'` on correspond in order, up to `m` on the first side. -/
def Likeness.handedOut (lines : Nat → Nat → Prop) (n n' m : Nat) : Likeness :=
  ⟨fun i i' => n ≤ i ∧ i < m ∧ i + n' = i' + n, lines⟩

/-- What corresponds in a likeness, and new numbers. -/
def Likeness.joined (K : Likeness) (new : Nat → Nat → Prop) : Likeness :=
  ⟨fun i i' => K.numbers i i' ∨ new i i', K.lines⟩

/-- Numbers that are handed out in order correspond to one number each. -/
theorem Likeness.faithful_handedOut (lines : Nat → Nat → Prop) (n n' m : Nat) :
    (handedOut lines n n' m).Faithful := by
  rintro i i' j j' ⟨-, -, hi⟩ ⟨-, -, hj⟩
  omega

namespace Grammar

variable {tokens tokens' : List Token} {n n' : Nat}

/-- Reading tokens alike starts alike, provided that one of them is an end token. -/
theorem Cursor.start_alike (h : Token.AllAlike K tokens tokens')
    (hend : ∃ t ∈ tokens, t.isEnd = true) (hnumbers : ∀ j, K.numbers (n + j) (n' + j)) :
    (Cursor.start tokens n).Alike K (Cursor.start tokens' n') := by
  have hrest : Token.AllAlike K (tokens.takeWhile fun t => !t.isEnd)
      (tokens'.takeWhile fun t => !t.isEnd) := by
    clear hend
    induction h with
    | nil => exact .nil
    | cons first _ ih =>
      rw [List.takeWhile_cons, List.takeWhile_cons, first.isEnd]
      split
      · exact .cons first ih
      · exact .nil
  have hstop : Option.Rel (Token.Alike K) (tokens.find? Token.isEnd)
      (tokens'.find? Token.isEnd) := by
    clear hend hrest
    induction h with
    | nil => exact .none
    | cons first _ ih =>
      rw [List.find?_cons, List.find?_cons, first.isEnd]
      split
      · exact .some first
      · exact ih
  refine ⟨hrest, ?_, .nil, hnumbers⟩
  unfold Cursor.start
  obtain ⟨stop, hfound⟩ := Option.isSome_iff_exists.mp (List.find?_isSome.mpr hend)
  rw [hfound] at hstop ⊢
  revert hstop
  cases tokens'.find? Token.isEnd with
  | none => exact fun hstop => by cases hstop
  | some stop' =>
    intro hstop
    cases hstop with
    | some hstop => exact hstop

/-- Parsing tokens alike. -/
theorem parse_alike (h : Token.AllAlike K tokens tokens')
    (hend : ∃ t ∈ tokens, t.isEnd = true) (hnumbers : ∀ j, K.numbers (n + j) (n' + j)) :
    (parse tokens n).Alike K (parse tokens' n') := by
  have hstart := Cursor.start_alike h hend hnumbers
  have hprogram := program_alike ((Cursor.start tokens n).rest.length + 1) _ _ hstart
  unfold parse
  dsimp only
  rw [← hstart.rest.length_eq]
  generalize program _ (Cursor.start tokens n) = result at hprogram ⊢
  generalize program _ (Cursor.start tokens' n') = result' at hprogram ⊢
  cases hprogram with
  | ok value after => exact ⟨value, after.errors, after.numbers⟩
  | failed error after => exact ⟨.nil, after.errors, after.numbers⟩
  | exhausted after => exact ⟨.nil, after.errors, after.numbers⟩

/-- Tokens alike are parsed to trees whose numbers correspond in the order in which
they are handed out, and as many numbers are handed out on both sides. -/
theorem parse_handedOut (h : Token.AllAlike K tokens tokens')
    (hend : ∃ t ∈ tokens, t.isEnd = true) (n n' : Nat) :
    let parsed := parse tokens n
    let parsed' := parse tokens' n'
    Stmt.AllAlike (.handedOut K.lines n n' parsed.nextId) parsed.program parsed'.program ∧
      List.Forall₂ (SyntaxError.Alike (.handedOut K.lines n n' parsed.nextId)) parsed.errors
        parsed'.errors ∧
      parsed.nextId + n' = parsed'.nextId + n := by
  intro parsed parsed'
  let free : Likeness := ⟨fun i i' => n ≤ i ∧ i + n' = i' + n, K.lines⟩
  have hparse : parsed.Alike free parsed' := by
    refine parse_alike (h.imp fun _ _ hline => hline) hend fun j => ?_
    change n ≤ n + j ∧ n + j + n' = n' + j + n
    omega
  have hspread := parse_spread tokens n
  refine ⟨Stmt.AllAlike.imp hparse.program (fun _ _ hline => hline) ?_, ?_, ?_⟩
  · intro e he i hi
    exact ⟨hi.1, (hspread.range e he).2, hi.2⟩
  · exact hparse.errors.imp fun _ _ he => ⟨he.place.imp fun _ _ hline => hline, he.fault⟩
  · exact (hparse.numbers 0).2

end Grammar

namespace Session

/-- Of lists in a relation both are empty or neither. -/
theorem forall₂_ne_nil {α β : Type} {R : α → β → Prop} {xs : List α} {ys : List β}
    (h : List.Forall₂ R xs ys) : xs ≠ [] ↔ ys ≠ [] := by
  cases h with
  | nil => exact ⟨fun hne => absurd rfl hne, fun hne => absurd rfl hne⟩
  | cons _ _ => exact ⟨fun _ => List.cons_ne_nil _ _, fun _ => List.cons_ne_nil _ _⟩

/-- What is known of sources, alike. -/
inductive Analysed (K : Likeness) : Except (List Diagnostic) (Program × Hops) →
    Except (List Diagnostic) (Program × Hops) → Prop where
  | refused {ds ds' : List Diagnostic} (errors : List.Forall₂ (Diagnostic.Alike K) ds ds') :
    Analysed K (.error ds) (.error ds')
  | bound {p p' : Program} {hops hops' : Hops} (program : Stmt.AllAlike K p p')
    (distances : Hops.Alike K hops hops') : Analysed K (.ok (p, hops)) (.ok (p', hops'))

/-- The next number behind a source is that behind its parse. -/
theorem analyse_nextId (n : Nat) (source : String) :
    (analyse n source).nextId = (parse (scan source).tokens n).nextId := by
  unfold analyse
  dsimp only
  split
  · rfl
  · split <;> rfl

/-- Sources that are scanned alike are known alike, and hand out as many numbers. -/
theorem analyse_alike {source source' : String} (h : (scan source).Alike K (scan source'))
    (n n' : Nat) :
    let seen := analyse n source
    let seen' := analyse n' source'
    Analysed (.handedOut K.lines n n' seen.nextId) seen.result seen'.result ∧
      seen.nextId + n' = seen'.nextId + n := by
  have hend : ∃ t ∈ (scan source).tokens, t.isEnd = true := by
    rw [scan_tokens]
    exact ⟨_, List.mem_append_right _ List.mem_cons_self, rfl⟩
  obtain ⟨hprogram, hgrammar, hnumbers⟩ := Grammar.parse_handedOut h.tokens hend n n'
  dsimp only
  rw [analyse_nextId, analyse_nextId]
  refine ⟨?_, hnumbers⟩
  generalize hK' : Likeness.handedOut K.lines n n' (parse (scan source).tokens n).nextId = K' at *
  have hfaithful : K'.Faithful := hK' ▸ Likeness.faithful_handedOut _ _ _ _
  obtain ⟨hdistances, hscoping⟩ := bindProgram_alike hfaithful hprogram
  have hlexical : List.Forall₂ (Diagnostic.Alike K') ((scan source).errors.map LexError.diagnostic)
      ((scan source').errors.map LexError.diagnostic) := by
    refine List.rel_map (fun e e' he => ?_) h.errors
    unfold LexError.diagnostic
    rw [he.fault]
    exact .lexical (hK' ▸ he.line) _
  have hstatic := List.rel_append hlexical
    (List.rel_map (R := SyntaxError.Alike K') (fun _ _ he => he.diagnostic) hgrammar)
  have hrefused := List.rel_map (R := ScopeError.Alike K') (P := Diagnostic.Alike K')
    (fun _ _ he => he.diagnostic) hscoping
  unfold analyse
  dsimp only
  split
  · rename_i hsome
    rw [if_pos ((forall₂_ne_nil hstatic).mp hsome)]
    exact .refused hstatic
  · rename_i hnone
    rw [if_neg (mt (forall₂_ne_nil hstatic).mpr hnone)]
    split
    · rename_i hsome
      rw [if_pos ((forall₂_ne_nil hscoping).mp hsome)]
      exact .refused hrefused
    · rename_i hnone
      rw [if_neg (mt (forall₂_ne_nil hscoping).mpr hnone)]
      exact .bound hprogram hdistances

/-- Sessions alike. The numbers that correspond have been handed out, and no distance is
recorded for one that has not. -/
structure Alike (K : Likeness) (s s' : Session) : Prop where
  machine : s.machine.Alike K s'.machine
  faithful : K.Faithful
  used : ∀ i i', K.numbers i i' → i < s.nextId ∧ i' < s'.nextId
  fresh : ∀ i, s.nextId ≤ i → s.machine.hops.get? i = none
  fresh' : ∀ i, s'.nextId ≤ i → s'.machine.hops.get? i = none

variable {s s' : Session} {source source' : String}

/-- Sessions start alike. -/
theorem start_alike (lines : Nat → Nat → Prop) (sink : Sink) (clock : Clock) :
    (start sink clock).Alike ⟨fun _ _ => False, lines⟩ (start sink clock) where
  machine := ⟨⟨rfl, .nil, .nil, rfl⟩, rfl, rfl, fun _ _ _ => rfl, rfl, rfl⟩
  faithful := fun _ _ _ _ himpossible => himpossible.elim
  used := fun _ _ himpossible => himpossible.elim
  fresh := fun _ _ => rfl
  fresh' := fun _ _ => rfl

/-- What corresponds once more numbers have been handed out on both sides. -/
def Alike.extended (K : Likeness) (n n' m : Nat) : Likeness :=
  ⟨fun i i' => K.numbers i i' ∨ (Likeness.handedOut K.lines n n' m).numbers i i', K.lines⟩

section Joined

variable {new : Nat → Nat → Prop}

/-- Numbers that were handed out before correspond to none that are handed out later. -/
theorem Alike.faithful_joined (h : s.Alike K s')
    (hnew : ∀ i i', new i i' → s.nextId ≤ i ∧ s'.nextId ≤ i')
    (hfaithful : Likeness.Faithful ⟨new, K.lines⟩) : (K.joined new).Faithful := by
  rintro i i' j j' (hi | hi) (hj | hj)
  · exact h.faithful i i' j j' hi hj
  · have := h.used i i' hi
    have := hnew j j' hj
    omega
  · have := h.used j j' hj
    have := hnew i i' hi
    omega
  · exact hfaithful i i' j j' hi hj

/-- Distances learned on both sides agree where numbers correspond. -/
theorem Alike.hops_joined (h : s.Alike K s')
    (hnew : ∀ i i', new i i' → s.nextId ≤ i ∧ s'.nextId ≤ i') {hops hops' : Hops}
    (hdistances : Hops.Alike ⟨new, K.lines⟩ hops hops')
    (hwell : hops.Wellformed) (hlow : ∀ id, hops.contains id = true → s.nextId ≤ id)
    (hwell' : hops'.Wellformed) (hlow' : ∀ id, hops'.contains id = true → s'.nextId ≤ id) :
    Hops.Alike (K.joined new) (s.machine.hops.insertAll hops.entries)
      (s'.machine.hops.insertAll hops'.entries) := by
  intro i i' hi
  rw [hwell.get?_insertAll, hwell'.get?_insertAll]
  rcases hi with hi | hi
  · obtain ⟨hused, hused'⟩ := h.used i i' hi
    have hnone : hops.get? i = none := Table.get?_eq_none (mt (hlow i) (Nat.not_le.mpr hused))
    have hnone' : hops'.get? i' = none :=
      Table.get?_eq_none (mt (hlow' i') (Nat.not_le.mpr hused'))
    rw [hnone, hnone', h.machine.hops i i' hi]
  · rw [h.fresh i (hnew i i' hi).1, h.fresh' i' (hnew i i' hi).2, hdistances i i' hi]

end Joined

/-- No numbers are taken back, and distances are known for the numbers handed out only. -/
structure Analysis.Keeps (seen : Analysis) (n : Nat) : Prop where
  le : n ≤ seen.nextId
  distances : ∀ program hops, seen.result = .ok (program, hops) →
    hops.Wellformed ∧ ∀ id, hops.contains id = true → n ≤ id ∧ id < seen.nextId

/-- Looking at a source keeps the numbers. -/
theorem analyse_keeps (n : Nat) (source : String) : (analyse n source).Keeps n where
  le := le_analyse_nextId n source
  distances := by
    intro program hops h
    have hseen : analyse n source = ⟨(analyse n source).nextId, .ok (program, hops)⟩ := by rw [← h]
    exact analyse_hops hseen

/-- Run what has been looked at unless it has a static failure. -/
def runAnalysed (s : Session) (fuel : Nat) (seen : Analysis) : Outcome × Session :=
  match seen.result with
  | .error errors => (.refused errors, { s with nextId := seen.nextId })
  | .ok (program, hops) => ended seen.nextId (Machine.interpret fuel program hops s.machine)

/-- Running a source is looking at it first. -/
theorem run_eq_runAnalysed (s : Session) (fuel : Nat) (source : String) :
    s.run fuel source = s.runAnalysed fuel (analyse s.nextId source) := by
  rcases hseen : analyse s.nextId source with ⟨m, errors | ⟨program, hops⟩⟩
  · exact run_of_refused hseen fuel
  · exact run_of_bound hseen fuel

/-- The number of the next expression behind a run is the one that was known before. -/
theorem runAnalysed_nextId (s : Session) (fuel : Nat) (seen : Analysis) :
    (s.runAnalysed fuel seen).2.nextId = seen.nextId := by
  unfold runAnalysed
  split
  · rfl
  · rw [ended_session]

/-- No distance is recorded behind a run for a number that is still free. -/
theorem runAnalysed_fresh (hfree : ∀ i, s.nextId ≤ i → s.machine.hops.get? i = none)
    {seen : Analysis} (h : seen.Keeps s.nextId) (fuel : Nat) :
    ∀ i, seen.nextId ≤ i → (s.runAnalysed fuel seen).2.machine.hops.get? i = none := by
  intro i hi
  have hle := h.le
  unfold runAnalysed
  split
  · exact hfree i (by omega)
  · rename_i program hops hresult
    obtain ⟨hwell, hrange⟩ := h.distances program hops hresult
    have hnone : hops.get? i = none := Table.get?_eq_none (mt (hrange i) (by omega))
    rw [ended_session, hops_interpret, hwell.get?_insertAll, hnone, hfree i (by omega)]
    rfl

/-- Results alike are reported alike. -/
theorem ended_alike {result result' : EStateM.Result Stop Machine Unit}
    (h : Machine.ResultAlike K Eq result result') (m m' : Nat) :
    (ended m result).1.Alike K (ended m' result').1 ∧
      (ended m result).2.machine.Alike K (ended m' result').2.machine := by
  cases h with
  | ok _ machine => exact ⟨.ok, machine⟩
  | error why machine => exact ⟨why.outcome, machine⟩

section Analysed

variable {seen seen' : Analysis} {new : Nat → Nat → Prop}

/-- What is known alike has outcomes alike and leaves machines alike. -/
theorem Alike.runAnalysed_machine (h : s.Alike K s') (hkeeps : seen.Keeps s.nextId)
    (hkeeps' : seen'.Keeps s'.nextId)
    (hnew : ∀ i i', new i i' → s.nextId ≤ i ∧ s'.nextId ≤ i')
    (hanalysed : Analysed ⟨new, K.lines⟩ seen.result seen'.result) (fuel : Nat) :
    let after := s.runAnalysed fuel seen
    let after' := s'.runAnalysed fuel seen'
    after.1.Alike (K.joined new) after'.1 ∧
      after.2.machine.Alike (K.joined new) after'.2.machine := by
  have hold : K.Within (K.joined new) := ⟨fun _ _ => Or.inl, fun _ _ => id⟩
  have hjoined : (⟨new, K.lines⟩ : Likeness).Within (K.joined new) :=
    ⟨fun _ _ => Or.inr, fun _ _ => id⟩
  obtain ⟨m, result⟩ := seen
  obtain ⟨m', result'⟩ := seen'
  dsimp only at hanalysed
  cases hanalysed with
  | refused errors =>
    have hhops : Hops.Alike (K.joined new) (s.machine.hops.insertAll [])
        (s'.machine.hops.insertAll []) :=
      h.hops_joined hnew (fun _ _ _ => rfl) Table.wellformed_empty (fun _ hid => by cases hid)
        Table.wellformed_empty (fun _ hid => by cases hid)
    exact ⟨.refused (errors.imp fun _ _ hd => hd.imp hjoined.lines), h.machine.learn hold hhops⟩
  | @bound p p' hops hops' program distances =>
    obtain ⟨hwell, hrange⟩ := hkeeps.distances p hops rfl
    obtain ⟨hwell', hrange'⟩ := hkeeps'.distances p' hops' rfl
    have hhops := h.hops_joined hnew distances hwell (fun id hid => (hrange id hid).1) hwell'
      fun id hid => (hrange' id hid).1
    have hprogram : Stmt.AllAlike (K.joined new) p p' :=
      Stmt.AllAlike.imp program hjoined.lines fun _ _ i hi => hjoined.numbers _ i hi
    exact ended_alike (Machine.interpret_alike fuel (h.machine.learn hold hhops) hprogram) m m'

/-- In sessions alike, what is known alike runs alike, provided that the numbers it has are new. -/
theorem Alike.runAnalysed (h : s.Alike K s') (hkeeps : seen.Keeps s.nextId)
    (hkeeps' : seen'.Keeps s'.nextId)
    (hnew : ∀ i i', new i i' →
      (s.nextId ≤ i ∧ i < seen.nextId) ∧ s'.nextId ≤ i' ∧ i' < seen'.nextId)
    (hfaithful : Likeness.Faithful ⟨new, K.lines⟩)
    (hanalysed : Analysed ⟨new, K.lines⟩ seen.result seen'.result) (fuel : Nat) :
    let after := s.runAnalysed fuel seen
    let after' := s'.runAnalysed fuel seen'
    after.1.Alike (K.joined new) after'.1 ∧ after.2.Alike (K.joined new) after'.2 := by
  have hlow : ∀ i i', new i i' → s.nextId ≤ i ∧ s'.nextId ≤ i' :=
    fun i i' hi => ⟨(hnew i i' hi).1.1, (hnew i i' hi).2.1⟩
  obtain ⟨houtcome, hmachine⟩ := h.runAnalysed_machine hkeeps hkeeps' hlow hanalysed fuel
  have hle := hkeeps.le
  have hle' := hkeeps'.le
  refine ⟨houtcome, hmachine, h.faithful_joined hlow hfaithful, ?_, ?_, ?_⟩
  · rw [runAnalysed_nextId, runAnalysed_nextId]
    rintro i i' (hi | hi)
    · have := h.used i i' hi
      omega
    · have := hnew i i' hi
      omega
  · rw [runAnalysed_nextId]
    exact runAnalysed_fresh h.fresh hkeeps fuel
  · rw [runAnalysed_nextId]
    exact runAnalysed_fresh h.fresh' hkeeps' fuel

end Analysed

/-- Sessions alike run sources alike with outcomes alike, and are alike behind them. -/
theorem Alike.run (h : s.Alike K s') (hsource : (scan source).Alike K (scan source'))
    (fuel : Nat) :
    let after := s.run fuel source
    let after' := s'.run fuel source'
    let K' := Alike.extended K s.nextId s'.nextId after.2.nextId
    after.1.Alike K' after'.1 ∧ after.2.Alike K' after'.2 := by
  intro after after' K'
  obtain ⟨hanalysed, hnumbers⟩ := analyse_alike hsource s.nextId s'.nextId
  have hnext : after.2.nextId = (analyse s.nextId source).nextId := (run_learns s fuel source).1
  have hrun : after = _ := run_eq_runAnalysed s fuel source
  have hrun' : after' = _ := run_eq_runAnalysed s' fuel source'
  rw [← hnext] at hanalysed
  let new := (Likeness.handedOut K.lines s.nextId s'.nextId after.2.nextId).numbers
  have hnew : ∀ i i', new i i' → (s.nextId ≤ i ∧ i < (analyse s.nextId source).nextId) ∧
      s'.nextId ≤ i' ∧ i' < (analyse s'.nextId source').nextId := by
    rintro i i' ⟨hlow, hhigh, hsum⟩
    omega
  have hall := h.runAnalysed (analyse_keeps s.nextId source) (analyse_keeps s'.nextId source') hnew
    (Likeness.faithful_handedOut _ _ _ _) hanalysed fuel
  rw [← hrun, ← hrun'] at hall
  exact hall

end Session

end Scriptlet
