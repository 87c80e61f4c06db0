import Scriptlet.Machine.Lemmas
import Scriptlet.Machine.Run

/-!
# Running with room for so many bytes

An action that is run when the output has room for so many bytes in all does the same
as with room for any number, as long as what it writes fits. Where it does not fit,
the action stops at that write for lack of room, and what was written is the beginning
of what would have been. One action after another keeps to this if both do, so the
evaluator does.
-/

namespace Scriptlet

namespace Sink

variable {s : Sink} {first second bytes : Array UInt8} {limit : Nat}

/-- The beginning of two texts, one behind the other. -/
theorem take_append (first second : Array UInt8) (count : Nat) :
    (first ++ second).take count = first.take count ++ second.take (count - first.size) := by
  rw [Array.take_eq_extract, Array.take_eq_extract, Array.take_eq_extract, Array.extract_append,
    Nat.zero_sub]

/-- The beginning of two texts, when it does not reach into the second. -/
theorem take_append_of_le (h : limit ≤ first.size) :
    (first ++ second).take limit = first.take limit := by
  rw [take_append, Nat.sub_eq_zero_of_le h]
  simp

/-- The beginning of two texts that ends in the second. -/
theorem take_append_add (first second : Array UInt8) (count : Nat) :
    (first ++ second).take (first.size + count) = first ++ second.take count := by
  rw [take_append, Nat.add_sub_cancel_left, Array.take_eq_extract,
    Array.extract_eq_self_of_le (Nat.le_add_right _ _)]

/-- What there is room for is written. -/
theorem write_of_room (h : s.room bytes.size = bytes.size) :
    s.write bytes = (none, { s with written := s.written ++ bytes }) := by
  unfold write
  dsimp only
  rw [h, if_pos rfl, Array.take_eq_extract, Array.extract_size]

/-- With any room everything is written. -/
theorem write_of_free (h : s.capacity = none) :
    s.write bytes = (none, { s with written := s.written ++ bytes }) := by
  refine write_of_room ?_
  unfold room
  rw [h]

/-- What fits is written. -/
theorem write_of_fits (h : s.capacity = some limit) (hroom : s.written.size + bytes.size ≤ limit) :
    s.write bytes = (none, { s with written := s.written ++ bytes }) := by
  refine write_of_room ?_
  unfold room
  rw [h]
  exact Nat.min_eq_left (by omega)

/-- What does not fit is written up to the limit. -/
theorem write_of_over (h : s.capacity = some limit) (hroom : s.written.size ≤ limit)
    (hover : limit < s.written.size + bytes.size) :
    s.write bytes = (some .full, { s with written := (s.written ++ bytes).take limit }) := by
  have hsome : s.room bytes.size = limit - s.written.size := by
    unfold room
    rw [h]
    exact Nat.min_eq_right (by omega)
  have hall : s.written.take limit = s.written := by
    rw [Array.take_eq_extract, Array.extract_eq_self_of_le hroom]
  unfold write
  dsimp only
  rw [hsome, if_neg (by omega), take_append, hall]

end Sink

namespace Machine

/-- A machine whose output has room for so many bytes in all. -/
def limited (limit : Nat) (m : Machine) : Machine :=
  { m with sink := { m.sink with capacity := some limit } }

/-- A result on another machine. -/
def onMachine {α : Type} (f : Machine → Machine) :
    EStateM.Result Stop Machine α → EStateM.Result Stop Machine α
  | .ok a m => .ok a (f m)
  | .error stop m => .error stop (f m)

/-- How an action with limited room compares with the same action with any room. -/
structure Truncated {α : Type} (limit : Nat) (action : Run α) (m : Machine) : Prop where
  /-- What was written stays. -/
  grows : ∃ more, (reached (action m)).sink = { m.sink with written := m.sink.written ++ more }
  /-- As long as everything fits there is no difference. -/
  fits : (reached (action m)).sink.written.size ≤ limit →
    action (m.limited limit) = onMachine (limited limit) (action m)
  /-- Else the action stops, and what fits was written. -/
  full : m.sink.written.size ≤ limit → limit < (reached (action m)).sink.written.size →
    ∃ after, action (m.limited limit) = .error (.sink .full) after ∧ after.sink =
      { m.sink with
        written := (reached (action m)).sink.written.take limit
        capacity := some limit }

/-- An action compares so on every machine whose output has any room. -/
def Truncates {α : Type} (limit : Nat) (action : Run α) : Prop :=
  ∀ m : Machine, m.sink.capacity = none → Truncated limit action m

/-- An action that has nothing to do with the output. -/
def Blind {α : Type} (action : Run α) : Prop :=
  ∀ (m : Machine) sink, action { m with sink } = onMachine (fun m => { m with sink }) (action m)

namespace Truncates

variable {α β : Type} {limit : Nat}

/-- The machine that is left behind, when a result is put on another one. -/
theorem reached_onMachine (f : Machine → Machine) (result : EStateM.Result Stop Machine α) :
    reached (onMachine f result) = f (reached result) := by
  cases result <;> rfl

/-- An action that has nothing to do with the output leaves it alone. -/
theorem blind {action : Run α} (h : Blind action) : Truncates limit action := by
  intro m hfree
  have hsink : (reached (action m)).sink = m.sink := by
    have hsame := congrArg (fun result => (reached result).sink) (h m m.sink)
    rw [reached_onMachine] at hsame
    exact hsame
  refine ⟨⟨#[], ?_⟩, fun _ => ?_, fun hroom hfull => ?_⟩
  · rw [hsink, Array.append_empty]
  · have hlimited := h m { m.sink with capacity := some limit }
    have hresult : onMachine (fun m' => { m' with sink := { m.sink with capacity := some limit } })
        (action m) = onMachine (limited limit) (action m) := by
      unfold limited
      revert hsink
      cases action m with
      | ok a after => rintro (hsink : after.sink = m.sink); simp only [onMachine, hsink]
      | error stop after => rintro (hsink : after.sink = m.sink); simp only [onMachine, hsink]
    exact hlimited.trans hresult
  · rw [hsink] at hfull
    exact absurd hroom (Nat.not_le.mpr hfull)

/-- One action after another. -/
theorem bind {first : Run β} {next : β → Run α} (h : Truncates limit first)
    (hnext : ∀ b, Truncates limit (next b)) : Truncates limit (first >>= next) := by
  intro m hfree
  obtain ⟨⟨more, hmore⟩, hfits, hfull⟩ := h m hfree
  have heq : ∀ m, (first >>= next) m = EStateM.bind first next m := fun _ => rfl
  unfold EStateM.bind at heq
  cases hfirst : first m with
  | error stop after =>
    -- What follows is not run, with either room.
    rw [hfirst] at hmore hfits hfull
    have hwhole : (first >>= next) m = .error stop after := by rw [heq, hfirst]
    refine ⟨⟨more, hwhole ▸ hmore⟩, fun hroom => ?_, fun hroom hover => ?_⟩
    · rw [hwhole] at hroom ⊢
      rw [heq, hfits hroom]
      rfl
    · rw [hwhole] at hover ⊢
      obtain ⟨stopped, hstopped, hsink⟩ := hfull hroom hover
      exact ⟨stopped, by rw [heq, hstopped], hsink⟩
  | ok b after =>
    rw [hfirst] at hmore hfits hfull
    have hafter : after.sink = { m.sink with written := m.sink.written ++ more } := hmore
    have hwhole : (first >>= next) m = next b after := by rw [heq, hfirst]
    obtain ⟨⟨others, hothers⟩, hfits', hfull'⟩ := hnext b after (by rw [hafter]; exact hfree)
    have hsize : after.sink.written.size ≤ (reached (next b after)).sink.written.size := by
      rw [hothers, Array.size_append]
      exact Nat.le_add_right _ _
    refine ⟨⟨more ++ others, ?_⟩, fun hroom => ?_, fun hroom hover => ?_⟩
    · rw [hwhole, hothers, hafter, Array.append_assoc]
    · rw [hwhole] at hroom ⊢
      rw [heq, hfits (Nat.le_trans hsize hroom), ← hfits' hroom]
      rfl
    · rw [hwhole] at hover ⊢
      rcases Nat.lt_or_ge limit after.sink.written.size with hbefore | hstill
      · -- The first action already overruns the room.
        obtain ⟨stopped, hstopped, hsink⟩ := hfull hroom hbefore
        refine ⟨stopped, by rw [heq, hstopped], ?_⟩
        have hbegin : (reached (next b after)).sink.written.take limit =
            after.sink.written.take limit := by
          rw [hothers]
          exact Sink.take_append_of_le (Nat.le_of_lt hbefore)
        rw [hsink, hbegin]
        rfl
      · obtain ⟨stopped, hstopped, hsink⟩ := hfull' hstill hover
        refine ⟨stopped, ?_, by rw [hsink, hafter]⟩
        rw [heq, hfits hstill]
        exact hstopped

/-- Going on after an action that has nothing to do with the output. -/
theorem past {first : Run β} {next : β → Run α} (h : Blind first)
    (hnext : ∀ b, Truncates limit (next b)) : Truncates limit (first >>= next) :=
  (blind h).bind hnext

/-- An action inside another frame. -/
theorem within {action : Run α} (h : Truncates limit action) (frame : FrameId) :
    Truncates limit (Machine.within frame action) := by
  intro m hfree
  obtain ⟨hgrows, hfits, hfull⟩ := h { m with scope := frame } hfree
  have hsink : (reached (Machine.within frame action m)).sink =
      (reached (action { m with scope := frame })).sink := by
    unfold Machine.within
    cases action { m with scope := frame } <;> rfl
  refine ⟨hsink ▸ hgrows, fun hroom => ?_, fun hroom hover => ?_⟩
  · have hinside : action { m.limited limit with scope := frame } =
        onMachine (limited limit) (action { m with scope := frame }) := hfits (hsink ▸ hroom)
    unfold Machine.within
    rw [hinside]
    cases action { m with scope := frame } <;> rfl
  · obtain ⟨stopped, hstopped, hkept⟩ := hfull hroom (hsink ▸ hover)
    have hinside : action { m.limited limit with scope := frame } =
        .error (.sink .full) stopped := hstopped
    refine ⟨{ stopped with scope := m.scope }, ?_, hsink ▸ hkept⟩
    unfold Machine.within
    rw [hinside]
    rfl

/-- A line is printed as far as there is room. -/
theorem printLine (value : Value) : Truncates limit (Machine.printLine value) := by
  intro m hfree
  generalize hbytes : (m.store.render value ++ "\n").toUTF8.data = bytes
  have hprinted : Machine.printLine value m =
      .ok () { m with sink := { m.sink with written := m.sink.written ++ bytes } } := by
    unfold Machine.printLine
    rw [hbytes, Sink.write_of_free hfree]
  have hlimited : (m.limited limit).sink.capacity = some limit := rfl
  have hbytes' : ((m.limited limit).store.render value ++ "\n").toUTF8.data = bytes := hbytes
  have hsize : (reached (Machine.printLine value m)).sink.written.size =
      m.sink.written.size + bytes.size := by
    rw [hprinted]
    exact Array.size_append
  refine ⟨⟨bytes, by rw [hprinted]; rfl⟩, fun hroom => ?_, fun hroom hover => ?_⟩
  · rw [hsize] at hroom
    rw [hprinted]
    unfold Machine.printLine
    rw [hbytes', Sink.write_of_fits hlimited hroom]
    rfl
  · rw [hsize] at hover
    rw [hprinted]
    unfold Machine.printLine
    rw [hbytes', Sink.write_of_over hlimited hroom hover]
    exact ⟨_, rfl, rfl⟩

/-- A value. -/
theorem pure (a : α) : Truncates limit (Pure.pure a) := blind fun _ _ => rfl

/-- Failing. -/
theorem fail (line : Nat) (fault : RuntimeFault) :
    Truncates limit (Machine.fail line fault : Run α) := blind fun _ _ => rfl

/-- Taking a result over. -/
theorem ofExcept (result : Except RuntimeError α) : Truncates limit (Machine.ofExcept result) :=
  blind fun _ _ => by cases result <;> rfl

/-- Expressions one after the other. -/
theorem evaluateAll {evaluate : Expr → Run Value} (h : ∀ e, Truncates limit (evaluate e))
    (es : List Expr) : Truncates limit (Machine.evaluateAll evaluate es) := by
  induction es with
  | nil => exact pure []
  | cons e rest ih => exact (h e).bind fun _ => ih.bind fun _ => pure _

/-- Statements one after the other. -/
theorem executeAll {execute : Stmt → Run Flow} (h : ∀ s, Truncates limit (execute s))
    (body : List Stmt) : Truncates limit (Machine.executeAll execute body) := by
  induction body with
  | nil => exact pure _
  | cons s rest ih =>
    refine (h s).bind fun flow => ?_
    cases flow with
    | normal => exact ih
    | returned value => exact pure _

/-- A loop. -/
theorem repeatWhile {condition : Run Value} {body : Run Flow}
    (hcondition : Truncates limit condition) (hbody : Truncates limit body) (fuel : Nat) :
    Truncates limit (Machine.repeatWhile condition body fuel) := by
  induction fuel with
  | zero => exact blind fun _ _ => rfl
  | succ fuel ih =>
    refine hcondition.bind fun holds => ?_
    split
    · refine hbody.bind fun flow => ?_
      cases flow with
      | normal => exact ih
      | returned value => exact pure _
    · exact pure _

/-- A property of an object. -/
theorem property (object : ObjectId) (name : Token) :
    Truncates limit (Machine.property object name) := by
  refine past (fun _ _ => rfl) fun found => ?_
  split
  · exact pure _
  · refine past (fun _ _ => rfl) fun method => ?_
    cases method with
    | none => exact fail _ _
    | some closure =>
      exact past (fun _ _ => rfl) fun _ => past (fun _ _ => rfl) fun _ => pure _

/-- The clock is read, or shows no time. -/
theorem readClock (line : Nat) : Truncates limit (Machine.readClock line) := by
  refine blind fun m sink => ?_
  unfold Machine.readClock
  dsimp only
  cases m.clock.time? <;> rfl

/-- A call of a value that takes as many arguments as are given. -/
theorem enter {execute : Stmt → Run Flow} (h : ∀ s, Truncates limit (execute s)) (callee : Value)
    (paren : Token) (arguments : List Value) :
    Truncates limit (Machine.enter execute callee paren arguments) := by
  cases callee with
  | function id =>
    refine past (fun _ _ => rfl) fun found => ?_
    cases found with
    | none => exact pure _
    | some closure =>
      refine past (fun _ _ => rfl) fun frame => ?_
      refine ((executeAll h closure.routine.body).within frame).bind fun flow => ?_
      cases flow <;> exact pure _
  | classRef id => exact past (fun _ _ => rfl) fun _ => pure _
  | _ => exact readClock paren.line

/-- A call of a value, whatever it is. -/
theorem callValue {execute : Stmt → Run Flow} (h : ∀ s, Truncates limit (execute s))
    (callee : Value) (paren : Token) (arguments : List Value) :
    Truncates limit (Machine.callValue execute callee paren arguments) := by
  refine past (fun _ _ => rfl) fun arity => ?_
  cases arity with
  | none => exact fail _ _
  | some arity =>
    dsimp only
    split
    · exact enter h callee paren arguments
    · exact fail _ _

/-- A name is read. -/
theorem readName (id : Nat) (name : Token) : Truncates limit (Machine.readName id name) := by
  refine blind fun m sink => ?_
  have hframe : frameOf? { m with sink } id name = m.frameOf? id name := rfl
  unfold Machine.readName
  rw [hframe]
  dsimp only
  cases m.store.readIn (m.frameOf? id name) name <;> rfl

/-- A name is overwritten. -/
theorem writeName (id : Nat) (name : Token) (value : Value) :
    Truncates limit (Machine.writeName id name value) := by
  refine blind fun m sink => ?_
  have hframe : frameOf? { m with sink } id name = m.frameOf? id name := rfl
  unfold Machine.writeName
  rw [hframe]
  dsimp only
  cases (m.frameOf? id name).filter fun frame => m.store.binds frame name.lexeme <;> rfl

/-- Coming back to the outermost frame. -/
theorem backToGlobals {action : Run α} (h : Truncates limit action) :
    Truncates limit (Machine.backToGlobals action) := by
  intro m hfree
  obtain ⟨hgrows, hfits, hfull⟩ := h m hfree
  have hsink : (reached (Machine.backToGlobals action m)).sink = (reached (action m)).sink := by
    unfold Machine.backToGlobals
    cases action m <;> rfl
  refine ⟨hsink ▸ hgrows, fun hroom => ?_, fun hroom hover => ?_⟩
  · have hinside := hfits (hsink ▸ hroom)
    unfold Machine.backToGlobals
    rw [hinside]
    cases action m <;> rfl
  · obtain ⟨stopped, hstopped, hkept⟩ := hfull hroom (hsink ▸ hover)
    refine ⟨{ stopped with scope := stopped.globals }, ?_, hsink ▸ hkept⟩
    unfold Machine.backToGlobals
    rw [hstopped]

/-- Flushing writes nothing. -/
theorem flush : Truncates limit Machine.flush := by
  intro m hfree
  have hreached : reached (Machine.flush m) = m := by
    unfold Machine.flush
    cases m.sink.flush <;> rfl
  refine ⟨⟨#[], ?_⟩, fun _ => ?_, fun hroom hover => ?_⟩
  · rw [hreached, Array.append_empty]
  · have hsame : (m.limited limit).sink.flush = m.sink.flush := rfl
    unfold Machine.flush
    rw [hsame]
    cases m.sink.flush <;> rfl
  · rw [hreached] at hover
    exact absurd hroom (Nat.not_le.mpr hover)

end Truncates

/-- With limited room expressions are evaluated and statements executed alike, or stopped where
the room ends. -/
theorem evaluateBy_executeBy_truncate (limit fuel : Nat) :
    (∀ e, Truncates limit (evaluateBy .recorded fuel e)) ∧
      ∀ s, Truncates limit (executeBy .recorded fuel s) := by
  induction fuel with
  | zero =>
    constructor
    · intro e
      rw [evaluateBy]
      exact .blind fun _ _ => rfl
    · intro s
      rw [executeBy]
      exact .blind fun _ _ => rfl
  | succ fuel ih =>
    obtain ⟨he, hs⟩ := ih
    constructor
    · intro e
      cases e with
      | literal id value => exact .pure _
      | group id inner => exact he inner
      | unary id operator operand => exact (he operand).bind fun _ => .ofExcept _
      | binary id left operator right =>
        exact (he left).bind fun _ => (he right).bind fun _ => .ofExcept _
      | logical id left operator right =>
        refine (he left).bind fun a => ?_
        split
        · exact .pure _
        · exact he right
      | var id name => exact .readName id name
      | receiver id keyword => exact .readName id keyword
      | assign id name value =>
        exact (he value).bind fun a => (Truncates.writeName id name a).bind fun _ => .pure _
      | call id callee paren arguments =>
        exact (he callee).bind fun f => (Truncates.evaluateAll he arguments).bind fun given =>
          .callValue hs f paren given
      | get id object name =>
        refine (he object).bind fun o => ?_
        cases o with
        | object id => exact .property id name
        | _ => exact .fail _ _
      | set id object name value =>
        refine (he object).bind fun o => ?_
        cases o with
        | object id =>
          exact (he value).bind fun a => .past (fun _ _ => rfl) fun _ => .pure _
        | _ => exact .fail _ _
    · intro s
      cases s with
      | expr value => exact (he value).bind fun _ => .pure _
      | print value =>
        exact (he value).bind fun a => (Truncates.printLine a).bind fun _ => .pure _
      | var name initial =>
        cases initial with
        | none => exact .past (fun _ _ => rfl) fun _ => .pure _
        | some initial =>
          exact (he initial).bind fun a => .past (fun _ _ => rfl) fun _ => .pure _
      | block body =>
        exact .past (fun _ _ => rfl) fun _ => .past (fun _ _ => rfl) fun frame =>
          (Truncates.executeAll hs body).within frame
      | ifThen condition yes =>
        refine (he condition).bind fun a => ?_
        split
        · exact hs yes
        · exact .pure _
      | ifElse condition yes no =>
        refine (he condition).bind fun a => ?_
        split
        · exact hs yes
        · exact hs no
      | loop condition body => exact .repeatWhile (he condition) (hs body) fuel
      | function routine =>
        exact .past (fun _ _ => rfl) fun _ => .past (fun _ _ => rfl) fun _ =>
          .past (fun _ _ => rfl) fun _ => .pure _
      | ret keyword value =>
        cases value with
        | none => exact .pure _
        | some value => exact (he value).bind fun _ => .pure _
      | classDecl name methods =>
        exact .past (fun _ _ => rfl) fun _ => .past (fun _ _ => rfl) fun _ =>
          .past (fun _ _ => rfl) fun _ => .pure _

/-- With limited room a program is executed alike, or stopped where the room ends. -/
theorem executeProgramBy_truncates (limit fuel : Nat) (program : Program) :
    Truncates limit (executeProgramBy .recorded fuel program) := by
  induction program with
  | nil => exact .pure ()
  | cons s rest ih => exact ((evaluateBy_executeBy_truncate limit fuel).2 s).bind fun _ => ih

/-- With limited room a program is run alike, or stopped where the room ends. -/
theorem interpret_truncates (limit fuel : Nat) (program : Program) (hops : Hops) :
    Truncates limit (interpret fuel program hops) :=
  .past (fun _ _ => rfl) fun _ =>
    (executeProgramBy_truncates limit fuel program).backToGlobals.bind fun _ => .flush

end Machine

end Scriptlet
