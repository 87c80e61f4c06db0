import Scriptlet.Proofs.Grammar.Obeys

/-!
# Reading by position

Readers take tokens off a list that holds no end token. Here the same readers run on
a list of tokens as it is given, end tokens and all, with the position of the current
token as their state: looking at a token is an access by position, and an access
outside the list is an outcome of its own. What a reader does is a plan, made of the
primitives only; a plan can be read from a cursor and walked over a list. Walking
gives what reading gives as long as an end token lies ahead, and then no access
falls outside the list.
-/

namespace Scriptlet.Grammar

/-- The state of walking over a list of tokens. -/
structure Position where
  /-- The position of the current token. -/
  current : Nat
  /-- The number of the next expression. -/
  nextId : Nat
  /-- The violations noted so far, in order. -/
  errors : List SyntaxError

namespace Position

variable (tokens : List Token)

/-- Note a violation without moving. -/
def note (p : Position) (e : SyntaxError) : Position := { p with errors := p.errors ++ [e] }

/-- The current token, if the position lies in the list. -/
def peek (p : Position) : Option Token := tokens[p.current]?

/-- The token before the current one; the first token has itself before it. -/
def previous (p : Position) : Option Token := tokens[p.current - 1]?

/-- Move past the current token unless it is an end token, and look back at the one
before the new position. -/
def advance (p : Position) : Option (Token × Position) := do
  let t ← p.peek tokens
  let p := if t.isEnd then p else { p with current := p.current + 1 }
  let before ← p.previous tokens
  return (before, p)

/-- Move on to an end token, to a token that follows a semicolon or to one that
begins a statement. -/
def seek (p : Position) : Option Position :=
  match _h : tokens[p.current]? with
  | none => none
  | some t =>
    if t.isEnd then some p
    else
      match p.previous tokens with
      | none => none
      | some before =>
        if before.kind = .semicolon ∨ beginsStatement t.kind = true then some p
        else seek { p with current := p.current + 1 }
termination_by tokens.length - p.current
decreasing_by
  have hlt := (List.getElem?_eq_some_iff.mp _h).choose
  omega

end Position

/-- What a reader does, in terms of the primitives. -/
inductive Plan : Type → Type 1 where
  | pure {α : Type} (value : α) : Plan α
  | bind {α β : Type} (first : Plan β) (next : β → Plan α) : Plan α
  | exhausted {α : Type} : Plan α
  | missing {α : Type} (what : Expectation) : Plan α
  | noteHere (fault : SyntaxFault) : Plan Unit
  | noteAt (place : Token) (fault : SyntaxFault) : Plan Unit
  | acceptMap {α : Type} (f : Token → Option α) : Plan (Option α)
  | nextIs (kind : Kind) : Plan Bool
  | atEnd : Plan Bool
  | node (make : Nat → Expr) : Plan Expr
  | recovering (inner : Plan Stmt) : Plan (Option Stmt)

namespace Plan

/-- The reader that does what a plan says. -/
def read {α : Type} : Plan α → Reader α
  | pure value => Pure.pure value
  | bind first next => do (next (← first.read)).read
  | exhausted => Grammar.exhausted
  | missing what => Grammar.missing what
  | noteHere fault => Grammar.noteHere fault
  | noteAt place fault => Grammar.noteAt place fault
  | acceptMap f => acceptMap? f
  | nextIs kind => Grammar.nextIs kind
  | atEnd => Grammar.atEnd
  | node make => Grammar.node make
  | recovering inner => Grammar.recovering inner.read

/-- Do what a plan says on a list of tokens; nothing comes out where an access falls
outside the list. -/
def walk (tokens : List Token) {α : Type} :
    Plan α → Position → Option (EStateM.Result Halt Position α)
  | pure value, p => some (.ok value p)
  | bind first next, p => do
    match ← first.walk tokens p with
    | .ok value middle => (next value).walk tokens middle
    | .error halt after => return .error halt after
  | exhausted, p => some (.error .exhausted p)
  | missing what, p => do
    let t ← p.peek tokens
    return .error (.failed ⟨t, .missing what⟩) p
  | noteHere fault, p => do
    let t ← p.peek tokens
    return .ok () (p.note ⟨t, fault⟩)
  | noteAt place fault, p => some (.ok () (p.note ⟨place, fault⟩))
  | acceptMap f, p => do
    let t ← p.peek tokens
    if t.isEnd || (f t).isNone then return .ok none p
    let (read, p) ← p.advance tokens
    return .ok (f read) p
  | nextIs kind, p => do
    let t ← p.peek tokens
    return .ok (!t.isEnd && t.kind == kind) p
  | atEnd, p => do
    let t ← p.peek tokens
    return .ok t.isEnd p
  | node make, p => some (.ok (make p.nextId) { p with nextId := p.nextId + 1 })
  | recovering inner, p => do
    match ← inner.walk tokens p with
    | .ok s after => return .ok (some s) after
    | .error (.failed e) after =>
      let (_, after) ← (after.note e).advance tokens
      return .ok none (← after.seek tokens)
    | .error .exhausted after => return .error .exhausted after

end Plan

/-- A position at which a cursor stands: the unread tokens follow there up to the
first end token, and numbers and violations are the same. -/
structure Position.Stands (tokens others : List Token) (p : Position) (c : Cursor) : Prop where
  /-- The unread tokens, the end token and the others behind it. -/
  ahead : tokens.drop p.current = c.rest ++ c.stop :: others
  /-- No unread token ends the source. -/
  unread : ∀ t ∈ c.rest, t.isEnd = false
  /-- The end token does. -/
  stop : c.stop.isEnd = true
  nextId : p.nextId = c.nextId
  errors : p.errors = c.errors

namespace Position.Stands

variable {tokens others : List Token} {p : Position} {c : Cursor} {t : Token} {rest : List Token}

/-- Every step ahead leaves one token less unread. -/
theorem current (h : p.Stands tokens others c) :
    p.current + (c.rest.length + 1 + others.length) = tokens.length := by
  have hlength := congrArg List.length h.ahead
  rw [List.length_drop, List.length_append, List.length_cons] at hlength
  omega

/-- The current token is the one at the cursor. -/
theorem peek (h : p.Stands tokens others c) : p.peek tokens = some c.here := by
  unfold Position.peek
  rw [← List.head?_drop, h.ahead]
  unfold Cursor.here
  cases c.rest <;> rfl

/-- Where tokens are left, the current one is no end token. -/
theorem here_of_cons (h : p.Stands tokens others c) (hrest : c.rest = t :: rest) :
    p.peek tokens = some t ∧ t.isEnd = false := by
  refine ⟨?_, h.unread t (hrest ▸ List.mem_cons_self)⟩
  rw [h.peek, Cursor.here, hrest]
  rfl

/-- Where no token is left, the current one is the end token. -/
theorem here_of_nil (h : p.Stands tokens others c) (hrest : c.rest = []) :
    p.peek tokens = some c.stop := by
  rw [h.peek, Cursor.here, hrest]
  rfl

/-- Whether tokens are left shows at the current one. -/
theorem isEnd_here (h : p.Stands tokens others c) : c.here.isEnd = c.rest.isEmpty := by
  unfold Cursor.here
  cases hrest : c.rest with
  | nil => exact h.stop
  | cons t rest => exact h.unread t (hrest ▸ List.mem_cons_self)

/-- Noting a violation on both sides. -/
theorem note (h : p.Stands tokens others c) (e : SyntaxError) :
    (p.note e).Stands tokens others (c.note e) :=
  ⟨h.ahead, h.unread, h.stop, h.nextId, by rw [Position.note, Cursor.note, h.errors]⟩

/-- Moving past an unread token on both sides. -/
theorem next (h : p.Stands tokens others c) (hrest : c.rest = t :: rest) :
    Position.Stands tokens others { p with current := p.current + 1 } { c with rest } where
  ahead := by
    rw [← List.drop_drop, h.ahead, hrest]
    rfl
  unread := fun t' ht' => h.unread t' (hrest ▸ List.mem_cons_of_mem t ht')
  stop := h.stop
  nextId := h.nextId
  errors := h.errors

/-- Advancing past an unread token looks back at that token. -/
theorem advance_cons (h : p.Stands tokens others c) (hrest : c.rest = t :: rest) :
    p.advance tokens = some (t, { p with current := p.current + 1 }) := by
  obtain ⟨hpeek, hend⟩ := h.here_of_cons hrest
  have hback : Position.previous tokens { p with current := p.current + 1 } = some t := hpeek
  unfold Position.advance
  rw [hpeek]
  simp only [Option.bind_eq_bind, Option.bind_some, hend, Bool.false_eq_true, if_false, hback]
  rfl

/-- Advancing at the end moves nothing, and it looks at a token of the list. -/
theorem advance_nil (h : p.Stands tokens others c) (hrest : c.rest = []) :
    ∃ before, p.advance tokens = some (before, p) := by
  have hpeek := h.here_of_nil hrest
  have hlt : p.current < tokens.length := (List.getElem?_eq_some_iff.mp hpeek).choose
  refine ⟨tokens[p.current - 1], ?_⟩
  have hback : p.previous tokens = some tokens[p.current - 1] := List.getElem?_eq_getElem _
  unfold Position.advance
  rw [hpeek]
  simp only [Option.bind_eq_bind, Option.bind_some, h.stop, if_true, hback]
  rfl

/-- Seeking stops where skipping tokens stops. -/
theorem seek (h : p.Stands tokens others c) {before : Token}
    (hbefore : p.previous tokens = some before) :
    ∃ after, p.seek tokens = some after ∧
      after.Stands tokens others { c with rest := skipAfter before c.rest } := by
  obtain ⟨rest, stop, nextId, errors⟩ := c
  induction rest generalizing p before with
  | nil =>
    have hpeek : tokens[p.current]? = some stop := h.here_of_nil rfl
    refine ⟨p, ?_, h⟩
    unfold Position.seek
    split
    · rename_i hnone
      rw [hpeek] at hnone
      cases hnone
    · rename_i t hsome
      obtain rfl : stop = t := Option.some.inj (hpeek.symm.trans hsome)
      rw [if_pos h.stop]
  | cons t rest ih =>
    obtain ⟨hpeek, hend⟩ := h.here_of_cons rfl
    have hback : Position.previous tokens { p with current := p.current + 1 } = some t := hpeek
    obtain ⟨after, hseek, hafter⟩ := ih hback (h.next rfl)
    unfold Position.seek
    split
    · rename_i hnone
      rw [Position.peek, hnone] at hpeek
      cases hpeek
    · rename_i t' hsome
      obtain rfl : t = t' := Option.some.inj (hpeek.symm.trans hsome)
      rw [if_neg (by rw [hend]; exact Bool.false_ne_true), hbefore]
      dsimp only
      unfold skipAfter
      by_cases hstops : before.kind = .semicolon ∨ beginsStatement t.kind = true
      · rw [if_pos hstops, if_pos hstops]
        exact ⟨p, rfl, h⟩
      · rw [if_neg hstops, if_neg hstops]
        exact ⟨after, hseek, hafter⟩

/-- Advancing and seeking go on where recovery does. -/
theorem recover (h : p.Stands tokens others c) :
    ∃ before middle after, p.advance tokens = some (before, middle) ∧
      middle.seek tokens = some after ∧ after.Stands tokens others c.recover := by
  cases hrest : c.rest with
  | nil =>
    obtain ⟨before, hadvance⟩ := h.advance_nil hrest
    have hlt : p.current < tokens.length :=
      (List.getElem?_eq_some_iff.mp (h.here_of_nil hrest)).choose
    obtain ⟨after, hseek, hafter⟩ :=
      h.seek (List.getElem?_eq_getElem (l := tokens) (i := p.current - 1) (by omega))
    refine ⟨before, p, after, hadvance, hseek, ?_⟩
    unfold Cursor.recover
    rw [hrest] at hafter ⊢
    exact hafter
  | cons t rest =>
    obtain ⟨after, hseek, hafter⟩ := (h.next hrest).seek (h.here_of_cons hrest).1
    refine ⟨t, _, after, h.advance_cons hrest, hseek, ?_⟩
    unfold Cursor.recover
    rw [hrest]
    exact hafter

end Position.Stands

/-- What a walk has to come to, given what reading came to. -/
def Follows (tokens others : List Token) {α : Type} :
    EStateM.Result Halt Cursor α → Option (EStateM.Result Halt Position α) → Prop
  | .ok value c, walked => ∃ p, walked = some (.ok value p) ∧ p.Stands tokens others c
  | .error halt c, walked => ∃ p, walked = some (.error halt p) ∧ p.Stands tokens others c

/-- Where a cursor stands, walking over the list gives what reading gives, and no
access falls outside the list. -/
theorem Plan.walk_follows {tokens others : List Token} {α : Type} (plan : Plan α) (p : Position)
    (c : Cursor) (h : p.Stands tokens others c) :
    Follows tokens others (plan.read c) (plan.walk tokens p) := by
  induction plan generalizing p c with
  | pure value => exact ⟨p, rfl, h⟩
  | bind first next ihfirst ihnext =>
    have hfirst := ihfirst p c h
    change Follows tokens others (EStateM.bind first.read (fun value => (next value).read) c) _
    unfold EStateM.bind walk
    revert hfirst
    cases first.read c with
    | error halt after =>
      rintro ⟨reached, hwalk, hstands⟩
      rw [hwalk]
      exact ⟨reached, rfl, hstands⟩
    | ok value middle =>
      rintro ⟨reached, hwalk, hstands⟩
      rw [hwalk]
      exact ihnext value reached middle hstands
  | exhausted => exact ⟨p, rfl, h⟩
  | missing what =>
    unfold walk
    rw [h.peek]
    exact ⟨p, rfl, h⟩
  | noteHere fault =>
    unfold walk
    rw [h.peek]
    exact ⟨_, rfl, h.note _⟩
  | noteAt place fault => exact ⟨_, rfl, h.note _⟩
  | acceptMap f =>
    unfold read walk acceptMap?
    cases hrest : c.rest with
    | nil =>
      rw [h.here_of_nil hrest]
      refine ⟨p, ?_, h⟩
      simp [h.stop]
    | cons t rest =>
      obtain ⟨hpeek, hend⟩ := h.here_of_cons hrest
      rw [hpeek, h.advance_cons hrest]
      dsimp only
      cases hf : f t with
      | none =>
        refine ⟨p, ?_, h⟩
        simp [hf]
      | some value =>
        refine ⟨_, ?_, h.next hrest⟩
        simp [hf, hend]
  | nextIs kind =>
    unfold read walk Grammar.nextIs
    cases hrest : c.rest with
    | nil =>
      rw [h.here_of_nil hrest]
      refine ⟨p, ?_, h⟩
      simp [h.stop]
    | cons t rest =>
      obtain ⟨hpeek, hend⟩ := h.here_of_cons hrest
      rw [hpeek]
      refine ⟨p, ?_, h⟩
      simp [hend]
  | atEnd =>
    unfold read walk Grammar.atEnd
    rw [h.peek]
    refine ⟨p, ?_, h⟩
    simp [h.isEnd_here]
  | node make =>
    refine ⟨{ p with nextId := p.nextId + 1 }, ?_, ?_⟩
    · unfold walk
      rw [h.nextId]
    · exact ⟨h.ahead, h.unread, h.stop, congrArg (· + 1) h.nextId, h.errors⟩
  | recovering inner ih =>
    have hinner := ih p c h
    unfold read walk Grammar.recovering
    revert hinner
    cases inner.read c with
    | ok s after =>
      rintro ⟨reached, hwalk, hstands⟩
      rw [hwalk]
      exact ⟨reached, rfl, hstands⟩
    | error halt after =>
      rintro ⟨reached, hwalk, hstands⟩
      rw [hwalk]
      cases halt with
      | exhausted => exact ⟨reached, rfl, hstands⟩
      | failed e =>
        obtain ⟨before, middle, final, hadvance, hseek, hfinal⟩ := (hstands.note e).recover
        refine ⟨final, ?_, hfinal⟩
        simp [hadvance, hseek]

end Scriptlet.Grammar
