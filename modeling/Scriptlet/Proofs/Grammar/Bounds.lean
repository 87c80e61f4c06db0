import Scriptlet.Proofs.Grammar.Acceptance
import Scriptlet.Proofs.Grammar.Planned

/-!
# Reading stays inside its tokens

Any list of tokens that ends in an end token can be read: the kinds may come in any
order, and end tokens may stand in the middle. Reading comes to its end, no access
falls outside the list, every declaration moves on, and the reading stops at the
first end token. What stands behind that token is never looked at.
-/

namespace Scriptlet.Grammar

variable {α : Type}

/-- Whatever plan a reader follows, walking over a list comes to this result; and the
reader follows some plan. -/
def Walks (tokens : List Token) (reader : Reader α) (p : Position)
    (result : EStateM.Result Halt Position α) : Prop :=
  Planned reader ∧ ∀ plan : Plan α, plan.read = reader → plan.walk tokens p = some result

/-- What a declaration comes to before the end token at a position: it goes on, not
past that token, unless the fuel does not exceed the number of tokens left. -/
def Progresses (fuel last : Nat) (p : Position) : EStateM.Result Halt Position α → Prop
  | .ok _ after => p.current < after.current ∧ after.current ≤ last
  | .error (.failed _) _ => False
  | .error .exhausted _ => fuel ≤ last - p.current

/-- Reading a program stops where no token is left, with or without violations. -/
theorem programFrom_rest {declared : Reader (Option Stmt)} {steps : Nat} {c after : Cursor}
    {program : Program} (h : programFrom declared steps c = .ok program after) :
    after.rest = [] := by
  induction steps generalizing c program with
  | zero => cases h
  | succ steps ih =>
    unfold programFrom at h
    rw [bind_of_ok (atEnd_eq c)] at h
    split at h
    · cases h
      exact List.isEmpty_iff.mp ‹_›
    · change EStateM.bind declared _ c = _ at h
      unfold EStateM.bind at h
      split at h
      · rename_i first middle _
        change EStateM.bind (programFrom declared steps) _ middle = _ at h
        unfold EStateM.bind at h
        split at h
        · rename_i others reached hothers
          cases h
          exact ih hothers
        · cases h
      · cases h

variable {tokens others : List Token} {p p' : Position} {c : Cursor}

/-- A cursor stands at one position only. -/
theorem Position.Stands.unique (h : p.Stands tokens others c) (h' : p'.Stands tokens others c) :
    p = p' := by
  have hcurrent := h.current
  have hcurrent' := h'.current
  have hnumber : p.nextId = p'.nextId := h.nextId.trans h'.nextId.symm
  have herrors : p.errors = p'.errors := h.errors.trans h'.errors.symm
  obtain ⟨current, nextId, errors⟩ := p
  obtain ⟨current', nextId', errors'⟩ := p'
  obtain rfl : current = current' := by
    dsimp only at hcurrent hcurrent'
    omega
  cases hnumber
  cases herrors
  rfl

/-- Two walks that come to what reading came to are the same. -/
theorem Follows.unique {result : EStateM.Result Halt Cursor α}
    {walked walked' : Option (EStateM.Result Halt Position α)}
    (h : Follows tokens others result walked) (h' : Follows tokens others result walked') :
    walked = walked' := by
  cases result <;>
  · obtain ⟨p, rfl, hp⟩ := h
    obtain ⟨p', rfl, hp'⟩ := h'
    rw [hp.unique hp']

/-- A reader that follows a plan walks where it reads. -/
theorem Planned.walks {reader : Reader α} (h : Planned reader) (hp : p.Stands tokens others c) :
    ∃ result, Walks tokens reader p result ∧ Follows tokens others (reader c) (some result) := by
  have hall : ∀ plan : Plan α, plan.read = reader →
      Follows tokens others (reader c) (plan.walk tokens p) := by
    rintro plan rfl
    exact plan.walk_follows p c hp
  obtain ⟨plan, hplan⟩ := h
  have hfollows := hall plan hplan
  cases hwalk : plan.walk tokens p with
  | none =>
    rw [hwalk] at hfollows
    revert hfollows
    cases reader c <;> exact fun ⟨_, hnone, _⟩ => by cases hnone
  | some result =>
    rw [hwalk] at hfollows
    refine ⟨result, ⟨⟨plan, hplan⟩, fun plan' hplan' => ?_⟩, hfollows⟩
    exact (hall plan' hplan').unique hfollows

/-- Before an end token, a declaration goes on wherever it begins. -/
theorem declaration_progresses (fuel : Nat) (hp : p.Stands tokens others c)
    (hrest : c.rest ≠ []) :
    ∃ result, Walks tokens (declaration fuel) p result ∧
      Progresses fuel (p.current + c.rest.length) p result := by
  obtain ⟨result, hwalks, hfollows⟩ := (declaration_statement_planned fuel).1.walks hp
  refine ⟨result, hwalks, ?_⟩
  have hyields := (declaration_statement_obey fuel).1 c hrest
  have hnofail := declaration_ne_failed fuel c
  have hcurrent := hp.current
  revert hfollows hyields hnofail
  cases declaration fuel c with
  | ok found after =>
    rintro ⟨reached, ⟨⟩, hstands⟩ ⟨used, errors, passes, hused, -⟩ -
    have hreached := hstands.current
    have hlength := congrArg List.length passes.rest
    rw [List.length_append] at hlength
    refine ⟨?_, ?_⟩ <;> omega
  | error halt after =>
    rintro ⟨reached, ⟨⟩, hstands⟩ hyields hnofail
    cases halt with
    | failed e => exact hnofail after e rfl
    | exhausted =>
      have hdry : fuel ≤ c.rest.length := hyields
      change fuel ≤ p.current + c.rest.length - p.current
      omega

/-- The first end token of a list, and what stands before and behind it. -/
theorem exists_split_at_end (hlast : ∃ t ∈ tokens.getLast?, t.kind = .endOfFile) :
    ∃ before stop behind, tokens = before ++ stop :: behind ∧ (∀ t ∈ before, t.isEnd = false) ∧
      stop.isEnd = true ∧ before.length = tokens.findIdx Token.isEnd := by
  obtain ⟨t, hmem, ht⟩ := hlast
  have hlt : tokens.findIdx Token.isEnd < tokens.length :=
    List.findIdx_lt_length.mpr ⟨t, List.mem_of_getLast? hmem, by simp [Token.isEnd, ht]⟩
  refine ⟨tokens.take (tokens.findIdx Token.isEnd), tokens[tokens.findIdx Token.isEnd],
    tokens.drop (tokens.findIdx Token.isEnd + 1), ?_, ?_, List.findIdx_getElem, ?_⟩
  · rw [← List.drop_eq_getElem_cons hlt, List.take_append_drop]
  · intro t ht
    obtain ⟨i, hi, rfl⟩ := List.mem_take_iff_getElem.mp ht
    simpa using List.not_of_lt_findIdx (by omega : i < tokens.findIdx Token.isEnd)
  · rw [List.length_take]
    omega

/-- Where the first end token is looked for, an end token is found. -/
theorem endOfFile_at_first (hlast : ∃ t ∈ tokens.getLast?, t.kind = .endOfFile) :
    ∃ t ∈ tokens[tokens.findIdx Token.isEnd]?, t.kind = .endOfFile := by
  obtain ⟨before, stop, behind, htokens, -, hstop, hfirst⟩ := exists_split_at_end hlast
  refine ⟨stop, ?_, by simpa [Token.isEnd] using hstop⟩
  rw [← hfirst, htokens, List.getElem?_append_right (Nat.le_refl _), Nat.sub_self]
  rfl

/-- A list that ends in an end token is read without an access outside of it, up to
its first end token exactly; every declaration begun before that token goes on; and
the outcome is the same whatever stands behind that token. -/
theorem parse_walks (tokens : List Token) (n : Nat)
    (hlast : ∃ t ∈ tokens.getLast?, t.kind = .endOfFile) :
    let first := tokens.findIdx Token.isEnd
    let parsed := parse tokens n
    (∃ t ∈ tokens[first]?, t.kind = .endOfFile) ∧
      Walks tokens (program (first + 1)) ⟨0, n, []⟩
        (.ok parsed.program ⟨first, parsed.nextId, parsed.errors⟩) ∧
      (∀ fuel (p : Position), p.current < first →
        ∃ result, Walks tokens (declaration fuel) p result ∧ Progresses fuel first p result) ∧
      ∀ others, parse (tokens.take (first + 1) ++ others) n = parsed := by
  obtain ⟨before, stop, behind, htokens, hbefore, hstop, hfirst⟩ := exists_split_at_end hlast
  have hend := endOfFile_at_first hlast
  dsimp only
  rw [← hfirst] at hend ⊢
  have hstart : ∀ others, Cursor.start (before ++ stop :: others) n = ⟨before, stop, n, []⟩ :=
    fun others => Cursor.start_append_cons others n hbefore hstop
  have hstands : ∀ p : Position, p.current ≤ before.length →
      p.Stands tokens behind ⟨before.drop p.current, stop, p.nextId, p.errors⟩ := by
    intro p hp
    refine ⟨?_, fun t ht => hbefore t (List.mem_of_mem_drop ht), hstop, rfl, rfl⟩
    rw [htokens, List.drop_append_of_le_length hp]
  refine ⟨hend, ?_, ?_, ?_⟩
  · obtain ⟨result, hwalks, hfollows⟩ :=
      (program_planned (before.length + 1)).walks (hstands ⟨0, n, []⟩ (Nat.zero_le _))
    obtain ⟨program, after, hread, -⟩ := program_reads before stop n
    have hparsed : parse tokens n = ⟨program, after.errors, after.nextId⟩ := by
      apply parse_of_start
      rw [htokens, hstart behind]
      exact hread
    have hdone : after.rest = [] := programFrom_rest hread
    rw [List.drop_zero, hread] at hfollows
    obtain ⟨⟨current, nextId, errors⟩, ⟨⟩, hreached⟩ := hfollows
    have hcurrent := hreached.current
    rw [hdone, htokens] at hcurrent
    simp only [List.length_append, List.length_cons, List.length_nil] at hcurrent
    obtain rfl : nextId = after.nextId := hreached.nextId
    obtain rfl : errors = after.errors := hreached.errors
    obtain rfl : current = before.length := by omega
    rw [hparsed]
    exact hwalks
  · intro fuel p hp
    have hprogress := declaration_progresses fuel (hstands p (Nat.le_of_lt hp)) ?_
    · rw [List.length_drop, Nat.add_sub_cancel' (Nat.le_of_lt hp)] at hprogress
      exact hprogress
    · intro hnil
      exact absurd (List.drop_eq_nil_iff.mp hnil) (Nat.not_le.mpr hp)
  · intro others
    have htake : tokens.take (before.length + 1) = before ++ [stop] := by
      rw [htokens, List.take_append, List.take_of_length_le (Nat.le_succ _)]
      simp
    unfold parse
    rw [htake, List.append_assoc, List.singleton_append, hstart others, htokens, hstart behind]

/-- A stray closing brace and a `print` without its value, then an end token with more
behind it. -/
def cutShort : List Token :=
  [⟨.rightBrace, "\x7d", none, 1⟩, ⟨.kwPrint, "print", none, 1⟩, Token.endAt 1,
    ⟨.kwVar, "var", none, 2⟩, Token.endAt 2]

/-- Both violations are noted, and the reading stops at the first of the two end tokens. -/
theorem parse_cutShort :
    (∃ t ∈ cutShort.getLast?, t.kind = .endOfFile) ∧
      Walks cutShort (program 3) ⟨0, 7, []⟩
        (.ok [] ⟨2, 7, [⟨⟨.rightBrace, "\x7d", none, 1⟩, .missing .expression⟩,
          ⟨Token.endAt 1, .missing .expression⟩]⟩) := by
  have hlast : ∃ t ∈ cutShort.getLast?, t.kind = .endOfFile := ⟨Token.endAt 2, rfl, rfl⟩
  have hparse : parse cutShort 7 = ⟨[], [⟨⟨.rightBrace, "\x7d", none, 1⟩, .missing .expression⟩,
      ⟨Token.endAt 1, .missing .expression⟩], 7⟩ := by
    cbv
  obtain ⟨-, hwalks, -⟩ := parse_walks cutShort 7 hlast
  rw [hparse] at hwalks
  exact ⟨hlast, hwalks⟩

end Scriptlet.Grammar
