import Mathlib.Order.Bounds.Basic
import Scriptlet.Proofs.Grammar.Bounds

/-!
# Where reading goes on behind a violation

Behind a violation one token is skipped whatever it is, and then as many as it takes to
come to the end, behind a semicolon, or before a word that begins a statement. The place
reached is the first of these places ahead, whether the skipped token is itself a
semicolon, such a word, or the last one. Where no token is left, nothing is skipped.
-/

namespace Scriptlet.Grammar

/-- The words that begin a statement. -/
def statementWords : List Kind :=
  [.kwClass, .kwFunc, .kwVar, .kwFor, .kwIf, .kwWhile, .kwPrint, .kwReturn]

/-- The words that begin a statement are recognised. -/
theorem beginsStatement_iff (kind : Kind) : beginsStatement kind = true ↔ kind ∈ statementWords := by
  cases kind <;> decide

/-- A position at which reading may go on: at an end token, behind a semicolon, or at a
word that begins a statement. -/
def Resumes (tokens : List Token) (j : Nat) : Prop :=
  (∃ t ∈ tokens[j]?, t.kind = .endOfFile) ∨ (∃ t ∈ tokens[j - 1]?, t.kind = .semicolon) ∨
    ∃ t ∈ tokens[j]?, t.kind ∈ statementWords

namespace Resumes

variable {previous t : Token} {rest tokens : List Token}

/-- Whether reading may go on at the second of some tokens. -/
theorem second_iff : Resumes (previous :: t :: rest) 1 ↔
    t.kind = .endOfFile ∨ previous.kind = .semicolon ∨ beginsStatement t.kind = true := by
  rw [beginsStatement_iff]
  simp [Resumes]

/-- Tokens further back than the one before a position do not matter. -/
theorem drop_iff (i k : Nat) : Resumes (tokens.drop i) (k + 1) ↔ Resumes tokens (i + (k + 1)) := by
  have hback : i + (k + 1) - 1 = i + k := rfl
  unfold Resumes
  rw [List.getElem?_drop, List.getElem?_drop, Nat.add_sub_cancel, hback]

end Resumes

/-- Skipping stops at the first token at which reading may go on. -/
theorem skipAfter_least {stop : Token} (hstop : stop.isEnd = true) (others : List Token)
    (previous : Token) {rest : List Token} (hrest : ∀ t ∈ rest, t.isEnd = false) :
    ∃ k ≤ rest.length, skipAfter previous rest = rest.drop k ∧
      IsLeast {k | Resumes (previous :: (rest ++ stop :: others)) (k + 1)} k := by
  induction rest generalizing previous with
  | nil =>
    have hend : stop.kind = .endOfFile := by simpa [Token.isEnd] using hstop
    exact ⟨0, Nat.le_refl 0, rfl, Resumes.second_iff.mpr (.inl hend), fun k _ => Nat.zero_le k⟩
  | cons t rest ih =>
    obtain ⟨ht, hrest⟩ := List.forall_mem_cons.mp hrest
    by_cases hstops : previous.kind = .semicolon ∨ beginsStatement t.kind = true
    · refine ⟨0, Nat.zero_le _, if_pos hstops, ?_, fun k _ => Nat.zero_le k⟩
      exact Resumes.second_iff.mpr (.inr hstops)
    · obtain ⟨k, hk, hskip, hresumes, hleast⟩ := ih t hrest
      refine ⟨k + 1, Nat.succ_le_succ hk, (if_neg hstops).trans hskip, hresumes, ?_⟩
      rintro (_ | k') hk'
      · rcases Resumes.second_iff.mp hk' with hend | hresumed
        · simp [Token.isEnd, hend] at ht
        · exact absurd hresumed hstops
      · exact Nat.succ_le_succ (hleast hk')

namespace Position

variable {tokens : List Token}

/-- The cursor at a position: it has the tokens up to the next end token unread. -/
def cursor (tokens : List Token) (p : Position) : Cursor :=
  { Cursor.start (tokens.drop p.current) p.nextId with errors := p.errors }

/-- Go on at the next boundary: move past the current token, then on to where reading may
go on. -/
def recover (tokens : List Token) (p : Position) : Option Position := do
  let (_, p) ← p.advance tokens
  p.seek tokens

/-- In a list that ends in an end token, a cursor stands at every position. -/
theorem stands_cursor (hlast : ∃ t ∈ tokens.getLast?, t.kind = .endOfFile) {p : Position}
    (hp : p.current < tokens.length) : ∃ others, p.Stands tokens others (p.cursor tokens) := by
  have hne : ¬ tokens.length ≤ p.current := Nat.not_le.mpr hp
  have hbehind : ∃ t ∈ (tokens.drop p.current).getLast?, t.kind = .endOfFile := by
    rwa [List.getLast?_drop, if_neg hne]
  obtain ⟨before, stop, others, htokens, hbefore, hstop, -⟩ := exists_split_at_end hbehind
  have hcursor : p.cursor tokens = ⟨before, stop, p.nextId, p.errors⟩ := by
    unfold cursor
    rw [htokens, Cursor.start_append_cons others p.nextId hbefore hstop]
  refine ⟨others, ?_⟩
  rw [hcursor]
  exact ⟨htokens, hbefore, hstop, rfl, rfl⟩

/-- Going on by position comes to where a cursor goes on. -/
theorem Stands.recover_eq {p : Position} {others : List Token} {c : Cursor}
    (h : p.Stands tokens others c) :
    ∃ after, p.recover tokens = some after ∧ after.Stands tokens others c.recover := by
  obtain ⟨before, middle, after, hadvance, hseek, hafter⟩ := h.recover
  refine ⟨after, ?_, hafter⟩
  unfold Position.recover
  rw [hadvance]
  exact hseek

/-- A cursor that stands somewhere is the cursor at that position. -/
theorem Stands.eq_cursor {p : Position} {others : List Token} {c : Cursor}
    (h : p.Stands tokens others c) : c = p.cursor tokens := by
  unfold cursor
  rw [h.ahead, Cursor.start_append_cons others p.nextId h.unread h.stop, h.nextId, h.errors]

/-- Before a token that does not end the source, going on leads to the first position ahead
at which reading may go on. -/
theorem Stands.recover_least {p : Position} {others : List Token} {c : Cursor}
    (h : p.Stands tokens others c) (hrest : c.rest ≠ []) :
    ∃ j, IsLeast {j | p.current < j ∧ Resumes tokens j} j ∧
      Position.Stands tokens others { p with current := j } c.recover := by
  obtain ⟨t, rest, hcons⟩ := List.exists_cons_of_ne_nil hrest
  have hunread : ∀ u ∈ rest, u.isEnd = false := fun u hu =>
    h.unread u (hcons ▸ List.mem_cons_of_mem t hu)
  have hahead : tokens.drop p.current = t :: (rest ++ c.stop :: others) := by
    rw [h.ahead, hcons, List.cons_append]
  have hresumes : ∀ k, Resumes (t :: (rest ++ c.stop :: others)) (k + 1) ↔
      Resumes tokens (p.current + (k + 1)) := fun k => hahead ▸ Resumes.drop_iff p.current k
  obtain ⟨k, hk, hskip, hreached, hleast⟩ := skipAfter_least h.stop others t hunread
  refine ⟨p.current + (k + 1), ⟨⟨?_, (hresumes k).mp hreached⟩, ?_⟩, ?_⟩
  · exact Nat.lt_add_of_pos_right (Nat.succ_pos k)
  · rintro j ⟨hlt, hj⟩
    obtain ⟨k', rfl⟩ := Nat.exists_eq_add_of_lt hlt
    exact Nat.add_le_add_left (Nat.succ_le_succ (hleast ((hresumes k').mpr hj))) p.current
  · have hbehind : c.recover.rest = rest.drop k := by
      unfold Cursor.recover
      rw [hcons]
      exact hskip
    refine ⟨?_, ?_, h.stop, h.nextId, h.errors⟩
    · rw [hbehind, ← List.drop_drop, hahead, List.drop_succ_cons,
        List.drop_append_of_le_length hk]
      rfl
    · rw [hbehind]
      exact fun u hu => hunread u (List.mem_of_mem_drop hu)

end Position

/-- Behind a violation reading goes on exactly at the next boundary. Before the first end token
that is the first position ahead of the current one that has an end token, or a semicolon before
it, or a word that begins a statement; at an end token nothing is passed. Neither the numbers
nor the violations noted change, and the first end token is never passed. -/
theorem recover_lands (tokens : List Token) (hlast : ∃ t ∈ tokens.getLast?, t.kind = .endOfFile)
    (p : Position) :
    let first := tokens.findIdx Token.isEnd
    (p.current < first → ∃ j ≤ first, IsLeast {j | p.current < j ∧ Resumes tokens j} j ∧
      (p.cursor tokens).recover = Position.cursor tokens { p with current := j } ∧
      p.recover tokens = some { p with current := j }) ∧
    ((∃ t ∈ tokens[p.current]?, t.kind = .endOfFile) →
      (p.cursor tokens).recover = p.cursor tokens ∧ p.recover tokens = some p) := by
  obtain ⟨before, stop, behind, htokens, hbefore, hstop, hfirst⟩ := exists_split_at_end hlast
  dsimp only
  rw [← hfirst]
  constructor
  · intro hp
    have hlength : before.length < tokens.length := by
      rw [htokens, List.length_append, List.length_cons]
      omega
    obtain ⟨others, hstands⟩ := Position.stands_cursor hlast (Nat.lt_trans hp hlength)
    have hrest : (p.cursor tokens).rest ≠ [] := by
      intro hnil
      obtain ⟨hin, hpeek⟩ := List.getElem?_eq_some_iff.mp (hstands.here_of_nil hnil)
      have hother := hbefore _ (List.getElem_mem hp)
      rw [List.getElem_append_left' hp (stop :: behind)] at hother
      simp only [← htokens, hpeek, hstands.stop] at hother
      cases hother
    obtain ⟨j, hleast, hreached⟩ := hstands.recover_least hrest
    have hend : Resumes tokens before.length := .inl (hfirst ▸ endOfFile_at_first hlast)
    refine ⟨j, hleast.2 ⟨hp, hend⟩, hleast, hreached.eq_cursor, ?_⟩
    obtain ⟨after, hrecover, hafter⟩ := hstands.recover_eq
    rw [hrecover, hafter.unique hreached]
  · rintro ⟨t, ht, hkind⟩
    have hp : p.current < tokens.length := (List.getElem?_eq_some_iff.mp ht).choose
    obtain ⟨others, hstands⟩ := Position.stands_cursor hlast hp
    have hrest : (p.cursor tokens).rest = [] := by
      have hhere : (p.cursor tokens).here = t := Option.some.inj (hstands.peek.symm.trans ht)
      have hisEnd := hstands.isEnd_here
      rw [hhere, Token.isEnd, hkind] at hisEnd
      exact List.isEmpty_iff.mp hisEnd.symm
    have hstays : (p.cursor tokens).recover = p.cursor tokens := by
      unfold Cursor.recover
      rw [hrest, boundary, ← hrest]
    obtain ⟨after, hrecover, hafter⟩ := hstands.recover_eq
    rw [hstays] at hafter
    exact ⟨hstays, hrecover.trans (congrArg some (hafter.unique hstands))⟩

/-- The tokens of `print ) ; else` and an end token, and more behind it. -/
def strayWords : List Token :=
  [⟨.kwPrint, "print", none, 1⟩, ⟨.rightParen, ")", none, 1⟩, ⟨.semicolon, ";", none, 1⟩,
    ⟨.kwElse, "else", none, 1⟩, Token.endAt 1, ⟨.kwVar, "var", none, 2⟩, Token.endAt 2]

/-- From the word at the beginning reading goes on behind the semicolon, from there at the end
token, and no further. -/
theorem recover_strayWords :
    (∃ t ∈ strayWords.getLast?, t.kind = .endOfFile) ∧
      Position.recover strayWords ⟨0, 7, []⟩ = some ⟨3, 7, []⟩ ∧
      Position.recover strayWords ⟨3, 7, []⟩ = some ⟨4, 7, []⟩ ∧
      Position.recover strayWords ⟨4, 7, []⟩ = some ⟨4, 7, []⟩ := by
  have hlast : ∃ t ∈ strayWords.getLast?, t.kind = .endOfFile := ⟨Token.endAt 2, rfl, rfl⟩
  have hthree : IsLeast {j | 0 < j ∧ Resumes strayWords j} 3 := by
    refine ⟨⟨by decide, .inr (.inl ⟨⟨.semicolon, ";", none, 1⟩, rfl, rfl⟩)⟩, ?_⟩
    rintro j ⟨hj, hresumes⟩
    by_contra hlt
    obtain rfl | rfl : j = 1 ∨ j = 2 := by omega
    all_goals simp [Resumes, strayWords, statementWords] at hresumes
  have hfour : IsLeast {j | 3 < j ∧ Resumes strayWords j} 4 :=
    ⟨⟨by decide, .inl ⟨Token.endAt 1, rfl, rfl⟩⟩, fun _ hj => hj.1⟩
  obtain ⟨j, -, hleast, -, hfirst⟩ := (recover_lands strayWords hlast ⟨0, 7, []⟩).1 (by decide)
  obtain ⟨k, -, hleast', -, hsecond⟩ := (recover_lands strayWords hlast ⟨3, 7, []⟩).1 (by decide)
  obtain rfl := hleast.unique hthree
  obtain rfl := hleast'.unique hfour
  exact ⟨hlast, hfirst, hsecond,
    ((recover_lands strayWords hlast ⟨4, 7, []⟩).2 ⟨Token.endAt 1, rfl, rfl⟩).2⟩

end Scriptlet.Grammar
