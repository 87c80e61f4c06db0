import Scriptlet.Source.Scan
import Scriptlet.Source.Segment.Lemmas

/-!
# The tokens of a source

Reading a source yields what its segments yield, one after the other, and the
end token. Only the end token is of the kind that ends a source, and of the
tokens before it the word for the receiver has a kind of its own that no other
word has.
-/

namespace Scriptlet

/-- The newlines in some segments. -/
def Segment.newlinesOfAll : List Segment → Nat
  | [] => 0
  | s :: rest => s.newlines + newlinesOfAll rest

/-- What segments yield, without the end. -/
def itemsIn (line : Nat) : List Segment → List Item
  | [] => []
  | s :: rest => (s.item? (line + s.newlines)).toList ++ itemsIn (line + s.newlines) rest

/-- Reading segments ends with the end token, on the line of the last of them. -/
theorem itemsFrom_eq (line : Nat) (segments : List Segment) :
    itemsFrom line segments =
      itemsIn line segments ++ [.token (Token.endAt (line + Segment.newlinesOfAll segments))] := by
  induction segments generalizing line with
  | nil => rfl
  | cons s rest ih =>
    have hcount : line + s.newlines + Segment.newlinesOfAll rest =
        line + Segment.newlinesOfAll (s :: rest) := Nat.add_assoc _ _ _
    rw [itemsFrom, itemsIn, ih, hcount]
    cases s.item? (line + s.newlines) with
    | none => rfl
    | some item => rfl

/-- The tokens of some segments, without the end. -/
def tokensIn (line : Nat) (segments : List Segment) : List Token :=
  (itemsIn line segments).filterMap Item.token?

/-- The tokens of a source are those of its segments and the end token. -/
theorem scan_tokens (source : String) :
    (scan source).tokens = tokensIn 1 (Segment.split source.toList) ++
      [Token.endAt (1 + Segment.newlinesOfAll (Segment.split source.toList))] := by
  unfold scan items
  dsimp only
  rw [itemsFrom_eq, List.filterMap_append]
  rfl

/-- The lexical errors of a source are those of its segments. -/
theorem scan_errors (source : String) :
    (scan source).errors =
      (itemsIn 1 (Segment.split source.toList)).filterMap Item.error? := by
  unfold scan items
  dsimp only
  rw [itemsFrom_eq, List.filterMap_append]
  exact List.append_nil _

/-- A segment of a text: no segment ends the source, and the segments that may
stand for names are spelled as their kinds say. -/
def Segment.Proper : Segment → Prop
  | .token kind lexeme => kind ≠ .endOfFile ∧
      (kind = .kwThis → String.ofList lexeme = "this") ∧
      (kind = .identifier → String.ofList lexeme ≠ "this")
  | .blank _ => True
  | .comment _ => True
  | .unexpected _ => True
  | .unterminated _ => True

namespace Segment

/-- Of all words only the word for the receiver has its kind, and no word ends a source. -/
theorem ofWord_proper (word : String) :
    Kind.ofWord word ≠ .endOfFile ∧ (Kind.ofWord word = .kwThis → word = "this") ∧
      (Kind.ofWord word = .identifier → word ≠ "this") := by
  unfold Kind.ofWord
  cases hlookup : Kind.keywords.lookup word with
  | none =>
    refine ⟨by simp, by simp, ?_⟩
    rintro - rfl
    revert hlookup
    decide
  | some kind =>
    obtain ⟨before, after, heq, -⟩ := List.lookup_eq_some_iff.mp hlookup
    have hmem : (word, kind) ∈ Kind.keywords := by
      rw [heq]
      exact List.mem_append_right before List.mem_cons_self
    have hall : ∀ entry ∈ Kind.keywords, entry.2 ≠ .endOfFile ∧
        (entry.2 = .kwThis → entry.1 = "this") ∧ (entry.2 = .identifier → entry.1 ≠ "this") := by
      decide
    exact hall (word, kind) hmem

/-- What is cut off a text is spelled as its kind says. -/
theorem cut_proper (c : Char) (rest : List Char) : (cut c rest).1.Proper := by
  unfold cut
  split
  · trivial
  split
  · rename_i kind hkind
    unfold symbol? at hkind
    split at hkind <;> cases hkind <;> simp [Proper]
  split
  · rename_i kinds hkinds
    unfold extensible? at hkinds
    unfold cutOperator
    split at hkinds <;> cases hkinds <;> split <;> simp [Proper]
  split
  · unfold cutSlash
    split <;> simp [Proper]
  split
  · unfold cutString
    dsimp only
    split <;> simp [Proper]
  split
  · unfold cutNumber
    dsimp only
    split
    · split <;> simp [Proper]
    · simp [Proper]
  split
  · exact ofWord_proper _
  · trivial

/-- The segments of a text are spelled as their kinds say. -/
theorem split_proper (text : List Char) : ∀ s ∈ split text, s.Proper :=
  forall_mem_split cut_proper text

end Segment

/-- The word for the receiver is spelled so, and no identifier is. -/
def Token.Spelled (t : Token) : Prop :=
  (t.kind = .kwThis → t.lexeme = "this") ∧ (t.kind = .identifier → t.lexeme ≠ "this")

/-- The tokens of proper segments end no source and are spelled as their kinds say. -/
theorem tokensIn_proper (line : Nat) {segments : List Segment} (h : ∀ s ∈ segments, s.Proper) :
    ∀ t ∈ tokensIn line segments, t.kind ≠ .endOfFile ∧ t.Spelled := by
  induction segments generalizing line with
  | nil => exact fun _ hmem => absurd hmem List.not_mem_nil
  | cons s rest ih =>
    obtain ⟨hs, hrest⟩ := List.forall_mem_cons.mp h
    intro t hmem
    unfold tokensIn at hmem
    rw [itemsIn, List.filterMap_append, List.mem_append] at hmem
    rcases hmem with hmem | hmem
    · cases s with
      | token kind lexeme =>
        rw [List.mem_singleton.mp hmem]
        exact hs
      | blank c => exact absurd hmem List.not_mem_nil
      | comment text => exact absurd hmem List.not_mem_nil
      | unexpected c => exact absurd hmem List.not_mem_nil
      | unterminated text => exact absurd hmem List.not_mem_nil
    · exact ih _ hrest t hmem

end Scriptlet
