import Scriptlet.Proofs.Source.Longest

/-!
# Reading a source by its grammar

A text is made up in one way only of segments each of which is the longest one that
may stand at its place. Reading the text yields the tokens and the errors of these
segments in order, and the end.
-/

namespace Scriptlet

namespace Segment

/-- A segment before a text is the longest one if no segment reaches further into what it
is part of. -/
def Longest (s : Segment) (behind : List Char) : Prop :=
  s.Stands behind ∧ ∀ t after, Stands t after → t.text ++ after = s.text ++ behind →
    t.text.length ≤ s.text.length

/-- A text made up of segments, each the longest one at its place. -/
inductive Decomposes : List Char → List Segment → Prop where
  /-- Nothing is left. -/
  | nil : Decomposes [] []
  /-- The longest segment, and then the rest. -/
  | cons {s : Segment} {behind : List Char} {rest : List Segment} (hfirst : s.Longest behind)
    (hrest : Decomposes behind rest) : Decomposes (s.text ++ behind) (s :: rest)

/-- What is cut off a text is the longest segment there. -/
theorem cut_longest (c : Char) (rest : List Char) : (cut c rest).1.Longest (cut c rest).2 := by
  refine ⟨cut_stands c rest, fun t after ht htext => ?_⟩
  rw [cut_text] at htext
  rcases ht.givesWay htext with rfl | hshorter
  · exact Nat.le_refl _
  · exact Nat.le_of_lt hshorter

/-- The longest segment before a text is the one cut off. -/
theorem Longest.eq_cut {s : Segment} {c : Char} {rest behind : List Char} (h : s.Longest behind)
    (htext : s.text ++ behind = c :: rest) : s = (cut c rest).1 ∧ behind = (cut c rest).2 := by
  have hcut := cut_text c rest
  have hs : s = (cut c rest).1 := by
    rcases h.1.givesWay htext with heq | hshorter
    · exact heq
    · exact absurd (h.2 _ _ (cut_stands c rest) (hcut.trans htext.symm)) (Nat.not_le.mpr hshorter)
  rw [← htext, ← hs] at hcut
  exact ⟨hs, (List.append_cancel_left hcut).symm⟩

/-- With fuel for every character a text is cut into the longest segments. -/
theorem splitWithin_decomposes (fuel : Nat) (text : List Char) (h : text.length ≤ fuel) :
    Decomposes text (splitWithin fuel text) := by
  induction fuel generalizing text with
  | zero =>
    obtain rfl := List.eq_nil_of_length_eq_zero (Nat.le_zero.mp h)
    exact .nil
  | succ fuel ih =>
    cases text with
    | nil => exact .nil
    | cons c rest =>
      have hshorter := cut_shorter c rest
      rw [List.length_cons] at h
      have hall := Decomposes.cons (cut_longest c rest) (ih (cut c rest).2 (by omega))
      rwa [cut_text] at hall

/-- What may stand before a text is not empty. -/
theorem Stands.nonempty {s : Segment} {behind : List Char} (h : s.Stands behind) :
    s.text ≠ [] := by
  cases h with
  | token h => exact h.proper.1
  | blank h => exact List.cons_ne_nil _ _
  | comment h hline => exact List.cons_ne_nil _ _
  | unexpected hblank h => exact List.cons_ne_nil _ _
  | unterminated h => exact List.cons_ne_nil _ _

/-- A text is made up of the longest segments in one way only. -/
theorem Decomposes.eq_split {source : List Char} {segments : List Segment}
    (h : Decomposes source segments) : segments = split source := by
  induction h with
  | nil => rfl
  | @cons s behind rest hfirst hrest ih =>
    obtain ⟨c, more, htext⟩ := List.exists_cons_of_ne_nil
      (List.append_ne_nil_of_left_ne_nil hfirst.1.nonempty behind)
    obtain ⟨hs, hbehind⟩ := hfirst.eq_cut htext
    rw [htext, split_cons, ← hs, ← hbehind, ih]

/-- A text is made up of its segments. -/
theorem decomposes_split (source : List Char) : Decomposes source (split source) :=
  splitWithin_decomposes source.length source (Nat.le_refl _)

/-- Operators reach as far as they can, and a point is left alone unless a digit follows. -/
example : split "<==1.a".toList = [token .lessEqual ['<', '='], token .equal ['='],
    token .number ['1'], token .dot ['.'], token .identifier ['a']] := by
  decide

/-- Every segment of a text may stand before those behind it. -/
theorem Decomposes.stands {source : List Char} {earlier later : List Segment} {s : Segment}
    (h : Decomposes source (earlier ++ s :: later)) : s.Stands (later.flatMap text) := by
  induction earlier generalizing source with
  | nil =>
    cases h with
    | cons hfirst hrest =>
      rw [hrest.eq_split, split_text]
      exact hfirst.1
  | cons first earlier ih =>
    cases h with
    | cons hfirst hrest => exact ih hrest

/-- The tokens that a text is made up of are tokens of the grammar. -/
theorem Decomposes.lexeme {source : List Char} {segments : List Segment}
    (h : Decomposes source segments) {kind : Kind} {lexeme : List Char}
    (hmem : token kind lexeme ∈ segments) : Lexeme kind lexeme := by
  obtain ⟨earlier, later, rfl⟩ := List.append_of_mem hmem
  cases h.stands with
  | token h => exact h

end Segment

/-- The literal that a token carries. -/
inductive Literal.Carried : Kind → List Char → Option Literal → Prop where
  /-- A quoted text carries what stands between the quotes. -/
  | string (body : List Char) :
    Carried .string ('"' :: body ++ ['"']) (some (.text (String.ofList body)))
  /-- A numeral carries its number. -/
  | number (lexeme : List Char) : Carried .number lexeme (some (.number (numeral lexeme)))
  /-- Other tokens carry nothing. -/
  | nothing {kind : Kind} (lexeme : List Char) (hstring : kind ≠ .string)
    (hnumber : kind ≠ .number) : Carried kind lexeme none

/-- What reading segments from a line on yields: the tokens and the errors of the segments
in order, each on the line on which its segment ends, and then the end. -/
inductive Segment.YieldFrom : Nat → List Segment → List Item → Prop where
  /-- The end of the source. -/
  | done (line : Nat) : YieldFrom line [] [.token ⟨.endOfFile, "", none, line⟩]
  /-- A token. -/
  | token {line : Nat} {kind : Kind} {lexeme : List Char} {literal : Option Literal}
    {rest : List Segment} {found : List Item} (hliteral : Literal.Carried kind lexeme literal)
    (hrest : YieldFrom (line + lexeme.count '\n') rest found) :
    YieldFrom line (.token kind lexeme :: rest)
      (.token ⟨kind, String.ofList lexeme, literal, line + lexeme.count '\n'⟩ :: found)
  /-- Nothing for a blank, which may end a line. -/
  | blank {line : Nat} {c : Char} {rest : List Segment} {found : List Item}
    (hrest : YieldFrom (line + [c].count '\n') rest found) :
    YieldFrom line (.blank c :: rest) found
  /-- Nothing for a comment, which stays on its line. -/
  | comment {line : Nat} {text : List Char} {rest : List Segment} {found : List Item}
    (hrest : YieldFrom line rest found) : YieldFrom line (.comment text :: rest) found
  /-- An error for a stray character. -/
  | unexpected {line : Nat} {c : Char} {rest : List Segment} {found : List Item}
    (hrest : YieldFrom line rest found) :
    YieldFrom line (.unexpected c :: rest) (.error ⟨line, .unexpectedCharacter⟩ :: found)
  /-- An error for a quote that is never closed. -/
  | unterminated {line : Nat} {text : List Char} {rest : List Segment} {found : List Item}
    (hrest : YieldFrom (line + text.count '\n') rest found) :
    YieldFrom line (.unterminated text :: rest)
      (.error ⟨line + text.count '\n', .unterminatedString⟩ :: found)

/-- A token that is neither quoted nor a numeral has no literal. -/
theorem Literal.ofLexeme?_eq_none {kind : Kind} (hstring : kind ≠ .string)
    (hnumber : kind ≠ .number) (lexeme : List Char) : Literal.ofLexeme? kind lexeme = none := by
  unfold Literal.ofLexeme?
  split
  · exact absurd rfl hnumber
  · exact absurd rfl hstring
  · rfl

/-- The literal read off a token is the one it carries. -/
theorem Lexeme.carried {kind : Kind} {lexeme : List Char} (h : Lexeme kind lexeme) :
    Literal.Carried kind lexeme (Literal.ofLexeme? kind lexeme) := by
  have hnothing : kind ≠ .string → kind ≠ .number →
      Literal.Carried kind lexeme (Literal.ofLexeme? kind lexeme) := fun hstring hnumber => by
    rw [Literal.ofLexeme?_eq_none hstring hnumber]
    exact .nothing lexeme hstring hnumber
  cases h with
  | fixed h =>
    have hall : ∀ entry ∈ Segment.fixedTexts, entry.2 ≠ .string ∧ entry.2 ≠ .number := by decide
    exact hnothing (hall _ h).1 (hall _ h).2
  | @string body h =>
    have hbody : (('"' :: body ++ ['"']).drop 1).dropLast = body := List.dropLast_concat
    have hread : Literal.ofLexeme? .string ('"' :: body ++ ['"']) =
        some (.text (String.ofList body)) :=
      congrArg (fun body => some (Literal.text (String.ofList body))) hbody
    rw [hread]
    exact .string body
  | whole hne h => exact .number _
  | decimal hne h hplaces h' => exact .number _
  | keyword h =>
    obtain ⟨-, -, hstring, hnumber, -⟩ := Kind.keyword_spec h
    exact hnothing hstring hnumber
  | identifier hword h => exact hnothing (by decide) (by decide)

/-- Reading what a text is made up of yields what the grammar says. -/
theorem Segment.Decomposes.yieldFrom {source : List Char} {segments : List Segment}
    (h : Segment.Decomposes source segments) (line : Nat) :
    Segment.YieldFrom line segments (itemsFrom line segments) := by
  induction h generalizing line with
  | nil => exact .done line
  | @cons s behind rest hfirst hrest ih =>
    cases hfirst.1 with
    | token h => exact .token h.carried (ih _)
    | blank h => exact .blank (ih _)
    | @comment body _ h hline =>
      have hlines : ('/' :: '/' :: body).count '\n' = 0 :=
        List.count_eq_zero.mpr (by simpa using h)
      have hread : itemsFrom line (.comment ('/' :: '/' :: body) :: rest) = itemsFrom line rest :=
        congrArg (fun lines => itemsFrom (line + lines) rest) hlines
      rw [hread]
      exact .comment (ih line)
    | @unexpected c _ hblank h =>
      have hlines : [c].count '\n' = 0 := by
        refine List.count_eq_zero.mpr fun hmem => hblank ?_
        rw [← List.mem_singleton.mp hmem]
        decide
      have hread : itemsFrom line (.unexpected c :: rest) =
          .error ⟨line, .unexpectedCharacter⟩ :: itemsFrom line rest :=
        congrArg (fun lines => Item.error ⟨line + lines, .unexpectedCharacter⟩ ::
          itemsFrom (line + lines) rest) hlines
      rw [hread]
      exact .unexpected (ih line)
    | unterminated h => exact .unterminated (ih _)

/-- A source falls in one way into the longest segments that may stand at their places, and
these joined together are the source. Their tokens are tokens of the grammar, those spelled as
words being reserved exactly when the word is, and reading the source yields the tokens and the
errors of the segments in order, and the end. -/
theorem source_decomposed (source : String) :
    ∃ segments, Segment.Decomposes source.toList segments ∧
      (∀ others, Segment.Decomposes source.toList others → others = segments) ∧
      segments.flatMap Segment.text = source.toList ∧
      (∀ kind lexeme, Segment.token kind lexeme ∈ segments →
        Lexeme kind lexeme ∧ kind ≠ .endOfFile ∧
          (Segment.IsWord lexeme → (kind ∈ Kind.keywords.map Prod.snd ↔
            String.ofList lexeme ∈ Kind.keywords.map Prod.fst))) ∧
      Segment.YieldFrom 1 segments (items source) := by
  have hsplit := Segment.decomposes_split source.toList
  refine ⟨Segment.split source.toList, hsplit, fun others h => h.eq_split,
    Segment.split_text source.toList, fun kind lexeme hmem => ?_, hsplit.yieldFrom 1⟩
  have hlexeme := hsplit.lexeme hmem
  exact ⟨hlexeme, hlexeme.proper.2, hlexeme.reserved_iff⟩

end Scriptlet
