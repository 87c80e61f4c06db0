import Mathlib.Data.List.Forall2
import Scriptlet.Proofs.Source.Grammar

/-!
# The lines of tokens and errors

The line is counted up from segment to segment, whatever the newlines stand in. So at the
end of each segment it is one more than there are newlines in the source up to there, and
that is the line of what the segment yields. It never goes down.
-/

namespace Scriptlet

/-- The line of an item. -/
def Item.line : Item → Nat
  | token t => t.line
  | error e => e.line

/-- The line that is reached behind a text. -/
def lineBehind (text : List Char) : Nat := 1 + text.count '\n'

/-- The lines of two texts, one behind the other. -/
theorem lineBehind_append (before text : List Char) :
    lineBehind (before ++ text) = lineBehind before + text.count '\n' := by
  unfold lineBehind
  rw [List.count_append, Nat.add_assoc]

/-- A quote ends no line. -/
theorem lineBehind_quote (before : List Char) : lineBehind (before ++ ['"']) = lineBehind before :=
  lineBehind_append before ['"']

/-- Only a quoted text is a token of its kind. -/
theorem Lexeme.exists_body {lexeme : List Char} (h : Lexeme .string lexeme) :
    ∃ body, lexeme = '"' :: body ++ ['"'] := by
  generalize hkind : Kind.string = kind at h
  cases h with
  | fixed h =>
    have hall : ∀ entry ∈ Segment.fixedTexts, Kind.string ≠ entry.2 := by decide
    exact absurd hkind (hall _ h)
  | string h => exact ⟨_, rfl⟩
  | whole hne h => cases hkind
  | decimal hne h hplaces h' => cases hkind
  | keyword h => exact absurd hkind.symm (Kind.keyword_spec h).2.2.1
  | identifier hword h => cases hkind

namespace Segment

/-- Segments behind a text, each with the whole text up to its end. -/
def placed (before : List Char) : List Segment → List (Segment × List Char)
  | [] => []
  | s :: rest => (s, before ++ s.text) :: placed (before ++ s.text) rest

/-- The segments that only separate others. -/
def isSeparator : Segment → Bool
  | token _ _ => false
  | blank _ => true
  | comment _ => true
  | unexpected _ => false
  | unterminated _ => false

/-- What may come from a segment, on whatever line. -/
inductive Yields : Segment → Item → Prop where
  /-- A token with the text of the segment. -/
  | token (kind : Kind) (lexeme : List Char) (literal : Option Literal) (line : Nat) :
    Yields (.token kind lexeme) (.token ⟨kind, String.ofList lexeme, literal, line⟩)
  /-- An error for a stray character. -/
  | unexpected (c : Char) (line : Nat) :
    Yields (.unexpected c) (.error ⟨line, .unexpectedCharacter⟩)
  /-- An error for a quote that is never closed. -/
  | unterminated (text : List Char) (line : Nat) :
    Yields (.unterminated text) (.error ⟨line, .unterminatedString⟩)

/-- Where a segment of a source ends, given by the text of the source up to there. -/
structure EndsAt (source : List Char) (s : Segment) (upTo : List Char) : Prop where
  /-- The source begins with that text. -/
  inside : upTo <+: source
  /-- That text ends with the segment. -/
  ends : s.text <:+ upTo
  /-- A quoted text ends on the line of its closing quote. -/
  closing : ∀ lexeme, s = .token .string lexeme →
    ∃ before, upTo = before ++ ['"'] ∧ lineBehind upTo = lineBehind before
  /-- A quote that is never closed reaches up to the end of the source. -/
  unclosed : ∀ text, s = .unterminated text → upTo = source

/-- Segments that are placed have others before and behind them. -/
theorem exists_of_mem_placed {before upTo : List Char} {segments : List Segment} {s : Segment}
    (h : (s, upTo) ∈ placed before segments) :
    ∃ earlier later, segments = earlier ++ s :: later ∧
      upTo = before ++ earlier.flatMap text ++ s.text := by
  induction segments generalizing before with
  | nil => exact absurd h List.not_mem_nil
  | cons first rest ih =>
    rcases List.mem_cons.mp h with heq | hmem
    · obtain ⟨rfl, rfl⟩ := Prod.mk.inj heq
      exact ⟨[], rest, rfl, by rw [List.flatMap_nil, List.append_nil]⟩
    · obtain ⟨earlier, later, rfl, rfl⟩ := ih hmem
      refine ⟨first :: earlier, later, rfl, ?_⟩
      rw [List.flatMap_cons, List.append_assoc before]

/-- Where the segments of a text end. -/
theorem Decomposes.endsAt {source upTo : List Char} {segments : List Segment} {s : Segment}
    (h : Decomposes source segments) (hmem : (s, upTo) ∈ placed [] segments) :
    EndsAt source s upTo := by
  obtain ⟨earlier, later, rfl, rfl⟩ := exists_of_mem_placed hmem
  have hstands := h.stands
  have hsource : earlier.flatMap text ++ s.text ++ later.flatMap text = source := by
    rw [List.append_assoc, ← List.flatMap_cons, ← List.flatMap_append, h.eq_split, split_text]
  rw [List.nil_append]
  refine ⟨⟨_, hsource⟩, List.suffix_append _ _, ?_, ?_⟩
  · rintro lexeme rfl
    cases hstands with
    | token hlexeme =>
      obtain ⟨body, rfl⟩ := hlexeme.exists_body
      refine ⟨earlier.flatMap text ++ '"' :: body, ?_, ?_⟩
      · exact (List.append_assoc _ _ _).symm
      · exact (congrArg lineBehind (List.append_assoc _ _ _).symm).trans (lineBehind_quote _)
  · rintro body rfl
    generalize later.flatMap text = behind at hstands hsource
    cases hstands
    rw [← hsource, List.append_nil]

/-- What a segment yields is on the line on which it ends. -/
theorem line_of_item? {s : Segment} {line : Nat} {item : Item} (h : s.item? line = some item) :
    item.line = line := by
  cases s <;> cases h <;> rfl

end Segment

open Segment

/-- What segments behind a text yield, one by one, is on the lines on which they end. -/
theorem itemsIn_lines (before : List Char) (segments : List Segment) :
    List.Forall₂ (fun place item => place.1.Yields item ∧ item.line = lineBehind place.2)
      ((placed before segments).filter fun place => !place.1.isSeparator)
      (itemsIn (lineBehind before) segments) := by
  induction segments generalizing before with
  | nil => exact .nil
  | cons s rest ih =>
    have hrest := ih (before ++ s.text)
    have hline : lineBehind before + s.newlines = lineBehind (before ++ s.text) :=
      (lineBehind_append before s.text).symm
    rw [itemsIn, hline]
    cases s with
    | token kind lexeme => exact .cons ⟨.token kind lexeme _ _, rfl⟩ hrest
    | blank c => exact hrest
    | comment text => exact hrest
    | unexpected c => exact .cons ⟨.unexpected c _, rfl⟩ hrest
    | unterminated text => exact .cons ⟨.unterminated text _, rfl⟩ hrest

/-- What is read from a line on is on that line or later ones, and lines do not go down. -/
theorem itemsFrom_sorted (line : Nat) (segments : List Segment) :
    (∀ item ∈ itemsFrom line segments, line ≤ item.line) ∧
      ((itemsFrom line segments).map Item.line).Pairwise (· ≤ ·) := by
  induction segments generalizing line with
  | nil => exact ⟨List.forall_mem_singleton.mpr (Nat.le_refl line), List.pairwise_singleton _ _⟩
  | cons s rest ih =>
    obtain ⟨hlater, hsorted⟩ := ih (line + s.newlines)
    have hle := Nat.le_add_right line s.newlines
    unfold itemsFrom
    split
    · rename_i item hitem
      have hline := line_of_item? hitem
      have hall := fun other hother => Nat.le_trans hle (hlater other hother)
      refine ⟨List.forall_mem_cons.mpr ⟨hline ▸ hle, hall⟩, List.pairwise_cons.mpr ⟨?_, hsorted⟩⟩
      exact List.forall_mem_map.mpr fun other hother => hline ▸ hlater other hother
    · exact ⟨fun other hother => Nat.le_trans hle (hlater other hother), hsorted⟩

/-- Line numbers are exact. What reading a source yields before its end comes, one by one, from
the segments of the source that are more than separators, and each token and each error is on the
line that is one more than there are newlines in the source up to the end of its segment. For a
quoted text that is the line of its closing quote, and for one that is never closed the last line,
as for the end of the source. The lines never go down. -/
theorem lines_exact (source : String) :
    ∃ segments, Decomposes source.toList segments ∧
      let places := (placed [] segments).filter fun place => !place.1.isSeparator
      (∀ place ∈ places, EndsAt source.toList place.1 place.2) ∧
      List.Forall₂ (fun place item => place.1.Yields item ∧ item.line = 1 + place.2.count '\n')
        places (items source).dropLast ∧
      (items source).getLast? =
        some (.token ⟨.endOfFile, "", none, 1 + source.toList.count '\n'⟩) ∧
      ((items source).map Item.line).Pairwise (· ≤ ·) := by
  have hsplit := decomposes_split source.toList
  have hitems : items source = itemsIn 1 (split source.toList) ++
      [.token (Token.endAt (1 + source.toList.count '\n'))] := by
    rw [← newlinesOfAll_split]
    exact itemsFrom_eq 1 _
  refine ⟨split source.toList, hsplit, ?_, ?_, ?_, (itemsFrom_sorted 1 _).2⟩
  · exact fun place hplace => hsplit.endsAt (List.mem_filter.mp hplace).1
  · rw [hitems, List.dropLast_concat]
    exact itemsIn_lines [] _
  · rw [hitems, List.getLast?_concat]
    rfl

/-- A string over two lines, and one that is never closed. -/
example : (items "a \"b\nc\" @ // d\n\"e\n").map Item.line = [1, 2, 2, 4, 4] := by
  decide

end Scriptlet
