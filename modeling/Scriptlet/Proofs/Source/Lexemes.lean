import Scriptlet.Proofs.Source.Tokens

/-!
# The lexical grammar

Tokens of some kinds are always spelled the same, the others have a shape: quoted
texts, numerals and words. A segment may stand before a text if it is a token, a
blank, a comment that the line ends, a quote that nothing behind it closes, or a
character that no token begins with. Nothing is said here about how segments are
found.
-/

namespace Scriptlet

namespace Segment

/-- The tokens that are always spelled the same. -/
def fixedTexts : List (List Char × Kind) :=
  [(['('], .leftParen), ([')'], .rightParen), (['{'], .leftBrace), (['}'], .rightBrace),
    ([','], .comma), (['.'], .dot), (['-'], .minus), (['+'], .plus), ([';'], .semicolon),
    (['*'], .star), (['/'], .slash), (['!'], .bang), (['!', '='], .bangEqual), (['='], .equal),
    (['=', '='], .equalEqual), (['<'], .less), (['<', '='], .lessEqual), (['>'], .greater),
    (['>', '='], .greaterEqual)]

/-- The characters that only separate tokens. -/
def blanks : List Char := [' ', '\t', '\r', '\n']

/-- A word is a letter or an underscore and then letters, digits and underscores. -/
def IsWord : List Char → Prop
  | [] => False
  | c :: rest => (c.isAlpha = true ∨ c = '_') ∧ ∀ d ∈ rest, d.isAlphanum = true ∨ d = '_'

instance (text : List Char) : Decidable (IsWord text) :=
  match text with
  | [] => isFalse id
  | c :: rest => @instDecidableAnd (c.isAlpha = true ∨ c = '_') _ inferInstance
      (List.decidableBAll (fun d => d.isAlphanum = true ∨ d = '_') rest)

end Segment

open Segment

/-- The texts of the tokens of each kind. -/
inductive Lexeme : Kind → List Char → Prop where
  /-- A token that is always spelled the same. -/
  | fixed {kind : Kind} {text : List Char} (h : (text, kind) ∈ fixedTexts) : Lexeme kind text
  /-- Anything but a quote between two quotes. -/
  | string {body : List Char} (h : '"' ∉ body) : Lexeme .string ('"' :: body ++ ['"'])
  /-- Digits. -/
  | whole {digits : List Char} (hne : digits ≠ []) (h : ∀ d ∈ digits, d.isDigit = true) :
    Lexeme .number digits
  /-- Digits, a point and more digits. -/
  | decimal {digits places : List Char} (hne : digits ≠ []) (h : ∀ d ∈ digits, d.isDigit = true)
    (hplaces : places ≠ []) (h' : ∀ d ∈ places, d.isDigit = true) :
    Lexeme .number (digits ++ '.' :: places)
  /-- A reserved word. -/
  | keyword {kind : Kind} {word : List Char} (h : (String.ofList word, kind) ∈ Kind.keywords) :
    Lexeme kind word
  /-- A word that is not reserved. -/
  | identifier {word : List Char} (hword : IsWord word)
    (h : ∀ kind, (String.ofList word, kind) ∉ Kind.keywords) : Lexeme .identifier word

/-- The segments that may stand before a text. -/
inductive Segment.Stands : Segment → List Char → Prop where
  /-- A token. -/
  | token {kind : Kind} {lexeme behind : List Char} (h : Lexeme kind lexeme) :
    Stands (.token kind lexeme) behind
  /-- A blank. -/
  | blank {c : Char} {behind : List Char} (h : c ∈ blanks) : Stands (.blank c) behind
  /-- A comment goes up to the next newline, or to the end. -/
  | comment {body behind : List Char} (h : '\n' ∉ body)
    (hline : behind = [] ∨ ∃ more, behind = '\n' :: more) :
    Stands (.comment ('/' :: '/' :: body)) behind
  /-- A character that is no blank and begins no token. -/
  | unexpected {c : Char} {behind : List Char} (hblank : c ∉ blanks)
    (h : ∀ kind more, ¬ Lexeme kind (c :: more)) : Stands (.unexpected c) behind
  /-- A quote that is never closed; nothing is left behind it. -/
  | unterminated {body : List Char} (h : '"' ∉ body) : Stands (.unterminated ('"' :: body)) []

/-- What a reserved word is: a word, and reserved for one kind, which is none of those of
other tokens. -/
theorem Kind.keyword_spec {word : List Char} {kind : Kind}
    (h : (String.ofList word, kind) ∈ Kind.keywords) :
    IsWord word ∧ Kind.keywords.lookup (String.ofList word) = some kind ∧ kind ≠ .string ∧
      kind ≠ .number ∧ kind ≠ .identifier ∧ kind ≠ .endOfFile := by
  have hall : ∀ entry ∈ Kind.keywords, IsWord entry.1.toList ∧
      Kind.keywords.lookup entry.1 = some entry.2 ∧ entry.2 ≠ .string ∧ entry.2 ≠ .number ∧
      entry.2 ≠ .identifier ∧ entry.2 ≠ .endOfFile := by
    decide
  have hentry := hall _ h
  rwa [String.toList_ofList] at hentry

/-- A word is reserved, or it is for no kind. -/
theorem Kind.ofWord_cases (word : List Char) :
    (String.ofList word, Kind.ofWord (String.ofList word)) ∈ Kind.keywords ∨
      Kind.ofWord (String.ofList word) = .identifier ∧
        ∀ kind, (String.ofList word, kind) ∉ Kind.keywords := by
  unfold Kind.ofWord
  cases hlookup : Kind.keywords.lookup (String.ofList word) with
  | none =>
    refine Or.inr ⟨rfl, fun kind hmem => ?_⟩
    rw [(Kind.keyword_spec hmem).2.1] at hlookup
    cases hlookup
  | some kind =>
    obtain ⟨before, after, heq, -⟩ := List.lookup_eq_some_iff.mp hlookup
    rw [Option.getD_some, heq]
    exact Or.inl (List.mem_append_right before List.mem_cons_self)

/-- A digit begins no word. -/
theorem not_alpha_of_isDigit {c : Char} (h : c.isDigit = true) :
    ¬ (c.isAlpha = true ∨ c = '_') := by
  rintro (halpha | rfl)
  · have hdigit : (decide (c.val ≥ '0'.val) && decide (c.val ≤ '9'.val)) = true := h
    have hletter : (c.isUpper || c.isLower) = true := halpha
    rcases Bool.or_eq_true_iff.mp hletter with hcase | hcase
    · have hupper : 'A'.val ≤ c.val ∧ c.val ≤ 'Z'.val := of_decide_eq_true hcase
      grind
    · have hlower : (decide (c.val ≥ 'a'.val) && decide (c.val ≤ 'z'.val)) = true := hcase
      grind
  · revert h
    decide

/-- What begins with digits is no word. -/
theorem Segment.not_isWord_of_digits {digits : List Char} (hne : digits ≠ [])
    (h : ∀ d ∈ digits, d.isDigit = true) (more : List Char) : ¬ IsWord (digits ++ more) := by
  cases digits with
  | nil => exact absurd rfl hne
  | cons d rest => exact fun hword => not_alpha_of_isDigit (h d List.mem_cons_self) hword.1

namespace Lexeme

variable {kind : Kind} {word : List Char}

/-- The kind of a word is that of a token with its text. -/
theorem ofWord (hword : IsWord word) : Lexeme (Kind.ofWord (String.ofList word)) word := by
  rcases Kind.ofWord_cases word with hkeyword | ⟨hkind, hfree⟩
  · exact .keyword hkeyword
  · rw [hkind]
    exact .identifier hword hfree

/-- A token that is spelled as a word is a reserved word or an identifier. -/
theorem word_cases (h : Lexeme kind word) (hword : IsWord word) :
    (String.ofList word, kind) ∈ Kind.keywords ∨
      kind = .identifier ∧ ∀ kind, (String.ofList word, kind) ∉ Kind.keywords := by
  cases h with
  | fixed h =>
    have hall : ∀ entry ∈ fixedTexts, ¬ IsWord entry.1 := by decide
    exact absurd hword (hall _ h)
  | string h => exact absurd hword.1 (by decide)
  | whole hne h =>
    have hnone := not_isWord_of_digits hne h []
    rw [List.append_nil] at hnone
    exact absurd hword hnone
  | decimal hne h hplaces h' => exact absurd hword (not_isWord_of_digits hne h _)
  | keyword h => exact Or.inl h
  | identifier _ h => exact Or.inr ⟨rfl, h⟩

/-- A token that is spelled as a word has the kind of the word. -/
theorem eq_ofWord (h : Lexeme kind word) (hword : IsWord word) :
    kind = Kind.ofWord (String.ofList word) := by
  rcases h.word_cases hword with hkeyword | ⟨rfl, hfree⟩
  · have hlookup := (Kind.keyword_spec hkeyword).2.1
    unfold Kind.ofWord
    rw [hlookup, Option.getD_some]
  · rcases Kind.ofWord_cases word with hkeyword | ⟨hkind, -⟩
    · exact absurd hkeyword (hfree _)
    · exact hkind.symm

/-- No token is empty, and none of those that have a text ends a source. -/
theorem proper (h : Lexeme kind word) : word ≠ [] ∧ kind ≠ .endOfFile := by
  cases h with
  | fixed h =>
    have hall : ∀ entry ∈ fixedTexts, entry.1 ≠ [] ∧ entry.2 ≠ .endOfFile := by decide
    exact hall _ h
  | string h => exact ⟨List.cons_ne_nil _ _, by decide⟩
  | whole hne h => exact ⟨hne, by decide⟩
  | decimal hne h hplaces h' => exact ⟨List.append_ne_nil_of_left_ne_nil hne _, by decide⟩
  | keyword h =>
    obtain ⟨hword, -, -, -, -, hkind⟩ := Kind.keyword_spec h
    refine ⟨?_, hkind⟩
    rintro rfl
    exact hword
  | identifier hword h =>
    refine ⟨?_, by decide⟩
    rintro rfl
    exact hword

/-- A token that is spelled as a word has a reserved kind exactly when the word is reserved. -/
theorem reserved_iff (h : Lexeme kind word) (hword : IsWord word) :
    kind ∈ Kind.keywords.map Prod.snd ↔ String.ofList word ∈ Kind.keywords.map Prod.fst := by
  rcases h.word_cases hword with hkeyword | ⟨rfl, hfree⟩
  · exact iff_of_true (List.mem_map_of_mem hkeyword) (List.mem_map_of_mem hkeyword)
  · refine iff_of_false (by decide) fun hmem => ?_
    obtain ⟨⟨own, kind⟩, hentry, rfl⟩ := List.mem_map.mp hmem
    exact hfree kind hentry

end Lexeme

end Scriptlet
