import Scriptlet.Proofs.Source.Grammar
import Scriptlet.Proofs.Source.Layout
import Scriptlet.Proofs.Written.Trees

/-!
# Words of scanned tokens

A scanned token has the text of a token of its kind, and its literal is that of its text.
So a token other than a number and a string is known from its text, apart from its line:
the kind is that of the sign or of the word. Apart from the parentheses, its text is a
word.
-/

namespace Scriptlet

open Segment

/-- A token as it is scanned, on any line. -/
structure Token.Scanned (t : Token) : Prop where
  /-- It is spelled as its kind says. -/
  lexeme : Lexeme t.kind t.lexeme.toList
  /-- It has the literal of its text. -/
  literal : t.literal = Literal.ofLexeme? t.kind t.lexeme.toList

/-- The tokens of segments that are spelled as their kinds say. -/
theorem tokensIn_scanned (line : Nat) {segments : List Segment}
    (h : ∀ kind lexeme, .token kind lexeme ∈ segments → Lexeme kind lexeme) :
    ∀ t ∈ tokensIn line segments, t.Scanned := by
  induction segments generalizing line with
  | nil => exact fun _ hmem => absurd hmem List.not_mem_nil
  | cons s rest ih =>
    have hrest := ih (line + s.newlines) fun kind lexeme hmem =>
      h kind lexeme (List.mem_cons_of_mem s hmem)
    intro t hmem
    unfold tokensIn at hmem
    rw [itemsIn, List.filterMap_append, List.mem_append] at hmem
    rcases hmem with hmem | hmem
    · cases s with
      | token kind lexeme =>
        have hlexeme := h kind lexeme List.mem_cons_self
        rw [List.mem_singleton.mp hmem]
        constructor
        · rwa [String.toList_ofList]
        · rw [String.toList_ofList]
      | blank c => exact absurd hmem List.not_mem_nil
      | comment text => exact absurd hmem List.not_mem_nil
      | unexpected c => exact absurd hmem List.not_mem_nil
      | unterminated text => exact absurd hmem List.not_mem_nil
    · exact hrest t hmem

/-- The tokens of a source before the end are as they are scanned. -/
theorem scan_scanned (source : String) :
    ∀ t ∈ tokensIn 1 (split source.toList), t.Scanned :=
  tokensIn_scanned 1 fun _ _ hmem => (decomposes_split source.toList).lexeme hmem

/-- The token of a text that is neither a number nor a string, on no line. -/
def Form.token (w : String) : Token :=
  ⟨(fixedTexts.lookup w.toList).getD (Kind.ofWord w), w, none, 0⟩

/-- No sign is a word. -/
theorem lookup_fixedTexts_of_isWord {word : List Char} (h : IsWord word) :
    fixedTexts.lookup word = none := by
  rw [List.lookup_eq_none_iff]
  intro entry hentry
  have hall : ∀ entry ∈ fixedTexts, ¬ IsWord entry.1 := by decide
  refine bne_iff_ne.mpr ?_
  rintro rfl
  exact hall entry hentry h

/-- The kind of a token that is neither a number nor a string is that of its text. -/
theorem Lexeme.kind_eq {kind : Kind} {text : List Char} (h : Lexeme kind text)
    (hnumber : kind ≠ .number) (hstring : kind ≠ .string) :
    (fixedTexts.lookup text).getD (Kind.ofWord (String.ofList text)) = kind := by
  have hword : IsWord text →
      (fixedTexts.lookup text).getD (Kind.ofWord (String.ofList text)) = kind := by
    intro hword
    rw [lookup_fixedTexts_of_isWord hword]
    exact (h.eq_ofWord hword).symm
  cases h with
  | fixed h =>
    have hall : ∀ entry ∈ fixedTexts, fixedTexts.lookup entry.1 = some entry.2 := by decide
    rw [hall _ h]
    rfl
  | string h => exact absurd rfl hstring
  | whole hne h => exact absurd rfl hnumber
  | decimal hne h hplaces h' => exact absurd rfl hnumber
  | keyword h => exact hword (Kind.keyword_spec h).1
  | identifier hisword h => exact hword hisword

/-- A letter, a digit or an underscore is no mark. -/
theorem Form.isMark_of_word {c : Char} (h : c.isAlphanum = true ∨ c = '_') : isMark c = false := by
  rw [Bool.eq_false_iff]
  intro hmark
  have hcases : c = ' ' ∨ c = '(' ∨ c = ')' := by
    unfold isMark at hmark
    simpa [or_assoc] using hmark
  revert h
  rcases hcases with rfl | rfl | rfl <;> decide

/-- A word is written as one. -/
theorem Form.proper_of_isWord {w : String} (h : IsWord w.toList) : (Form.word w).Proper := by
  cases hw : w.toList with
  | nil =>
    rw [hw] at h
    exact absurd h id
  | cons c rest =>
    rw [hw] at h
    refine .word (by rw [hw]; exact List.cons_ne_nil c rest) ?_
    rw [hw]
    refine List.forall_mem_cons.mpr ⟨isMark_of_word ?_, fun d hd => isMark_of_word (h.2 d hd)⟩
    refine h.1.imp_left fun halpha => ?_
    have hboth : (c.isAlpha || c.isDigit) = true := Bool.or_eq_true_iff.mpr (Or.inl halpha)
    exact hboth

/-- The kinds of tokens that are not written as words of their own: texts, numbers and
parentheses. -/
def Kind.aside : List Kind := [.string, .number, .leftParen, .rightParen]

/-- A token is known from what is written of it. -/
structure Token.Recovered (t : Token) : Prop where
  /-- It is written as a word. -/
  proper : t.form.Proper
  /-- Apart from the line it is the token of that word. -/
  back : Form.token t.lexeme = t.unplaced

/-- A token of a word or of a sign other than a parenthesis is written as a word. -/
theorem Lexeme.word_proper {kind : Kind} {w : String} (h : Lexeme kind w.toList)
    (hkind : kind ∉ Kind.aside) : (Form.word w).Proper := by
  generalize htext : w.toList = text at h
  cases h with
  | fixed hfixed =>
    have hall : fixedTexts.all (fun entry =>
        entry.2 ∈ Kind.aside || !(entry.1.isEmpty || entry.1.any Form.isMark)) = true := by
      decide
    have hentry := List.all_eq_true.mp hall _ hfixed
    refine Form.proper_word ?_
    rw [htext]
    simpa [hkind] using hentry
  | string hbody => exact absurd (by decide) hkind
  | whole hne hdigits => exact absurd (by decide) hkind
  | decimal hne hdigits hplaces hothers => exact absurd (by decide) hkind
  | keyword hkeyword => exact Form.proper_of_isWord (htext ▸ (Kind.keyword_spec hkeyword).1)
  | identifier hword hfree => exact Form.proper_of_isWord (htext ▸ hword)

/-- A scanned token of a word or of a sign other than a parenthesis is known from what is
written. -/
theorem Token.Scanned.recovered {t : Token} (h : t.Scanned) (hkind : t.kind ∉ Kind.aside) :
    t.Recovered := by
  have hnumber : t.kind ≠ .number := fun heq => hkind (heq ▸ by decide)
  have hstring : t.kind ≠ .string := fun heq => hkind (heq ▸ by decide)
  have hback := h.lexeme.kind_eq hnumber hstring
  have hliteral := h.literal
  rw [String.ofList_toList] at hback
  rw [Literal.ofLexeme?_eq_none hstring hnumber] at hliteral
  refine ⟨h.lexeme.word_proper hkind, ?_⟩
  unfold Form.token Token.unplaced
  rw [hback, ← hliteral]

/-- A scanned name is a word. -/
theorem Token.Scanned.isWord {t : Token} (h : t.Scanned) (hkind : t.kind = .identifier) :
    IsWord t.lexeme.toList := by
  have hlexeme := h.lexeme
  rw [hkind] at hlexeme
  generalize t.lexeme.toList = text at hlexeme
  cases hlexeme with
  | fixed hfixed =>
    have hall : ∀ entry ∈ fixedTexts, entry.2 ≠ .identifier := by decide
    exact absurd rfl (hall _ hfixed)
  | keyword hkeyword => exact (Kind.keyword_spec hkeyword).1
  | identifier hword hfree => exact hword

end Scriptlet
