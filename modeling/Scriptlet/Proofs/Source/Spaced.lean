import Scriptlet.Proofs.Source.Layout

/-!
# Tokens written out again

What is cut off a text is cut off in the same way when nothing stands behind it, and a
token also when a space does. So the tokens of a source, written out with single spaces
between them, are cut off again one by one, whatever separated them before and whatever
was no token. Each yields again what it yielded, apart from its line.
-/

namespace Scriptlet

namespace Segment

variable {s : Segment}

/-- A segment that is cut off where nothing stands behind it. -/
def Alone (s : Segment) : Prop := ∃ c body, s.text = c :: body ∧ cut c body = (s, [])

/-- The segments that are tokens. -/
def isToken : Segment → Bool
  | token _ _ => true
  | blank _ => false
  | comment _ => false
  | unexpected _ => false
  | unterminated _ => false

/-- The tokens among some segments. -/
def words (segments : List Segment) : List Segment := segments.filter isToken

/-- What is cut off a text is cut off alone. -/
theorem cut_alone (c : Char) (rest : List Char) : (cut c rest).1.Alone := by
  have hnonempty := List.length_pos_iff.mp (cut_nonempty c rest)
  have htext := cut_text c rest
  rcases hcut : cut c rest with ⟨s, behind⟩
  rw [hcut] at hnonempty htext
  obtain ⟨d, body, hbody⟩ := List.exists_cons_of_ne_nil hnonempty
  dsimp only at hbody htext ⊢
  rw [hbody, List.cons_append] at htext
  obtain ⟨rfl, rfl⟩ := List.cons.inj htext
  exact ⟨d, body, hbody, cut_shrinks s [] hcut⟩

/-- The segments of a text are cut off alone. -/
theorem split_alone (text : List Char) : ∀ s ∈ split text, s.Alone :=
  forall_mem_split cut_alone text

/-- A token is cut off before a space, and the space behind it. -/
theorem split_spaced (h : s.Alone) (htoken : s.isToken = true) (behind : List Char) :
    split (s.text ++ ' ' :: behind) = s :: blank ' ' :: split behind := by
  obtain ⟨c, body, htext, hcut⟩ := h
  have hclosed : ∀ t, (cut c body).1 ≠ unterminated t := by
    rw [hcut]
    rintro t rfl
    cases htoken
  have hline : ∀ t, cut c body = (comment t, []) → ' ' = '\n' := by
    rw [hcut]
    rintro t heq
    obtain ⟨rfl, -⟩ := Prod.mk.inj heq
    cases htoken
  have hunmoved : Unmoved (cut c) body (' ' :: behind) := cut_unmoved rfl hclosed hline
  rw [htext, List.cons_append, split_cons, hunmoved, hcut, List.nil_append, split_cons,
    cut_blank rfl]

/-- Tokens written out with single spaces between them yield what they yield, whether or not a
space stands behind the last one. -/
theorem content_spaced {segments : List Segment} (h : ∀ s ∈ segments, s.Alone ∧ s.isToken = true)
    {ends : List (List Char)} (hends : ends = [] ∨ ends = [[]]) :
    content (split ([' '].intercalate (segments.map text ++ ends))) = content segments := by
  induction segments with
  | nil => rcases hends with rfl | rfl <;> rfl
  | cons s rest ih =>
    obtain ⟨⟨halone, htoken⟩, hrest⟩ := List.forall_mem_cons.mp h
    have hothers := ih hrest
    rw [List.map_cons, List.cons_append]
    cases hbehind : rest.map text ++ ends with
    | nil =>
      obtain ⟨hnone, -⟩ := List.append_eq_nil_iff.mp hbehind
      obtain rfl := List.map_eq_nil_iff.mp hnone
      obtain ⟨c, body, htext, hcut⟩ := halone
      rw [List.intercalate_singleton, htext, split_cons, hcut]
      rfl
    | cons next others =>
      rw [hbehind] at hothers
      rw [List.intercalate_cons_cons, List.append_assoc, List.singleton_append,
        split_spaced halone htoken, content_cons, content_cons s, ← hothers]
      rfl

/-- The tokens among some segments yield the tokens, and nothing else does. -/
theorem content_words (segments : List Segment) :
    (content (words segments)).filterMap Item.token? = (content segments).filterMap Item.token? ∧
      (content (words segments)).filterMap Item.error? = [] := by
  induction segments with
  | nil => exact ⟨rfl, rfl⟩
  | cons s rest ih =>
    obtain ⟨htokens, herrors⟩ := ih
    cases s with
    | token kind lexeme => exact ⟨congrArg (List.cons _) htokens, herrors⟩
    | blank c => exact ⟨htokens, herrors⟩
    | comment text => exact ⟨htokens, herrors⟩
    | unexpected c => exact ⟨htokens, herrors⟩
    | unterminated text => exact ⟨htokens, herrors⟩

end Segment

open Segment

/-- The texts of the tokens of some segments. -/
theorem map_lexeme_tokensIn (line : Nat) (segments : List Segment) :
    (tokensIn line segments).map (fun t => t.lexeme.toList) = (words segments).map text := by
  induction segments generalizing line with
  | nil => rfl
  | cons s rest ih =>
    cases s with
    | token kind lexeme => exact congrArg₂ List.cons String.toList_ofList (ih _)
    | blank c => exact ih _
    | comment text => exact ih _
    | unexpected c => exact ih _
    | unterminated text => exact ih _

/-- The texts of tokens, with single spaces between them. -/
def Token.spaced (tokens : List Token) : String := " ".intercalate (tokens.map Token.lexeme)

/-- A source has no lexical errors and yields given tokens, apart from their lines. -/
def ScansAs (source : String) (tokens : List Token) : Prop :=
  (scan source).errors = [] ∧
    (scan source).tokens.map Token.unplaced = tokens.map Token.unplaced

/-- What spells out the tokens of a source, with or without a space at its end, yields them. -/
theorem scansAs_of_spaced {source spaced : String} {ends : List (List Char)}
    (hends : ends = [] ∨ ends = [[]])
    (h : spaced.toList =
      [' '].intercalate ((words (split source.toList)).map text ++ ends)) :
    ScansAs spaced (scan source).tokens := by
  have halone : ∀ s ∈ words (split source.toList), s.Alone ∧ s.isToken = true := by
    intro s hs
    obtain ⟨hmem, htoken⟩ := List.mem_filter.mp hs
    exact ⟨split_alone _ s hmem, htoken⟩
  have hcontent := content_spaced halone hends
  rw [← h] at hcontent
  obtain ⟨htokens, herrors⟩ := content_words (split source.toList)
  constructor
  · have hnone := scan_errors_unplaced spaced
    rw [hcontent, herrors] at hnone
    exact List.map_eq_nil_iff.mp hnone
  · rw [scan_tokens_unplaced, scan_tokens_unplaced, hcontent, htokens]

/-- Scanning undoes joining. The texts of all tokens of a source, the empty one of the end among
them, joined by single spaces, are scanned without errors to tokens of the same kinds, texts and
literals. So are the texts without that of the end. -/
theorem scan_spaced (source : String) :
    ScansAs (Token.spaced (scan source).tokens) (scan source).tokens ∧
      ScansAs (Token.spaced (scan source).tokens.dropLast) (scan source).tokens := by
  have hlexemes := map_lexeme_tokensIn 1 (split source.toList)
  constructor
  · refine scansAs_of_spaced (Or.inr rfl) ?_
    unfold Token.spaced
    rw [String.toList_intercalate, List.map_map, scan_tokens, List.map_append, ← hlexemes]
    rfl
  · refine scansAs_of_spaced (Or.inl rfl) ?_
    unfold Token.spaced
    rw [String.toList_intercalate, List.map_map, scan_tokens, List.dropLast_concat, List.append_nil,
      ← hlexemes]
    rfl

/-- A comment, a stray character and line breaks are left out. -/
example : Token.spaced (scan "a.//x\n=@= \"b\nc\"").tokens = "a . = = \"b\nc\" " := by
  decide

end Scriptlet
