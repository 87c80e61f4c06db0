import Scriptlet.Proofs.Source.Tokens
import Scriptlet.Source.Segment.Lemmas

/-!
# Sources joined at a line break

Every segment ends at a character that it cannot take in, or at the end of the text.
Of the blanks only an unclosed string would take in any there, and a comment all but
the newline. So a text without an unclosed string falls into the same segments when a
newline and another text follow it, and the other text falls into its own. What the
other text yields is then what it yields alone, as many lines later as the first one
has.
-/

namespace Scriptlet

namespace Segment

/-- A run of characters ends where it ended when more text follows, unless that text
prolongs it. -/
theorem run_append {p : Char → Bool} {text behind : List Char}
    (h : text.dropWhile p = [] → behind.takeWhile p = []) :
    (text ++ behind).takeWhile p = text.takeWhile p ∧
      (text ++ behind).dropWhile p = text.dropWhile p ++ behind := by
  induction text with
  | nil =>
    have hstop := h rfl
    have hwhole := List.takeWhile_append_dropWhile (p := p) (l := behind)
    rw [hstop, List.nil_append] at hwhole
    exact ⟨hstop, hwhole⟩
  | cons c rest ih =>
    simp only [List.cons_append, List.takeWhile_cons, List.dropWhile_cons] at h ⊢
    split
    · rename_i hc
      rw [if_pos hc] at h
      obtain ⟨htake, hdrop⟩ := ih h
      exact ⟨congrArg (List.cons c) htake, hdrop⟩
    · exact ⟨rfl, rfl⟩

/-- A run of characters is not prolonged by a character that is not one of them. -/
theorem run_append_stop {p : Char → Bool} {stop : Char} (hp : p stop = false)
    (text behind : List Char) :
    (text ++ stop :: behind).takeWhile p = text.takeWhile p ∧
      (text ++ stop :: behind).dropWhile p = text.dropWhile p ++ stop :: behind := by
  refine run_append fun _ => ?_
  rw [List.takeWhile_cons, hp]
  rfl

/-- What no blank is, a given blank is not. -/
theorem not_of_blank {p : Char → Bool} {c : Char} (h : isBlank c = true)
    (hp : [' ', '\t', '\r', '\n'].all (fun d => !p d) = true) : p c = false := by
  have hmem : c ∈ [' ', '\t', '\r', '\n'] := by simpa [isBlank, or_assoc] using h
  simpa using List.all_eq_true.mp hp c hmem

/-- A cut is the same when more text follows. -/
def Unmoved (cutter : List Char → Segment × List Char) (rest behind : List Char) : Prop :=
  cutter (rest ++ behind) = ((cutter rest).1, (cutter rest).2 ++ behind)

variable {behind : List Char} {stop : Char}

/-- An operator before a blank. -/
theorem cutOperator_unmoved (hstop : isBlank stop = true) (kinds : Kind × Kind) (c : Char)
    (rest : List Char) : Unmoved (cutOperator kinds c) rest (stop :: behind) := by
  have hequal : stop ≠ '=' := by
    rintro rfl
    cases hstop
  unfold Unmoved cutOperator
  cases rest with
  | nil =>
    rw [List.nil_append]
    split
    · rename_i heq
      cases heq
      exact absurd rfl hequal
    · rfl
  | cons d rest =>
    rw [List.cons_append]
    split
    · rename_i heq
      cases heq
      rfl
    · rename_i hne
      split
      · rename_i heq
        cases heq
        exact absurd rfl (hne _)
      · rfl

/-- A slash or a comment before a blank, which is a newline if the comment has no end yet. -/
theorem cutSlash_unmoved (hstop : isBlank stop = true) {rest : List Char}
    (hline : ∀ text, cutSlash rest = (comment text, []) → stop = '\n') :
    Unmoved cutSlash rest (stop :: behind) := by
  have hslash : stop ≠ '/' := by
    rintro rfl
    cases hstop
  unfold Unmoved
  cases rest with
  | nil =>
    unfold cutSlash
    rw [List.nil_append]
    split
    · rename_i heq
      cases heq
      exact absurd rfl hslash
    · rfl
  | cons d rest =>
    unfold cutSlash at hline ⊢
    rw [List.cons_append]
    split
    · rename_i heq
      cases heq
      have hends : rest.dropWhile (· != '\n') = [] →
          (stop :: behind).takeWhile (· != '\n') = [] := by
        intro hnone
        obtain rfl := hline _ (congrArg (Prod.mk _) hnone)
        rfl
      obtain ⟨htake, hdrop⟩ := run_append hends
      rw [htake, hdrop]
      rfl
    · rename_i hne
      split
      · rename_i heq
        cases heq
        exact absurd rfl (hne _)
      · rfl

/-- A string that closes, whatever follows. -/
theorem cutString_unmoved {rest : List Char}
    (hclosed : ∀ text, (cutString rest).1 ≠ unterminated text) :
    Unmoved cutString rest behind := by
  have hquote : rest.dropWhile (· != '"') ≠ [] := by
    intro hnone
    apply hclosed ('"' :: rest.takeWhile (· != '"'))
    unfold cutString
    dsimp only
    rw [hnone]
  have hends : rest.dropWhile (· != '"') = [] → behind.takeWhile (· != '"') = [] :=
    fun hnone => absurd hnone hquote
  obtain ⟨htake, hdrop⟩ := run_append hends
  obtain ⟨quote, after, hafter⟩ := List.exists_cons_of_ne_nil hquote
  unfold Unmoved cutString
  dsimp only
  rw [htake, hdrop, hafter]
  rfl

/-- A number before a blank: a point at the very end is left to itself. -/
theorem cutNumber_unmoved (hstop : isBlank stop = true) (c : Char) (rest : List Char) :
    Unmoved (cutNumber c) rest (stop :: behind) := by
  have hdigit : stop.isDigit = false := not_of_blank hstop (by decide)
  obtain ⟨htake, hdrop⟩ := run_append_stop hdigit rest behind
  unfold Unmoved cutNumber
  dsimp only
  rw [htake, hdrop]
  match rest.dropWhile Char.isDigit with
  | [] =>
    rw [List.nil_append]
    split
    · rename_i heq
      cases heq
      cases hstop
    · rfl
  | [point] =>
    rw [List.singleton_append]
    split
    · rename_i d after heq
      cases heq
      rw [hdigit]
      rfl
    · split
      · rename_i heq
        cases heq
      · rfl
  | point :: d :: after =>
    rw [List.cons_append, List.cons_append]
    split
    · rename_i heq
      cases heq
      obtain ⟨htake, hdrop⟩ := run_append_stop hdigit after behind
      rw [htake, hdrop]
      by_cases hd : d.isDigit = true <;> simp [hd]
    · rename_i hne
      split
      · rename_i heq
        cases heq
        exact absurd rfl (hne _ _)
      · rfl

/-- A word before a blank. -/
theorem cutWord_unmoved (hstop : isBlank stop = true) (c : Char) (rest : List Char) :
    Unmoved (cutWord c) rest (stop :: behind) := by
  obtain ⟨htake, hdrop⟩ :=
    run_append_stop (p := continuesWord) (not_of_blank hstop (by decide)) rest behind
  unfold Unmoved cutWord
  dsimp only
  rw [htake, hdrop]

/-- Before a blank every segment is cut off as at the end of the text, unless it is a string
that does not close, or a comment and the blank does not end the line. -/
theorem cut_unmoved {c : Char} {rest : List Char} (hstop : isBlank stop = true)
    (hclosed : ∀ text, (cut c rest).1 ≠ unterminated text)
    (hline : ∀ text, cut c rest = (comment text, []) → stop = '\n') :
    Unmoved (cut c) rest (stop :: behind) := by
  unfold cut at hclosed hline
  unfold Unmoved cut
  split
  · rfl
  rename_i hblank
  rw [if_neg hblank] at hclosed hline
  split
  · rfl
  rename_i hsymbol
  rw [hsymbol] at hclosed hline
  split
  · exact cutOperator_unmoved hstop _ c rest
  rename_i hextensible
  rw [hextensible] at hclosed hline
  dsimp only at hclosed hline
  split
  · rename_i hslash
    rw [if_pos hslash] at hline
    exact cutSlash_unmoved hstop hline
  rename_i hslash
  rw [if_neg hslash] at hclosed
  split
  · rename_i hquote
    rw [if_pos hquote] at hclosed
    exact cutString_unmoved hclosed
  split
  · exact cutNumber_unmoved hstop c rest
  split
  · exact cutWord_unmoved hstop c rest
  · rfl

/-- Fuel for every character is enough to cut a text. -/
theorem splitWithin_eq {fuel : Nat} {text : List Char} (h : text.length ≤ fuel) :
    splitWithin fuel text = split text := by
  have hall : ∀ fuel fuel' text, text.length ≤ fuel → text.length ≤ fuel' →
      splitWithin fuel text = splitWithin fuel' text := by
    intro fuel
    induction fuel with
    | zero =>
      intro fuel' text hzero _
      obtain rfl := List.eq_nil_of_length_eq_zero (Nat.le_zero.mp hzero)
      cases fuel' <;> rfl
    | succ fuel ih =>
      intro fuel' text hfuel hfuel'
      cases text with
      | nil => cases fuel' <;> rfl
      | cons c rest =>
        cases fuel' with
        | zero => cases hfuel'
        | succ fuel' =>
          have hshorter := cut_shorter c rest
          have hle := Nat.le_of_succ_le_succ hfuel
          have hle' := Nat.le_of_succ_le_succ hfuel'
          exact congrArg (List.cons _)
            (ih fuel' _ (Nat.le_trans hshorter hle) (Nat.le_trans hshorter hle'))
  exact hall fuel text.length text h (Nat.le_refl _)

/-- The segments of a text are the first one and those of what follows it. -/
theorem split_cons (c : Char) (rest : List Char) :
    split (c :: rest) = (cut c rest).1 :: split (cut c rest).2 :=
  congrArg (List.cons _) (splitWithin_eq (cut_shorter c rest))

/-- A text without an unclosed string, a line break and another text: the segments of
the one, the line break, and the segments of the other. -/
theorem split_joined {text : List Char}
    (hclosed : ∀ s ∈ split text, ∀ unclosed, s ≠ unterminated unclosed) (behind : List Char) :
    split (text ++ '\n' :: behind) = split text ++ blank '\n' :: split behind := by
  obtain ⟨bound, hbound⟩ : ∃ bound, text.length ≤ bound := ⟨_, Nat.le_refl _⟩
  induction bound generalizing text with
  | zero =>
    obtain rfl := List.eq_nil_of_length_eq_zero (Nat.le_zero.mp hbound)
    exact split_cons '\n' behind
  | succ bound ih =>
    cases text with
    | nil => exact split_cons '\n' behind
    | cons c rest =>
      rw [split_cons] at hclosed
      obtain ⟨hfirst, hothers⟩ := List.forall_mem_cons.mp hclosed
      have hshorter := Nat.le_trans (cut_shorter c rest) (Nat.le_of_succ_le_succ hbound)
      have hcut : Unmoved (cut c) rest ('\n' :: behind) := cut_unmoved rfl hfirst fun _ _ => rfl
      rw [List.cons_append, split_cons, hcut, ih hothers hshorter, split_cons]
      rfl

/-- The newlines in segments are those in their text. -/
theorem newlinesOfAll_eq (segments : List Segment) :
    newlinesOfAll segments = (segments.flatMap text).count '\n' := by
  induction segments with
  | nil => rfl
  | cons s rest ih =>
    rw [List.flatMap_cons, List.count_append, ← ih]
    rfl

/-- The segments of a text have the newlines of the text. -/
theorem newlinesOfAll_split (text : List Char) :
    newlinesOfAll (split text) = text.count '\n' := by
  rw [newlinesOfAll_eq, split_text]

end Segment

/-- A token so many lines later. -/
def Token.later (lines : Nat) (t : Token) : Token := { t with line := t.line + lines }

/-- A lexical error so many lines later. -/
def LexError.later (lines : Nat) (e : LexError) : LexError := { e with line := e.line + lines }

/-- What a segment yields so many lines later. -/
def Item.later (lines : Nat) : Item → Item
  | token t => token (t.later lines)
  | error e => error (e.later lines)

/-- What segments yield that follow others. -/
theorem itemsIn_append (line : Nat) (segments others : List Segment) :
    itemsIn line (segments ++ others) =
      itemsIn line segments ++ itemsIn (line + Segment.newlinesOfAll segments) others := by
  induction segments generalizing line with
  | nil => rfl
  | cons s rest ih =>
    have hcount : line + s.newlines + Segment.newlinesOfAll rest =
        line + Segment.newlinesOfAll (s :: rest) := Nat.add_assoc _ _ _
    rw [List.cons_append, itemsIn, itemsIn, ih, hcount, List.append_assoc]

/-- Segments that begin some lines later yield the same, so many lines later. -/
theorem itemsIn_later (line lines : Nat) (segments : List Segment) :
    itemsIn (line + lines) segments = (itemsIn line segments).map (Item.later lines) := by
  induction segments generalizing line with
  | nil => rfl
  | cons s rest ih =>
    have hfirst : s.item? (line + s.newlines + lines) =
        (s.item? (line + s.newlines)).map (Item.later lines) := by
      cases s <;> rfl
    rw [itemsIn, itemsIn, Nat.add_right_comm, ih, hfirst, List.map_append, Option.toList_map]

/-- Only an unclosed string is reported as one. -/
theorem closed_of_errors {line : Nat} {segments : List Segment}
    (h : ∀ e ∈ (itemsIn line segments).filterMap Item.error?, e.fault ≠ .unterminatedString) :
    ∀ s ∈ segments, ∀ unclosed, s ≠ .unterminated unclosed := by
  induction segments generalizing line with
  | nil => exact fun _ hmem => absurd hmem List.not_mem_nil
  | cons s rest ih =>
    rw [itemsIn, List.filterMap_append] at h
    refine List.forall_mem_cons.mpr ⟨?_, ?_⟩
    · rintro unclosed rfl
      exact h _ (List.mem_append_left _ List.mem_cons_self) rfl
    · exact ih fun e he => h e (List.mem_append_right _ he)

/-- The tokens of a source are those of its segments, and the end token on the last line. -/
theorem scan_tokens_eq (source : String) :
    (scan source).tokens = tokensIn 1 (Segment.split source.toList) ++
      [Token.endAt (1 + source.toList.count '\n')] := by
  rw [scan_tokens, Segment.newlinesOfAll_split]

variable {source : String}

/-- What sources joined at a line break yield: what the first one yields, and what the
second one yields, later by the lines of the first. -/
theorem itemsIn_joined (hclosed : ∀ e ∈ (scan source).errors, e.fault ≠ .unterminatedString)
    (other : String) :
    itemsIn 1 (Segment.split (source ++ "\n" ++ other).toList) =
      itemsIn 1 (Segment.split source.toList) ++
        (itemsIn 1 (Segment.split other.toList)).map
          (Item.later (source.toList.count '\n' + 1)) := by
  rw [scan_errors] at hclosed
  have htext : (source ++ "\n" ++ other).toList = source.toList ++ '\n' :: other.toList := by
    simp
  have hbreak : itemsIn (1 + source.toList.count '\n')
      (.blank '\n' :: Segment.split other.toList) =
      itemsIn (1 + (source.toList.count '\n' + 1)) (Segment.split other.toList) := rfl
  rw [htext, Segment.split_joined (closed_of_errors hclosed), itemsIn_append,
    Segment.newlinesOfAll_split, hbreak, itemsIn_later]

/-- The tokens of sources joined at a line break, without the end. -/
theorem tokensIn_joined (hclosed : ∀ e ∈ (scan source).errors, e.fault ≠ .unterminatedString)
    (other : String) :
    tokensIn 1 (Segment.split (source ++ "\n" ++ other).toList) =
      tokensIn 1 (Segment.split source.toList) ++
        (tokensIn 1 (Segment.split other.toList)).map
          (Token.later (source.toList.count '\n' + 1)) := by
  unfold tokensIn
  rw [itemsIn_joined hclosed, List.filterMap_append, List.filterMap_map, List.map_filterMap]
  congr 2
  funext item
  cases item <;> rfl

/-- The lexical errors of sources joined at a line break. -/
theorem scan_errors_joined (hclosed : ∀ e ∈ (scan source).errors, e.fault ≠ .unterminatedString)
    (other : String) :
    (scan (source ++ "\n" ++ other)).errors =
      (scan source).errors ++
        (scan other).errors.map (LexError.later (source.toList.count '\n' + 1)) := by
  rw [scan_errors, scan_errors, scan_errors, itemsIn_joined hclosed, List.filterMap_append,
    List.filterMap_map, List.map_filterMap]
  congr 2
  funext item
  cases item <;> rfl

/-- Scanning is compositional at line breaks. Where no string of a first source is unclosed, the
source joined at a line break with any other one has the tokens of the first without its end and
those of the other, and the lexical errors of the first and those of the other, what comes from
the other being later by one line more than the first source has newlines. -/
theorem scan_joined (hclosed : ∀ e ∈ (scan source).errors, e.fault ≠ .unterminatedString)
    (other : String) :
    let lines := 1 + source.toList.count '\n'
    (scan (source ++ "\n" ++ other)).tokens =
        (scan source).tokens.dropLast ++ (scan other).tokens.map (Token.later lines) ∧
      (scan (source ++ "\n" ++ other)).errors =
        (scan source).errors ++ (scan other).errors.map (LexError.later lines) := by
  intro lines
  have hlines : source.toList.count '\n' + 1 = lines := Nat.add_comm _ 1
  have htokens := tokensIn_joined hclosed other
  have herrors := scan_errors_joined hclosed other
  rw [hlines] at htokens herrors
  have hcount : 1 + (source ++ "\n" ++ other).toList.count '\n' =
      1 + other.toList.count '\n' + lines := by
    rw [String.toList_append, String.toList_append, List.count_append, List.count_append,
      show "\n".toList.count '\n' = 1 from rfl]
    omega
  refine ⟨?_, herrors⟩
  rw [scan_tokens_eq, scan_tokens_eq, scan_tokens_eq, htokens, hcount, List.dropLast_concat,
    List.map_append, List.append_assoc]
  rfl

/-- A point and a comment before the line break, a digit and an unclosed string behind it. -/
theorem scan_joined_comment :
    (∀ e ∈ (scan "1.@//x").errors, e.fault ≠ .unterminatedString) ∧
      (scan "1.@//x\n5 \"").tokens =
        (scan "1.@//x").tokens.dropLast ++ (scan "5 \"").tokens.map (Token.later 1) ∧
      (scan "1.@//x\n5 \"").errors = [⟨1, .unexpectedCharacter⟩, ⟨2, .unterminatedString⟩] := by
  have hclosed : ∀ e ∈ (scan "1.@//x").errors, e.fault ≠ .unterminatedString := by decide
  obtain ⟨htokens, herrors⟩ := scan_joined hclosed "5 \""
  refine ⟨hclosed, htokens, herrors.trans ?_⟩
  decide

end Scriptlet
