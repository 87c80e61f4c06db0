import Scriptlet.Proofs.Source.Longest

/-!
# Layout between segments

Where a segment ends does not depend on what stands farther behind, so a text cut at
the end of one of its segments falls into the same segments up to there. Blanks that are
inserted there prolong none of them, except that a comment takes in those before the next
newline; and the newline behind the comment is still there. So blanks and comments
between segments change nothing but the lines.
-/

namespace Scriptlet

namespace Segment

variable {c stop : Char} {kinds : Kind × Kind} {rest behind more : List Char} {s : Segment}

/-- A run of characters that ends before some text is the same without that text. -/
theorem run_of_append {p : Char → Bool}
    (h : (rest ++ behind).dropWhile p = more ++ behind) :
    rest.takeWhile p = (rest ++ behind).takeWhile p ∧ rest.dropWhile p = more := by
  have hwhole := List.takeWhile_append_dropWhile (p := p) (l := rest ++ behind)
  rw [h, ← List.append_assoc] at hwhole
  have hrest := List.append_cancel_right hwhole
  have hrun : ∀ d ∈ (rest ++ behind).takeWhile p, p d = true := fun d hd =>
    List.mem_takeWhile_imp hd
  obtain ⟨htake, hdrop⟩ := run_of_all hrun more
  have hmore : more.takeWhile p = [] ∧ more.dropWhile p = more := by
    cases more with
    | nil => exact ⟨rfl, rfl⟩
    | cons d more =>
      have hd := List.head?_dropWhile_not p (rest ++ behind)
      rw [h] at hd
      have hd : p d = false := by simpa using hd
      simp [hd]
  rw [hrest, hmore.1, List.append_nil] at htake
  rw [hrest, hmore.2] at hdrop
  exact ⟨htake, hdrop⟩

/-- A cut that leaves some text alone is the same without that text. -/
def Shrinks (cutter : List Char → Segment × List Char) (rest behind : List Char) : Prop :=
  ∀ s more, cutter (rest ++ behind) = (s, more ++ behind) → cutter rest = (s, more)

/-- What is left of some text is not longer than that text. -/
theorem eq_nil_of_left {left : List Char} (hlength : left.length ≤ behind.length)
    (h : left = more ++ behind) : more = [] := by
  rw [h, List.length_append] at hlength
  exact List.eq_nil_of_length_eq_zero (by omega)

/-- An operator. -/
theorem cutOperator_shrinks : Shrinks (cutOperator kinds c) rest behind := by
  intro s more h
  unfold cutOperator at h ⊢
  cases rest with
  | nil =>
    rw [List.nil_append] at h
    split at h
    · rename_i after
      have hlong := congrArg (List.length ∘ Prod.snd) h
      simp only [Function.comp_apply, List.length_append, List.length_cons] at hlong
      omega
    · obtain ⟨rfl, hleft⟩ := Prod.mk.inj h
      obtain rfl := eq_nil_of_left (Nat.le_refl _) hleft
      rfl
  | cons d rest =>
    rw [List.cons_append] at h
    split at h
    · rename_i heq
      cases heq
      obtain ⟨rfl, hleft⟩ := Prod.mk.inj h
      rw [List.append_cancel_right hleft]
      rfl
    · rename_i hne
      obtain ⟨rfl, hleft⟩ := Prod.mk.inj h
      obtain rfl : d :: rest = more := List.append_cancel_right hleft
      split
      · rename_i heq
        cases heq
        exact absurd rfl (hne _)
      · rfl

/-- A slash or a comment. -/
theorem cutSlash_shrinks : Shrinks cutSlash rest behind := by
  intro s more h
  unfold cutSlash at h ⊢
  cases rest with
  | nil =>
    rw [List.nil_append] at h
    split at h
    · rename_i after
      have hlong := congrArg (List.length ∘ Prod.snd) h
      have hshort := List.length_dropWhile_le (· != '\n') after
      simp only [Function.comp_apply, List.length_append, List.length_cons] at hlong
      omega
    · obtain ⟨rfl, hleft⟩ := Prod.mk.inj h
      obtain rfl := eq_nil_of_left (Nat.le_refl _) hleft
      rfl
  | cons d rest =>
    rw [List.cons_append] at h
    split at h
    · rename_i heq
      cases heq
      obtain ⟨rfl, hleft⟩ := Prod.mk.inj h
      obtain ⟨htake, hdrop⟩ := run_of_append hleft
      rw [← htake, ← hdrop]
      rfl
    · rename_i hne
      obtain ⟨rfl, hleft⟩ := Prod.mk.inj h
      obtain rfl : d :: rest = more := List.append_cancel_right hleft
      split
      · rename_i heq
        cases heq
        exact absurd rfl (hne _)
      · rfl

/-- A string, closed or not. -/
theorem cutString_shrinks : Shrinks cutString rest behind := by
  intro s more h
  unfold cutString at h ⊢
  dsimp only at h ⊢
  split at h
  · rename_i hnone
    obtain ⟨rfl, hleft⟩ := Prod.mk.inj h
    obtain ⟨rfl, rfl⟩ := List.append_eq_nil_iff.mp hleft.symm
    rw [List.append_nil] at hnone ⊢
    rw [hnone]
  · rename_i quote after hquote
    obtain ⟨rfl, rfl⟩ := Prod.mk.inj h
    have hquote : (rest ++ behind).dropWhile (· != '"') = quote :: more ++ behind := hquote
    obtain ⟨htake, hdrop⟩ := run_of_append hquote
    rw [htake, hdrop]

/-- A word. -/
theorem cutWord_shrinks : Shrinks (cutWord c) rest behind := by
  intro s more h
  unfold cutWord at h ⊢
  dsimp only at h ⊢
  obtain ⟨rfl, hleft⟩ := Prod.mk.inj h
  obtain ⟨htake, hdrop⟩ := run_of_append hleft
  rw [htake, hdrop]

/-- A number: a point is left alone as long as no digit follows it. -/
theorem cutNumber_shrinks : Shrinks (cutNumber c) rest behind := by
  intro s more h
  unfold cutNumber at h ⊢
  dsimp only at h ⊢
  split at h
  · rename_i d after hpoint
    split at h
    · rename_i hd
      obtain ⟨rfl, hleft⟩ := Prod.mk.inj h
      have hplaces := List.takeWhile_append_dropWhile (p := Char.isDigit) (l := after)
      rw [hleft, ← List.append_assoc] at hplaces
      rw [← hplaces] at hpoint hleft ⊢
      rw [← List.cons_append, ← List.cons_append] at hpoint
      obtain ⟨htake, hdrop⟩ := run_of_append hpoint
      obtain ⟨htake', hdrop'⟩ := run_of_append hleft
      rw [htake, hdrop]
      refine (if_pos hd).trans ?_
      rw [hdrop', htake']
    · rename_i hd
      obtain ⟨rfl, hleft⟩ := Prod.mk.inj h
      obtain ⟨htake, hdrop⟩ := run_of_append (hpoint.trans hleft)
      rw [htake, hdrop]
      split
      · cases hleft
        exact if_neg hd
      · rfl
  · rename_i hplain
    obtain ⟨rfl, hleft⟩ := Prod.mk.inj h
    obtain ⟨htake, hdrop⟩ := run_of_append hleft
    rw [htake, hdrop]
    split
    · rename_i d after
      exact absurd hleft (hplain d (after ++ behind))
    · rfl

/-- A cut that leaves some text alone is the same without that text. -/
theorem cut_shrinks : Shrinks (cut c) rest behind := by
  intro s more h
  unfold cut at h ⊢
  split
  · rename_i hblank
    rw [if_pos hblank] at h
    obtain ⟨rfl, hleft⟩ := Prod.mk.inj h
    rw [List.append_cancel_right hleft]
  rename_i hblank
  rw [if_neg hblank] at h
  split
  · rename_i hsymbol
    rw [hsymbol] at h
    obtain ⟨rfl, hleft⟩ := Prod.mk.inj h
    rw [List.append_cancel_right hleft]
  rename_i hsymbol
  rw [hsymbol] at h
  split
  · rename_i hextensible
    rw [hextensible] at h
    exact cutOperator_shrinks s more h
  rename_i hextensible
  rw [hextensible] at h
  dsimp only at h
  split
  · rename_i hslash
    rw [if_pos hslash] at h
    exact cutSlash_shrinks s more h
  rename_i hslash
  rw [if_neg hslash] at h
  split
  · rename_i hquote
    rw [if_pos hquote] at h
    exact cutString_shrinks s more h
  rename_i hquote
  rw [if_neg hquote] at h
  split
  · rename_i hdigit
    rw [if_pos hdigit] at h
    exact cutNumber_shrinks s more h
  rename_i hdigit
  rw [if_neg hdigit] at h
  split
  · rename_i hword
    rw [if_pos hword] at h
    exact cutWord_shrinks s more h
  · rename_i hword
    rw [if_neg hword] at h
    obtain ⟨rfl, hleft⟩ := Prod.mk.inj h
    rw [List.append_cancel_right hleft]

/-- A text that only separates: blanks, or a space and a comment with the newline that ends it. -/
inductive Gap : List Char → Prop where
  | blanks {gap : List Char} (hne : gap ≠ []) (h : ∀ c ∈ gap, isBlank c = true) : Gap gap
  | comment {body : List Char} (h : '\n' ∉ body) : Gap (' ' :: '/' :: '/' :: (body ++ ['\n']))

/-- A text that separates begins with a blank. -/
theorem Gap.begins {gap : List Char} (h : Gap gap) :
    ∃ stop more, gap = stop :: more ∧ isBlank stop = true := by
  cases h with
  | blanks hne h =>
    obtain ⟨stop, more, rfl⟩ := List.exists_cons_of_ne_nil hne
    exact ⟨stop, more, rfl, h stop List.mem_cons_self⟩
  | comment h => exact ⟨' ', _, rfl, rfl⟩

/-- What segments yield, apart from the lines. -/
def content (segments : List Segment) : List Item := segments.filterMap (item? 0)

/-- What a segment and others behind it yield. -/
theorem content_cons (s : Segment) (segments : List Segment) :
    content (s :: segments) = (s.item? 0).toList ++ content segments := by
  unfold content
  rw [List.filterMap_cons]
  cases s.item? 0 <;> rfl

/-- A blank is cut off alone. -/
theorem cut_blank (h : isBlank c = true) : cut c rest = (blank c, rest) := by
  unfold cut
  rw [if_pos h]

/-- Blanks before a text yield nothing. -/
theorem content_blanks {gap : List Char} (h : ∀ c ∈ gap, isBlank c = true) (behind : List Char) :
    content (split (gap ++ behind)) = content (split behind) := by
  induction gap with
  | nil => rfl
  | cons c gap ih =>
    obtain ⟨hc, hgap⟩ := List.forall_mem_cons.mp h
    rw [List.cons_append, split_cons, cut_blank hc]
    exact ih hgap

/-- A comment is cut off up to the next newline. -/
theorem cut_comment {body : List Char} (h : '\n' ∉ body) (behind : List Char) :
    cut '/' ('/' :: (body ++ behind)) =
      (.comment ('/' :: '/' :: (body ++ behind.takeWhile (· != '\n'))),
        behind.dropWhile (· != '\n')) := by
  obtain ⟨htake, hdrop⟩ := run_of_not_mem h behind
  rw [← htake, ← hdrop]
  rfl

/-- A text that separates yields nothing before a text. -/
theorem content_gap {gap : List Char} (h : Gap gap) (behind : List Char) :
    content (split (gap ++ behind)) = content (split behind) := by
  cases h with
  | blanks hne h => exact content_blanks h behind
  | @comment body h =>
    have hgap : ' ' :: '/' :: '/' :: (body ++ ['\n']) ++ behind =
        ' ' :: '/' :: '/' :: (body ++ '\n' :: behind) := by simp
    have hbreak : ∀ c ∈ ['\n'], isBlank c = true := List.forall_mem_singleton.mpr rfl
    rw [hgap, split_cons, cut_blank rfl, split_cons, cut_comment h]
    exact content_blanks hbreak behind

/-- What separates, taken in by a comment up to the next newline, yields nothing before a
newline. -/
theorem content_absorbed {gap : List Char} (h : Gap gap) (behind : List Char) :
    content (split ((gap ++ '\n' :: behind).dropWhile (· != '\n'))) =
      content (split ('\n' :: behind)) := by
  cases h with
  | @blanks gap hne h =>
    clear hne
    induction gap with
    | nil => rfl
    | cons c gap ih =>
      by_cases hline : c = '\n'
      · subst hline
        exact content_blanks h ('\n' :: behind)
      · have hc : (c != '\n') = true := bne_iff_ne.mpr hline
        rw [List.cons_append, List.dropWhile_cons, if_pos hc]
        exact ih (List.forall_mem_cons.mp h).2
  | @comment body h =>
    have hbody : '\n' ∉ ' ' :: '/' :: '/' :: body := by simpa using h
    have hgap : ' ' :: '/' :: '/' :: (body ++ ['\n']) ++ '\n' :: behind =
        (' ' :: '/' :: '/' :: body) ++ ('\n' :: '\n' :: behind) := by simp
    have hbreak : ∀ c ∈ ['\n'], isBlank c = true := List.forall_mem_singleton.mpr rfl
    rw [hgap, (run_of_not_mem hbody _).2]
    exact content_blanks hbreak ('\n' :: behind)

/-- No segment of a text is empty. -/
theorem text_ne_nil {source : List Char} : ∀ s ∈ split source, s.text ≠ [] :=
  forall_mem_split (fun c rest => List.length_pos_iff.mp (cut_nonempty c rest)) source

/-- How the first segment of a text is cut off: the same when everything behind some later
segment is missing. -/
theorem cut_first {before after : List Segment}
    (h : split ((s :: before ++ after).flatMap text) = s :: before ++ after) :
    ∃ c body, s.text = c :: body ∧ s.Stands (before.flatMap text ++ after.flatMap text) ∧
      cut c (body ++ before.flatMap text) = (s, before.flatMap text) ∧
      split ((before ++ after).flatMap text) = before ++ after := by
  have hmem : s ∈ split ((s :: before ++ after).flatMap text) := by
    rw [h]
    exact List.mem_cons_self
  have hs := text_ne_nil s hmem
  obtain ⟨c, body, htext⟩ := List.exists_cons_of_ne_nil hs
  rw [List.cons_append, List.flatMap_cons, htext, List.cons_append, split_cons] at h
  obtain ⟨hfirst, hothers⟩ := List.cons.inj h
  have hleft := split_text (cut c (body ++ (before ++ after).flatMap text)).2
  rw [hothers] at hleft
  have hcut : cut c (body ++ before.flatMap text ++ after.flatMap text) =
      (s, before.flatMap text ++ after.flatMap text) := by
    rw [List.append_assoc, ← List.flatMap_append]
    exact Prod.ext hfirst hleft.symm
  have hstands := cut_stands c (body ++ before.flatMap text ++ after.flatMap text)
  rw [hcut] at hstands
  exact ⟨c, body, htext, hstands, cut_shrinks s _ hcut, hleft ▸ hothers⟩

/-- Between two segments of a text another text that separates yields nothing more. -/
theorem content_inserted {before after : List Segment} {gap : List Char} (hgap : Gap gap)
    (hafter : after ≠ []) (h : split ((before ++ after).flatMap text) = before ++ after) :
    content (split (before.flatMap text ++ (gap ++ after.flatMap text))) =
      content (before ++ after) := by
  have hbehind : after.flatMap text ≠ [] := by
    obtain ⟨first, others, rfl⟩ := List.exists_cons_of_ne_nil hafter
    have hfirst := text_ne_nil first (h ▸ List.mem_append_right _ List.mem_cons_self)
    rw [List.flatMap_cons]
    exact List.append_ne_nil_of_left_ne_nil hfirst _
  induction before with
  | nil =>
    rw [List.flatMap_nil, List.nil_append, content_gap hgap]
    exact congrArg content h
  | cons s before ih =>
    obtain ⟨c, body, htext, hstands, hcut, hothers⟩ := cut_first h
    rw [List.flatMap_cons, htext, List.append_assoc, List.cons_append, split_cons,
      ← List.append_assoc]
    by_cases hlast : ∃ t, s = comment t ∧ before.flatMap text = []
    -- The comment takes in what stands before the next newline, and is still a comment.
    · obtain ⟨t, rfl, hnone⟩ := hlast
      rw [hnone, List.nil_append] at hstands
      rw [List.flatMap_append, hnone, List.nil_append] at hothers
      rw [hnone, List.append_nil]
      cases hstands with
      | comment hbody hline =>
        obtain ⟨more, hmore⟩ := hline.resolve_left hbehind
        cases htext
        rw [hmore] at hothers ⊢
        rw [List.cons_append, cut_comment hbody]
        change content (split _) = content (before ++ after)
        rw [content_absorbed hgap, hothers]
    · obtain ⟨stop, more, rfl, hstop⟩ := hgap.begins
      have hclosed : ∀ t, (cut c (body ++ before.flatMap text)).1 ≠ unterminated t := by
        rw [hcut]
        rintro t rfl
        generalize hleft : before.flatMap text ++ after.flatMap text = left at hstands
        cases hstands
        exact hbehind (List.append_eq_nil_iff.mp hleft).2
      have hline : ∀ t, cut c (body ++ before.flatMap text) = (comment t, []) → stop = '\n' := by
        rw [hcut]
        intro t heq
        obtain ⟨rfl, hnone⟩ := Prod.mk.inj heq
        exact absurd ⟨t, rfl, hnone⟩ hlast
      have hunmoved : Unmoved (cut c) (body ++ before.flatMap text)
          (stop :: (more ++ after.flatMap text)) := cut_unmoved hstop hclosed hline
      unfold Unmoved at hunmoved
      rw [List.cons_append, hunmoved, hcut]
      rw [List.cons_append, content_cons, content_cons, ← ih hothers]
      rfl

end Segment

/-- A token on no line. -/
def Token.unplaced (t : Token) : Token := { t with line := 0 }

/-- A lexical error on no line. -/
def LexError.unplaced (e : LexError) : LexError := { e with line := 0 }

/-- What a segment yields, on no line. -/
def Item.unplaced : Item → Item
  | token t => token t.unplaced
  | error e => error e.unplaced

/-- Apart from the lines, segments yield the same on every line. -/
theorem itemsIn_unplaced (line : Nat) (segments : List Segment) :
    (itemsIn line segments).map Item.unplaced = Segment.content segments := by
  induction segments generalizing line with
  | nil => rfl
  | cons s rest ih =>
    have hfirst : (s.item? (line + s.newlines)).map Item.unplaced = s.item? 0 := by
      cases s <;> rfl
    rw [itemsIn, List.map_append, ih, Segment.content_cons, ← hfirst, Option.toList_map]

/-- The tokens of a source apart from the lines. -/
theorem scan_tokens_unplaced (source : String) :
    (scan source).tokens.map Token.unplaced =
      (Segment.content (Segment.split source.toList)).filterMap Item.token? ++
        [Token.endAt 0] := by
  rw [scan_tokens, List.map_append, ← itemsIn_unplaced 1, List.filterMap_map]
  unfold tokensIn
  rw [List.map_filterMap]
  congr 2
  funext item
  cases item <;> rfl

/-- The lexical errors of a source apart from the lines. -/
theorem scan_errors_unplaced (source : String) :
    (scan source).errors.map LexError.unplaced =
      (Segment.content (Segment.split source.toList)).filterMap Item.error? := by
  rw [scan_errors, ← itemsIn_unplaced 1, List.filterMap_map, List.map_filterMap]
  congr 1
  funext item
  cases item <;> rfl

/-- A text that separates, inserted between two segments of a source, changes what scanning
yields only in its lines. -/
theorem scan_inserted {source : String} {before after : List Segment} {gap : List Char}
    (hgap : Segment.Gap gap) (hafter : after ≠ [])
    (h : Segment.split source.toList = before ++ after) :
    let spaced := String.ofList (before.flatMap Segment.text ++ (gap ++ after.flatMap Segment.text))
    (scan spaced).tokens.map Token.unplaced = (scan source).tokens.map Token.unplaced ∧
      (scan spaced).errors.map LexError.unplaced = (scan source).errors.map LexError.unplaced := by
  intro spaced
  have htext : (before ++ after).flatMap Segment.text = source.toList :=
    h ▸ Segment.split_text source.toList
  have hcontent : Segment.content (Segment.split spaced.toList) =
      Segment.content (Segment.split source.toList) := by
    rw [String.toList_ofList, Segment.content_inserted hgap hafter (htext ▸ h), h]
  rw [scan_tokens_unplaced, scan_tokens_unplaced, scan_errors_unplaced, scan_errors_unplaced,
    hcontent]
  exact ⟨rfl, rfl⟩

end Scriptlet
