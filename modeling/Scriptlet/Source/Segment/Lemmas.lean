import Scriptlet.Source.Segment

/-!
# Segments lose nothing

Every cut splits its text into a segment of at least one character and what
follows it. So the segments of a text, joined together, are the text, and each
of them was cut off somewhere. Which segment is cut off is not the subject here.
-/

namespace Scriptlet.Segment

/-- An operator and what follows it are the text they were cut from. -/
theorem cutOperator_text (kinds : Kind × Kind) (c : Char) (rest : List Char) :
    (cutOperator kinds c rest).1.text ++ (cutOperator kinds c rest).2 = c :: rest := by
  unfold cutOperator
  split <;> rfl

/-- A slash or comment and what follows it are the text they were cut from. -/
theorem cutSlash_text (rest : List Char) :
    (cutSlash rest).1.text ++ (cutSlash rest).2 = '/' :: rest := by
  unfold cutSlash
  split
  · simp only [text, List.cons_append]
    rw [List.takeWhile_append_dropWhile]
  · rfl

/-- A string and what follows it are the text they were cut from. -/
theorem cutString_text (rest : List Char) :
    (cutString rest).1.text ++ (cutString rest).2 = '"' :: rest := by
  have joined := List.takeWhile_append_dropWhile (p := (· != '"')) (l := rest)
  unfold cutString
  dsimp only
  split
  · rename_i h
    rw [h] at joined
    simp only [text, List.cons_append]
    rw [joined]
  · rename_i q after h
    have hq : q = '"' := by
      have := List.head?_dropWhile_not (· != '"') rest
      rw [h] at this
      simpa using this
    subst hq
    rw [h] at joined
    simp only [text, List.cons_append, List.append_assoc, List.nil_append]
    rw [joined]

/-- A number and what follows it are the text they were cut from. -/
theorem cutNumber_text (c : Char) (rest : List Char) :
    (cutNumber c rest).1.text ++ (cutNumber c rest).2 = c :: rest := by
  have joined := List.takeWhile_append_dropWhile (p := Char.isDigit) (l := rest)
  unfold cutNumber
  dsimp only
  split
  · rename_i d after h
    rw [h] at joined
    split
    · simp only [text, List.cons_append, List.append_assoc]
      rw [List.takeWhile_append_dropWhile, joined]
    · simp only [text, List.cons_append]
      rw [joined]
  · simp only [text, List.cons_append]
    rw [joined]

/-- A word and what follows it are the text they were cut from. -/
theorem cutWord_text (c : Char) (rest : List Char) :
    (cutWord c rest).1.text ++ (cutWord c rest).2 = c :: rest := by
  simp only [cutWord, text, List.cons_append]
  rw [List.takeWhile_append_dropWhile]

/-- Nothing is lost: a segment and what follows it are the text it was cut from. -/
theorem cut_text (c : Char) (rest : List Char) :
    (cut c rest).1.text ++ (cut c rest).2 = c :: rest := by
  unfold cut
  split
  · rfl
  split
  · rfl
  split
  · exact cutOperator_text _ c rest
  split
  · rename_i h
    rw [h]
    exact cutSlash_text rest
  split
  · rename_i h
    rw [h]
    exact cutString_text rest
  split
  · exact cutNumber_text c rest
  split
  · exact cutWord_text c rest
  · rfl

/-- A segment has at least one character. -/
theorem cut_nonempty (c : Char) (rest : List Char) : 0 < (cut c rest).1.text.length := by
  unfold cut
  split
  · exact Nat.zero_lt_one
  split
  · exact Nat.zero_lt_one
  split
  · unfold cutOperator
    split <;> exact Nat.succ_pos _
  split
  · unfold cutSlash
    split <;> exact Nat.succ_pos _
  split
  · unfold cutString
    dsimp only
    split <;> exact Nat.succ_pos _
  split
  · unfold cutNumber
    dsimp only
    split
    · split <;> exact Nat.succ_pos _
    · exact Nat.succ_pos _
  split
  · exact Nat.succ_pos _
  · exact Nat.zero_lt_one

/-- Every cut shortens the text. -/
theorem cut_shorter (c : Char) (rest : List Char) : (cut c rest).2.length ≤ rest.length := by
  have joined := congrArg List.length (cut_text c rest)
  have nonempty := cut_nonempty c rest
  simp only [List.length_append, List.length_cons] at joined
  omega

/-- With fuel for every character the segments joined together are the text. -/
theorem splitWithin_text (fuel : Nat) (source : List Char) (h : source.length ≤ fuel) :
    (splitWithin fuel source).flatMap text = source := by
  induction fuel generalizing source with
  | zero =>
    have empty : source = [] := List.eq_nil_of_length_eq_zero (Nat.le_zero.mp h)
    subst empty
    rfl
  | succ fuel ih =>
    cases source with
    | nil => rfl
    | cons c rest =>
      have shorter := cut_shorter c rest
      have bound : (cut c rest).2.length ≤ fuel := by
        simp only [List.length_cons] at h
        omega
      simp only [splitWithin, List.flatMap_cons]
      rw [ih _ bound]
      exact cut_text c rest

/-- The segments of a text joined together are the text. -/
theorem split_text (source : List Char) : (split source).flatMap text = source :=
  splitWithin_text source.length source (Nat.le_refl _)

/-- What is so of everything that is cut off is so of the segments of a text. -/
theorem forall_mem_split {p : Segment → Prop} (h : ∀ c rest, p (cut c rest).1)
    (source : List Char) : ∀ s ∈ split source, p s := by
  have hwithin : ∀ fuel source, ∀ s ∈ splitWithin fuel source, p s := by
    intro fuel
    induction fuel with
    | zero => exact fun _ _ hmem => absurd hmem List.not_mem_nil
    | succ fuel ih =>
      intro source
      cases source with
      | nil => exact fun _ hmem => absurd hmem List.not_mem_nil
      | cons c rest => exact List.forall_mem_cons.mpr ⟨h c rest, ih (cut c rest).2⟩
  exact hwithin source.length source

end Scriptlet.Segment
