import Mathlib.Data.List.Basic

/-!
# Words and parentheses

A written tree is a word, or a parenthesis around written trees with a space between
each two. Words are of characters that are neither spaces nor parentheses, so a text
has at most one reading as such a form, and what stands behind a form is known from the
text as well.
-/

namespace Scriptlet

/-- A word, or a parenthesis with its parts. -/
inductive Form where
  | word (w : String)
  | list (parts : List Form)

namespace Form

/-- The characters that end a word. -/
def isMark (c : Char) : Bool := c == ' ' || c == '(' || c == ')'

mutual

/-- The text of a form. -/
def text : Form → List Char
  | .word w => w.toList
  | .list [] => ['(', ')']
  | .list (first :: rest) => '(' :: (first.text ++ (textBehind rest ++ [')']))

/-- The texts of forms one after the other, a space before each. -/
def textBehind : List Form → List Char
  | [] => []
  | f :: rest => ' ' :: (f.text ++ textBehind rest)

end

/-- A form of words: none is empty and none has a space or a parenthesis in it. -/
inductive Proper : Form → Prop where
  | word {w : String} (hne : w.toList ≠ []) (h : ∀ c ∈ w.toList, isMark c = false) :
    Proper (.word w)
  | list {parts : List Form} (h : ∀ f ∈ parts, f.Proper) : Proper (.list parts)

/-- A word that is given is a proper one if it has a character and no mark. -/
theorem proper_word {w : String} (h : (w.toList.isEmpty || w.toList.any isMark) = false) :
    (Form.word w).Proper := by
  obtain ⟨hne, hplain⟩ := Bool.or_eq_false_iff.mp h
  refine .word (by simpa using hne) fun c hc => ?_
  simpa using List.any_eq_false.mp hplain c hc

/-- The texts that may stand behind a form: none, and those that no word goes on with. -/
def Stops : List Char → Prop
  | [] => True
  | c :: _ => isMark c = true

/-- A form that is known from its text, whatever stands behind it, and so is what does. -/
def Determined (f : Form) : Prop :=
  ∀ (g : Form) (rest rest' : List Char), g.Proper → Stops rest → Stops rest' →
    f.text ++ rest = g.text ++ rest' → f = g ∧ rest = rest'

variable {parts parts' : List Form} {rest rest' : List Char}

/-- Further parts and the closing parenthesis stop a word. -/
theorem stops_behind (parts : List Form) (rest : List Char) :
    Stops (textBehind parts ++ ')' :: rest) := by
  cases parts with
  | nil => rfl
  | cons f others => rfl

/-- A word is what stands before the first mark. -/
theorem takeWhile_word {w : List Char} (h : ∀ c ∈ w, isMark c = false) (hstop : Stops rest) :
    (w ++ rest).takeWhile (fun c => !isMark c) = w := by
  have hplain : ∀ c ∈ w, (!isMark c) = true := by
    intro c hc
    rw [h c hc]
    rfl
  rw [List.takeWhile_append_of_pos hplain]
  cases rest with
  | nil => rw [List.takeWhile_nil, List.append_nil]
  | cons c more =>
    have hmark : isMark c = true := hstop
    rw [List.takeWhile_cons_of_neg (by simp [hmark]), List.append_nil]

/-- A parenthesis begins with one. -/
theorem text_list (parts : List Form) : ∃ more, (Form.list parts).text = '(' :: more := by
  cases parts with
  | nil => exact ⟨_, rfl⟩
  | cons first others => exact ⟨_, rfl⟩

/-- A proper form does not begin with a closing parenthesis. -/
theorem Proper.begins {f : Form} (h : f.Proper) : ∃ c more, f.text = c :: more ∧ c ≠ ')' := by
  cases h with
  | @word w hne h =>
    obtain ⟨c, more, hword⟩ := List.exists_cons_of_ne_nil hne
    refine ⟨c, more, hword, ?_⟩
    rintro rfl
    have hmark := h ')' (by rw [hword]; exact List.mem_cons_self)
    cases hmark
  | @list parts h =>
    obtain ⟨more, htext⟩ := text_list parts
    exact ⟨'(', more, htext, by decide⟩

/-- A word is known from its text. -/
theorem determined_word {w : String} (hne : w.toList ≠ []) (h : ∀ c ∈ w.toList, isMark c = false) :
    Determined (.word w) := by
  intro g rest rest' hg hstop hstop' heq
  cases hg with
  | @word w' hne' h' =>
    have htext : w.toList ++ rest = w'.toList ++ rest' := heq
    have hword : w.toList = w'.toList := by
      rw [← takeWhile_word h hstop, ← takeWhile_word h' hstop', htext]
    rw [hword] at htext
    exact ⟨congrArg Form.word (String.toList_inj.mp hword), List.append_cancel_left htext⟩
  | @list parts' h' =>
    -- a word does not begin with a parenthesis
    obtain ⟨more', hlist⟩ := text_list parts'
    obtain ⟨c, more, hword⟩ := List.exists_cons_of_ne_nil hne
    have htext : w.toList ++ rest = (Form.list parts').text ++ rest' := heq
    rw [hword, hlist, List.cons_append, List.cons_append] at htext
    have hmark := h c (by rw [hword]; exact List.mem_cons_self)
    rw [(List.cons.inj htext).1] at hmark
    cases hmark

/-- Parts that are known from their texts are known from the text of all of them up to the closing
parenthesis. -/
theorem behind_inj (h : ∀ f ∈ parts, f.Determined) (h' : ∀ f ∈ parts', f.Proper)
    (heq : textBehind parts ++ ')' :: rest = textBehind parts' ++ ')' :: rest') :
    parts = parts' ∧ rest = rest' := by
  induction parts generalizing parts' with
  | nil =>
    cases parts' with
    | nil => exact ⟨rfl, (List.cons.inj heq).2⟩
    | cons f' others' => exact absurd (List.cons.inj heq).1 (by decide)
  | cons f others ih =>
    cases parts' with
    | nil => exact absurd (List.cons.inj heq).1 (by decide)
    | cons f' others' =>
      obtain ⟨hf, hothers⟩ := List.forall_mem_cons.mp h
      obtain ⟨hf', hothers'⟩ := List.forall_mem_cons.mp h'
      rw [textBehind, textBehind, List.cons_append, List.cons_append, List.append_assoc,
        List.append_assoc] at heq
      obtain ⟨rfl, hbehind⟩ := hf f' _ _ hf' (stops_behind others rest) (stops_behind others' rest')
        (List.cons.inj heq).2
      obtain ⟨rfl, hrest⟩ := ih hothers hothers' hbehind
      exact ⟨rfl, hrest⟩

/-- A parenthesis is known from its text when its parts are. -/
theorem determined_list (h : ∀ f ∈ parts, f.Determined) (hproper : ∀ f ∈ parts, f.Proper) :
    Determined (.list parts) := by
  intro g rest rest' hg hstop hstop' heq
  cases hg with
  | @word w' hne' h' =>
    have hword := determined_word hne' h' (.list parts) rest' rest (.list hproper) hstop' hstop
      heq.symm
    exact ⟨hword.1.symm, hword.2.symm⟩
  | @list parts' h' =>
    cases parts with
    | nil =>
      cases parts' with
      | nil => exact ⟨rfl, (List.cons.inj (List.cons.inj heq).2).2⟩
      | cons f' others' =>
        obtain ⟨c, more, htext, hne⟩ := (h' f' List.mem_cons_self).begins
        rw [text, text, htext] at heq
        exact absurd (List.cons.inj (List.cons.inj heq).2).1.symm hne
    | cons f others =>
      cases parts' with
      | nil =>
        obtain ⟨c, more, htext, hne⟩ := (hproper f List.mem_cons_self).begins
        rw [text, text, htext] at heq
        exact absurd (List.cons.inj (List.cons.inj heq).2).1 hne
      | cons f' others' =>
        -- a space before the first part makes it one of the parts behind
        rw [text, text] at heq
        have hbehind : textBehind (f :: others) ++ ')' :: rest =
            textBehind (f' :: others') ++ ')' :: rest' := by
          have hinside := (List.cons.inj heq).2
          simp only [List.append_eq, List.append_assoc, List.singleton_append] at hinside
          simp only [textBehind, List.cons_append, List.append_assoc, hinside]
        obtain ⟨hparts, hrest⟩ := behind_inj h h' hbehind
        exact ⟨congrArg Form.list hparts, hrest⟩

/-- A proper form is known from its text. -/
theorem Proper.determined {f : Form} (h : f.Proper) : f.Determined := by
  induction h with
  | word hne h => exact determined_word hne h
  | list h ih => exact determined_list ih h

/-- Two proper forms with one text are the same. -/
theorem text_inj {f g : Form} (hf : f.Proper) (hg : g.Proper) (heq : f.text = g.text) : f = g := by
  refine (hf.determined g [] [] hg trivial trivial ?_).1
  rw [heq]

end Form

end Scriptlet
