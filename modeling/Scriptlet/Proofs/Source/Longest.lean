import Mathlib.Data.List.TakeWhile
import Scriptlet.Proofs.Source.Joined
import Scriptlet.Proofs.Source.Lexemes

/-!
# Cuts are the longest

The segment that is cut off a text may stand there, and every other segment that may
stand there is shorter. Each rule for cutting is compared with the grammar on its own:
what it cuts off may stand, and what may stand gives way to what it cuts off.
-/

namespace Scriptlet

namespace Segment

variable {c : Char} {kind : Kind} {kinds : Kind × Kind} {rest behind body : List Char}

/-- The blanks are recognised. -/
theorem isBlank_iff : isBlank c = true ↔ c ∈ blanks := by
  simp [isBlank, blanks, or_assoc]

/-- The characters that begin a word are recognised. -/
theorem beginsWord_iff : beginsWord c = true ↔ c.isAlpha = true ∨ c = '_' := by
  simp [beginsWord]

/-- The characters that continue a word are recognised. -/
theorem continuesWord_iff : continuesWord c = true ↔ c.isAlphanum = true ∨ c = '_' := by
  simp [continuesWord]

/-- A symbol is cut off alone. -/
theorem cut_of_symbol (h : symbol? c = some kind) : cut c rest = (token kind [c], rest) := by
  unfold symbol? at h
  split at h <;> cases h <;> rfl

/-- An operator that may be extended is cut off by the rule for those. -/
theorem cut_of_extensible (h : extensible? c = some kinds) :
    cut c rest = cutOperator kinds c rest := by
  unfold extensible? at h
  split at h <;> cases h <;> rfl

/-- The characters by which a rule is chosen before digits and words are looked at. -/
def special : List Char :=
  [' ', '\t', '\r', '\n', '(', ')', '{', '}', ',', '.', '-', '+', ';', '*', '!', '=', '<', '>',
    '/', '"']

/-- A character that is not special is cut off by the rules for digits, for words and for
stray characters. -/
theorem cut_of_not_special (h : c ∉ special) :
    cut c rest =
      if c.isDigit then cutNumber c rest
      else if beginsWord c then cutWord c rest
      else (unexpected c, rest) := by
  simp only [special, List.mem_cons, List.not_mem_nil, or_false, not_or] at h
  have hblank : isBlank c = false := by simp [isBlank, h]
  have hsymbol : symbol? c = none := by
    unfold symbol?
    split <;> simp_all
  have hextensible : extensible? c = none := by
    unfold extensible?
    split <;> simp_all
  obtain ⟨-, -, -, -, -, -, -, -, -, -, -, -, -, -, -, -, -, -, hslash, hquote⟩ := h
  unfold cut
  rw [hblank, hsymbol, hextensible]
  dsimp only
  rw [if_neg hslash, if_neg hquote]
  rfl

/-- A number is cut off at a digit. -/
theorem cut_of_digit (h : c.isDigit = true) : cut c rest = cutNumber c rest := by
  have hplain : c ∉ special := fun hmem => by
    have hall : special.all (fun d => !d.isDigit) = true := by decide
    have hnone := List.all_eq_true.mp hall c hmem
    rw [h] at hnone
    cases hnone
  rw [cut_of_not_special hplain, if_pos h]

/-- A word is cut off at a letter or an underscore. -/
theorem cut_of_beginsWord (h : beginsWord c = true) : cut c rest = cutWord c rest := by
  have hplain : c ∉ special := fun hmem => by
    have hall : special.all (fun d => !beginsWord d) = true := by decide
    have hnone := List.all_eq_true.mp hall c hmem
    rw [h] at hnone
    cases hnone
  have hdigit : ¬ c.isDigit = true := fun hdigit =>
    not_alpha_of_isDigit hdigit (beginsWord_iff.mp h)
  rw [cut_of_not_special hplain, if_neg hdigit, if_pos h]

/-- The texts that are always spelled the same are symbols, the slash, and operators alone
and extended. -/
theorem fixedTexts_cases {text : List Char} (h : (text, kind) ∈ fixedTexts) :
    ∃ c ∈ text, text = [c] ∧ symbol? c = some kind ∨ text = ['/'] ∧ kind = .slash ∨
      text = [c] ∧ (extensible? c).map Prod.fst = some kind ∨
      text = [c, '='] ∧ (extensible? c).map Prod.snd = some kind := by
  have hall : fixedTexts.all (fun entry => entry.1.any fun c =>
      decide (entry.1 = [c] ∧ symbol? c = some entry.2 ∨ entry.1 = ['/'] ∧ entry.2 = .slash ∨
        entry.1 = [c] ∧ (extensible? c).map Prod.fst = some entry.2 ∨
        entry.1 = [c, '='] ∧ (extensible? c).map Prod.snd = some entry.2)) = true := by
    decide
  obtain ⟨c, hc, hcase⟩ := List.any_eq_true.mp (List.all_eq_true.mp hall _ h)
  exact ⟨c, hc, of_decide_eq_true hcase⟩

/-- A symbol is always spelled the same. -/
theorem mem_fixedTexts_of_symbol (h : symbol? c = some kind) : ([c], kind) ∈ fixedTexts := by
  unfold symbol? at h
  split at h <;> cases h <;> decide

/-- An operator is always spelled the same, alone and extended. -/
theorem mem_fixedTexts_of_extensible (h : extensible? c = some kinds) :
    ([c], kinds.1) ∈ fixedTexts ∧ ([c, '='], kinds.2) ∈ fixedTexts := by
  unfold extensible? at h
  split at h <;> cases h <;> decide

/-- A run of characters before a text: the run goes on exactly as far as the text prolongs it. -/
theorem run_of_all {p : Char → Bool} {run : List Char} (h : ∀ d ∈ run, p d = true)
    (behind : List Char) :
    (run ++ behind).takeWhile p = run ++ behind.takeWhile p ∧
      (run ++ behind).dropWhile p = behind.dropWhile p :=
  ⟨List.takeWhile_append_of_pos h, List.dropWhile_append_of_pos h⟩

/-- A text without a given character is a run up to that character. -/
theorem run_of_not_mem {stop : Char} {run : List Char} (h : stop ∉ run) (behind : List Char) :
    (run ++ behind).takeWhile (· != stop) = run ++ behind.takeWhile (· != stop) ∧
      (run ++ behind).dropWhile (· != stop) = behind.dropWhile (· != stop) := by
  have hrun : ∀ d ∈ run, (d != stop) = true := fun d hd =>
    bne_iff_ne.mpr fun heq => h (heq ▸ hd)
  exact run_of_all hrun behind

/-- A run up to a given character is without it. -/
theorem not_mem_takeWhile (stop : Char) (text : List Char) :
    stop ∉ text.takeWhile (· != stop) := by
  intro hmem
  have hne : (stop != stop) = true := List.mem_takeWhile_imp (p := (· != stop)) hmem
  exact bne_iff_ne.mp hne rfl

/-- What is left behind a run begins with a character that does not prolong it. -/
theorem dropWhile_eq_nil_or {p : Char → Bool} (text : List Char) :
    text.dropWhile p = [] ∨ ∃ d more, text.dropWhile p = d :: more ∧ p d = false := by
  cases hrest : text.dropWhile p with
  | nil => exact Or.inl rfl
  | cons d more =>
    have hd := List.head?_dropWhile_not p text
    rw [hrest] at hd
    exact Or.inr ⟨d, more, rfl, by simpa using hd⟩

/-- Whether a segment is another one, or shorter. -/
def GivesWay (s t : Segment) : Prop := s = t ∨ s.text.length < t.text.length

/-- An operator alone is cut off unless it is extended. -/
theorem cutOperator_alone : (token kinds.1 [c]).GivesWay (cutOperator kinds c rest).1 := by
  unfold cutOperator
  split
  · exact Or.inr (Nat.lt_succ_self 1)
  · exact Or.inl rfl

/-- A slash is cut off unless it begins a comment. -/
theorem cutSlash_alone : (token .slash ['/']).GivesWay (cutSlash rest).1 := by
  unfold cutSlash
  split
  · exact Or.inr (Nat.succ_lt_succ (Nat.succ_pos _))
  · exact Or.inl rfl

/-- A comment is cut off up to the end of its line. -/
theorem cutSlash_comment (h : '\n' ∉ body) (hline : behind = [] ∨ ∃ more, behind = '\n' :: more) :
    (comment ('/' :: '/' :: body)).GivesWay (cutSlash ('/' :: (body ++ behind))).1 := by
  have hbehind : behind.takeWhile (· != '\n') = [] := by
    rcases hline with rfl | ⟨more, rfl⟩ <;> rfl
  have htake := (run_of_not_mem h behind).1
  rw [hbehind, List.append_nil] at htake
  exact Or.inl (congrArg (fun body => comment ('/' :: '/' :: body)) htake.symm)

/-- A string is cut off up to its closing quote. -/
theorem cutString_closed (h : '"' ∉ body) :
    (token .string ('"' :: body ++ ['"'])).GivesWay (cutString (body ++ '"' :: behind)).1 := by
  obtain ⟨htake, hdrop⟩ := run_of_not_mem h ('"' :: behind)
  unfold cutString
  dsimp only
  rw [htake, hdrop]
  exact Or.inl (by simp)

/-- A quote that is never closed is cut off up to the end. -/
theorem cutString_unclosed (h : '"' ∉ body) :
    (unterminated ('"' :: body)).GivesWay (cutString body).1 := by
  obtain ⟨htake, hdrop⟩ := run_of_not_mem h []
  rw [List.append_nil] at htake hdrop
  unfold cutString
  dsimp only
  rw [htake, hdrop]
  exact Or.inl (by simp)

/-- A number has at least its leading digits. -/
theorem le_cutNumber (c : Char) (rest : List Char) :
    (c :: rest.takeWhile Char.isDigit).length ≤ (cutNumber c rest).1.text.length := by
  unfold cutNumber
  dsimp only
  split
  · split
    · simp only [text, List.length_append]
      omega
    · exact Nat.le_refl _
  · exact Nat.le_refl _

/-- Digits are cut off unless more digits follow, or a point and a digit. -/
theorem cutNumber_whole {digits : List Char} (h : ∀ d ∈ digits, d.isDigit = true) :
    (token .number (c :: digits)).GivesWay (cutNumber c (digits ++ behind)).1 := by
  obtain ⟨htake, hdrop⟩ := run_of_all h behind
  rcases Nat.eq_zero_or_pos (behind.takeWhile Char.isDigit).length with hnone | hmore
  · have hstop := List.eq_nil_of_length_eq_zero hnone
    have hwhole := List.takeWhile_append_dropWhile (p := Char.isDigit) (l := behind)
    rw [hstop, List.nil_append] at hwhole
    unfold cutNumber
    dsimp only
    rw [htake, hdrop, hstop, hwhole, List.append_nil]
    split
    · split
      · refine Or.inr ?_
        simp only [text, List.length_append, List.length_cons]
        omega
      · exact Or.inl rfl
    · exact Or.inl rfl
  · have hle := le_cutNumber c (digits ++ behind)
    rw [htake, List.length_cons, List.length_append] at hle
    have hlen : (token .number (c :: digits)).text.length = digits.length + 1 := rfl
    refine Or.inr ?_
    omega

/-- A number goes on behind a point that a digit follows. -/
theorem cutNumber_point {d : Char} {after : List Char} (hd : d.isDigit = true)
    (hrest : rest.dropWhile Char.isDigit = '.' :: d :: after) :
    (cutNumber c rest).1 = token .number
      (c :: rest.takeWhile Char.isDigit ++ '.' :: d :: after.takeWhile Char.isDigit) := by
  unfold cutNumber
  dsimp only
  rw [hrest]
  exact congrArg Prod.fst (if_pos hd)

/-- Digits with a point in them are cut off unless more digits follow. -/
theorem cutNumber_decimal {digits places : List Char} (h : ∀ d ∈ digits, d.isDigit = true)
    (hplaces : places ≠ []) (h' : ∀ d ∈ places, d.isDigit = true) :
    (token .number (c :: digits ++ '.' :: places)).GivesWay
      (cutNumber c (digits ++ '.' :: (places ++ behind))).1 := by
  obtain ⟨d, more, rfl⟩ := List.exists_cons_of_ne_nil hplaces
  obtain ⟨hd, hmore⟩ := List.forall_mem_cons.mp h'
  obtain ⟨htake, hdrop⟩ := run_of_all h ('.' :: d :: (more ++ behind))
  rw [show ('.' :: d :: (more ++ behind)).takeWhile Char.isDigit = [] from rfl,
    List.append_nil] at htake
  rw [show ('.' :: d :: (more ++ behind)).dropWhile Char.isDigit = '.' :: d :: (more ++ behind)
    from rfl] at hdrop
  rw [show d :: more ++ behind = d :: (more ++ behind) from rfl, cutNumber_point hd hdrop, htake,
    (run_of_all hmore behind).1]
  cases behind.takeWhile Char.isDigit with
  | nil => exact Or.inl (by rw [List.append_nil])
  | cons e others =>
    refine Or.inr ?_
    simp only [text, List.length_append, List.length_cons]
    omega

/-- A word is cut off unless more of it follows. -/
theorem cutWord_word {word : List Char} (h : Lexeme kind (c :: word)) (hword : IsWord (c :: word)) :
    (token kind (c :: word)).GivesWay (cutWord c (word ++ behind)).1 := by
  have hall : ∀ d ∈ word, continuesWord d = true := fun d hd =>
    continuesWord_iff.mpr (hword.2 d hd)
  obtain ⟨htake, -⟩ := run_of_all hall behind
  unfold cutWord
  dsimp only
  rw [htake]
  cases behind.takeWhile continuesWord with
  | nil =>
    refine Or.inl ?_
    rw [List.append_nil, h.eq_ofWord hword]
  | cons e others =>
    refine Or.inr ?_
    simp only [text, List.length_append, List.length_cons]
    omega

/-- A word gives way to the segment cut off. -/
theorem word_givesWay {word : List Char} (h : Lexeme kind word) (hword : IsWord word)
    (htext : word ++ behind = c :: rest) : (token kind word).GivesWay (cut c rest).1 := by
  cases word with
  | nil => exact hword.elim
  | cons d more =>
    cases htext
    rw [cut_of_beginsWord (beginsWord_iff.mpr hword.1)]
    exact cutWord_word h hword

/-- A token begins with a symbol, an operator, a slash, a quote, a digit or as a word. -/
theorem begins_of_lexeme (h : Lexeme kind (c :: body)) :
    symbol? c ≠ none ∨ extensible? c ≠ none ∨ c = '/' ∨ c = '"' ∨ c.isDigit = true ∨
      beginsWord c = true := by
  have hword : IsWord (c :: body) → beginsWord c = true := fun hword =>
    beginsWord_iff.mpr hword.1
  generalize htext : c :: body = text at h
  cases h with
  | fixed h =>
    obtain ⟨d, -, ⟨rfl, hd⟩ | ⟨rfl, -⟩ | ⟨rfl, hd⟩ | ⟨rfl, hd⟩⟩ := fixedTexts_cases h <;>
      cases htext
    · simp [hd]
    · simp
    · obtain ⟨kinds, hkinds, -⟩ := Option.map_eq_some_iff.mp hd
      simp [hkinds]
    · obtain ⟨kinds, hkinds, -⟩ := Option.map_eq_some_iff.mp hd
      simp [hkinds]
  | string h =>
    cases htext
    simp
  | whole hne h => simp [h c (htext ▸ List.mem_cons_self)]
  | @decimal digits places hne h hplaces h' =>
    obtain ⟨d, digits, rfl⟩ := List.exists_cons_of_ne_nil hne
    cases htext
    simp [h c List.mem_cons_self]
  | keyword h =>
    subst htext
    simp [hword (Kind.keyword_spec h).1]
  | identifier h =>
    subst htext
    simp [hword h]

/-- A character that is no blank and begins no token is cut off as a stray one. -/
theorem cut_unexpected (hblank : c ∉ blanks) (h : ∀ kind more, ¬ Lexeme kind (c :: more)) :
    cut c rest = (unexpected c, rest) := by
  have hnotBlank : isBlank c = false := Bool.eq_false_iff.mpr fun h => hblank (isBlank_iff.mp h)
  have hsymbol : symbol? c = none := by
    cases hkind : symbol? c with
    | none => rfl
    | some kind => exact absurd (.fixed (mem_fixedTexts_of_symbol hkind)) (h kind [])
  have hextensible : extensible? c = none := by
    cases hkinds : extensible? c with
    | none => rfl
    | some kinds => exact absurd (.fixed (mem_fixedTexts_of_extensible hkinds).1) (h kinds.1 [])
  have hslash : c ≠ '/' := by
    rintro rfl
    exact h .slash [] (.fixed (by decide))
  have hquote : c ≠ '"' := by
    rintro rfl
    exact h .string ['"'] (@Lexeme.string [] List.not_mem_nil)
  have hdigit : ¬ c.isDigit = true := fun hdigit =>
    h .number [] (.whole (List.cons_ne_nil c []) (by simpa using hdigit))
  have hbegins : ¬ beginsWord c = true := fun hbegins =>
    h _ [] (.ofWord ⟨beginsWord_iff.mp hbegins, by simp⟩)
  unfold cut
  rw [hnotBlank, hsymbol, hextensible]
  dsimp only
  rw [if_neg hslash, if_neg hquote, if_neg hdigit, if_neg hbegins]
  rfl

/-- An operator may stand where it is cut off. -/
theorem cutOperator_stands (h : extensible? c = some kinds) :
    (cutOperator kinds c rest).1.Stands (cutOperator kinds c rest).2 := by
  unfold cutOperator
  split
  · exact .token (.fixed (mem_fixedTexts_of_extensible h).2)
  · exact .token (.fixed (mem_fixedTexts_of_extensible h).1)

/-- A slash or a comment may stand where it is cut off. -/
theorem cutSlash_stands : (cutSlash rest).1.Stands (cutSlash rest).2 := by
  unfold cutSlash
  split
  · rename_i rest
    refine .comment (not_mem_takeWhile '\n' rest) ?_
    rcases dropWhile_eq_nil_or (p := (· != '\n')) rest with hnone | ⟨d, more, hmore, hd⟩
    · exact Or.inl hnone
    · have hd : d = '\n' := by simpa using hd
      exact Or.inr ⟨more, hd ▸ hmore⟩
  · exact .token (.fixed (by decide))

/-- A quote may stand where it is cut off, closed or not. -/
theorem cutString_stands : (cutString rest).1.Stands (cutString rest).2 := by
  have hbody := not_mem_takeWhile '"' rest
  unfold cutString
  dsimp only
  split
  · exact .unterminated hbody
  · exact .token (.string hbody)

/-- A number may stand where it is cut off. -/
theorem cutNumber_stands (h : c.isDigit = true) :
    (cutNumber c rest).1.Stands (cutNumber c rest).2 := by
  have hdigits : ∀ d ∈ c :: rest.takeWhile Char.isDigit, d.isDigit = true :=
    List.forall_mem_cons.mpr ⟨h, fun _ => List.mem_takeWhile_imp⟩
  have hne := List.cons_ne_nil c (rest.takeWhile Char.isDigit)
  unfold cutNumber
  dsimp only
  split
  · rename_i d after _
    split
    · rename_i hd
      exact .token (.decimal hne hdigits (List.cons_ne_nil d _)
        (List.forall_mem_cons.mpr ⟨hd, fun _ => List.mem_takeWhile_imp⟩))
    · exact .token (.whole hne hdigits)
  · exact .token (.whole hne hdigits)

/-- A word may stand where it is cut off. -/
theorem cutWord_stands (h : beginsWord c = true) : (cutWord c rest).1.Stands (cutWord c rest).2 :=
  .token (.ofWord ⟨beginsWord_iff.mp h, fun _ hd =>
    continuesWord_iff.mp (List.mem_takeWhile_imp hd)⟩)

/-- What is cut off a text may stand before what remains. -/
theorem cut_stands (c : Char) (rest : List Char) : (cut c rest).1.Stands (cut c rest).2 := by
  unfold cut
  split
  · rename_i hblank
    exact .blank (isBlank_iff.mp hblank)
  rename_i hblank
  split
  · rename_i kind hkind
    exact .token (.fixed (mem_fixedTexts_of_symbol hkind))
  rename_i hsymbol
  split
  · rename_i kinds hkinds
    exact cutOperator_stands hkinds
  rename_i hextensible
  split
  · exact cutSlash_stands
  rename_i hslash
  split
  · exact cutString_stands
  rename_i hquote
  split
  · rename_i hdigit
    exact cutNumber_stands hdigit
  rename_i hdigit
  split
  · rename_i hbegins
    exact cutWord_stands hbegins
  rename_i hbegins
  refine .unexpected (mt isBlank_iff.mpr hblank) fun kind more hlexeme => ?_
  have hcases := begins_of_lexeme hlexeme
  simp_all

/-- A token that is always spelled the same gives way to what is cut off where it stands. -/
theorem fixed_givesWay {text : List Char} (h : (text, kind) ∈ fixedTexts)
    (htext : text ++ behind = c :: rest) : (Segment.token kind text).GivesWay (cut c rest).1 := by
  obtain ⟨d, -, ⟨rfl, hsymbol⟩ | ⟨rfl, rfl⟩ | ⟨rfl, halone⟩ | ⟨rfl, hextended⟩⟩ :=
    fixedTexts_cases h
  · cases htext
    rw [cut_of_symbol hsymbol]
    exact Or.inl rfl
  · cases htext
    exact cutSlash_alone
  · cases htext
    obtain ⟨kinds, hkinds, rfl⟩ := Option.map_eq_some_iff.mp halone
    rw [cut_of_extensible hkinds]
    exact cutOperator_alone
  · cases htext
    obtain ⟨kinds, hkinds, rfl⟩ := Option.map_eq_some_iff.mp hextended
    rw [cut_of_extensible hkinds]
    exact Or.inl rfl

/-- Every segment that may stand before a text is the one cut off, or shorter. -/
theorem Stands.givesWay {s : Segment} (h : s.Stands behind) (htext : s.text ++ behind = c :: rest) :
    s.GivesWay (cut c rest).1 := by
  cases h with
  | token h =>
    cases h with
    | fixed h => exact fixed_givesWay h htext
    | @string body h =>
      have hjoined : '"' :: (body ++ '"' :: behind) = c :: rest := by
        rw [← htext]
        simp [text]
      cases hjoined
      exact cutString_closed h
    | @whole digits hne h =>
      obtain ⟨d, digits, rfl⟩ := List.exists_cons_of_ne_nil hne
      obtain ⟨hd, hdigits⟩ := List.forall_mem_cons.mp h
      cases htext
      rw [cut_of_digit hd]
      exact cutNumber_whole hdigits
    | @decimal digits places hne h hplaces h' =>
      obtain ⟨d, digits, rfl⟩ := List.exists_cons_of_ne_nil hne
      obtain ⟨hd, hdigits⟩ := List.forall_mem_cons.mp h
      have hjoined : d :: (digits ++ '.' :: (places ++ behind)) = c :: rest := by
        rw [← htext]
        simp [text]
      cases hjoined
      rw [cut_of_digit hd]
      exact cutNumber_decimal hdigits hplaces h'
    | keyword h => exact word_givesWay (.keyword h) (Kind.keyword_spec h).1 htext
    | identifier hword h => exact word_givesWay (.identifier hword h) hword htext
  | @blank d _ h =>
    cases htext
    unfold cut
    rw [if_pos (isBlank_iff.mpr h)]
    exact Or.inl rfl
  | comment h hline =>
    cases htext
    exact cutSlash_comment h hline
  | unexpected hblank h =>
    cases htext
    rw [cut_unexpected hblank h]
    exact Or.inl rfl
  | unterminated h =>
    rw [List.append_nil] at htext
    cases htext
    exact cutString_unclosed h

end Segment

end Scriptlet
