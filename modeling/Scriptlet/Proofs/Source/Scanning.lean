import Scriptlet.Proofs.Source.Bytewise
import Scriptlet.Proofs.Source.Grammar

/-!
# Segments byte by byte

Each way to read on in the bytes of a source passes exactly the segment that is cut off
there, whatever characters follow it, and notes what the segment yields. So a whole source
is read segment by segment, and no byte and no part of it is ever missing.
-/

namespace Scriptlet

open Text

namespace Scanner

/-- What a segment is reported for. -/
def fault? : Segment → Option LexFault
  | .unexpected _ => some .unexpectedCharacter
  | .unterminated _ => some .unterminatedString
  | _ => none

/-- The kind and the literal of the token that a segment is. -/
def found? : Segment → Option (Kind × Option Literal)
  | .token kind lexeme => some (kind, Literal.ofLexeme? kind lexeme)
  | _ => none

/-- The state behind a segment that stands behind some characters. -/
def past (s : Scanner) (before : List Char) (g : Segment) : Scanner :=
  { s with
    curr := size (before ++ g.text)
    line := s.line + g.newlines
    pending := found? g }

section Segments

variable {source : String} {before rest : List Char} {s t : Scanner} {c : Char} {g : Segment}

/-- A state that has moved behind a segment, and what is noted there. -/
theorem eq_past (hstart : t.start = s.start) (hcurr : t.curr = size (before ++ g.text))
    (hline : t.line = s.line + g.newlines) (hpending : t.pending = found? g)
    (hdone : t.done = s.done) : t = s.past before g := by
  cases t
  cases hstart
  cases hcurr
  cases hline
  cases hpending
  cases hdone
  rfl

/-- Characters that fulfil a condition have no newline among them that does not. -/
theorem count_newline {p : Char → Bool} (hp : p '\n' = false) {text : List Char}
    (h : ∀ d ∈ text, p d = true) : text.count '\n' = 0 := by
  rw [List.count_eq_zero]
  intro hmem
  have hnewline := h '\n' hmem
  rw [hp] at hnewline
  cases hnewline

/-- A run of characters that fulfil a condition has no newline that does not. -/
theorem count_newline_takeWhile {p : Char → Bool} (hp : p '\n' = false) (text : List Char) :
    (text.takeWhile p).count '\n' = 0 :=
  count_newline hp fun _ hd => List.mem_takeWhile_imp hd

/-- The first byte that fulfils a condition, or the end, stands behind those that do not. -/
theorem findIdx?_getD (test : UInt8 → Bool) (bytes : List UInt8) :
    (bytes.findIdx? test).getD bytes.length = (bytes.takeWhile fun b => !test b).length := by
  induction bytes with
  | nil => rfl
  | cons b rest ih =>
    rw [List.findIdx?_cons]
    cases hb : test b with
    | true => simp [hb]
    | false =>
      rw [List.takeWhile_cons_of_pos (by simp [hb]), List.length_cons, List.length_cons, ← ih]
      cases rest.findIdx? test <;> rfl

/-- Behind a slash, a comment or an operator is read. -/
theorem readSlash_eq (h : s.Stands source (before ++ ['/']) rest) (hpending : s.pending = none) :
    s.readSlash source = some (s.past before (Segment.cutSlash rest).1) := by
  unfold readSlash
  by_cases hsecond : rest.head? = some '/'
  · obtain ⟨rest, rfl⟩ := List.head?_eq_some_iff.mp hsecond
    have hstands := (h.advance (by decide)).2
    have hle : s.curr + 1 ≤ (encode source).length :=
      hstands.length.symm ▸ Nat.le_add_right _ _
    have hbody : (((spell rest).takeWhile fun b => !(Char.ofUInt8 b == '\n'))).length =
        size (rest.takeWhile (· != '\n')) :=
      congrArg List.length ((uniform_bne (d := '\n') (by decide)).takeWhile_spell rest)
    have hcurr : s.curr + 1 = size (before ++ ['/'] ++ ['/']) := hstands.curr
    rw [h.accept_head (by decide) (by decide)]
    dsimp only
    rw [if_pos rfl, if_pos hle, hstands.drop, findIdx?_getD, hbody, hcurr, ← size_append]
    refine congrArg some (eq_past rfl ?_ ?_ hpending rfl)
    · simp only [Segment.cutSlash, Segment.text, List.append_assoc, List.cons_append,
        List.nil_append]
    · have hnewlines := count_newline_takeWhile (p := (· != '\n')) rfl rest
      exact (congrArg (s.line + ·) hnewlines).symm
  · have hcut : Segment.cutSlash rest = (.token .slash ['/'], rest) := by
      unfold Segment.cutSlash
      split
      · exact absurd rfl hsecond
      · rfl
    rw [h.accept_other (by decide) (by decide) hsecond, hcut]
    exact congrArg some (eq_past rfl h.curr rfl rfl rfl)

/-- Behind a quote, a string is read up to its closing quote or to the end. -/
theorem readString_eq (h : s.Stands source (before ++ ['"']) rest) (hstart : s.start = size before)
    (hpending : s.pending = none) :
    s.readString source =
      some (fault? (Segment.cutString rest).1, s.past before (Segment.cutString rest).1) := by
  have hmore : ∀ t : Scanner, (!t.atEnd source && t.peek source != '"') =
      ((encode source)[t.curr]?).any fun b => Char.ofUInt8 b != '"' := by
    intro t
    unfold Scanner.atEnd Scanner.peek glance
    by_cases hlt : t.curr < (encode source).length
    · rw [List.getElem?_eq_getElem hlt]
      simp [Nat.not_le.mpr hlt]
    · rw [List.getElem?_eq_none (Nat.not_lt.mp hlt)]
      simp [Nat.not_lt.mp hlt]
  obtain ⟨t, hloop, hstands, ht⟩ :=
    h.loop (uniform_bne (d := '"') (by decide)) hmore (Char.ofUInt8 · == '\n')
  rw [countP_spell] at ht
  unfold readString Segment.cutString
  rw [hloop]
  simp only [Option.bind_eq_bind, Option.bind_some]
  rw [hstands.atEnd]
  rcases Segment.dropWhile_eq_nil_or (p := (· != '"')) rest with hnone | ⟨d, after, hafter, hd⟩
  · rw [hnone, ht]
    refine congrArg some (Prod.ext rfl (eq_past rfl ?_ ?_ hpending rfl))
    · exact congrArg size (List.append_assoc before ['"'] _)
    · exact congrArg (s.line + ·) (List.count_cons_of_ne (by decide)).symm
  · obtain rfl : d = '"' := by simpa using hd
    rw [hafter] at hstands ⊢
    obtain ⟨hadvance, hbehind⟩ := hstands.advance (by decide)
    have hlower : t.start + 1 = size (before ++ ['"']) := by
      have hsize : size (before ++ ['"']) = size before + 1 := size_append before ['"']
      rw [hsize, ← hstart, ht]
    have hvalue : slice? source (t.start + 1) (t.curr + 1 - 1) =
        some (String.ofList (rest.takeWhile (· != '"'))) := by
      rw [hlower, Nat.add_sub_cancel, hstands.curr]
      exact slice?_eq (hstands.text.trans (List.append_assoc _ _ _))
    rw [hadvance]
    dsimp only [Option.bind_some]
    rw [hvalue, ht]
    refine congrArg some (Prod.ext rfl (eq_past rfl ?_ ?_ ?_ rfl))
    · simp only [Segment.text, size_append, size_cons, size_nil, List.cons_append]
      rw [utf8Size_eq_one (c := '"') (by decide)]
      omega
    · simp [Segment.newlines, Segment.text]
    · have hbody : (('"' :: rest.takeWhile (· != '"') ++ ['"']).drop 1).dropLast =
          rest.takeWhile (· != '"') := List.dropLast_concat
      exact congrArg (fun body => some (Kind.string, some (Literal.text (String.ofList body))))
        hbody.symm

/-- Digits are read as far as they go. -/
theorem readDigits_eq (h : s.Stands source before rest) :
    ∃ t, s.readDigits source = some t ∧
      t.Stands source (before ++ rest.takeWhile Char.isDigit) (rest.dropWhile Char.isDigit) ∧
      t = { s with curr := size (before ++ rest.takeWhile Char.isDigit) } := by
  obtain ⟨t, hloop, hstands, ht⟩ :=
    h.loop uniform_isDigit (peek_eq_any (by decide)) fun _ => false
  rw [List.countP_false] at ht
  exact ⟨t, hloop, hstands, ht⟩

/-- Behind digits and points, the number that was passed is noted. -/
theorem note_number {lexeme behind : List Char} (h : t.Stands source (before ++ lexeme) behind)
    (hmoved : t = { s with curr := t.curr }) (hstart : s.start = size before)
    (hlexeme : ∀ d ∈ lexeme, (d.isDigit || d == '.') = true) :
    ((slice? source t.start t.curr).bind fun text =>
      some { t with pending := some (.number, some (.number (numeral text.toList))) }) =
        some (s.past before (.token .number lexeme)) := by
  have hnewlines := count_newline (p := fun d => d.isDigit || d == '.') rfl hlexeme
  have hline : t.line = s.line + lexeme.count '\n' := by
    rw [hnewlines, hmoved]
    rfl
  have hsame : t.start = s.start := by rw [hmoved]
  have hdone : t.done = s.done := by rw [hmoved]
  rw [h.slice (hsame.trans hstart), Option.bind_some, String.toList_ofList]
  exact congrArg some (eq_past hsame h.curr hline rfl hdone)

/-- Behind a digit, a number is read. -/
theorem readNumber_eq (h : s.Stands source (before ++ [c]) rest) (hstart : s.start = size before)
    (hc : c.isDigit = true) :
    s.readNumber source = some (s.past before (Segment.cutNumber c rest).1) := by
  obtain ⟨t, hdigits, hstands, ht⟩ := readDigits_eq h
  have hwhole : ∀ d ∈ c :: rest.takeWhile Char.isDigit, (d.isDigit || d == '.') = true := by
    intro d hd
    rcases List.mem_cons.mp hd with rfl | hd
    · rw [hc, Bool.true_or]
    · rw [List.mem_takeWhile_imp hd, Bool.true_or]
  unfold readNumber
  rw [hdigits]
  simp only [Option.bind_eq_bind, Option.bind_some]
  by_cases hpoint : ∃ d after, rest.dropWhile Char.isDigit = '.' :: d :: after ∧ d.isDigit = true
  · obtain ⟨d, after, hrest, hd⟩ := hpoint
    rw [hrest] at hstands
    have hfirst : (t.peek source == '.') = true :=
      hstands.peek (uniform_beq (by decide)) (by decide)
    have hsecond : (t.peekNext source).isDigit = true :=
      (hstands.peekNext (by decide) uniform_isDigit (by decide)).trans hd
    obtain ⟨hadvance, hbehind⟩ := hstands.advance (by decide)
    obtain ⟨u, hplaces, hend, hu⟩ := readDigits_eq hbehind
    have hlexeme : before ++ [c] ++ rest.takeWhile Char.isDigit ++ ['.'] ++
        (d :: after).takeWhile Char.isDigit = before ++
          (c :: rest.takeWhile Char.isDigit ++ '.' :: d :: after.takeWhile Char.isDigit) := by
      rw [List.takeWhile_cons_of_pos hd]
      simp only [List.append_assoc, List.cons_append, List.nil_append]
    rw [hlexeme] at hend
    have hall : ∀ e ∈ d :: after.takeWhile Char.isDigit, e.isDigit = true :=
      List.forall_mem_cons.mpr ⟨hd, fun e he => List.mem_takeWhile_imp he⟩
    rw [hfirst, hsecond, hadvance, Segment.cutNumber_point hd hrest]
    dsimp only [Bool.and_true, if_true, Option.bind_some]
    rw [hplaces]
    refine note_number hend (by rw [hu, ht]) hstart fun e he => ?_
    rcases List.mem_append.mp he with he | he
    · exact hwhole e he
    · rcases List.mem_cons.mp he with rfl | he
      · rfl
      · rw [hall e he, Bool.true_or]
  · have hcut : (Segment.cutNumber c rest).1 =
        .token .number (c :: rest.takeWhile Char.isDigit) := by
      unfold Segment.cutNumber
      dsimp only
      split
      · rename_i d after hrest
        exact congrArg Prod.fst (if_neg fun hd => hpoint ⟨d, after, hrest, hd⟩)
      · rfl
    have hstop : (t.peek source == '.' && (t.peekNext source).isDigit) = false := by
      rw [hstands.peek (uniform_beq (by decide)) (by decide)]
      cases hrest : rest.dropWhile Char.isDigit with
      | nil => rfl
      | cons e more =>
        by_cases he : e = '.'
        · rw [he] at hrest
          rw [hrest] at hstands
          rw [hstands.peekNext (by decide) uniform_isDigit (by decide)]
          cases more with
          | nil => exact Bool.and_false _
          | cons d after =>
            have hd : d.isDigit = false :=
              Bool.eq_false_iff.mpr fun hd => hpoint ⟨d, after, hrest, hd⟩
            exact (congrArg _ hd).trans (Bool.and_false _)
        · exact congrArg (· && _) (beq_false_of_ne he)
    rw [List.append_assoc] at hstands
    rw [hstop, if_neg Bool.false_ne_true, hcut]
    exact note_number hstands (by rw [ht]) hstart hwhole

/-- A word is neither quoted nor a number. -/
theorem ofWord_ne (word : List Char) :
    Kind.ofWord (String.ofList word) ≠ .string ∧ Kind.ofWord (String.ofList word) ≠ .number := by
  rcases Kind.ofWord_cases word with hkeyword | ⟨hkind, -⟩
  · obtain ⟨-, -, hstring, hnumber, -⟩ := Kind.keyword_spec hkeyword
    exact ⟨hstring, hnumber⟩
  · rw [hkind]
    decide

/-- Behind the first character of a word, the word is read. -/
theorem readWord_eq (h : s.Stands source (before ++ [c]) rest) (hstart : s.start = size before)
    (hc : Segment.beginsWord c = true) :
    s.readWord source = some (s.past before (Segment.cutWord c rest).1) := by
  obtain ⟨t, hloop, hstands, ht⟩ :=
    h.loop uniform_continuesWord (peek_eq_any (by decide)) fun _ => false
  rw [List.countP_false] at ht
  rw [List.append_assoc] at hstands
  have hsame : t.start = s.start := by rw [ht]
  have hdone : t.done = s.done := by rw [ht]
  have hslice := hstands.slice (hsame.trans hstart)
  have hword : Segment.IsWord (c :: rest.takeWhile Segment.continuesWord) :=
    ⟨Segment.beginsWord_iff.mp hc, fun d hd =>
      Segment.continuesWord_iff.mp (List.mem_takeWhile_imp hd)⟩
  have hnewlines : (c :: rest.takeWhile Segment.continuesWord).count '\n' = 0 := by
    have hfirst : c ≠ '\n' := by
      rintro rfl
      revert hc
      decide
    rw [List.count_cons_of_ne hfirst, count_newline_takeWhile rfl]
  unfold readWord
  rw [hloop]
  simp only [Option.bind_eq_bind, Option.bind_some]
  rw [hslice]
  refine congrArg some (eq_past hsame hstands.curr ?_ ?_ hdone)
  · exact (congrArg line ht).trans (congrArg (s.line + ·) hnewlines.symm)
  · obtain ⟨hstring, hnumber⟩ := ofWord_ne (c :: rest.takeWhile Segment.continuesWord)
    exact congrArg (fun literal => some (_, literal))
      (Literal.ofLexeme?_eq_none hstring hnumber _).symm

/-- A character that begins nothing else is passed as a whole. -/
theorem readUnexpected_eq (h : source.toList = before ++ c :: rest) (hstart : s.start = size before)
    (hpending : s.pending = none) (hc : c ≠ '\n') :
    s.readUnexpected source = some (some .unexpectedCharacter, s.past before (.unexpected c)) := by
  have hleft := slice?_end h
  unfold readUnexpected
  rw [hstart, hleft]
  simp only [Option.bind_eq_bind, Option.bind_some, String.toList_ofList, List.head?_cons]
  refine congrArg some (Prod.ext rfl (eq_past hstart.symm ?_ ?_ hpending rfl))
  · simp only [Segment.text, size_append, size_cons, size_nil, Nat.add_zero]
  · exact congrArg (s.line + ·) (List.count_cons_of_ne (l := []) hc).symm

/-- A token that is always spelled the same has no literal and no newline. -/
theorem found?_fixed {text : List Char} {kind : Kind} (h : (text, kind) ∈ Segment.fixedTexts) :
    found? (.token kind text) = some (kind, none) ∧ (Segment.token kind text).newlines = 0 := by
  have hall : ∀ entry ∈ Segment.fixedTexts,
      entry.2 ≠ .string ∧ entry.2 ≠ .number ∧ entry.1.count '\n' = 0 := by decide
  obtain ⟨hstring, hnumber, hnewlines⟩ := hall _ h
  exact ⟨congrArg (fun literal => some (kind, literal))
    (Literal.ofLexeme?_eq_none hstring hnumber text), hnewlines⟩

/-- Behind an operator it is noted, extended or alone. -/
theorem operator_eq {kinds : Kind × Kind} (h : s.Stands source (before ++ [c]) rest)
    (hc : Segment.extensible? c = some kinds) :
    (match s.accept source '=' with
      | (extended, s) => s.emit (if extended then kinds.2 else kinds.1)) =
        s.past before (Segment.cutOperator kinds c rest).1 := by
  obtain ⟨halone, hextended⟩ := Segment.mem_fixedTexts_of_extensible hc
  by_cases hsecond : rest.head? = some '='
  · obtain ⟨rest, rfl⟩ := List.head?_eq_some_iff.mp hsecond
    obtain ⟨hfound, hnewlines⟩ := found?_fixed hextended
    have hbehind := (h.advance (by decide)).2.curr
    rw [h.accept_head (by decide) (by decide)]
    refine eq_past rfl (hbehind.trans ?_) ?_ hfound.symm rfl
    · exact congrArg size (List.append_assoc before [c] ['='])
    · exact congrArg (s.line + ·) hnewlines.symm
  · obtain ⟨hfound, hnewlines⟩ := found?_fixed halone
    have hcut : Segment.cutOperator kinds c rest = (.token kinds.1 [c], rest) := by
      unfold Segment.cutOperator
      split
      · exact absurd rfl hsecond
      · rfl
    rw [h.accept_other (by decide) (by decide) hsecond, hcut]
    exact eq_past rfl h.curr (congrArg (s.line + ·) hnewlines.symm) hfound.symm rfl

/-- Nothing is wrong with a comment or a slash. -/
theorem fault?_cutSlash (rest : List Char) : fault? (Segment.cutSlash rest).1 = none := by
  unfold Segment.cutSlash
  split <;> rfl

/-- Nothing is wrong with a number. -/
theorem fault?_cutNumber (c : Char) (rest : List Char) :
    fault? (Segment.cutNumber c rest).1 = none := by
  unfold Segment.cutNumber
  dsimp only
  split
  · split <;> rfl
  · rfl

/-- Behind the first character of a segment, the segment is read. -/
theorem readBehind_eq (h : s.Stands source (before ++ [c]) rest) (hstart : s.start = size before)
    (hpending : s.pending = none) :
    s.readBehind source c =
      some (fault? (Segment.cut c rest).1, s.past before (Segment.cut c rest).1) := by
  unfold readBehind
  cases hsymbol : Segment.symbol? c with
  | some kind =>
    obtain ⟨hfound, hnewlines⟩ := found?_fixed (Segment.mem_fixedTexts_of_symbol hsymbol)
    rw [Segment.cut_of_symbol hsymbol]
    exact congrArg (fun s => some (none, s))
      (eq_past rfl h.curr (congrArg (s.line + ·) hnewlines.symm) hfound.symm rfl)
  | none =>
    cases hextensible : Segment.extensible? c with
    | some kinds =>
      have hfault : fault? (Segment.cutOperator kinds c rest).1 = none := by
        unfold Segment.cutOperator
        split <;> rfl
      rw [Segment.cut_of_extensible hextensible, hfault, ← operator_eq h hextensible]
    | none =>
      dsimp only
      by_cases hblank : c = ' ' ∨ c = '\r' ∨ c = '\t'
      · rw [if_pos hblank]
        rcases hblank with rfl | rfl | rfl <;>
          exact congrArg (fun s => some (none, s)) (eq_past rfl h.curr rfl hpending rfl)
      by_cases hnewline : c = '\n'
      · rw [if_neg hblank, if_pos hnewline]
        subst hnewline
        exact congrArg (fun s => some (none, s)) (eq_past rfl h.curr rfl hpending rfl)
      have hcut : Segment.cut c rest =
          if c = '/' then Segment.cutSlash rest
          else if c = '"' then Segment.cutString rest
          else if c.isDigit then Segment.cutNumber c rest
          else if Segment.beginsWord c then Segment.cutWord c rest
          else (.unexpected c, rest) := by
        have hnone : ¬ Segment.isBlank c = true := by
          simp only [not_or] at hblank
          simp [Segment.isBlank, hblank, hnewline]
        unfold Segment.cut
        rw [if_neg hnone, hsymbol, hextensible]
      rw [if_neg hblank, if_neg hnewline, hcut]
      by_cases hslash : c = '/'
      · subst hslash
        rw [if_pos rfl, if_pos rfl, readSlash_eq h hpending, fault?_cutSlash]
        rfl
      by_cases hquote : c = '"'
      · subst hquote
        rw [if_neg hslash, if_neg hslash, if_pos rfl, if_pos rfl]
        exact readString_eq h hstart hpending
      rw [if_neg hslash, if_neg hslash, if_neg hquote, if_neg hquote]
      by_cases hdigit : c.isDigit = true
      · rw [if_pos hdigit, if_pos hdigit, readNumber_eq h hstart hdigit, fault?_cutNumber]
        rfl
      by_cases hword : Segment.beginsWord c = true
      · rw [if_neg hdigit, if_neg hdigit, if_pos hword, if_pos hword, readWord_eq h hstart hword]
        rfl
      rw [if_neg hdigit, if_neg hdigit, if_neg hword, if_neg hword]
      exact readUnexpected_eq (h.text.trans (List.append_assoc before [c] rest)) hstart hpending
        hnewline

/-- A character that is more than one byte chooses no rule. -/
theorem not_special (hc : 128 ≤ c.toNat) :
    c ∉ Segment.special ∧ Segment.symbol? c = none ∧ Segment.extensible? c = none ∧
      ¬ c.isDigit = true ∧ ¬ Segment.beginsWord c = true := by
  have hspecial : Segment.special.all (fun d => d.toNat < 128) = true := by decide
  have hfixed : Segment.fixedTexts.all (fun entry => entry.1.all fun d => d.toNat < 128) = true := by
    decide
  have hplain : c ∉ Segment.special := fun hmem =>
    Nat.not_lt.mpr hc (of_decide_eq_true (List.all_eq_true.mp hspecial c hmem))
  have hnone : ∀ {more kind}, (c :: more, kind) ∉ Segment.fixedTexts := fun hmem => by
    have hall := List.all_eq_true.mp (List.all_eq_true.mp hfixed _ hmem) c List.mem_cons_self
    exact Nat.not_lt.mpr hc (of_decide_eq_true hall)
  obtain ⟨hdigit, halpha⟩ := not_isDigit_and_not_isAlpha hc
  refine ⟨hplain, ?_, ?_, Bool.eq_false_iff.mp hdigit, fun hword => ?_⟩
  · cases hsymbol : Segment.symbol? c with
    | none => rfl
    | some kind => exact absurd (Segment.mem_fixedTexts_of_symbol hsymbol) hnone
  · cases hextensible : Segment.extensible? c with
    | none => rfl
    | some kinds => exact absurd (Segment.mem_fixedTexts_of_extensible hextensible).1 hnone
  · rcases Segment.beginsWord_iff.mp hword with hcase | rfl
    · exact Bool.eq_false_iff.mp halpha hcase
    · exact absurd hc (by decide)

/-- Behind a byte of a character that is more than one, the whole character is passed. -/
theorem readBehind_stray (hc : 128 ≤ c.toNat) :
    s.readBehind source c = s.readUnexpected source := by
  obtain ⟨hplain, hsymbol, hextensible, hdigit, hword⟩ := not_special hc
  simp only [Segment.special, List.mem_cons, List.not_mem_nil, or_false, not_or] at hplain
  unfold readBehind
  rw [hsymbol, hextensible]
  simp [hplain, hdigit, hword]

/-- Every way to read on from the first character of a segment passes the segment. -/
theorem scanToken_eq (h : s.Stands source before (c :: rest)) (hstart : s.start = size before)
    (hpending : s.pending = none) :
    s.scanToken source =
      some (fault? (Segment.cut c rest).1, s.past before (Segment.cut c rest).1) := by
  unfold scanToken
  rcases utf8EncodeChar_cases c with ⟨hc, -⟩ | ⟨hc, hbytes⟩
  · obtain ⟨hadvance, hbehind⟩ := h.advance hc
    rw [hadvance]
    dsimp only [Option.bind_eq_bind, Option.bind_some]
    rw [ofUInt8_ofNat hc]
    exact readBehind_eq hbehind hstart hpending
  · obtain ⟨b, more, hb⟩ := exists_head_utf8EncodeChar c
    have hbyte : (encode source)[s.curr]? = some b := by
      rw [h.getElem?, spell_cons, hb]
      rfl
    have hcut : Segment.cut c rest = (.unexpected c, rest) := by
      obtain ⟨hplain, -, -, hdigit, hword⟩ := not_special hc
      rw [Segment.cut_of_not_special hplain, if_neg hdigit, if_neg hword]
    have hadvance : s.advance source = some (b, { s with curr := s.curr + 1 }) := by
      unfold advance
      rw [hbyte]
      rfl
    rw [hadvance, hcut]
    dsimp only [Option.bind_eq_bind, Option.bind_some]
    rw [readBehind_stray]
    · exact readUnexpected_eq h.text hstart hpending (by rintro rfl; exact absurd hc (by decide))
    · rw [toNat_ofUInt8]
      exact hbytes b (hb ▸ List.mem_cons_self)

/-- One round in front of a segment yields what the segment yields, and leads behind it. -/
theorem round_eq (h : s.Stands source before (c :: rest)) :
    s.round source =
      some ((Segment.cut c rest).1.item? (s.line + (Segment.cut c rest).1.newlines),
        { s with
          start := s.curr
          curr := size (before ++ (Segment.cut c rest).1.text)
          line := s.line + (Segment.cut c rest).1.newlines
          pending := none }) := by
  have hread := scanToken_eq (s := { s with start := s.curr, pending := none })
    ⟨h.text, h.curr⟩ h.curr rfl
  have hslice : slice? source s.curr (size (before ++ (Segment.cut c rest).1.text)) =
      some (String.ofList (Segment.cut c rest).1.text) := by
    have htext : source.toList =
        before ++ ((Segment.cut c rest).1.text ++ (Segment.cut c rest).2) := by
      rw [Segment.cut_text, h.text]
    rw [h.curr]
    exact slice?_eq htext
  unfold round
  rw [h.atEnd, hread]
  generalize (Segment.cut c rest).1 = g at hslice
  cases g with
  | token kind lexeme =>
    have hlexeme : slice? source s.curr (size (before ++ lexeme)) = some (String.ofList lexeme) :=
      hslice
    simp [fault?, past, found?, Segment.text, hlexeme, Segment.item?, -size_append]
  | blank c => rfl
  | comment text => rfl
  | unexpected c => rfl
  | unterminated text => rfl

/-- One round at the end yields the end. -/
theorem round_end (h : s.Stands source before []) :
    s.round source = some (some (.token (Token.endAt s.line)), { s with done := true }) := by
  unfold round
  rw [h.atEnd]
  rfl

end Segments

end Scanner

end Scriptlet
