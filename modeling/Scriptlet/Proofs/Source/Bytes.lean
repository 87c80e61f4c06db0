import Mathlib.Data.List.TakeWhile
import Scriptlet.Source.Segment
import Scriptlet.Text.Utf8

/-!
# The bytes of a text

A text is stored as the bytes of its characters. A position in the bytes is a boundary
when it lies behind a whole number of characters, and a part of the text can be taken out
between two boundaries only. A character below 128 is one byte and every byte of another
character is at least 128, so a test that makes no difference among those goes through
the bytes of a text as it goes through its characters.
-/

namespace Scriptlet.Text

variable {source : String} {before middle behind text rest : List Char} {c : Char}
  {p : Char → Bool}

/-- The bytes of an array from a position on, behind some that are collected already. -/
theorem toList_loop (bytes : ByteArray) (i : Nat) (collected : List UInt8) :
    ByteArray.toList.loop bytes i collected =
      collected.reverse ++ bytes.data.toList.drop i := by
  fun_induction ByteArray.toList.loop bytes i collected with
  | case1 i collected hi ih =>
    have hlt : i < bytes.data.toList.length := hi
    rw [ih, List.drop_eq_getElem_cons hlt, List.reverse_cons, List.append_assoc]
    simp [ByteArray.get!, hi]
  | case2 i collected hi =>
    rw [List.drop_eq_nil_of_le (Nat.le_of_not_lt hi), List.append_nil]

/-- The bytes of some characters. -/
def spell (text : List Char) : List UInt8 := text.flatMap String.utf8EncodeChar

/-- The number of bytes of some characters. -/
def size (text : List Char) : Nat := (spell text).length

/-- The bytes of a text are those of its characters. -/
theorem encode_eq (source : String) : encode source = spell source.toList := by
  unfold encode
  rw [String.toUTF8_eq_toByteArray, ByteArray.toList, toList_loop]
  simp [spell, ← String.utf8Encode_toList, List.utf8Encode]

/-- The bytes of a first character and of what follows it. -/
theorem spell_cons (c : Char) (rest : List Char) :
    spell (c :: rest) = String.utf8EncodeChar c ++ spell rest :=
  List.flatMap_cons

/-- The bytes of two texts, one behind the other. -/
theorem spell_append (before behind : List Char) :
    spell (before ++ behind) = spell before ++ spell behind :=
  List.flatMap_append

/-- The sizes of two texts, one behind the other. -/
@[simp] theorem size_append (before behind : List Char) :
    size (before ++ behind) = size before + size behind := by
  unfold size
  rw [spell_append, List.length_append]

/-- No characters have no bytes. -/
@[simp] theorem size_nil : size [] = 0 := rfl

/-- The size of a first character and of what follows it. -/
@[simp] theorem size_cons (c : Char) (rest : List Char) :
    size (c :: rest) = c.utf8Size + size rest := by
  unfold size
  rw [spell_cons, List.length_append, String.length_utf8EncodeChar]

/-- A text has at least as many bytes as characters. -/
theorem length_le_size (text : List Char) : text.length ≤ size text := by
  induction text with
  | nil => exact Nat.le_refl 0
  | cons c rest ih =>
    have hpos := c.utf8Size_pos
    rw [size_cons, List.length_cons]
    omega

/-- The size of a text in the form in which positions in it are given. -/
theorem size_eq (text : List Char) : size text = (String.ofList text).utf8ByteSize := by
  unfold size
  rw [← String.toList_ofList (l := text), ← encode_eq, ← String.size_toByteArray, encode,
    String.toUTF8_eq_toByteArray, ByteArray.toList, toList_loop, String.toList_ofList]
  exact List.length_drop

/-! ### Boundaries -/

/-- A position behind a whole number of characters. -/
def Boundary (source : String) (i : Nat) : Prop := String.Pos.Raw.IsValid source ⟨i⟩

instance (source : String) (i : Nat) : Decidable (Boundary source i) :=
  inferInstanceAs (Decidable (String.Pos.Raw.IsValid source ⟨i⟩))

/-- The part of a text between two positions; there is none unless these are boundaries,
one not behind the other. -/
def slice? (source : String) (lower upper : Nat) : Option String :=
  if h : lower ≤ upper ∧ Boundary source lower ∧ Boundary source upper then
    some (String.extract ⟨⟨lower⟩, h.2.1⟩ ⟨⟨upper⟩, h.2.2⟩)
  else none

/-- The size of the characters before a place is a boundary. -/
theorem boundary_size (h : source.toList = before ++ behind) : Boundary source (size before) := by
  refine String.Pos.Raw.isValid_iff_exists_append.mpr
    ⟨String.ofList before, String.ofList behind, ?_, ?_⟩
  · rw [← String.ofList_append, ← h, String.ofList_toList]
  · rw [size_eq]
    rfl

/-- The bytes in the middle of an array. -/
theorem extract_middle (a b c : ByteArray) :
    (a ++ (b ++ c)).extract a.size (a.size + b.size) = b := by
  have hskip := ByteArray.extract_append_size_add (a := a) (b := b ++ c) (i := 0) (j := b.size)
  rw [Nat.add_zero] at hskip
  rw [hskip, ByteArray.extract_append_eq_left rfl]

/-- Between two places of a text its slice is the characters that stand there. -/
theorem slice?_eq (h : source.toList = before ++ (middle ++ behind)) :
    slice? source (size before) (size (before ++ middle)) = some (String.ofList middle) := by
  have hlower := boundary_size h
  have hupper : Boundary source (size (before ++ middle)) :=
    boundary_size (h.trans (List.append_assoc before middle behind).symm)
  have hle : size before ≤ size (before ++ middle) := by
    rw [size_append]
    exact Nat.le_add_right _ _
  have hbytes : source.toByteArray = (String.ofList before).toByteArray ++
      ((String.ofList middle).toByteArray ++ (String.ofList behind).toByteArray) := by
    rw [← String.toByteArray_append, ← String.toByteArray_append, ← String.ofList_append,
      ← String.ofList_append, ← h, String.ofList_toList]
  have hupper' : size (before ++ middle) =
      (String.ofList before).toByteArray.size + (String.ofList middle).toByteArray.size := by
    rw [size_append, size_eq, size_eq, String.size_toByteArray, String.size_toByteArray]
  have hlower' : size before = (String.ofList before).toByteArray.size := by
    rw [size_eq, String.size_toByteArray]
  unfold slice?
  rw [dif_pos ⟨hle, hlower, hupper⟩]
  refine congrArg some (String.toByteArray_inj.mp ?_)
  rw [String.toByteArray_extract]
  dsimp only
  rw [hbytes, hupper', hlower']
  exact extract_middle _ _ _

/-- The last characters of a text make up its slice to the end. -/
theorem slice?_end (h : source.toList = before ++ rest) :
    slice? source (size before) (encode source).length = some (String.ofList rest) := by
  have hlength : (encode source).length = size (before ++ rest) := by
    rw [encode_eq, h]
    rfl
  have hall : source.toList = before ++ (rest ++ []) := by rw [List.append_nil, h]
  rw [hlength]
  exact slice?_eq hall

/-! ### Tests of bytes -/

/-- A character below 128 is one byte, and no byte of another one is below 128. -/
theorem utf8EncodeChar_cases (c : Char) :
    (c.toNat < 128 ∧ String.utf8EncodeChar c = [UInt8.ofNat c.toNat]) ∨
      (128 ≤ c.toNat ∧ ∀ b ∈ String.utf8EncodeChar c, 128 ≤ b.toNat) := by
  have hnat : c.toNat = c.val.toNat := rfl
  fun_cases String.utf8EncodeChar c with
  | case1 v hv => exact .inl ⟨Nat.lt_succ_of_le hv, rfl⟩
  | case2 v hlow hv =>
    refine .inr ⟨by omega, ?_⟩
    simp only [List.forall_mem_cons, UInt8.toNat_ofNat', List.not_mem_nil]
    refine ⟨by omega, by omega, by simp⟩
  | case3 v hlow hv hv' =>
    refine .inr ⟨by omega, ?_⟩
    simp only [List.forall_mem_cons, UInt8.toNat_ofNat', List.not_mem_nil]
    refine ⟨by omega, by omega, by omega, by simp⟩
  | case4 v hlow hv hv' =>
    refine .inr ⟨by omega, ?_⟩
    simp only [List.forall_mem_cons, UInt8.toNat_ofNat', List.not_mem_nil]
    refine ⟨by omega, by omega, by omega, by omega, by simp⟩

/-- A character below 128 is one byte. -/
theorem utf8EncodeChar_eq (hc : c.toNat < 128) :
    String.utf8EncodeChar c = [UInt8.ofNat c.toNat] := by
  rcases utf8EncodeChar_cases c with ⟨-, hbytes⟩ | ⟨hc', -⟩
  · exact hbytes
  · exact absurd hc (Nat.not_lt.mpr hc')

/-- A character below 128 has the size one. -/
theorem utf8Size_eq_one (hc : c.toNat < 128) : c.utf8Size = 1 := by
  rw [← String.length_utf8EncodeChar, utf8EncodeChar_eq hc]
  rfl

/-- The character of a byte has the number of the byte. -/
theorem toNat_ofUInt8 (b : UInt8) : (Char.ofUInt8 b).toNat = b.toNat :=
  UInt8.toNat_toUInt32 b

/-- The byte of a character that is one byte stands for it. -/
theorem ofUInt8_ofNat (hc : c.toNat < 128) : Char.ofUInt8 (UInt8.ofNat c.toNat) = c := by
  refine Char.toNat_inj.mp ?_
  rw [toNat_ofUInt8, UInt8.toNat_ofNat']
  omega

/-- A test that is the same for all characters that are more than one byte. -/
def Uniform (p : Char → Bool) : Prop := ∃ value, ∀ c : Char, 128 ≤ c.toNat → p c = value

/-- A test for one character below 128 is uniform. -/
theorem uniform_beq {d : Char} (hd : d.toNat < 128) : Uniform (· == d) := by
  refine ⟨false, fun c hc => beq_false_of_ne ?_⟩
  rintro rfl
  omega

/-- A test for all characters but one below 128 is uniform. -/
theorem uniform_bne {d : Char} (hd : d.toNat < 128) : Uniform (· != d) := by
  obtain ⟨value, hvalue⟩ := uniform_beq hd
  exact ⟨!value, fun c hc => congrArg not (hvalue c hc)⟩

/-- No digit and no letter is more than one byte. -/
theorem not_isDigit_and_not_isAlpha (hc : 128 ≤ c.toNat) :
    c.isDigit = false ∧ c.isAlpha = false := by
  have habove : ∀ d : Char, d.toNat < 128 → ¬ c.val ≤ d.val := fun d hd hle =>
    absurd (UInt32.le_iff_toNat_le.mp hle) (Nat.not_le.mpr (Nat.lt_of_lt_of_le hd hc))
  refine ⟨Bool.eq_false_iff.mpr fun h => ?_, Bool.eq_false_iff.mpr fun h => ?_⟩
  · have hdigit : (decide (c.val ≥ '0'.val) && decide (c.val ≤ '9'.val)) = true := h
    exact habove '9' (by decide) (of_decide_eq_true (Bool.and_eq_true_iff.mp hdigit).2)
  · have hletter : (c.isUpper || c.isLower) = true := h
    rcases Bool.or_eq_true_iff.mp hletter with hcase | hcase
    · have hupper : 'A'.val ≤ c.val ∧ c.val ≤ 'Z'.val := of_decide_eq_true hcase
      exact habove 'Z' (by decide) hupper.2
    · have hlower : (decide (c.val ≥ 'a'.val) && decide (c.val ≤ 'z'.val)) = true := hcase
      exact habove 'z' (by decide) (of_decide_eq_true (Bool.and_eq_true_iff.mp hlower).2)

/-- The test for digits is uniform. -/
theorem uniform_isDigit : Uniform Char.isDigit :=
  ⟨false, fun _ hc => (not_isDigit_and_not_isAlpha hc).1⟩

/-- The test for the characters of a word is uniform. -/
theorem uniform_continuesWord : Uniform Segment.continuesWord := by
  refine ⟨false, fun c hc => ?_⟩
  obtain ⟨hdigit, halpha⟩ := not_isDigit_and_not_isAlpha hc
  have hunderscore : (c == '_') = false := by
    refine beq_false_of_ne ?_
    rintro rfl
    exact absurd hc (by decide)
  simp only [Segment.continuesWord, Char.isAlphanum, hdigit, halpha, hunderscore, Bool.or_false]

/-- On every byte of a character a uniform test is what it is on the character. -/
theorem Uniform.eq_of_mem (h : Uniform p) {b : UInt8} (hb : b ∈ String.utf8EncodeChar c) :
    p (Char.ofUInt8 b) = p c := by
  obtain ⟨value, hvalue⟩ := h
  rcases utf8EncodeChar_cases c with ⟨hc, hbytes⟩ | ⟨hc, hbytes⟩
  · rw [hbytes, List.mem_singleton] at hb
    rw [hb, ofUInt8_ofNat hc]
  · rw [hvalue c hc, hvalue]
    rw [toNat_ofUInt8]
    exact hbytes b hb

/-- A character has a first byte. -/
theorem exists_head_utf8EncodeChar (c : Char) :
    ∃ b more, String.utf8EncodeChar c = b :: more := by
  refine List.exists_cons_of_ne_nil fun hnil => ?_
  have hlength := String.length_utf8EncodeChar c
  rw [hnil, List.length_nil] at hlength
  exact Nat.lt_irrefl 0 (hlength ▸ c.utf8Size_pos)

/-- A uniform test of the first byte is one of the first character. -/
theorem Uniform.any_head? (h : Uniform p) (text : List Char) :
    (spell text).head?.any (fun b => p (Char.ofUInt8 b)) = text.head?.any p := by
  cases text with
  | nil => rfl
  | cons c rest =>
    obtain ⟨b, more, hbytes⟩ := exists_head_utf8EncodeChar c
    rw [spell_cons, hbytes]
    exact h.eq_of_mem (hbytes ▸ List.mem_cons_self)

/-- A uniform test goes through the bytes of a text as it goes through its characters. -/
theorem Uniform.takeWhile_spell (h : Uniform p) (text : List Char) :
    (spell text).takeWhile (fun b => p (Char.ofUInt8 b)) = spell (text.takeWhile p) := by
  induction text with
  | nil => rfl
  | cons c rest ih =>
    rw [spell_cons]
    by_cases hc : p c = true
    · have hall : ∀ b ∈ String.utf8EncodeChar c, p (Char.ofUInt8 b) = true := fun b hb =>
        (h.eq_of_mem hb).trans hc
      rw [List.takeWhile_append_of_pos hall, ih, List.takeWhile_cons_of_pos hc, spell_cons]
    · obtain ⟨b, more, hbytes⟩ := exists_head_utf8EncodeChar c
      have hb : ¬ p (Char.ofUInt8 b) = true := by
        rwa [h.eq_of_mem (hbytes ▸ List.mem_cons_self)]
      rw [List.takeWhile_cons_of_neg hc, hbytes, List.cons_append]
      exact List.takeWhile_cons_of_neg (p := fun b => p (Char.ofUInt8 b)) hb

/-- A text has as many bytes that stand for a newline as it has newlines. -/
theorem countP_spell (text : List Char) :
    (spell text).countP (fun b => Char.ofUInt8 b == '\n') = text.count '\n' := by
  induction text with
  | nil => rfl
  | cons c rest ih =>
    have huniform : Uniform (· == '\n') := uniform_beq (by decide)
    rw [spell_cons, List.countP_append, ih, List.count_cons, Nat.add_comm]
    refine congrArg (List.count '\n' rest + ·) ?_
    by_cases hc : c = '\n'
    · rw [hc]
      rfl
    · rw [if_neg (by simpa using hc), List.countP_eq_zero]
      intro b hb
      rw [huniform.eq_of_mem hb]
      simpa using hc

end Scriptlet.Text
