import Scriptlet.Proofs.Source.Bytes
import Scriptlet.Source.Scan

/-!
# Reading byte by byte

A source is read here as the bytes it is stored as, with a position in them as the state.
A byte outside the source, and a part of the source whose ends are no boundaries, are not
there to be read, and then nothing comes out. The position itself may stand inside a
character for a moment, behind the first byte of one that begins nothing; only the ends of
the parts that are taken out have to be boundaries, and the position is one again before
the next segment begins.
-/

namespace Scriptlet

open Text

/-- The state of reading a source byte by byte. -/
structure Scanner where
  /-- The position at which the current segment begins. -/
  start : Nat
  /-- The position behind the last byte that was looked at. -/
  curr : Nat
  /-- The current line, counted from one. -/
  line : Nat
  /-- The kind and the literal of a token that was found, until it is yielded. -/
  pending : Option (Kind × Option Literal)
  /-- Whether the end of the source was yielded. -/
  done : Bool
deriving DecidableEq

namespace Scanner

/-- The state before anything is read. -/
def initial : Scanner := ⟨0, 0, 1, none, false⟩

section Reading

variable (source : String)

/-- Whether no byte is left. -/
def atEnd (s : Scanner) : Bool := (encode source).length ≤ s.curr

/-- Read a byte and move past it. -/
def advance (s : Scanner) : Option (UInt8 × Scanner) := do
  let b ← (encode source)[s.curr]?
  return (b, { s with curr := s.curr + 1 })

/-- What stands at a position; past the end that is the character with the number zero. -/
def glance (i : Nat) : Char := Char.ofUInt8 ((encode source)[i]?.getD 0)

/-- What stands at the current position. -/
def peek (s : Scanner) : Char := glance source s.curr

/-- What stands behind the current position. -/
def peekNext (s : Scanner) : Char := glance source (s.curr + 1)

/-- Move past a given character if it stands here, and say whether it does. -/
def accept (c : Char) (s : Scanner) : Bool × Scanner :=
  if !s.atEnd source && s.peek source == c then (true, { s with curr := s.curr + 1 })
  else (false, s)

/-- Move on as long as a condition holds, with a new line behind each byte that is counted. -/
def loop (more : Scanner → Bool) (counted : UInt8 → Bool) (s : Scanner) : Option Scanner :=
  if more s then
    match _h : s.advance source with
    | none => none
    | some (b, next) => loop more counted { next with line := next.line + (counted b).toNat }
  else some s
termination_by (encode source).length - s.curr
decreasing_by
  obtain ⟨b', hb, heq⟩ := Option.bind_eq_some_iff.mp _h
  obtain ⟨hlt, -⟩ := List.getElem?_eq_some_iff.mp hb
  cases heq
  dsimp only
  omega

/-- Note the kind of a token without literal. -/
def emit (kind : Kind) (s : Scanner) : Scanner := { s with pending := some (kind, none) }

/-- Read on behind a slash: a comment up to the next newline, or a token. -/
def readSlash (s : Scanner) : Option Scanner :=
  let (second, s) := s.accept source '/'
  if second then
    if s.curr ≤ (encode source).length then
      let left := (encode source).drop s.curr
      some { s with curr := s.curr + (left.findIdx? (Char.ofUInt8 · == '\n')).getD left.length }
    else none
  else some (s.emit .slash)

/-- Read on behind a quote. -/
def readString (s : Scanner) : Option (Option LexFault × Scanner) := do
  let s ← s.loop source (fun s => !s.atEnd source && s.peek source != '"')
    (Char.ofUInt8 · == '\n')
  if s.atEnd source then return (some .unterminatedString, s)
  let (_, s) ← s.advance source
  let value ← slice? source (s.start + 1) (s.curr - 1)
  return (none, { s with pending := some (.string, some (.text value)) })

/-- Read the digits that stand here. -/
def readDigits (s : Scanner) : Option Scanner :=
  s.loop source (fun s => (s.peek source).isDigit) fun _ => false

/-- Read on behind a digit. -/
def readNumber (s : Scanner) : Option Scanner := do
  let s ← s.readDigits source
  let s ←
    if s.peek source == '.' && (s.peekNext source).isDigit then do
      let (_, s) ← s.advance source
      s.readDigits source
    else some s
  let text ← slice? source s.start s.curr
  return { s with pending := some (.number, some (.number (numeral text.toList))) }

/-- Read on behind the first character of a word. -/
def readWord (s : Scanner) : Option Scanner := do
  let s ← s.loop source (fun s => Segment.continuesWord (s.peek source)) fun _ => false
  let text ← slice? source s.start s.curr
  return s.emit (Kind.ofWord text)

/-- Move past the whole of the character at which the current segment begins. -/
def readUnexpected (s : Scanner) : Option (Option LexFault × Scanner) := do
  let left ← slice? source s.start (encode source).length
  let s := match left.toList.head? with
    | some c => { s with curr := s.start + c.utf8Size }
    | none => s
  return (some .unexpectedCharacter, s)

/-- Read on behind the first byte of a segment, which is given as a character: what is wrong with
the segment, if anything, and the state behind it. -/
def readBehind (c : Char) (s : Scanner) : Option (Option LexFault × Scanner) :=
  match Segment.symbol? c with
  | some kind => some (none, s.emit kind)
  | none =>
    match Segment.extensible? c with
    | some kinds =>
      let (extended, s) := s.accept source '='
      some (none, s.emit (if extended then kinds.2 else kinds.1))
    | none =>
      if c = ' ' ∨ c = '\r' ∨ c = '\t' then some (none, s)
      else if c = '\n' then some (none, { s with line := s.line + 1 })
      else if c = '/' then (s.readSlash source).map fun s => (none, s)
      else if c = '"' then s.readString source
      else if c.isDigit then (s.readNumber source).map fun s => (none, s)
      else if Segment.beginsWord c then (s.readWord source).map fun s => (none, s)
      else s.readUnexpected source

/-- Read one segment. -/
def scanToken (s : Scanner) : Option (Option LexFault × Scanner) := do
  let (b, s) ← s.advance source
  s.readBehind source (Char.ofUInt8 b)

/-- One round: the end is yielded, or a segment is read and yields something or nothing. -/
def round (s : Scanner) : Option (Option Item × Scanner) := do
  if s.atEnd source then return (some (.token (Token.endAt s.line)), { s with done := true })
  match ← scanToken source { s with start := s.curr, pending := none } with
  | (some fault, s) => return (some (.error ⟨s.line, fault⟩), s)
  | (none, s) =>
    match s.pending with
    | some (kind, literal) =>
      let lexeme ← slice? source s.start s.curr
      return (some (.token ⟨kind, lexeme, literal, s.line⟩), { s with pending := none })
    | none => return (none, s)

/-- Go on for at most so many rounds, until something is yielded. -/
def rounds : Nat → Scanner → Option (Item × Scanner)
  | 0, _ => none
  | fuel + 1, s => do
    match ← s.round source with
    | (some item, s) => return (item, s)
    | (none, s) => rounds fuel s

/-- The next thing that is yielded; there is none once the end was. Each round takes at least
one byte, and the last one the end. -/
def next (s : Scanner) : Option (Option Item × Scanner) :=
  if s.done then some (none, s)
  else (s.rounds source ((encode source).length + 1 - s.curr)).map fun found =>
    (some found.1, found.2)

end Reading

/-- A position in a source behind some of its characters, with the others ahead. -/
structure Stands (source : String) (before rest : List Char) (s : Scanner) : Prop where
  text : source.toList = before ++ rest
  curr : s.curr = size before

section Standing

variable {source : String} {before run rest : List Char} {s : Scanner} {c : Char}
  {p : Char → Bool}

namespace Stands

/-- The bytes ahead are those of the characters ahead. -/
theorem drop (h : s.Stands source before rest) : (encode source).drop s.curr = spell rest := by
  rw [encode_eq, h.text, spell_append, h.curr]
  exact List.drop_left

/-- The bytes of the source end behind the characters ahead. -/
theorem length (h : s.Stands source before rest) : (encode source).length = s.curr + size rest := by
  rw [encode_eq, h.text, spell_append, List.length_append, h.curr]
  rfl

/-- The byte here is the first one of those ahead. -/
theorem getElem? (h : s.Stands source before rest) :
    (encode source)[s.curr]? = (spell rest).head? := by
  rw [← h.drop, List.head?_drop]

/-- The end is reached when no character is left. -/
theorem atEnd (h : s.Stands source before rest) : s.atEnd source = rest.isEmpty := by
  unfold Scanner.atEnd
  rw [h.length]
  cases rest with
  | nil => simp
  | cons c rest =>
    have hpos := c.utf8Size_pos
    rw [size_cons, List.isEmpty_cons, decide_eq_false_iff_not]
    omega

/-- What a test finds in the byte here it finds in the character here. -/
theorem any_getElem? (h : s.Stands source before rest) (hp : Uniform p) :
    ((encode source)[s.curr]?).any (fun b => p (Char.ofUInt8 b)) = rest.head?.any p := by
  rw [h.getElem?, hp.any_head?]

/-- A test that fails past the end finds here what it finds in the character here. -/
theorem peek (h : s.Stands source before rest) (hp : Uniform p)
    (hnone : p (Char.ofUInt8 0) = false) : p (s.peek source) = rest.head?.any p := by
  rw [← h.any_getElem? hp]
  unfold Scanner.peek glance
  cases (encode source)[s.curr]? with
  | none => exact hnone
  | some b => rfl

/-- A character that is one byte is read and passed. -/
theorem advance (h : s.Stands source before (c :: rest)) (hc : c.toNat < 128) :
    s.advance source = some (UInt8.ofNat c.toNat, { s with curr := s.curr + 1 }) ∧
      Stands source (before ++ [c]) rest { s with curr := s.curr + 1 } := by
  have hbyte : (encode source)[s.curr]? = some (UInt8.ofNat c.toNat) := by
    rw [h.getElem?, spell_cons, utf8EncodeChar_eq hc]
    rfl
  refine ⟨?_, h.text.trans (List.append_assoc before [c] rest).symm, ?_⟩
  · unfold Scanner.advance
    rw [hbyte]
    rfl
  · dsimp only
    rw [size_append, size_cons, size_nil, utf8Size_eq_one hc, h.curr]

/-- A test that fails past the end finds behind a character what it finds in the next one. -/
theorem peekNext (h : s.Stands source before (c :: rest)) (hc : c.toNat < 128) (hp : Uniform p)
    (hnone : p (Char.ofUInt8 0) = false) : p (s.peekNext source) = rest.head?.any p :=
  (h.advance hc).2.peek hp hnone

/-- What was passed since the beginning of the segment can be taken out. -/
theorem slice (h : s.Stands source (before ++ run) rest) (hstart : s.start = size before) :
    slice? source s.start s.curr = some (String.ofList run) := by
  rw [hstart, h.curr]
  exact slice?_eq (h.text.trans (List.append_assoc before run rest))

/-- A given character that stands here is passed. -/
theorem accept_head (h : s.Stands source before (c :: rest)) (hc : c.toNat < 128)
    (hnone : c ≠ Char.ofUInt8 0) :
    s.accept source c = (true, { s with curr := s.curr + 1 }) := by
  have hpeek := h.peek (uniform_beq hc) (beq_false_of_ne hnone.symm)
  unfold accept
  rw [h.atEnd, hpeek]
  simp

/-- A given character that does not stand here is not passed. -/
theorem accept_other (h : s.Stands source before rest) (hc : c.toNat < 128)
    (hnone : c ≠ Char.ofUInt8 0) (hrest : rest.head? ≠ some c) :
    s.accept source c = (false, s) := by
  have hpeek := h.peek (uniform_beq hc) (beq_false_of_ne hnone.symm)
  have hother : rest.head?.any (· == c) = false := by
    cases rest with
    | nil => rfl
    | cons d rest =>
      refine beq_false_of_ne ?_
      rintro rfl
      exact hrest rfl
  unfold accept
  rw [hpeek, hother, Bool.and_false, if_neg Bool.false_ne_true]

end Stands

/-- A loop goes on over the bytes that fulfil its condition. -/
theorem loop_eq {more : Scanner → Bool} {test : UInt8 → Bool} (counted : UInt8 → Bool)
    (hmore : ∀ t : Scanner, more t = ((encode source)[t.curr]?).any test) (s : Scanner) :
    s.loop source more counted =
      some { s with
        curr := s.curr + (((encode source).drop s.curr).takeWhile test).length
        line := s.line + (((encode source).drop s.curr).takeWhile test).countP counted } := by
  generalize hleft : (encode source).drop s.curr = left
  induction left generalizing s with
  | nil =>
    have hnone : (encode source)[s.curr]? = none := by
      rw [← List.head?_drop, hleft]
      rfl
    have hstop : ¬ more s = true := by
      rw [hmore, hnone]
      exact Bool.false_ne_true
    rw [loop, if_neg hstop]
    rfl
  | cons b left ih =>
    have hbyte : (encode source)[s.curr]? = some b := by
      rw [← List.head?_drop, hleft]
      rfl
    have hadvance : s.advance source = some (b, { s with curr := s.curr + 1 }) := by
      unfold advance
      rw [hbyte]
      rfl
    have hgo : more s = test b := by
      rw [hmore, hbyte]
      rfl
    rw [loop, hgo]
    by_cases htest : test b = true
    · have hnext : (encode source).drop (s.curr + 1) = left := by
        rw [← List.drop_drop, hleft]
        rfl
      rw [if_pos htest]
      split
      · rename_i hnone
        rw [hadvance] at hnone
        cases hnone
      · rename_i b' next hread
        rw [hadvance] at hread
        cases hread
        rw [ih _ hnext, List.takeWhile_cons_of_pos htest, List.length_cons, List.countP_cons]
        have hcount : (counted b).toNat = if counted b = true then 1 else 0 := by
          cases counted b <;> rfl
        simp only [hcount, Option.some.injEq, Scanner.mk.injEq, true_and, and_true]
        omega
    · rw [if_neg htest, List.takeWhile_cons_of_neg htest]
      rfl

/-- A loop with a uniform condition goes on over the characters that fulfil it. -/
theorem Stands.loop (h : s.Stands source before rest) {more : Scanner → Bool} (hp : Uniform p)
    (hmore : ∀ t : Scanner,
      more t = ((encode source)[t.curr]?).any fun b => p (Char.ofUInt8 b))
    (counted : UInt8 → Bool) :
    ∃ t, s.loop source more counted = some t ∧
      t.Stands source (before ++ rest.takeWhile p) (rest.dropWhile p) ∧
      t = { s with
        curr := size (before ++ rest.takeWhile p)
        line := s.line + (spell (rest.takeWhile p)).countP counted } := by
  refine ⟨_, ?_, ⟨?_, rfl⟩, rfl⟩
  · rw [loop_eq counted hmore, h.drop, hp.takeWhile_spell, size_append, ← h.curr]
    rfl
  · rw [h.text, List.append_assoc, List.takeWhile_append_dropWhile]

/-- A condition that fails past the end, in the form in which a loop is followed. -/
theorem peek_eq_any (hnone : p (Char.ofUInt8 0) = false) (t : Scanner) :
    p (t.peek source) = ((encode source)[t.curr]?).any fun b => p (Char.ofUInt8 b) := by
  unfold Scanner.peek glance
  cases (encode source)[t.curr]? with
  | none => exact hnone
  | some b => rfl

end Standing

end Scanner

end Scriptlet
