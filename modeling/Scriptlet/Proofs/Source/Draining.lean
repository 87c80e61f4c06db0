import Scriptlet.Proofs.Source.Scanning
import Scriptlet.Proofs.Source.Lines

/-!
# Asking for one item after the other

A source is read by asking for the next item as long as one likes. In every state on the
way the positions are boundaries within the source, every round comes to an end and moves
on, and the items are those of the source. So after at most one item more than there are
bytes nothing comes any more.
-/

namespace Scriptlet

open Text

namespace Scanner

variable {source : String}

/-- The states on the way: before the first round, and behind each round. -/
inductive Reached (source : String) : Scanner → Prop where
  /-- Before anything is read. -/
  | initial : Reached source initial
  /-- Behind a round. -/
  | round {s t : Scanner} {item : Option Item} (hs : Reached source s) (hdone : s.done = false)
    (hround : s.round source = some (item, t)) : Reached source t

/-- The state behind so many requests for the next item. -/
def after (source : String) : Nat → Option Scanner
  | 0 => some initial
  | k + 1 => (after source k).bind fun s => (s.next source).map Prod.snd

/-- The characters of a source up to the start of the last segment, those of that segment, and
those ahead. -/
theorem Reached.exists_stands {s : Scanner} (h : Reached source s) :
    ∃ earlier run rest, s.Stands source (earlier ++ run) rest ∧ s.start = size earlier := by
  induction h with
  | initial => exact ⟨[], [], source.toList, ⟨rfl, rfl⟩, rfl⟩
  | @round s t item hs hdone hround ih =>
    obtain ⟨earlier, run, rest, hstands, hstart⟩ := ih
    cases rest with
    | nil =>
      rw [round_end hstands] at hround
      cases hround
      exact ⟨earlier, run, [], ⟨hstands.text, hstands.curr⟩, hstart⟩
    | cons c rest =>
      rw [round_eq hstands] at hround
      cases hround
      refine ⟨earlier ++ run, (Segment.cut c rest).1.text, (Segment.cut c rest).2, ⟨?_, rfl⟩,
        hstands.curr⟩
      rw [List.append_assoc, Segment.cut_text, hstands.text]

/-- The items that are still to come in a state. -/
def Ahead (source : String) (s : Scanner) (found : List Item) : Prop :=
  s.done = true ∧ found = [] ∨
    s.done = false ∧ ∃ before rest, s.Stands source before rest ∧
      found = itemsFrom s.line (Segment.split rest)

/-- What is cut off has bytes. -/
theorem size_cut_lt (c : Char) (rest : List Char) :
    size (Segment.cut c rest).2 < size (c :: rest) := by
  have hpos := Nat.lt_of_lt_of_le (Segment.cut_nonempty c rest)
    (length_le_size (Segment.cut c rest).1.text)
  rw [← Segment.cut_text c rest, size_append]
  omega

/-- With a round for each byte and one for the end, the next item is found. -/
theorem rounds_eq {fuel : Nat} {s : Scanner} {before rest : List Char} (hs : Reached source s)
    (hdone : s.done = false) (h : s.Stands source before rest) (hfuel : size rest < fuel) :
    ∃ item t more, itemsFrom s.line (Segment.split rest) = item :: more ∧
      s.rounds source fuel = some (item, t) ∧ Reached source t ∧ Ahead source t more := by
  induction fuel generalizing s before rest with
  | zero => exact absurd hfuel (Nat.not_lt_zero _)
  | succ fuel ih =>
    cases rest with
    | nil =>
      have hround := round_end h
      refine ⟨.token (Token.endAt s.line), { s with done := true }, [], rfl, ?_,
        hs.round hdone hround, .inl ⟨rfl, rfl⟩⟩
      unfold rounds
      rw [hround]
      rfl
    | cons c rest =>
      have hround := round_eq h
      have hreached := hs.round hdone hround
      have hstands : Stands source (before ++ (Segment.cut c rest).1.text) (Segment.cut c rest).2
          { s with
            start := s.curr
            curr := size (before ++ (Segment.cut c rest).1.text)
            line := s.line + (Segment.cut c rest).1.newlines
            pending := none } := by
        refine ⟨?_, rfl⟩
        rw [List.append_assoc, Segment.cut_text, h.text]
      unfold rounds itemsFrom
      rw [hround, Segment.split_cons]
      dsimp only [Option.bind_eq_bind, Option.bind_some]
      cases hitem : (Segment.cut c rest).1.item? (s.line + (Segment.cut c rest).1.newlines) with
      | some item => exact ⟨item, _, _, rfl, rfl, hreached, .inr ⟨hdone, _, _, hstands, rfl⟩⟩
      | none =>
        have hsmaller : size (Segment.cut c rest).2 < fuel :=
          Nat.lt_of_lt_of_le (size_cut_lt c rest) (Nat.le_of_lt_succ hfuel)
        exact ih hreached hdone hstands hsmaller

/-- A request for the next item is always answered, by the first of those that are to come. -/
theorem next_eq {s : Scanner} {found : List Item} (hs : Reached source s)
    (h : Ahead source s found) :
    ∃ t, s.next source = some (found.head?, t) ∧ Reached source t ∧
      Ahead source t found.tail := by
  unfold next
  rcases h with ⟨hdone, rfl⟩ | ⟨hdone, before, rest, hstands, rfl⟩
  · rw [if_pos hdone]
    exact ⟨s, rfl, hs, .inl ⟨hdone, rfl⟩⟩
  · have hfuel : size rest < (encode source).length + 1 - s.curr := by
      rw [hstands.length]
      omega
    obtain ⟨item, t, more, hitems, hrounds, hreached, hahead⟩ := rounds_eq hs hdone hstands hfuel
    rw [hdone, hrounds, hitems]
    exact ⟨t, rfl, hreached, hahead⟩

/-- After so many requests the items that are to come are those of the source but as many. -/
theorem after_eq (source : String) (k : Nat) :
    ∃ s, after source k = some s ∧ Reached source s ∧ Ahead source s ((items source).drop k) := by
  induction k with
  | zero => exact ⟨initial, rfl, .initial, .inr ⟨rfl, [], source.toList, ⟨rfl, rfl⟩, rfl⟩⟩
  | succ k ih =>
    obtain ⟨s, hafter, hs, hahead⟩ := ih
    obtain ⟨t, hnext, ht, hmore⟩ := next_eq hs hahead
    rw [List.tail_drop] at hmore
    refine ⟨t, ?_, ht, hmore⟩
    unfold after
    rw [hafter, Option.bind_some, hnext]
    rfl

/-- Segments yield at most one item each. -/
theorem length_itemsIn_le (line : Nat) (segments : List Segment) :
    (itemsIn line segments).length ≤ segments.length := by
  induction segments generalizing line with
  | nil => exact Nat.le_refl 0
  | cons g rest ih =>
    have hone : (g.item? (line + g.newlines)).toList.length ≤ 1 := by
      cases g.item? (line + g.newlines) with
      | none => exact Nat.zero_le 1
      | some item => exact Nat.le_refl 1
    have hrest := ih (line + g.newlines)
    rw [itemsIn, List.length_append, List.length_cons]
    omega

/-- A text has at most as many segments as bytes. -/
theorem length_split_le (text : List Char) : (Segment.split text).length ≤ size text := by
  have hwithin : ∀ fuel text, (Segment.splitWithin fuel text).length ≤ fuel := by
    intro fuel
    induction fuel with
    | zero => exact fun text => Nat.le_refl 0
    | succ fuel ih =>
      intro text
      cases text with
      | nil => exact Nat.zero_le _
      | cons c rest => exact Nat.succ_le_succ (ih (Segment.cut c rest).2)
  exact Nat.le_trans (hwithin text.length text) (length_le_size text)

/-- A source has at most one item more than bytes. -/
theorem length_items_le (source : String) :
    (items source).length ≤ (encode source).length + 1 := by
  have hitems := length_itemsIn_le 1 (Segment.split source.toList)
  have hsegments := length_split_le source.toList
  have hsize : (encode source).length = size source.toList := congrArg List.length (encode_eq source)
  unfold items
  rw [itemsFrom_eq, List.length_append, List.length_singleton, hsize]
  omega

/-- The body of a string that was cut off lies between its quotes. -/
theorem string_bounds (before : List Char) {rest : List Char} {c : Char}
    {literal : Option Literal} (h : found? (Segment.cut c rest).1 = some (.string, literal)) :
    size before + 1 ≤ size (before ++ (Segment.cut c rest).1.text) - 1 := by
  have hstands := Segment.cut_stands c rest
  generalize (Segment.cut c rest).2 = behind at hstands
  generalize (Segment.cut c rest).1 = g at h hstands
  cases hstands with
  | token hlexeme =>
    cases h
    obtain ⟨body, rfl⟩ := Lexeme.exists_body hlexeme
    have hquote := utf8Size_eq_one (c := '"') (by decide)
    simp only [Segment.text, size_append, size_cons, size_nil, List.cons_append, hquote]
    omega
  | blank h => cases h
  | comment h h' => cases h
  | unexpected h h' => cases h
  | unterminated h => cases h

/-- A state between two rounds: its positions are boundaries, in order and within the source. -/
structure Placed (source : String) (s : Scanner) : Prop where
  ordered : s.start ≤ s.curr
  within : s.curr ≤ (encode source).length
  start : Boundary source s.start
  curr : Boundary source s.curr

/-- The state behind one segment more: it begins where the reading stood and has at least one
byte, and it ends at a boundary within the source. A string has room for both its quotes. -/
structure Passes (source : String) (s t : Scanner) : Prop where
  start : t.start = s.curr
  moves : s.curr < t.curr
  within : t.curr ≤ (encode source).length
  curr : Boundary source t.curr
  body : ∀ literal, t.pending = some (.string, literal) → t.start + 1 ≤ t.curr - 1

/-- While bytes are left a segment is read, and nothing that is asked for is missing. -/
theorem Reached.scanToken {s : Scanner} (hs : Reached source s)
    (hleft : s.curr < (encode source).length) :
    ∃ fault t, scanToken source { s with start := s.curr, pending := none } = some (fault, t) ∧
      Passes source s t := by
  obtain ⟨earlier, run, rest, hstands, -⟩ := hs.exists_stands
  cases rest with
  | nil =>
    rw [hstands.length] at hleft
    exact absurd hleft (Nat.lt_irrefl _)
  | cons c rest =>
    have hread := scanToken_eq (s := { s with start := s.curr, pending := none })
      ⟨hstands.text, hstands.curr⟩ hstands.curr rfl
    have htext : source.toList = earlier ++ run ++ (Segment.cut c rest).1.text ++
        (Segment.cut c rest).2 := by
      rw [List.append_assoc _ _ (Segment.cut c rest).2, Segment.cut_text, hstands.text]
    have hlength : size (earlier ++ run ++ (Segment.cut c rest).1.text) +
        size (Segment.cut c rest).2 = (encode source).length := by
      rw [← size_append, ← htext, encode_eq]
      rfl
    have hpos := Nat.lt_of_lt_of_le (Segment.cut_nonempty c rest)
      (length_le_size (Segment.cut c rest).1.text)
    refine ⟨_, _, hread, rfl, ?_, ?_, boundary_size htext, fun literal hfound => ?_⟩
    · rw [hstands.curr]
      dsimp only [past]
      rw [size_append _ (Segment.cut c rest).1.text]
      omega
    · dsimp only [past]
      omega
    · have hbounds := string_bounds (earlier ++ run) hfound
      dsimp only [past]
      rwa [hstands.curr]

/-- In front of a segment and at the end, a round comes to an end. -/
theorem Reached.round_isSome {s : Scanner} (hs : Reached source s) :
    ∃ item t, s.round source = some (item, t) := by
  obtain ⟨earlier, run, rest, hstands, -⟩ := hs.exists_stands
  cases rest with
  | nil => exact ⟨_, _, round_end hstands⟩
  | cons c rest => exact ⟨_, _, round_eq hstands⟩

/-- On the way the start and the position are boundaries, in order and within the source. -/
theorem Reached.placed {s : Scanner} (hs : Reached source s) : Placed source s := by
  obtain ⟨earlier, run, rest, hstands, hstart⟩ := hs.exists_stands
  have hlength := hstands.length
  have htext : source.toList = earlier ++ (run ++ rest) :=
    hstands.text.trans (List.append_assoc earlier run rest)
  refine ⟨?_, by omega, hstart ▸ boundary_size htext, hstands.curr ▸ boundary_size hstands.text⟩
  rw [hstart, hstands.curr, size_append]
  exact Nat.le_add_right _ _

/-- Reading never comes to a byte or to a part that is not there, and it always moves on. In every
state on the way the positions are boundaries in order and within the source, the next round
comes to an end, and while bytes are left one more segment is passed. Every request is answered,
by the items of the source one after the other and from then on by none, and there is at most one
item more than there are bytes. -/
theorem drained (source : String) :
    (∀ s, Reached source s →
      Placed source s ∧
      (s.done = false → ∃ item t, s.round source = some (item, t)) ∧
      (s.curr < (encode source).length → ∃ fault t,
        scanToken source { s with start := s.curr, pending := none } = some (fault, t) ∧
          Passes source s t)) ∧
    (∀ k, ∃ s t, after source k = some s ∧ Reached source s ∧
      s.next source = some ((items source)[k]?, t)) ∧
    (items source).length ≤ (encode source).length + 1 := by
  refine ⟨fun s hs => ⟨hs.placed, fun _ => hs.round_isSome, hs.scanToken⟩, fun k => ?_,
    length_items_le source⟩
  obtain ⟨s, hafter, hs, hahead⟩ := after_eq source k
  obtain ⟨t, hnext, -⟩ := next_eq hs hahead
  rw [List.head?_drop] at hnext
  exact ⟨s, t, hafter, hs, hnext⟩

end Scanner

end Scriptlet
