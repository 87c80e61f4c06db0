import Scriptlet.Proofs.Grammar.Counting
import Scriptlet.Proofs.Grammar.Planned
import Scriptlet.Proofs.Grammar.SoundStmt

/-!
# Reading looks one token ahead

What a reader does depends on the tokens that it passes and on the one behind them
only. So before other tokens that begin with those passed and go on with the same
token, it comes to the same: the same value or a violation of the same kind, behind
the same tokens. It does not matter either what was noted before and which token
ends the source. This holds of everything that follows a plan.
-/

namespace Scriptlet.Grammar

variable {α β : Type}

/-- From one cursor to another these tokens were passed and violations of these kinds
noted; wherever these tokens stand before the same next token, reading comes to the
same again. -/
structure Cursor.Repeats (c after : Cursor) (used : List Token) (faults : List SyntaxFault)
    (again : Cursor → Cursor → Prop) : Prop where
  rest : c.rest = used ++ after.rest
  stop : after.stop = c.stop
  noted : ∃ found, after.errors = c.errors ++ found ∧ found.map SyntaxError.fault = faults
  repeats : ∀ left stop errors, left.head? = after.rest.head? →
    ∃ found, found.map SyntaxError.fault = faults ∧
      again ⟨used ++ left, stop, c.nextId, errors⟩ ⟨left, stop, after.nextId, errors ++ found⟩

/-- What a reader comes to before other tokens, when it came to this result. -/
def Again (reader : Reader α) :
    EStateM.Result Halt Cursor α → Cursor → Cursor → Prop
  | .ok v _, c, after => reader c = .ok v after
  | .error (.failed e) _, c, after =>
    ∃ place, reader c = .error (.failed ⟨place, e.fault⟩) after
  | .error .exhausted _, c, after => reader c = .error .exhausted after

/-- A reader comes to the same wherever the same tokens and the same next token stand. -/
def Looks (reader : Reader α) : Prop :=
  ∀ c : Cursor, ∃ used faults, c.Repeats (cursorOf (reader c)) used faults (Again reader (reader c))

/-- Where nothing is passed and nothing noted. -/
theorem Cursor.Repeats.still {c after : Cursor} {again : Cursor → Cursor → Prop}
    (hrest : after.rest = c.rest) (hstop : after.stop = c.stop) (herrors : after.errors = c.errors)
    (h : ∀ left stop errors, left.head? = c.rest.head? →
      again ⟨left, stop, c.nextId, errors⟩ ⟨left, stop, after.nextId, errors⟩) :
    c.Repeats after [] [] again where
  rest := hrest.symm
  stop := hstop
  noted := ⟨[], by rw [herrors, List.append_nil], rfl⟩
  repeats left stop errors hhead := by
    refine ⟨[], rfl, ?_⟩
    rw [List.append_nil]
    exact h left stop errors (hrest ▸ hhead)

/-- Reading on repeats as well. -/
theorem Cursor.Repeats.trans {c middle after : Cursor} {used more : List Token}
    {faults later : List SyntaxFault} {again again' both : Cursor → Cursor → Prop}
    (h : c.Repeats middle used faults again) (h' : middle.Repeats after more later again')
    (hboth : ∀ c middle after, again c middle → again' middle after → both c after) :
    c.Repeats after (used ++ more) (faults ++ later) both where
  rest := by rw [h.rest, h'.rest, List.append_assoc]
  stop := h'.stop.trans h.stop
  noted := by
    obtain ⟨found, hfound, hfaults⟩ := h.noted
    obtain ⟨found', hfound', hlater⟩ := h'.noted
    exact ⟨found ++ found', by rw [hfound', hfound, List.append_assoc],
      by rw [List.map_append, hfaults, hlater]⟩
  repeats left stop errors hhead := by
    have hmiddle : (more ++ left).head? = middle.rest.head? := by
      rw [h'.rest]
      cases more with
      | nil => exact hhead
      | cons t more => rfl
    obtain ⟨found, hfaults, hfirst⟩ := h.repeats (more ++ left) stop errors hmiddle
    obtain ⟨found', hlater, hsecond⟩ := h'.repeats left stop (errors ++ found) hhead
    refine ⟨found ++ found', by rw [List.map_append, hfaults, hlater], ?_⟩
    rw [List.append_assoc, ← List.append_assoc errors]
    exact hboth _ _ _ hfirst hsecond

/-- Noting a violation repeats. -/
theorem Cursor.Repeats.note (c : Cursor) (place : Cursor → Token) (fault : SyntaxFault) :
    c.Repeats (c.note ⟨place c, fault⟩) [] [fault]
      fun c' after => after = c'.note ⟨place c', fault⟩ where
  rest := rfl
  stop := rfl
  noted := ⟨_, rfl, rfl⟩
  repeats left stop errors _ := ⟨[⟨place ⟨left, stop, c.nextId, errors⟩, fault⟩], rfl, rfl⟩

/-- What comes again may be said otherwise. -/
theorem Cursor.Repeats.imp {c after : Cursor} {used : List Token} {faults : List SyntaxFault}
    {again weaker : Cursor → Cursor → Prop} (h : c.Repeats after used faults again)
    (himp : ∀ c after, again c after → weaker c after) : c.Repeats after used faults weaker where
  rest := h.rest
  stop := h.stop
  noted := h.noted
  repeats left stop errors hhead := by
    obtain ⟨found, hfaults, hagain⟩ := h.repeats left stop errors hhead
    exact ⟨found, hfaults, himp _ _ hagain⟩

/-- Skipping leaves fewer tokens than there were. -/
theorem length_skipAfter_le (t : Token) (ts : List Token) :
    (skipAfter t ts).length ≤ ts.length := by
  obtain ⟨skipped, hskipped, hone⟩ := boundary_suffix (t :: ts)
  have hlength := congrArg List.length hskipped
  have hone := hone (List.cons_ne_nil t ts)
  rw [List.length_append, List.length_cons] at hlength
  change (boundary (t :: ts)).length ≤ ts.length
  omega

/-- Where skipping stops depends on the tokens skipped and the next one only. -/
theorem skipAfter_again {previous : Token} {skipped rest left : List Token}
    (h : skipAfter previous (skipped ++ rest) = rest) (hhead : left.head? = rest.head?) :
    skipAfter previous (skipped ++ left) = left := by
  induction skipped generalizing previous with
  | nil =>
    cases rest with
    | nil =>
      rw [List.head?_eq_none_iff.mp hhead]
      rfl
    | cons t rest =>
      obtain ⟨others, rfl⟩ := List.head?_eq_some_iff.mp hhead
      rw [List.nil_append, skipAfter] at h ⊢
      split at h
      · rename_i hstops
        rw [if_pos hstops]
      · have hle := length_skipAfter_le t rest
        rw [h, List.length_cons] at hle
        omega
  | cons t skipped ih =>
    rw [List.cons_append, skipAfter] at h ⊢
    split at h
    · have hlength := congrArg List.length h
      rw [List.length_cons, List.length_append] at hlength
      omega
    · rename_i hgoes
      rw [if_neg hgoes]
      exact ih h

/-- Where recovery goes on depends on the tokens skipped and the next one only. -/
theorem boundary_again {skipped rest left : List Token} (h : boundary (skipped ++ rest) = rest)
    (hhead : left.head? = rest.head?) : boundary (skipped ++ left) = left := by
  cases skipped with
  | nil =>
    cases rest with
    | nil =>
      rw [List.head?_eq_none_iff.mp hhead]
      rfl
    | cons t rest =>
      have hle := length_skipAfter_le t rest
      have hlength := congrArg List.length h
      change (skipAfter t rest).length = rest.length + 1 at hlength
      omega
  | cons t skipped => exact skipAfter_again h hhead

/-- Reading the next token looks at that token and no further. -/
theorem acceptMap_looks (f : Token → Option α) : Looks (acceptMap? f) := by
  have hskip : ∀ rest stop n errors, (∀ t ∈ rest.head?, f t = none) →
      acceptMap? f ⟨rest, stop, n, errors⟩ = .ok none ⟨rest, stop, n, errors⟩ := by
    intro rest stop n errors hnone
    cases rest with
    | nil => rfl
    | cons t rest =>
      unfold acceptMap?
      simp only [hnone t rfl]
  have hread : ∀ t rest stop n errors v, f t = some v →
      acceptMap? f ⟨t :: rest, stop, n, errors⟩ = .ok (some v) ⟨rest, stop, n, errors⟩ := by
    intro t rest stop n errors v hv
    unfold acceptMap?
    simp only [hv]
  rintro ⟨rest, stop, n, errors⟩
  by_cases hnone : ∀ t ∈ rest.head?, f t = none
  · rw [hskip rest stop n errors hnone]
    refine ⟨[], [], .still rfl rfl rfl fun left stop errors hhead => ?_⟩
    exact hskip left stop n errors (hhead ▸ hnone)
  · cases rest with
    | nil => exact absurd (fun t ht => by cases ht) hnone
    | cons t rest =>
      obtain ⟨v, hv⟩ : ∃ v, f t = some v := by
        refine Option.ne_none_iff_exists'.mp fun hf => hnone ?_
        rintro _ ⟨⟩
        exact hf
      rw [hread t rest stop n errors v hv]
      refine ⟨[t], [], rfl, rfl, ⟨[], (List.append_nil _).symm, rfl⟩, ?_⟩
      intro left stop errors _
      refine ⟨[], rfl, ?_⟩
      rw [List.append_nil]
      exact hread t left stop n errors v hv

/-- A statement that cannot be read is noted and skipped. -/
theorem recovering_of_failed {reader : Reader Stmt} {c after : Cursor} {e : SyntaxError}
    (h : reader c = .error (.failed e) after) :
    recovering reader c = .ok none (after.note e).recover := by
  unfold recovering
  rw [h]

/-- A statement that can be read is passed on. -/
theorem recovering_of_ok {reader : Reader Stmt} {c after : Cursor} {s : Stmt}
    (h : reader c = .ok s after) : recovering reader c = .ok (some s) after := by
  unfold recovering
  rw [h]

/-- Where the fuel does not suffice, nothing is skipped. -/
theorem recovering_of_exhausted {reader : Reader Stmt} {c after : Cursor}
    (h : reader c = .error .exhausted after) : recovering reader c = .error .exhausted after := by
  unfold recovering
  rw [h]

/-- Skipping what cannot be read looks no further than the token behind it. -/
theorem recovering_looks {reader : Reader Stmt} (h : Looks reader) : Looks (recovering reader) := by
  intro c
  obtain ⟨used, faults, hreader⟩ := h c
  revert hreader
  rcases hresult : reader c with ⟨s, after⟩ | ⟨halt, after⟩
  · intro hreader
    rw [recovering_of_ok hresult]
    exact ⟨used, faults, hreader.imp fun c' after' hs => recovering_of_ok hs⟩
  cases halt with
  | exhausted =>
    intro hreader
    rw [recovering_of_exhausted hresult]
    exact ⟨used, faults, hreader.imp fun c' after' hdry => recovering_of_exhausted hdry⟩
  | failed e =>
    intro hreader
    rw [recovering_of_failed hresult]
    obtain ⟨skipped, hskipped, -⟩ := boundary_suffix after.rest
    obtain ⟨found, hfound, hfaults⟩ := hreader.noted
    refine ⟨used ++ skipped, faults ++ [e.fault], ?_, hreader.stop, ?_, ?_⟩
    · change c.rest = used ++ skipped ++ boundary after.rest
      rw [List.append_assoc, ← hskipped]
      exact hreader.rest
    · have herrors : after.errors = c.errors ++ found := hfound
      refine ⟨found ++ [e], ?_, by rw [List.map_append, hfaults]; rfl⟩
      change after.errors ++ [e] = c.errors ++ (found ++ [e])
      rw [herrors, List.append_assoc]
    · intro left stop errors hhead
      have hlands : boundary (skipped ++ boundary after.rest) = boundary after.rest := by
        rw [← hskipped]
      have hboundary : boundary (skipped ++ left) = left := boundary_again hlands hhead
      have hmiddle : (skipped ++ left).head? = after.rest.head? := by
        rw [hskipped]
        cases skipped with
        | nil => exact hhead
        | cons t skipped => rfl
      obtain ⟨found', hfaults', place, hagain⟩ :=
        hreader.repeats (skipped ++ left) stop errors hmiddle
      refine ⟨found' ++ [⟨place, e.fault⟩], by rw [List.map_append, hfaults']; rfl, ?_⟩
      rw [List.append_assoc]
      refine (recovering_of_failed hagain).trans ?_
      unfold Cursor.recover Cursor.note
      rw [List.append_assoc]
      dsimp only
      rw [hboundary]
      rfl

/-- What follows a plan looks one token ahead. -/
theorem Plan.looks (plan : Plan α) : Looks plan.read := by
  induction plan with
  | pure value => exact fun c => ⟨[], [], .still rfl rfl rfl fun _ _ _ _ => rfl⟩
  | bind first next ihfirst ihnext =>
    intro c
    obtain ⟨used, faults, hfirst⟩ := ihfirst c
    change ∃ used faults, c.Repeats
      (cursorOf (EStateM.bind first.read (fun b => (next b).read) c)) used faults
        (Again (first.read >>= fun b => (next b).read)
          (EStateM.bind first.read (fun b => (next b).read) c))
    unfold EStateM.bind
    revert hfirst
    cases first.read c with
    | ok b middle =>
      intro hfirst
      obtain ⟨more, later, hnext⟩ := ihnext b middle
      refine ⟨used ++ more, faults ++ later, hfirst.trans hnext ?_⟩
      intro c' middle' after' hb hagain
      have hb : first.read c' = .ok b middle' := hb
      revert hagain
      dsimp only
      cases (next b).read middle with
      | ok v after =>
        intro hv
        exact (bind_of_ok hb).trans hv
      | error halt after =>
        cases halt with
        | exhausted =>
          intro hdry
          exact (bind_of_ok hb).trans hdry
        | failed e =>
          rintro ⟨place, he⟩
          exact ⟨place, (bind_of_ok hb).trans he⟩
    | error halt after =>
      intro hfirst
      refine ⟨used, faults, hfirst.imp fun c' after' hagain => ?_⟩
      cases halt with
      | exhausted => exact bind_of_error hagain
      | failed e =>
        obtain ⟨place, hagain⟩ := hagain
        exact ⟨place, bind_of_error hagain⟩
  | exhausted => exact fun c => ⟨[], [], .still rfl rfl rfl fun _ _ _ _ => rfl⟩
  | missing what => exact fun c => ⟨[], [], .still rfl rfl rfl fun _ _ _ _ => ⟨_, rfl⟩⟩
  | noteHere fault =>
    refine fun c => ⟨[], [fault], (Cursor.Repeats.note c Cursor.here fault).imp ?_⟩
    rintro c' _ rfl
    rfl
  | noteAt place fault =>
    refine fun c => ⟨[], [fault], (Cursor.Repeats.note c (fun _ => place) fault).imp ?_⟩
    rintro c' _ rfl
    rfl
  | acceptMap f => exact acceptMap_looks f
  | nextIs kind =>
    intro c
    change ∃ used faults, c.Repeats (cursorOf (Grammar.nextIs kind c)) used faults
      (Again (Grammar.nextIs kind) (Grammar.nextIs kind c))
    rw [nextIs_eq]
    refine ⟨[], [], .still rfl rfl rfl fun left stop errors hhead => ?_⟩
    have hagain := nextIs_eq kind ⟨left, stop, c.nextId, errors⟩
    rwa [hhead] at hagain
  | atEnd =>
    refine fun c => ⟨[], [], .still rfl rfl rfl fun left stop errors hhead => ?_⟩
    have hempty : left.isEmpty = c.rest.isEmpty := by
      rw [Bool.eq_iff_iff, List.isEmpty_iff, List.isEmpty_iff, ← List.head?_eq_none_iff, hhead,
        List.head?_eq_none_iff]
    change Grammar.atEnd _ = .ok c.rest.isEmpty _
    rw [atEnd_eq, hempty]
    rfl
  | node make => exact fun c => ⟨[], [], .still rfl rfl rfl fun _ _ _ _ => rfl⟩
  | recovering inner ih => exact recovering_looks ih

variable {reader : Reader α} {c after : Cursor} {used left : List Token}

/-- Before `ts` followed by `rest`, the reader passes `ts` and gives `v`, whatever it notes. -/
def Gives (reader : Reader α) (n : Nat) (ts rest : List Token) (v : α) (m : Nat) : Prop :=
  ∀ stop errors, ∃ found,
    reader ⟨ts ++ rest, stop, n, errors⟩ = .ok v ⟨rest, stop, m, errors ++ found⟩

/-- What follows a plan notes violations behind those noted before. -/
theorem Planned.grows (h : Planned reader) (c : Cursor) :
    c.errors <+: (cursorOf (reader c)).errors := by
  obtain ⟨plan, rfl⟩ := h
  obtain ⟨used, faults, hrepeats⟩ := plan.looks c
  obtain ⟨found, hfound, -⟩ := hrepeats.noted
  exact ⟨found, hfound.symm⟩

/-- What follows a plan keeps the token that ends the source. -/
theorem Planned.keeps_stop (h : Planned reader) (c : Cursor) :
    (cursorOf (reader c)).stop = c.stop := by
  obtain ⟨plan, rfl⟩ := h
  obtain ⟨used, faults, hrepeats⟩ := plan.looks c
  exact hrepeats.stop

/-- What follows a plan passes a first part of the unread tokens, on the way to a value. -/
theorem Planned.passes_ok (h : Planned reader) {v : α} (hv : reader c = .ok v after) :
    ∃ used, c.rest = used ++ after.rest := by
  obtain ⟨plan, rfl⟩ := h
  obtain ⟨used, faults, hrepeats⟩ := plan.looks c
  rw [hv] at hrepeats
  exact ⟨used, hrepeats.rest⟩

/-- What follows a plan passes a first part of the unread tokens, where it halts as well. -/
theorem Planned.passes_error (h : Planned reader) {halt : Halt}
    (hhalt : reader c = .error halt after) : ∃ used, c.rest = used ++ after.rest := by
  obtain ⟨plan, rfl⟩ := h
  obtain ⟨used, faults, hrepeats⟩ := plan.looks c
  rw [hhalt] at hrepeats
  exact ⟨used, hrepeats.rest⟩

/-- A value is given again where the same tokens and the same next token stand. -/
theorem Planned.gives (h : Planned reader) {v : α} (hv : reader c = .ok v after)
    (hused : c.rest = used ++ after.rest) (hhead : left.head? = after.rest.head?) :
    Gives reader c.nextId used left v after.nextId := by
  obtain ⟨plan, rfl⟩ := h
  intro stop errors
  obtain ⟨used', faults, hrepeats⟩ := plan.looks c
  rw [hv] at hrepeats
  obtain rfl : used = used' := List.append_cancel_right (hused.symm.trans hrepeats.rest)
  obtain ⟨found, -, hagain⟩ := hrepeats.repeats left stop errors hhead
  exact ⟨found, hagain⟩

/-- A violation shows again where the same tokens and the same next token stand. -/
theorem Planned.fails (h : Planned reader) {e : SyntaxError}
    (he : reader c = .error (.failed e) after) (hused : c.rest = used ++ after.rest)
    (hhead : left.head? = after.rest.head?) (stop : Token) (errors : List SyntaxError) :
    ∃ place after', reader ⟨used ++ left, stop, c.nextId, errors⟩ =
      .error (.failed ⟨place, e.fault⟩) after' := by
  obtain ⟨plan, rfl⟩ := h
  obtain ⟨used', faults, hrepeats⟩ := plan.looks c
  rw [he] at hrepeats
  obtain rfl : used = used' := List.append_cancel_right (hused.symm.trans hrepeats.rest)
  obtain ⟨found, -, place, hagain⟩ := hrepeats.repeats left stop errors hhead
  exact ⟨place, _, hagain⟩

end Scriptlet.Grammar
