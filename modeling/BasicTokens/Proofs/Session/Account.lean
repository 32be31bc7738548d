import BasicTokens.Proofs.Cursor.Agreement
import BasicTokens.Proofs.Delivery.Feed
import BasicTokens.Proofs.Session.Report

/-!
# The account of a file

A cursor writes down two kinds of events. A filling says how many bytes a read has exposed; every
other event says what has become of a call, or that the source was closed. The fillings account for
the file: what they have exposed is gone from it, and the rest is still there. The other events are
the results of the calls in order, since a call fills the buffer as often as it likes and then
writes down how it ended, once.

So one invariant carries both (`Account`). Filling and moving on keep it, a call adds its result to
it, and a listing all of its items and at most one report of the end.
-/

namespace BasicTokens

/-! ### What is written down -/

def Event.filling? : Event → Option Nat
  | filled bytes => some bytes
  | _ => none

theorem Event.filling?_ofResult (result : Except LexicalError Token) :
    (ofResult result).filling? = none := by
  rcases result with e | t
  · cases e <;> rfl
  · rfl

theorem Event.ofResult_error {e : LexicalError} (h : e.isEndOfInput = false) :
    ofResult (.error e) = .lexicalError e := by
  cases e with
  | endOfInput p => cases h
  | _ => rfl

def fillingsOf (events : List Event) : List Nat :=
  events.filterMap Event.filling?

/-- The events that are no fillings. -/
def answersOf (events : List Event) : List Event :=
  events.filter (·.filling?.isNone)

def exposed (fillings : List Nat) : Nat :=
  fillings.foldl (· + ·) 0

theorem exposed_concat (fillings : List Nat) (bytes : Nat) :
    exposed (fillings ++ [bytes]) = exposed fillings + bytes := by
  rw [exposed, List.foldl_append]
  rfl

section Events

variable (events : List Event)

theorem fillingsOf_concat_filled (bytes : Nat) :
    fillingsOf (events ++ [.filled bytes]) = fillingsOf events ++ [bytes] :=
  List.filterMap_append

theorem answersOf_concat_filled (bytes : Nat) :
    answersOf (events ++ [.filled bytes]) = answersOf events := by
  rw [answersOf, List.filter_append]
  exact List.append_nil _

variable {events} {e : Event}

theorem fillingsOf_concat (he : e.filling? = none) :
    fillingsOf (events ++ [e]) = fillingsOf events := by
  rw [fillingsOf, List.filterMap_append, List.filterMap_cons_none he]
  exact List.append_nil _

theorem answersOf_concat (he : e.filling? = none) :
    answersOf (events ++ [e]) = answersOf events ++ [e] := by
  rw [answersOf, List.filter_append, List.filter_cons_of_pos (by rw [he]; rfl)]
  rfl

end Events

namespace Cursor

variable {σ : Type} {c : Cursor σ}

theorem events_note (c : Cursor σ) (e : Event) : (c.note e).events = c.events ++ [e] :=
  List.reverse_cons

theorem events_refilled [Source σ] (c : Cursor σ) :
    c.refilled.events = c.events ++ [.filled (Reader.read c.source c.buffer).count] :=
  List.reverse_cons

theorem events_advance (c : Cursor σ) : c.advance.events = c.events := by
  unfold advance
  split <;> rfl

theorem events_close [Source σ] (h : c.closed = false) :
    c.close.events = c.events ++ [.closed c.position] := by
  simp [close, h, events]

end Cursor

/-! ### A file that is being read -/

theorem Feed.passesOn_contents {feed : Feed OpenFile} {rest : List UInt8}
    (hheld : feed.released = false) (hrest : feed.reader = .contents rest) {n : Nat}
    (buffer : Vector UInt8 n) : feed.PassesOn buffer ((OpenFile.contents rest).read buffer) := by
  have hreading : feed.reading buffer = (OpenFile.contents rest).read buffer := by
    rw [Feed.reading, hrest]
    rfl
  rw [← hreading]
  exact Feed.passesOn_reading hheld buffer

/-- A cursor in a file with these contents. Its fillings have exposed as much as is gone from the
file, which does not run dry before all of it is gone; and these are its other events. -/
structure Account (bytes : List UInt8) (answers : List Event) (c : Cursor (Feed OpenFile)) :
    Prop where
  isOpen : c.closed = false
  held : c.source.released = false
  answers : answersOf c.events = answers
  le : exposed (fillingsOf c.events) ≤ bytes.length
  rest : c.source.reader = .contents (bytes.drop (exposed (fillingsOf c.events)))
  drained : c.source.drained = true → exposed (fillingsOf c.events) = bytes.length

namespace Account

variable {bytes : List UInt8} {answers : List Event} {c d : Cursor (Feed OpenFile)}

theorem ofSource (bytes : List UInt8) :
    Account bytes [] (.ofSource (Feed.mk (.contents bytes) false false)) where
  isOpen := rfl
  held := rfl
  answers := rfl
  le := Nat.zero_le _
  rest := rfl
  drained h := by cases h

theorem passesOn (h : Account bytes answers c) :
    c.source.PassesOn c.buffer
      ((OpenFile.contents (bytes.drop (exposed (fillingsOf c.events)))).read c.buffer) :=
  Feed.passesOn_contents h.held h.rest c.buffer

theorem refilled (h : Account bytes answers c) : Account bytes answers c.refilled := by
  have hpasses := h.passesOn
  have houtcome : (Reader.read c.source c.buffer).outcome
      = .ok (min capacity (bytes.drop (exposed (fillingsOf c.events))).length) := hpasses.outcome
  rw [List.length_drop] at houtcome
  have hcount : (Reader.read c.source c.buffer).count
      = min capacity (bytes.length - exposed (fillingsOf c.events)) := by
    rw [Reading.count, houtcome]
    exact Nat.min_eq_left (Nat.min_le_left _ _)
  have hexposed : exposed (fillingsOf c.refilled.events)
      = exposed (fillingsOf c.events) + (Reader.read c.source c.buffer).count := by
    rw [Cursor.events_refilled, fillingsOf_concat_filled, exposed_concat]
  have hle := h.le
  have hfits : exposed (fillingsOf c.refilled.events) ≤ bytes.length := by omega
  refine ⟨h.isOpen, hpasses.released, ?_, hfits, ?_, fun hdry => ?_⟩
  · rw [Cursor.events_refilled, answersOf_concat_filled, h.answers]
  · have hdrop : bytes.drop (exposed (fillingsOf c.events) + capacity)
        = bytes.drop (exposed (fillingsOf c.refilled.events)) := by
      rcases Nat.le_total capacity (bytes.length - exposed (fillingsOf c.events)) with hle | hle
      · rw [hexposed, hcount, Nat.min_eq_left hle]
      · rw [List.drop_eq_nil_of_le (by omega), List.drop_eq_nil_of_le (by omega)]
    rw [← hdrop, ← List.drop_drop]
    exact hpasses.reader
  · rcases hpasses.drained.1 hdry with hdry | ⟨-, hzero⟩
    · have := h.drained hdry
      omega
    · rw [← hpasses.outcome, houtcome, Except.ok.injEq] at hzero
      simp only [capacity] at hzero
      omega

theorem isCarried : Cursor.IsCarried (Account bytes answers) where
  fill {c} h _ := by
    rcases hfill : c.fill with ⟨result, d⟩
    cases Cursor.fills_of_fill hfill with
    | unasked => exact h
    | failed _ _ hread =>
      rw [h.passesOn.outcome] at hread
      cases hread
    | read => exact h.refilled
  advance {c} h _ := by
    have hclosed := Cursor.closed_advance c
    have hsource := Cursor.source_advance c
    have hevents := Cursor.events_advance c
    exact ⟨hclosed ▸ h.isOpen, hsource ▸ h.held, hevents ▸ h.answers, hevents ▸ h.le,
      by rw [hsource, hevents]; exact h.rest, by rw [hsource, hevents]; exact h.drained⟩

theorem note (h : Account bytes answers c) {e : Event} (he : e.filling? = none) :
    Account bytes (answers ++ [e]) (c.note e) := by
  have hfillings : fillingsOf (c.note e).events = fillingsOf c.events := by
    rw [Cursor.events_note, fillingsOf_concat he]
  refine ⟨h.isOpen, h.held, ?_, hfillings ▸ h.le, ?_, ?_⟩
  · rw [Cursor.events_note, answersOf_concat he, h.answers]
  · rw [hfillings]
    exact h.rest
  · rw [hfillings]
    exact h.drained

theorem token? (h : Account bytes answers c) {limit : Nat} {result : Except LexicalError Token}
    (htoken : c.token? limit = some (result, d)) :
    Account bytes (answers ++ [.ofResult result]) d := by
  obtain ⟨k, hk, rfl⟩ := isCarried.exists_note_of_token? h htoken
  exact hk.note (Event.filling?_ofResult result)

theorem exposed_eq_length (h : Account bytes answers c) (hmore : c.hasMore = false) :
    exposed (fillingsOf c.events) = bytes.length := by
  rcases (Cursor.hasMore_eq_false_iff.1 hmore).2 with hclosed | ha
  · rw [h.isOpen] at hclosed
    cases hclosed
  · rw [← Bool.not_eq_true, Feed.available_iff_of_not_released h.held, Bool.not_eq_false] at ha
    exact h.drained ha

/-- The events that a listing of these tokens and this error adds, fillings apart: one for each
item, and at most one report of the end, if there was no error. -/
inductive Answers (tokens : List Token) : Option LexicalError → List Event → Prop
  | error (e : LexicalError) : Answers tokens (some e) (tokens.map .token ++ [.lexicalError e])
  | quiet : Answers tokens none (tokens.map .token)
  | reported (p : Position) : Answers tokens none (tokens.map .token ++ [.endOfInput p])

theorem Answers.cons {tokens : List Token} {error? : Option LexicalError} {more : List Event}
    (t : Token) (h : Answers tokens error? more) :
    Answers (t :: tokens) error? (.token t :: more) := by
  cases h with
  | error e => exact .error e
  | quiet => exact .quiet
  | reported p => exact .reported p

/-- A listing adds its answers, and without an error it goes on to the end of the file. -/
theorem exists_of_collects (h : Account bytes answers c) {tokens : List Token}
    {error? : Option LexicalError} {m : Listing (Feed OpenFile)}
    (hcollects : (Listing.mk c false).Collects (itemsOf tokens error?) m) :
    ∃ more, Answers tokens error? more ∧ Account bytes (answers ++ more) m.cursor
      ∧ (error? = none → m.cursor.hasMore = false) := by
  induction tokens generalizing c answers with
  | nil =>
    rcases Listing.exists_poll?_of_collects hcollects with
      ⟨limit, hitems, hpoll⟩ | ⟨limit, item, rest, k, hitems, hpoll, hrest⟩
    · have hnone : error? = none := by
        cases error? with
        | none => rfl
        | some e => cases hitems
      subst hnone
      have hmore := (Listing.atEnd_of_reportsEnd isCandid_feed (.item rfl hpoll)).hasMore
      cases Listing.polled_of_poll? hpoll with
      | unasked => exact ⟨[], .quiet, by rwa [List.append_nil], fun _ => hmore⟩
      | ended _ htoken => exact ⟨_, .reported _, h.token? htoken, fun _ => hmore⟩
    · cases error? with
      | none => cases hitems
      | some e =>
        cases hitems
        cases Listing.polled_of_poll? hpoll with
        | failed _ htoken hend =>
          obtain ⟨-, rfl⟩ := Listing.collects_of_failed hrest
          have hd := h.token? htoken
          rw [Event.ofResult_error hend] at hd
          exact ⟨_, .error e, hd, fun hnone => by cases hnone⟩
  | cons t tokens ih =>
    rcases Listing.exists_poll?_of_collects hcollects with
      ⟨limit, hitems, -⟩ | ⟨limit, item, rest, k, hitems, hpoll, hrest⟩
    · cases hitems
    · cases hitems
      cases Listing.polled_of_poll? hpoll with
      | token _ htoken =>
        obtain ⟨more, hmore, haccount, hend⟩ := ih (h.token? htoken) hrest
        rw [List.append_assoc] at haccount
        exact ⟨_, hmore.cons t, haccount, hend⟩

end Account

end BasicTokens
