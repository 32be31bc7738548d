import BasicTokens.Proofs.Scan.Decided
import Mathlib.Tactic.SplitIfs

/-!
# A text read from another position

A scan learns where it stands from the position it is given and does nothing with it but count on.
A text that is read from a position `origin` therefore gives what it gives when it is read from the
start, with every position moved along: those on the first row by the whole of `origin`, the others
only by its row.

Moving is compatible with every single step (`step_shift`), as long as the position is one that a
text can have. What holds of a call and of a listing follows from this by induction on the text.
-/

namespace BasicTokens

/-! ### Positions -/

namespace Position

/-- The position `p` of a text that itself begins at `origin`. -/
def shift (origin p : Position) : Position :=
  if p.row = 1 then ⟨origin.row, origin.column + p.column - 1⟩
  else ⟨origin.row + p.row - 1, p.column⟩

@[simp] theorem shift_start (origin : Position) : origin.shift start = origin := rfl

theorem le_refl (p : Position) : p ≤ p :=
  .inr ⟨rfl, Nat.le_refl _⟩

theorem start_le_after {p : Position} (h : start ≤ p) (c : Char) : start ≤ p.after c := by
  have hlt := lt_after p c
  rw [le_def] at *
  rw [lt_def] at hlt
  omega

theorem start_le_afterAll {p : Position} (h : start ≤ p) (text : List Char) :
    start ≤ p.afterAll text := by
  induction text generalizing p with
  | nil => exact h
  | cons c text ih => exact ih (start_le_after h c)

theorem after_shift (origin : Position) {p : Position} (h : start ≤ p) (c : Char) :
    (origin.shift p).after c = origin.shift (p.after c) := by
  obtain hrow | ⟨hrow, hcolumn⟩ : 1 < p.row ∨ 1 = p.row ∧ 1 ≤ p.column := le_def.1 h
  · have hfirst : p.row ≠ 1 := by omega
    have hnext : p.row ≠ 0 := by omega
    cases hc : isLineBreak c with
    | true =>
      simp [shift, after, hc, hfirst, hnext]
      omega
    | false => simp [shift, after, hc, hfirst]
  · cases hc : isLineBreak c with
    | true => simp [shift, after, hc, ← hrow]
    | false =>
      simp [shift, after, hc, ← hrow]
      omega

end Position

/-! ### What carries positions -/

def Token.shift (origin : Position) (t : Token) : Token :=
  ⟨t.lexeme, origin.shift t.first, origin.shift t.behind⟩

def LexicalError.shift (origin : Position) : LexicalError → LexicalError
  | endOfInput p => endOfInput (origin.shift p)
  | unexpectedCharacter c p => unexpectedCharacter c (origin.shift p)
  | unknownToken text p => unknownToken text (origin.shift p)
  | malformedNumber text p => malformedNumber text (origin.shift p)
  | unterminatedString p => unterminatedString (origin.shift p)
  | readFailed kind message => readFailed kind message

@[simp] theorem LexicalError.isEndOfInput_shift (origin : Position) (e : LexicalError) :
    (e.shift origin).isEndOfInput = e.isEndOfInput := by
  cases e <;> rfl

def shiftResult (origin : Position) : Except LexicalError Token → Except LexicalError Token
  | .ok t => .ok (t.shift origin)
  | .error e => .error (e.shift origin)

def Answer.shift (origin : Position) (a : Answer) : Answer :=
  ⟨shiftResult origin a.result, origin.shift a.here, a.rest⟩

namespace Scan

def shift (origin : Position) : Scan → Scan
  | blank => blank
  | numeral first read pointed => numeral (origin.shift first) read pointed
  | word first read => word (origin.shift first) read
  | signs first read => signs (origin.shift first) read
  | string first decoded => string (origin.shift first) decoded
  | escape first decoded => escape (origin.shift first) decoded

def Step.shift (origin : Position) : Step → Step
  | take next => take (next.shift origin)
  | leave result => leave (shiftResult origin result)
  | complete token => complete (token.shift origin)

def Progress.shift (origin : Position) : Progress → Progress
  | pending scan here => pending (scan.shift origin) (origin.shift here)
  | decided answer => decided (answer.shift origin)

/-! ### Steps and runs -/

variable (origin : Position) {here : Position}

theorem opening_shift (here : Position) (c : Char) :
    opening (origin.shift here) c = (opening here c).shift origin := by
  unfold opening
  split_ifs <;> rfl

theorem endNumeral_shift (first : Position) (text : List Char) (pointed : Bool) (here : Position) :
    endNumeral (origin.shift first) text pointed (origin.shift here)
      = shiftResult origin (endNumeral first text pointed here) := by
  unfold endNumeral
  split <;> rfl

theorem endSigns_shift (first : Position) (text : List Char) (here : Position) :
    endSigns (origin.shift first) text (origin.shift here)
      = shiftResult origin (endSigns first text here) := by
  unfold endSigns
  split <;> rfl

theorem finish_shift (scan : Scan) (here : Position) :
    (scan.shift origin).finish (origin.shift here) = shiftResult origin (scan.finish here) := by
  cases scan with
  | blank => rfl
  | numeral first read pointed => exact endNumeral_shift origin first read.reverse pointed here
  | word first read => rfl
  | signs first read => exact endSigns_shift origin first read.reverse here
  | string first decoded => rfl
  | escape first decoded => rfl

theorem step_shift (h : Position.start ≤ here) (scan : Scan) (c : Char) :
    (scan.shift origin).step (origin.shift here) c = (scan.step here c).shift origin := by
  cases scan with
  | blank =>
    simp only [shift, step, Step.shift, opening_shift]
    split <;> rfl
  | numeral first read pointed =>
    simp only [shift, step, endNumeral_shift]
    split_ifs <;> rfl
  | word first read =>
    simp only [shift, step]
    split_ifs <;> rfl
  | signs first read =>
    simp only [shift, step, endSigns_shift]
    split_ifs <;> rfl
  | string first decoded =>
    simp only [shift, step, Position.after_shift origin h]
    split_ifs <;> rfl
  | escape first decoded =>
    simp only [shift, step]
    split <;> rfl

theorem run_shift (h : Position.start ≤ here) (scan : Scan) (text : List Char) :
    (scan.shift origin).run (origin.shift here) text = (scan.run here text).shift origin := by
  induction text generalizing scan here with
  | nil => rfl
  | cons c text ih =>
    have hstep := step_shift origin h scan c
    cases hs : scan.step here c with
    | take next =>
      rw [hs] at hstep
      rw [run_cons_of_take hs, run_cons_of_take hstep, Position.after_shift origin h]
      exact ih (Position.start_le_after h c) next
    | leave result =>
      rw [hs] at hstep
      rw [run_cons_of_leave hs, run_cons_of_leave hstep]
      rfl
    | complete token =>
      rw [hs] at hstep
      rw [run_cons_of_complete hs, run_cons_of_complete hstep, Position.after_shift origin h]
      rfl

end Scan

/-! ### Calls and listings -/

theorem Ending.result_shift (ending : Ending) (origin : Position) (scan : Scan) (here : Position) :
    ending.result (scan.shift origin) (origin.shift here)
      = shiftResult origin (ending.result scan here) := by
  cases ending with
  | quiet => exact scan.finish_shift origin here
  | failure cause => rfl

theorem answer_shift (ending : Ending) (origin : Position) {here : Position}
    (h : Position.start ≤ here) (text : List Char) :
    answer ending (origin.shift here) text = (answer ending here text).shift origin := by
  have hrun := Scan.run_shift origin h .blank text
  cases hs : Scan.blank.run here text with
  | pending scan there =>
    rw [hs] at hrun
    rw [answer_of_pending hs, answer_of_pending hrun, ending.result_shift]
    rfl
  | decided a =>
    rw [hs] at hrun
    rw [answer_of_decided hs, answer_of_decided hrun]

theorem start_le_here (ending : Ending) {here : Position} (h : Position.start ≤ here)
    (text : List Char) : Position.start ≤ (answer ending here text).here := by
  cases hrun : Scan.blank.run here text with
  | pending scan there =>
    rw [answer_of_pending hrun, Scan.here_of_run_pending hrun]
    exact Position.start_le_afterAll h text
  | decided a =>
    obtain ⟨taken, -, hhere⟩ := Scan.exists_taken_of_run_decided hrun
    rw [answer_of_decided hrun, hhere]
    exact Position.start_le_afterAll h taken

theorem Lists.shift {ending : Ending} {here last : Position} {text unread : List Char}
    {items : List (Except LexicalError Token)} (origin : Position) (h : Position.start ≤ here)
    (hlist : Lists ending here text items last unread) :
    Lists ending (origin.shift here) text (items.map (shiftResult origin)) (origin.shift last)
      unread := by
  induction hlist with
  | stop ha he =>
    refine .stop ?_ ((LexicalError.isEndOfInput_shift origin _).trans he)
    rw [answer_shift ending origin h, ha]
    rfl
  | fail ha he =>
    refine .fail ?_ ((LexicalError.isEndOfInput_shift origin _).trans he)
    rw [answer_shift ending origin h, ha]
    rfl
  | @token here text t there rest items last unread ha _ ih =>
    have hthere : Position.start ≤ there := by
      have hhere := start_le_here ending h text
      rwa [ha] at hhere
    refine .token ?_ (ih hthere)
    rw [answer_shift ending origin h, ha]
    rfl

end BasicTokens
