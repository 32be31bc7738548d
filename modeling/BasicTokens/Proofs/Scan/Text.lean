import BasicTokens.Scan.Step

/-!
# A scan over a text

What a call does is decided by the characters ahead of it and by how they end. The first part is
`Scan.run`: it shows a text to a scan until the scan is over or the text is used up. The second part
is `Ending.settle`: a scan that is still going on at the end of the text is either finished, or cut
off by a failure. No source and no buffer occurs here, and everything that is true of all sources is
proved of these two functions.

The law that carries most proofs is `run_append`: what was decided stays decided, whatever follows.
-/

namespace BasicTokens

/-- The text that bytes stand for. -/
def textOf (bytes : List UInt8) : List Char :=
  bytes.map Char.ofUInt8

@[simp] theorem textOf_nil : textOf [] = [] := rfl

@[simp] theorem textOf_cons (b : UInt8) (bytes : List UInt8) :
    textOf (b :: bytes) = Char.ofUInt8 b :: textOf bytes := rfl

@[simp] theorem textOf_append (bytes others : List UInt8) :
    textOf (bytes ++ others) = textOf bytes ++ textOf others :=
  List.map_append

@[simp] theorem length_textOf (bytes : List UInt8) : (textOf bytes).length = bytes.length :=
  List.length_map _

/-- The answer to a call: its result, the position behind what it took, and the text it left. -/
structure Answer where
  result : Except LexicalError Token
  here : Position
  rest : List Char

/-- How far a text brings a scan. -/
inductive Scan.Progress where
  /-- The text is used up and the scan is not over. -/
  | pending (scan : Scan) (here : Position)
  | decided (answer : Answer)

/-- How a text ends: nothing follows it, or reading on fails. -/
inductive Ending where
  | quiet
  | failure (cause : ReadFailure)

def Ending.result : Ending → Scan → Position → Except LexicalError Token
  | quiet, scan, here => scan.finish here
  | failure cause, _, _ => .error (.ofFailure cause)

def Ending.settle (ending : Ending) : Scan.Progress → Answer
  | .pending scan here => ⟨ending.result scan here, here, []⟩
  | .decided answer => answer

namespace Scan

/-- The scans that a blank ends just as the end of the text does. -/
def IsBare : Scan → Prop
  | .numeral _ _ _ | .word _ _ | .signs _ _ => True
  | _ => False

/-- Shows a text to a scan, one character after the other. -/
def run : Scan → Position → List Char → Progress
  | scan, here, [] => .pending scan here
  | scan, here, c :: rest =>
    match scan.step here c with
    | .take next => next.run (here.after c) rest
    | .leave result => .decided ⟨result, here, c :: rest⟩
    | .complete token => .decided ⟨.ok token, here.after c, rest⟩

@[simp] theorem run_nil (scan : Scan) (here : Position) : scan.run here [] = .pending scan here := rfl

theorem run_cons_of_take {scan next : Scan} {here : Position} {c : Char}
    (h : scan.step here c = .take next) (rest : List Char) :
    scan.run here (c :: rest) = next.run (here.after c) rest := by
  simp only [run, h]

theorem run_cons_of_leave {scan : Scan} {here : Position} {c : Char}
    {result : Except LexicalError Token} (h : scan.step here c = .leave result) (rest : List Char) :
    scan.run here (c :: rest) = .decided ⟨result, here, c :: rest⟩ := by
  simp only [run, h]

theorem run_cons_of_complete {scan : Scan} {here : Position} {c : Char} {token : Token}
    (h : scan.step here c = .complete token) (rest : List Char) :
    scan.run here (c :: rest) = .decided ⟨.ok token, here.after c, rest⟩ := by
  simp only [run, h]

theorem run_append (scan : Scan) (here : Position) (text more : List Char) :
    scan.run here (text ++ more)
      = match scan.run here text with
        | .pending next there => next.run there more
        | .decided answer => .decided ⟨answer.result, answer.here, answer.rest ++ more⟩ := by
  induction text generalizing scan here with
  | nil => rfl
  | cons c text ih =>
    simp only [List.cons_append, run]
    split
    · exact ih _ _
    · rfl
    · rfl

theorem run_append_of_pending {scan next : Scan} {here there : Position} {text : List Char}
    (h : scan.run here text = .pending next there) (more : List Char) :
    scan.run here (text ++ more) = next.run there more := by
  rw [run_append, h]

theorem run_append_of_decided {scan : Scan} {here : Position} {text : List Char} {answer : Answer}
    (h : scan.run here text = .decided answer) (more : List Char) :
    scan.run here (text ++ more)
      = .decided ⟨answer.result, answer.here, answer.rest ++ more⟩ := by
  rw [run_append, h]

theorem here_of_run_pending {scan next : Scan} {here there : Position} {text : List Char}
    (h : scan.run here text = .pending next there) : there = here.afterAll text := by
  induction text generalizing scan here with
  | nil =>
    simp only [run, Progress.pending.injEq] at h
    exact h.2.symm
  | cons c text ih =>
    simp only [run] at h
    split at h
    · exact ih h
    · cases h
    · cases h

theorem exists_taken_of_run_decided {scan : Scan} {here : Position} {text : List Char}
    {answer : Answer} (h : scan.run here text = .decided answer) :
    ∃ taken, text = taken ++ answer.rest ∧ answer.here = here.afterAll taken := by
  induction text generalizing scan here with
  | nil => cases h
  | cons c text ih =>
    simp only [run] at h
    split at h
    · obtain ⟨taken, htext, hhere⟩ := ih h
      refine ⟨c :: taken, ?_, hhere⟩
      rw [htext, List.cons_append]
    · cases h
      exact ⟨[], rfl, rfl⟩
    · cases h
      exact ⟨[c], rfl, rfl⟩

theorem afterAll_rest_of_run_decided {scan : Scan} {here : Position} {text : List Char}
    {answer : Answer} (h : scan.run here text = .decided answer) :
    answer.here.afterAll answer.rest = here.afterAll text := by
  obtain ⟨taken, htext, hhere⟩ := exists_taken_of_run_decided h
  rw [htext, hhere, Position.afterAll_append]

theorem rest_ne_nil_of_run_error {scan : Scan} {here there : Position} {text rest : List Char}
    {e : LexicalError} (h : scan.run here text = .decided ⟨.error e, there, rest⟩) : rest ≠ [] := by
  induction text generalizing scan here with
  | nil => cases h
  | cons c text ih =>
    simp only [run] at h
    split at h
    · exact ih h
    · cases h
      exact List.cons_ne_nil _ _
    · cases h

end Scan

/-- The answer to a call at `here` with `text` ahead. -/
def answer (ending : Ending) (here : Position) (text : List Char) : Answer :=
  ending.settle (Scan.blank.run here text)

theorem answer_of_pending {ending : Ending} {here there : Position} {text : List Char} {scan : Scan}
    (h : Scan.blank.run here text = .pending scan there) :
    answer ending here text = ⟨ending.result scan there, there, []⟩ := by
  rw [answer, h]
  rfl

theorem answer_of_decided {ending : Ending} {here : Position} {text : List Char} {a : Answer}
    (h : Scan.blank.run here text = .decided a) : answer ending here text = a := by
  rw [answer, h]
  rfl

@[simp] theorem answer_nil (ending : Ending) (here : Position) :
    answer ending here [] = ⟨ending.result .blank here, here, []⟩ := rfl

theorem length_rest_le (ending : Ending) (here : Position) (text : List Char) :
    (answer ending here text).rest.length ≤ text.length := by
  cases hrun : Scan.blank.run here text with
  | pending scan there =>
    rw [answer_of_pending hrun]
    exact Nat.zero_le _
  | decided a =>
    rw [answer_of_decided hrun]
    obtain ⟨taken, htext, -⟩ := Scan.exists_taken_of_run_decided hrun
    rw [htext, List.length_append]
    omega

theorem length_rest_lt_of_ok {ending : Ending} {here there : Position} {text rest : List Char}
    {t : Token} (h : answer ending here text = ⟨.ok t, there, rest⟩) :
    rest.length < text.length := by
  cases text with
  | nil =>
    rw [answer_nil] at h
    cases ending <;> cases h
  | cons c text =>
    cases hrun : Scan.blank.run here (c :: text) with
    | pending scan there =>
      rw [answer_of_pending hrun, Answer.mk.injEq] at h
      rw [← h.2.2]
      exact Nat.succ_pos _
    | decided a =>
      rw [answer_of_decided hrun] at h
      subst h
      rw [Scan.run_cons_of_take rfl] at hrun
      obtain ⟨taken, htext, -⟩ := Scan.exists_taken_of_run_decided hrun
      simp only [htext, List.length_cons, List.length_append]
      omega

/-! ### All items of a text -/

/-- The items that a listing gives from `here` on, and where it stops: at the end of the input, or
behind the first error. -/
inductive Lists (ending : Ending) :
    Position → List Char → List (Except LexicalError Token) → Position → List Char → Prop
  | stop {here : Position} {text : List Char} {e : LexicalError} {there : Position}
      {rest : List Char} :
      answer ending here text = ⟨.error e, there, rest⟩ → e.isEndOfInput = true →
      Lists ending here text [] there rest
  | fail {here : Position} {text : List Char} {e : LexicalError} {there : Position}
      {rest : List Char} :
      answer ending here text = ⟨.error e, there, rest⟩ → e.isEndOfInput = false →
      Lists ending here text [.error e] there rest
  | token {here : Position} {text : List Char} {t : Token} {there : Position} {rest : List Char}
      {items : List (Except LexicalError Token)} {last : Position} {unread : List Char} :
      answer ending here text = ⟨.ok t, there, rest⟩ → Lists ending there rest items last unread →
      Lists ending here text (.ok t :: items) last unread

theorem exists_lists (ending : Ending) (here : Position) (text : List Char) :
    ∃ items last unread, Lists ending here text items last unread := by
  obtain ⟨n, hn⟩ : ∃ n, text.length = n := ⟨_, rfl⟩
  induction n using Nat.strongRecOn generalizing here text with
  | ind n ih =>
    rcases h : answer ending here text with ⟨result, there, rest⟩
    cases result with
    | error e =>
      cases he : e.isEndOfInput with
      | true => exact ⟨[], there, rest, .stop h he⟩
      | false => exact ⟨[.error e], there, rest, .fail h he⟩
    | ok t =>
      have hlt := length_rest_lt_of_ok h
      rw [hn] at hlt
      obtain ⟨items, last, unread, hitems⟩ := ih _ hlt there rest rfl
      exact ⟨.ok t :: items, last, unread, .token h hitems⟩

theorem Lists.unique {ending : Ending} {here : Position} {text : List Char}
    {items others : List (Except LexicalError Token)} {last last' : Position}
    {unread unread' : List Char} (h : Lists ending here text items last unread)
    (h' : Lists ending here text others last' unread') :
    items = others ∧ last = last' ∧ unread = unread' := by
  induction h generalizing others with
  | stop ha he =>
    cases h' with
    | stop ha' he' => simp_all
    | fail ha' he' => simp_all
    | token ha' _ => simp_all
  | fail ha he =>
    cases h' with
    | stop ha' he' => simp_all
    | fail ha' he' => simp_all
    | token ha' _ => simp_all
  | token ha _ ih =>
    cases h' with
    | stop ha' he' => simp_all
    | fail ha' he' => simp_all
    | token ha' hrest' =>
      rw [ha] at ha'
      cases ha'
      obtain ⟨hitems, hlast, hunread⟩ := ih hrest'
      exact ⟨by rw [hitems], hlast, hunread⟩

/-- A listing depends on the position and the text only through the first answer. -/
theorem Lists.congr {ending : Ending} {here here' last : Position} {text text' unread : List Char}
    {items : List (Except LexicalError Token)} (h : Lists ending here' text' items last unread)
    (hsame : answer ending here text = answer ending here' text') :
    Lists ending here text items last unread := by
  cases h with
  | stop ha he => exact .stop (hsame.trans ha) he
  | fail ha he => exact .fail (hsame.trans ha) he
  | token ha hrest => exact .token (hsame.trans ha) hrest

theorem Lists.length_le {ending : Ending} {here : Position} {text : List Char}
    {items : List (Except LexicalError Token)} {last : Position} {unread : List Char}
    (h : Lists ending here text items last unread) : items.length ≤ text.length + 1 := by
  induction h with
  | stop => exact Nat.zero_le _
  | fail => exact Nat.succ_le_succ (Nat.zero_le _)
  | token ha _ ih =>
    have hlt := length_rest_lt_of_ok ha
    rw [List.length_cons]
    omega

end BasicTokens
