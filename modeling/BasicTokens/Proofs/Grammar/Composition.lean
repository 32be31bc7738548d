import BasicTokens.Proofs.Grammar.Tiling
import BasicTokens.Proofs.Scan.Shift

/-!
# Two texts with a blank between them

What stands before a blank is not changed by what follows it. The only exceptions are what the end
of the text alone decides: that nothing is left, and that a string has no end. Everything else that
an end decides, a blank decides in the same way (`answer_append_blank`), and behind blanks a listing
goes on as if it began there (`answer_append_of_endOfInput`).

So the listing of two texts with a blank between them is the listing of the first, and then, if the
first has no error, that of the second moved along (`tokens_append_blank`).
-/

namespace BasicTokens

/-! ### A call -/

/-- The end of the text ends a bare scan, unless it finds nothing or a string without its end. -/
theorem Scan.isBare_of_finish {scan : Scan} {here : Position}
    (hend : ∀ p, scan.finish here ≠ .error (.endOfInput p))
    (hstring : ∀ first, scan.finish here ≠ .error (.unterminatedString first)) : scan.IsBare := by
  cases scan with
  | blank => exact absurd rfl (hend here)
  | numeral first read pointed => trivial
  | word first read => trivial
  | signs first read => trivial
  | string first decoded => exact absurd rfl (hstring first)
  | escape first decoded => exact absurd rfl (hstring first)

/-- A call answers behind a text with a blank what it answers where the text ends. -/
theorem answer_append_blank {here : Position} {text : List Char} {a : Answer} {w : Char}
    (hw : isBlank w = true) (ha : answer .quiet here text = a)
    (hend : ∀ p, a.result ≠ .error (.endOfInput p))
    (hstring : ∀ first, a.result ≠ .error (.unterminatedString first)) (more : List Char) :
    answer .quiet here (text ++ w :: more) = ⟨a.result, a.here, a.rest ++ w :: more⟩ := by
  cases hrun : Scan.blank.run here text with
  | pending scan there =>
    rw [answer_of_pending hrun] at ha
    subst ha
    have hbreak : AtBreak (w :: more) := by
      intro c hc
      cases hc
      exact hw
    exact answer_of_atBreak hrun (Scan.isBare_of_finish hend hstring) hbreak
  | decided b =>
    rw [answer_of_decided hrun] at ha
    subst ha
    exact answer_of_decided (Scan.run_append_of_decided hrun _)

theorem run_of_endOfInput {here there : Position} {text rest : List Char} {e : LexicalError}
    (ha : answer .quiet here text = ⟨.error e, there, rest⟩) (he : e.isEndOfInput = true) :
    Scan.blank.run here text = .pending .blank (here.afterAll text) := by
  cases hrun : Scan.blank.run here text with
  | pending scan last =>
    rw [answer_of_pending hrun, Answer.mk.injEq] at ha
    have hfinish : scan.finish last = .error e := ha.1
    have hbare : ¬ scan.IsBare := by
      intro hbare
      rw [Scan.isEndOfInput_of_finish hbare hfinish] at he
      cases he
    rw [Scan.here_of_run_pending hrun]
    cases scan with
    | blank => rfl
    | numeral first read pointed => exact absurd trivial hbare
    | word first read => exact absurd trivial hbare
    | signs first read => exact absurd trivial hbare
    | string first decoded =>
      cases hfinish
      cases he
    | escape first decoded =>
      cases hfinish
      cases he
  | decided a =>
    rw [answer_of_decided hrun] at ha
    subst ha
    rw [Scan.isEndOfInput_of_run_error hrun] at he
    cases he

theorem answer_append_of_endOfInput {here there : Position} {text rest : List Char}
    {e : LexicalError} {w : Char} (hw : isBlank w = true)
    (ha : answer .quiet here text = ⟨.error e, there, rest⟩) (he : e.isEndOfInput = true)
    (more : List Char) :
    answer .quiet here (text ++ w :: more)
      = answer .quiet (here.afterAll (text ++ [w])) more := by
  have hstep : Scan.blank.step (here.afterAll text) w = .take .blank := by
    simp [Scan.step, hw]
  rw [answer, Scan.run_append_of_pending (run_of_endOfInput ha he), Scan.run_cons_of_take hstep,
    Position.afterAll_append]
  rfl

theorem afterAll_rest (ending : Ending) (here : Position) (text : List Char) :
    (answer ending here text).here.afterAll (answer ending here text).rest
      = here.afterAll text := by
  cases hrun : Scan.blank.run here text with
  | pending scan there =>
    rw [answer_of_pending hrun]
    exact Scan.here_of_run_pending hrun
  | decided a =>
    rw [answer_of_decided hrun]
    exact Scan.afterAll_rest_of_run_decided hrun

/-! ### A listing -/

theorem Lists.append_blank {here last last' : Position} {text more unread unread' : List Char}
    {items others : List (Except LexicalError Token)} {w : Char} (hw : isBlank w = true)
    (h : Lists .quiet here text items last unread) (hok : ∀ item ∈ items, ∃ t, item = .ok t)
    (hmore : Lists .quiet (here.afterAll (text ++ [w])) more others last' unread') :
    Lists .quiet here (text ++ w :: more) (items ++ others) last' unread' := by
  -- on the listing of the first text: where it stops, the second one takes over
  induction h with
  | stop ha he => exact hmore.congr (answer_append_of_endOfInput hw ha he more)
  | fail =>
    obtain ⟨t, ht⟩ := hok _ List.mem_cons_self
    cases ht
  | @token here text t there rest items last unread ha _ ih =>
    have hrest : there.afterAll rest = here.afterAll text := by
      have hsame := afterAll_rest .quiet here text
      rwa [ha] at hsame
    refine .token (answer_append_blank hw ha ?_ ?_ more) (ih ?_ ?_)
    · intro p hp
      cases hp
    · intro first hfirst
      cases hfirst
    · intro item hitem
      exact hok item (List.mem_cons_of_mem _ hitem)
    · rwa [Position.afterAll_append, hrest, ← Position.afterAll_append]

theorem Lists.append_blank_of_error {here last : Position} {text unread : List Char}
    {items : List (Except LexicalError Token)} {w : Char} {e : LexicalError}
    (hw : isBlank w = true) (h : Lists .quiet here text items last unread)
    (herror : .error e ∈ items) (he : ∀ first, e ≠ .unterminatedString first)
    (more : List Char) :
    ∃ unread', Lists .quiet here (text ++ w :: more) items last unread' := by
  induction h with
  | stop => cases herror
  | fail ha hend =>
    obtain rfl : e = _ := Except.error.inj (List.mem_singleton.1 herror)
    refine ⟨_, .fail (answer_append_blank hw ha ?_ ?_ more) hend⟩
    · rintro p hp
      cases hp
      cases hend
    · rintro first hfirst
      cases hfirst
      exact he first rfl
  | @token here text t there rest items last unread ha _ ih =>
    have htail : .error e ∈ items := by simpa using herror
    obtain ⟨unread', hlist⟩ := ih htail
    refine ⟨unread', .token (answer_append_blank hw ha ?_ ?_ more) hlist⟩
    · intro p hp
      cases hp
    · intro first hfirst
      cases hfirst

/-- **What stands before a blank and what stands behind it are listed apart.** If the text before it
has no error, its tokens come first and then the items of the text behind it, moved along to where
the blank has led. If the text before it has an error, other than a string without its end, its
items are all. -/
theorem tokens_append_blank (a b : List UInt8) (w : UInt8)
    (hw : isBlank (Char.ofUInt8 w) = true) :
    ((∀ item ∈ (Cursor.ofSource a).tokens.1, ∃ t, item = .ok t) →
      let origin := (Cursor.ofSource (a ++ [w])).tokens.2.position
      origin = Position.start.afterAll (textOf (a ++ [w])) ∧
      (Cursor.ofSource (a ++ [w] ++ b)).tokens.1
        = (Cursor.ofSource a).tokens.1
          ++ (Cursor.ofSource b).tokens.1.map (shiftResult origin)) ∧
    (∀ e, (Cursor.ofSource a).tokens.1.getLast? = some (.error e) →
      (∀ first, e ≠ .unterminatedString first) →
      (Cursor.ofSource (a ++ [w] ++ b)).tokens.1 = (Cursor.ofSource a).tokens.1) := by
  obtain ⟨last, unread, hfirst⟩ := Cursor.exists_lists_tokens a
  have htext : ∀ bytes,
      textOf (a ++ [w] ++ bytes) = textOf a ++ Char.ofUInt8 w :: textOf bytes := by
    simp
  refine ⟨fun hok => ?_, fun e he hstring => ?_⟩
  · have horigin : (Cursor.ofSource (a ++ [w])).tokens.2.position
        = Position.start.afterAll (textOf (a ++ [w])) := by
      have hend : Lists .quiet (Position.start.afterAll (textOf a ++ [Char.ofUInt8 w])) [] []
          (Position.start.afterAll (textOf a ++ [Char.ofUInt8 w])) [] := .stop rfl rfl
      have hgap := hfirst.append_blank hw hok hend
      rw [← textOf_nil, ← htext, List.append_nil] at hgap
      rw [(Cursor.tokens_of_lists hgap).2.1, textOf_append]
    refine ⟨horigin, ?_⟩
    obtain ⟨last', unread', hsecond⟩ := Cursor.exists_lists_tokens b
    have hmoved := hsecond.shift (Position.start.afterAll (textOf (a ++ [w])))
      (Position.le_refl .start)
    rw [Position.shift_start, textOf_append] at hmoved
    have hboth := hfirst.append_blank hw hok hmoved
    rw [← htext] at hboth
    rw [(Cursor.tokens_of_lists hboth).1, horigin, textOf_append]
  · obtain ⟨unread', hlist⟩ :=
      hfirst.append_blank_of_error hw (List.mem_of_getLast? he) hstring (textOf b)
    rw [← htext] at hlist
    exact (Cursor.tokens_of_lists hlist).1

/-- A digit and a mark on two lines: the string without its end is found on the second. And behind a
sign that is no operator nothing is read. -/
theorem tokens_of_two_lines :
    isBlank (Char.ofUInt8 0x0A) = true ∧
    (Cursor.ofSource ([0x31] ++ [0x0A] ++ [0x22] : List UInt8)).tokens.1
      = [.ok ⟨.integer 1, ⟨1, 1⟩, ⟨1, 2⟩⟩, .error (.unterminatedString ⟨2, 1⟩)] ∧
    (Cursor.ofSource ([0x23] ++ [0x0A] ++ [0x31] : List UInt8)).tokens.1
      = [.error (.unknownToken "#" ⟨1, 1⟩)] := by
  have hw : isBlank (Char.ofUInt8 0x0A) = true := by decide
  have hdigit : (Cursor.ofSource ([0x31] : List UInt8)).tokens.1
      = [.ok ⟨.integer 1, ⟨1, 1⟩, ⟨1, 2⟩⟩] :=
    (Cursor.tokens_of_lists (.token rfl (.stop rfl rfl))).1
  have hmark : (Cursor.ofSource ([0x22] : List UInt8)).tokens.1
      = [.error (.unterminatedString ⟨1, 1⟩)] :=
    (Cursor.tokens_of_lists (.fail rfl rfl)).1
  have hsign : (Cursor.ofSource ([0x23] : List UInt8)).tokens.1
      = [.error (.unknownToken "#" ⟨1, 1⟩)] :=
    (Cursor.tokens_of_lists (.fail rfl rfl)).1
  refine ⟨hw, ?_, ?_⟩
  · obtain ⟨horigin, htokens⟩ := (tokens_append_blank [0x31] [0x22] 0x0A hw).1 (by simp [hdigit])
    rw [htokens, horigin, hdigit, hmark]
    rfl
  · rw [(tokens_append_blank [0x23] [0x31] 0x0A hw).2 _ (by rw [hsign]; rfl) (by simp), hsign]

end BasicTokens
