import BasicTokens.Proofs.Session.Account
import BasicTokens.Proofs.Session.FileMode

/-!
# The log of a session on a file

What a session on a file shows and what it tells come from one reading of the file. A line for a
token goes with a notice of that token and the line for an error with a notice of that error, in the
same order; the notices of fillings add up to what has been read; and the notice that the source was
closed comes last, with the position that was reached (`Tells`). All of this is read off the account
of the file, in which the log filter does not occur, so the filter only decides which of the notices
are written (`run_tells_what_it_shows`).

Notices are looked up by their headlines, as a reader of the log would do it. No two kinds of events
share one.
-/

namespace BasicTokens

/-! ### Filters -/

namespace LogFilter

variable {filter : LogFilter}

/-- The filter lets every notice through. -/
def LetsAllThrough (filter : LogFilter) : Prop :=
  ∀ n, filter.admits n = true

theorem write_of_letsAllThrough (h : filter.LetsAllThrough) (notices : List Notice) :
    filter.write notices = String.join (notices.map Notice.line) := by
  rw [write, List.filter_eq_self.2 fun n _ => h n]

theorem letsAllThrough_atLeast_trace : (atLeast .trace).LetsAllThrough := by
  intro n
  have hgoverning : (atLeast .trace).governing? n = some ⟨[], .all, Level.trace.verbosity⟩ := rfl
  have hlevel : n.level.verbosity ≤ Level.trace.verbosity := by
    cases n.level <;> decide
  rw [admits, hgoverning]
  exact decide_eq_true hlevel

end LogFilter

/-! ### Notices by headline -/

namespace Notice

variable {headline : String} {notices : List Notice}

/-- The details of the notices with a headline, in order. -/
def detailsOf (headline : String) (notices : List Notice) : List (List (String × String)) :=
  (notices.filter (·.headline = headline)).map details

@[simp] theorem detailsOf_nil (headline : String) : detailsOf headline [] = [] := rfl

@[simp] theorem detailsOf_cons (headline : String) (n : Notice) (notices : List Notice) :
    detailsOf headline (n :: notices)
      = if n.headline = headline then n.details :: detailsOf headline notices
        else detailsOf headline notices := by
  by_cases h : n.headline = headline <;> simp [detailsOf, h]

@[simp] theorem detailsOf_append (headline : String) (notices more : List Notice) :
    detailsOf headline (notices ++ more)
      = detailsOf headline notices ++ detailsOf headline more := by
  rw [detailsOf, List.filter_append, List.map_append]
  rfl

@[simp] theorem detailsOf_tokens (headline : String) (tokens : List Token) :
    detailsOf headline (tokens.map (event ∘ Event.token))
      = if "token" = headline then tokens.map fun t => [("token", t.text)] else [] := by
  induction tokens with
  | nil => simp
  | cons t tokens ih =>
    rw [List.map_cons, detailsOf_cons, ih]
    show (if "token" = headline then _ else _) = _
    split <;> rfl

theorem detailsOf_fillings (events : List Event) :
    detailsOf "refilled character buffer" (events.map .event)
      = (fillingsOf events).map fun bytes => [("bytes", toString bytes)] := by
  induction events with
  | nil => rfl
  | cons e events ih =>
    rw [List.map_cons, detailsOf_cons, ih]
    cases e <;> rfl

theorem detailsOf_answers (h : headline ≠ "refilled character buffer") (events : List Event) :
    detailsOf headline (events.map .event)
      = detailsOf headline ((answersOf events).map .event) := by
  induction events with
  | nil => rfl
  | cons e events ih =>
    rw [List.map_cons, detailsOf_cons, ih]
    cases e with
    | filled bytes => exact if_neg h.symm
    | _ => exact (detailsOf_cons headline _ _).symm

end Notice

open Notice

/-! ### What is told -/

/-- What the notices on a file with these contents tell, if these tokens and this error are shown of
it and the cursor is left like that. -/
structure Tells (bytes : List UInt8) (tokens : List Token) (error? : Option LexicalError)
    (left : Cursor (Feed OpenFile)) (notices : List Notice) : Prop where
  tokens : detailsOf "token" notices = tokens.map fun t => [("token", t.text)]
  error : detailsOf "lexical error" notices = error?.toList.map fun e => [("err", e.message)]
  ended : (detailsOf "end of input" notices).length ≤ if error?.isSome then 0 else 1
  /-- What the fillings have exposed is gone from the file, and without an error that is all. -/
  fillings : ∃ sizes, detailsOf "refilled character buffer" notices
        = sizes.map (fun bytes => [("bytes", toString bytes)])
      ∧ exposed sizes ≤ bytes.length
      ∧ left.source.reader = .contents (bytes.drop (exposed sizes))
      ∧ (error? = none → exposed sizes = bytes.length)
  /-- The last notice is that of the closing, and the only one of its kind. -/
  closing : ∃ before, notices = before ++ [.event (.closed left.position)]
      ∧ detailsOf "input source closed" before = []

variable {bytes : List UInt8} {tokens : List Token} {error? : Option LexicalError}

theorem tells_of_account {c : Cursor (Feed OpenFile)} {answers : List Event}
    (h : Account bytes answers c) (hanswers : Account.Answers tokens error? answers)
    (hend : error? = none → c.hasMore = false) :
    Tells bytes tokens error? c (c.close.events.map .event) := by
  have hevents := Cursor.events_close h.isOpen
  have hclosed : (Event.closed c.position).filling? = none := rfl
  have hdetails : ∀ headline, headline ≠ "refilled character buffer" →
      detailsOf headline (c.close.events.map .event)
        = detailsOf headline ((answers ++ [Event.closed c.position]).map .event) := by
    intro headline hne
    rw [detailsOf_answers hne, hevents, answersOf_concat hclosed, h.answers]
  refine ⟨?_, ?_, ?_, ⟨fillingsOf c.events, ?_, h.le, h.rest, ?_⟩, ⟨c.events.map .event, ?_, ?_⟩⟩
  · rw [hdetails _ (by decide)]
    cases hanswers <;> simp [headline]
  · rw [hdetails _ (by decide)]
    cases hanswers <;> simp [headline, details]
  · rw [hdetails _ (by decide)]
    cases hanswers <;> simp [headline]
  · rw [detailsOf_fillings, hevents, fillingsOf_concat hclosed]
  · exact fun hnone => h.exposed_eq_length (hend hnone)
  · rw [hevents, List.map_append]
    rfl
  · rw [detailsOf_answers (by decide), h.answers]
    cases hanswers <;> simp [headline]

/-! ### Lines of the log -/

/-- The line of the log for a notice ends where its first line feed is. -/
def Notice.TakesOneLine (n : Notice) : Prop :=
  ∃ text, IsOneLine text ∧ n.line = text ++ "\n"

theorem isOneLine_join {texts : List String} (h : ∀ text ∈ texts, IsOneLine text) :
    IsOneLine (String.join texts) := by
  induction texts with
  | nil => decide
  | cons text texts ih =>
    rw [String.join_cons, isOneLine_append]
    exact ⟨h text List.mem_cons_self, ih fun more hmore => h more (List.mem_cons_of_mem _ hmore)⟩

theorem Notice.isOneLine_name {n : Notice} : ∀ d ∈ n.details, IsOneLine d.1 := by
  have hnames : ∀ name ∈ n.details.map (·.1),
      name ∈ ["path", "err", "bytes", "position", "token"] := by
    unfold details
    split <;> simp
  intro d hd
  have hall : ∀ name ∈ ["path", "err", "bytes", "position", "token"], IsOneLine name := by decide
  exact hall _ (hnames _ (List.mem_map_of_mem hd))

theorem Notice.takesOneLine {n : Notice} (h : ∀ d ∈ n.details, IsOneLine d.2) :
    n.TakesOneLine := by
  refine ⟨_, ?_, rfl⟩
  have hlabel : IsOneLine n.level.label := by
    cases n.level <;> decide
  have htarget : IsOneLine n.target := by
    unfold target
    split <;> decide
  have hheadline : IsOneLine n.headline := by
    unfold headline
    split <;> decide
  simp only [isOneLine_append]
  refine ⟨⟨⟨⟨⟨hlabel, by decide⟩, htarget⟩, by decide⟩, hheadline⟩, ?_⟩
  refine isOneLine_join fun text htext => ?_
  obtain ⟨d, hd, rfl⟩ := List.mem_map.1 htext
  simp only [isOneLine_append]
  exact ⟨⟨⟨by decide, isOneLine_name d hd⟩, by decide⟩, h d hd⟩

theorem takesOneLine_of_account {c : Cursor (Feed OpenFile)} {answers : List Event}
    (h : Account bytes answers c) (hanswers : Account.Answers tokens error? answers)
    (hlines : ∀ line ∈ Report.linesOf tokens error?, IsOneLine line) :
    ∀ n ∈ c.close.events.map Notice.event, n.TakesOneLine := by
  intro n hn
  obtain ⟨e, he, rfl⟩ := List.mem_map.1 hn
  have hmem : e.filling? = none → e ∈ answers ++ [.closed c.position] := by
    intro hfilling
    rw [← h.answers, ← answersOf_concat rfl, ← Cursor.events_close h.isOpen]
    exact List.mem_filter.2 ⟨he, by rw [hfilling]; rfl⟩
  refine Notice.takesOneLine fun d hd => ?_
  cases e with
  | filled count =>
    cases List.mem_singleton.1 hd
    exact isOneLine_toString count
  | closed position =>
    cases List.mem_singleton.1 hd
    exact isOneLine_position position
  | endOfInput position =>
    cases List.mem_singleton.1 hd
    exact isOneLine_position position
  | token t =>
    cases List.mem_singleton.1 hd
    have ht : t ∈ tokens := by
      have := hmem rfl
      cases hanswers <;> simpa using this
    have hline := hlines ("Parsed token: " ++ t.text)
      (List.mem_append_left _ (List.mem_map_of_mem ht))
    exact (isOneLine_append.1 hline).2
  | lexicalError error =>
    cases List.mem_singleton.1 hd
    have herror : error? = some error := by
      have := hmem rfl
      cases hanswers <;> simp_all
    have hline := hlines ("error: " ++ error.message)
      (List.mem_append_right _ (by simp [herror]))
    exact (isOneLine_append.1 hline).2

/-! ### The session -/

/-- **The log tells what is shown and changes nothing.** Of a file with these contents the same is
shown, and the session ends with the same code, whatever the arguments and the environment say about
the log. The filter picks from the notices, and those tell the same as what is shown. -/
theorem run_tells_what_it_shows (bytes : List UInt8) :
    let left := (Cursor.ofSource (Feed.mk (OpenFile.ofEntry (.file bytes)) false false)).tokens.2
    ∃ tokens error? notices,
      (Cursor.ofSource bytes).tokens.1 = itemsOf tokens error?
      ∧ (∀ line ∈ Report.linesOf tokens error?, IsOneLine line)
      ∧ Tells bytes tokens error? left notices
      ∧ (∀ n ∈ notices, n.TakesOneLine)
      ∧ ∀ arguments s path around, Command.parse arguments = .ok (.start s) → s.file = some path →
          around.folder.lookUp path = .ok (.file bytes) →
          let filter := LogFilter.choose around.logRequest s.log
          let told := .fileOpened path :: notices
          Command.run arguments around
              = ⟨if error?.isSome then 1 else 0, unlines (Report.linesOf tokens error?),
                filter.write told⟩
            ∧ (filter.LetsAllThrough → filter.write told = String.join (told.map Notice.line)) := by
  obtain ⟨last, unread, hlist⟩ := Cursor.exists_lists_tokens bytes
  obtain ⟨tokens, error?, hitems⟩ := exists_itemsOf hlist
  have hlines : ∀ line ∈ Report.linesOf tokens error?, IsOneLine line := by
    rw [← Report.map_line_itemsOf, ← hitems]
    simpa using isOneLine_line hlist
  -- the file has the listing of its contents, so its account answers for these items
  let c := Cursor.ofSource (Feed.mk (OpenFile.contents bytes) false false)
  have hfile : c.tokens.1 = itemsOf tokens error? := (Cursor.tokens_of_contents bytes).trans hitems
  have hcollects : (Listing.mk c false).Collects (itemsOf tokens error?)
      (Listing.mk c false).collect.2 := by
    rw [← hfile]
    exact collects_collect _
  obtain ⟨answers, hanswers, haccount, hend⟩ :=
    (Account.ofSource bytes).exists_of_collects hcollects
  refine ⟨tokens, error?, (Report.ofCursor c).notices, hitems, hlines,
    tells_of_account haccount hanswers hend, takesOneLine_of_account haccount hanswers hlines, ?_⟩
  intro arguments s path around hparse hpath hbytes filter told
  have hsession : Command.session s around = FileMode.conclude path (Report.ofCursor c) := by
    rw [Command.session, hpath]
    simp only [hbytes]
    rfl
  have hlexical : ∀ e, error? = some e → ∃ p, e.position? = some p := by
    intro e he
    refine (exists_position_of_error hlist ?_).2
    rw [hitems]
    exact mem_itemsOf_error.2 he
  obtain ⟨hstdout, hcomplaint, hcode⟩ := FileMode.conclude_of_itemsOf hfile hlexical path
  refine ⟨?_, fun hall => LogFilter.write_of_letsAllThrough hall told⟩
  rw [Command.run_of_parse around hparse, hsession, Command.Result.ofOutcome, Outcome.stderr,
    FileMode.notices_conclude, hstdout, hcomplaint, hcode, String.append_empty]

/-- A file with a token and an error, read with the whole log and without any. -/
theorem run_tells_what_it_shows_of_small_file :
    let around : Command.Surroundings := ⟨{ files := [(["a.bas"], [0x31, 0x20, 0x40])] }, [], none⟩
    let shown := "Parsed token: 1 @ 1:1-1:2\nerror: unknown token `@` at 1:3\n"
    ∃ notices,
      Command.run ["a.bas", "--log", "trace"] around
        = ⟨1, shown, String.join ((.fileOpened "a.bas" :: notices).map Notice.line)⟩
      ∧ (Command.run ["a.bas", "--log=off"] around).stdout = shown
      ∧ detailsOf "token" notices = [[("token", "1 @ 1:1-1:2")]]
      ∧ detailsOf "lexical error" notices = [[("err", "unknown token `@` at 1:3")]]
      ∧ detailsOf "end of input" notices = [] := by
  intro around shown
  obtain ⟨tokens, error?, notices, hitems, -, htells, -, hrun⟩ :=
    run_tells_what_it_shows [0x31, 0x20, 0x40]
  have herror : error? = some (.unknownToken "@" ⟨1, 3⟩) := by
    rw [← Report.errorOf?_itemsOf tokens error?, ← hitems]
    decide +kernel
  subst herror
  have hlisted : (Cursor.ofSource ([0x31, 0x20, 0x40] : List UInt8)).tokens.1
      = itemsOf [⟨.integer 1, ⟨1, 1⟩, ⟨1, 2⟩⟩] (some (.unknownToken "@" ⟨1, 3⟩)) := by
    decide +kernel
  have htokens : tokens = [⟨.integer 1, ⟨1, 1⟩, ⟨1, 2⟩⟩] :=
    List.map_injective_iff.2 (fun _ _ => Except.ok.inj)
      (List.append_cancel_right (hitems.symm.trans hlisted))
  subst htokens
  have hshown : unlines (Report.linesOf [⟨.integer 1, ⟨1, 1⟩, ⟨1, 2⟩⟩]
      (some (.unknownToken "@" ⟨1, 3⟩))) = shown := by
    decide +kernel
  have hloud := hrun ["a.bas", "--log", "trace"] { file := some "a.bas", log := some "trace" }
    "a.bas" around (by decide +kernel) rfl (by decide +kernel)
  have hquiet := hrun ["a.bas", "--log=off"] { file := some "a.bas", log := some "off" }
    "a.bas" around (by decide +kernel) rfl (by decide +kernel)
  have hall : LogFilter.choose none (some "trace") = .atLeast .trace := by decide +kernel
  refine ⟨notices, ?_, ?_, htells.tokens.trans ?_, htells.error.trans ?_, ?_⟩
  · rw [hloud.1, hloud.2 (hall ▸ LogFilter.letsAllThrough_atLeast_trace), hshown]
    rfl
  · rw [hquiet.1, hshown]
  · decide +kernel
  · decide +kernel
  · exact List.length_eq_zero_iff.1 (Nat.le_zero.1 htells.ended)

end BasicTokens
