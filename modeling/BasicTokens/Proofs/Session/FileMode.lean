import BasicTokens.Proofs.Delivery.Failure
import BasicTokens.Proofs.Session.Report
import BasicTokens.Session.Command
import Mathlib.Data.List.Basic

/-!
# A session on a file

A session on a file shows the listing of its contents, a line for each token and a last one for a
lexical error, and fails if there is such a line (`run_of_named_file`). Nothing is written besides,
as long as the log filter lets no more through than it does by default: whatever is told of a file
has a level above that. What cannot be opened or read is a complaint.

Whether a read fails at once or behind some bytes makes no difference to how the session ends
(`FileMode.conclude_of_failure`), except that an error among these ends it before
(`FileMode.conclude_of_decided`).
-/

namespace BasicTokens

/-! ### The log -/

namespace LogFilter

variable {filter : LogFilter} {level : Level}

/-- A filter that lets nothing through beyond this level. -/
def IsAtMost (filter : LogFilter) (level : Level) : Prop :=
  ∀ n, filter.admits n = true → n.level.verbosity ≤ level.verbosity

theorem mem_of_governing? {n : Notice} {d : Directive} (h : filter.governing? n = some d) :
    d ∈ filter := by
  -- the best so far is one of the directives that have been looked at
  have hfold : ∀ (rest : List Directive) (best : Option Directive),
      (∀ b ∈ best, b ∈ filter) → (∀ r ∈ rest, r ∈ filter) →
      ∀ b ∈ rest.foldl (fun best d => if d.concerns n && best.all d.outranks then some d else best)
        best, b ∈ filter := by
    intro rest
    induction rest with
    | nil => exact fun _ hbest _ => hbest
    | cons r rest ih =>
      intro best hbest hrest
      refine ih _ ?_ fun s hs => hrest s (List.mem_cons_of_mem _ hs)
      dsimp only
      split
      · rintro b ⟨⟩
        exact hrest r List.mem_cons_self
      · exact hbest
  exact hfold filter none (fun _ hb => by cases hb) (fun _ hr => hr) d h

theorem isAtMost_of_directives (h : ∀ d ∈ filter, d.verbosity ≤ level.verbosity) :
    filter.IsAtMost level := by
  intro n hn
  obtain ⟨d, hd, hle⟩ := (Option.any_eq_true _ _).1 hn
  exact Nat.le_trans (of_decide_eq_true hle) (h d (mem_of_governing? hd))

theorem isAtMost_choose_none : (choose none none).IsAtMost .warn :=
  isAtMost_of_directives (by decide)

theorem write_of_isAtMost {notices : List Notice} (h : filter.IsAtMost level)
    (hnotices : ∀ n ∈ notices, level.verbosity < n.level.verbosity) :
    filter.write notices = "" := by
  have hnone : notices.filter filter.admits = [] := by
    rw [List.filter_eq_nil_iff]
    intro n hn hadmits
    exact Nat.not_le_of_lt (hnotices n hn) (h n hadmits)
  rw [write, hnone]
  rfl

end LogFilter

/-! ### How a session ends -/

namespace FileMode

theorem notices_conclude (path : String) (report : Report) :
    (conclude path report).notices = .fileOpened path :: report.notices := by
  unfold conclude
  split <;> rfl

/-- What is told of a file is of no use to anyone who asked for warnings only. -/
theorem lt_level_of_mem_conclude {path : String} {report : Report} :
    ∀ n ∈ (conclude path report).notices, Level.warn.verbosity < n.level.verbosity := by
  intro n hn
  rw [notices_conclude, List.mem_cons] at hn
  rcases hn with rfl | hn
  · simp [Notice.level, Level.verbosity]
  · obtain ⟨e, -, rfl⟩ := List.mem_map.1 hn
    cases e <;> simp [Notice.level, Level.verbosity]

variable {σ : Type} [Source σ] [Bounded σ] {c : Cursor σ} {tokens : List Token}

theorem conclude_of_itemsOf {error? : Option LexicalError}
    (h : c.tokens.1 = itemsOf tokens error?)
    (hlexical : ∀ e, error? = some e → ∃ p, e.position? = some p) (path : String) :
    (conclude path (Report.ofCursor c)).stdout = unlines (Report.linesOf tokens error?)
      ∧ (conclude path (Report.ofCursor c)).complaint = ""
      ∧ (conclude path (Report.ofCursor c)).code = if error?.isSome then 1 else 0 := by
  rw [← Report.text_ofCursor h, conclude, Report.error?_ofCursor h]
  cases error? with
  | none => exact ⟨rfl, rfl, rfl⟩
  | some e =>
    obtain ⟨p, hp⟩ := hlexical e rfl
    cases e with
    | readFailed => cases hp
    | _ => exact ⟨rfl, rfl, rfl⟩

theorem conclude_of_readFailed {cause : ReadFailure}
    (h : c.tokens.1 = itemsOf tokens (some (.ofFailure cause))) (path : String) :
    (conclude path (Report.ofCursor c)).stdout
        = unlines (Report.linesOf tokens (some (.ofFailure cause)))
      ∧ (conclude path (Report.ofCursor c)).complaint
        = Outcome.complaintText ("cannot read " ++ path) (LexicalError.ofFailure cause).message
      ∧ (conclude path (Report.ofCursor c)).code = 1 := by
  rw [← Report.text_ofCursor h, conclude, Report.error?_ofCursor h]
  exact ⟨rfl, rfl, rfl⟩

theorem endsInError_itemsOf (tokens : List Token) (error? : Option LexicalError) :
    endsInError (itemsOf tokens error?) = error?.isSome := by
  induction tokens with
  | nil => cases error? <;> rfl
  | cons t tokens ih =>
    rw [← ih]
    exact endsInError_cons_ok t (itemsOf tokens error?)

theorem exists_position_of_decided {bytes : List UInt8} {e : LexicalError}
    (h : Except.error e ∈ decidedItems bytes) : ∃ p, e.position? = some p := by
  obtain ⟨last, unread, hlist⟩ := Cursor.exists_lists_tokens bytes
  have hfirst : decidedItems bytes <+: (Cursor.ofSource bytes).tokens.1 :=
    (decides_decidedItems bytes).isPrefix ((List.append_nil (textOf bytes)).symm ▸ hlist)
  exact (exists_position_of_error hlist (hfirst.subset h)).2

/-- How a session on an open file ends, whatever the reader of the file is. -/
def runOpened {ρ : Type} [Reader ρ] [Patient ρ] [Bounded ρ] (path : String) (r : ρ) : Outcome :=
  conclude path (Report.ofCursor (Cursor.ofSource (Feed.mk r false false)))

theorem run_of_entry (path : String) (entry : PathEntry) :
    run path (.ok entry) = runOpened path (OpenFile.ofEntry entry) := rfl

section Failure

variable {ρ : Type} [Reader ρ] [Patient ρ] [Bounded ρ] {r : ρ} {bytes : List UInt8}
  {cause : ReadFailure}

/-- A reader that fails ends the session with a complaint, behind what the bytes before decide. -/
theorem conclude_of_failure (h : HandsOut (.failure cause) r bytes)
    (hdecided : endsInError (decidedItems bytes) = false) (path : String) :
    (runOpened path r).stdout
        = unlines ((decidedItems bytes).map Report.line
          ++ [Report.line (.error (.ofFailure cause))])
      ∧ (runOpened path r).complaint
        = Outcome.complaintText ("cannot read " ++ path) (LexicalError.ofFailure cause).message
      ∧ (runOpened path r).code = 1 := by
  obtain ⟨last, unread, hlist, -⟩ := (decides_decidedItems bytes).lists_failure cause
  rw [hdecided, if_neg Bool.false_ne_true] at hlist
  obtain ⟨tokens, error?, hitems⟩ := exists_itemsOf hlist
  have hlast : .error (.ofFailure cause) ∈ itemsOf tokens error? := by
    rw [← hitems]
    exact List.mem_append_right _ List.mem_cons_self
  obtain rfl : error? = some (.ofFailure cause) := mem_itemsOf_error.1 hlast
  rw [← List.map_singleton, ← List.map_append, hitems, Report.map_line_itemsOf]
  exact conclude_of_readFailed ((Cursor.tokens_of_delivers (delivers_feed h) hlist).trans hitems)
    path

/-- An error that the bytes decide ends the session before the reader fails. -/
theorem conclude_of_decided (h : HandsOut (.failure cause) r bytes)
    (hdecided : endsInError (decidedItems bytes) = true) (path : String) :
    (runOpened path r).stdout = unlines ((decidedItems bytes).map Report.line)
      ∧ (runOpened path r).complaint = ""
      ∧ (runOpened path r).code = 1 := by
  obtain ⟨last, unread, hlist, -⟩ := (decides_decidedItems bytes).lists_failure cause
  rw [hdecided, if_pos rfl, List.append_nil] at hlist
  obtain ⟨tokens, error?, hitems⟩ := exists_itemsOf hlist
  have hsome : error?.isSome = true := by rw [← endsInError_itemsOf tokens, ← hitems, hdecided]
  have hposition : ∀ e, error? = some e → ∃ p, e.position? = some p := fun e he =>
    exists_position_of_decided (hitems ▸ mem_itemsOf_error.2 he)
  obtain ⟨hstdout, hcomplaint, hcode⟩ := conclude_of_itemsOf
    ((Cursor.tokens_of_delivers (delivers_feed h) hlist).trans hitems) hposition path
  rw [hitems, Report.map_line_itemsOf]
  exact ⟨hstdout, hcomplaint, hcode.trans (if_pos hsome)⟩

end Failure

end FileMode

/-! ### The session -/

theorem decidedItems_nil : decidedItems [] = [] := by
  obtain ⟨last, unread, hlist⟩ := Cursor.exists_lists_tokens []
  rw [decidedItems, lists_nil hlist]
  rfl

theorem message_directoryFailure :
    (LexicalError.ofFailure OpenFile.directoryFailure).message
      = "failed to read input: Is a directory (os error 21)" := by
  decide

namespace Command

theorem run_of_parse {arguments : List String} {s : Settings} (around : Surroundings)
    (hparse : parse arguments = .ok (.start s)) :
    run arguments around
      = .ofOutcome (session s around) (LogFilter.choose around.logRequest s.log) := by
  rw [run, hparse]

variable {filter : LogFilter}

/-- With no more than warnings let through, the complaint stands alone. -/
theorem ofOutcome_conclude (hlog : filter.IsAtMost .warn) (path : String) (report : Report) :
    Result.ofOutcome (FileMode.conclude path report) filter
      = ⟨(FileMode.conclude path report).code, (FileMode.conclude path report).stdout,
        (FileMode.conclude path report).complaint⟩ := by
  rw [Result.ofOutcome, Outcome.stderr,
    LogFilter.write_of_isAtMost hlog FileMode.lt_level_of_mem_conclude, String.empty_append]

theorem ofOutcome_of_failure {ρ : Type} [Reader ρ] [Patient ρ] [Bounded ρ] {r : ρ}
    {bytes : List UInt8} {cause : ReadFailure} (hlog : filter.IsAtMost .warn)
    (h : HandsOut (.failure cause) r bytes) (path : String) :
    Result.ofOutcome (FileMode.runOpened path r) filter
      = if endsInError (decidedItems bytes) then
          ⟨1, unlines ((decidedItems bytes).map Report.line), ""⟩
        else
          ⟨1, unlines ((decidedItems bytes).map Report.line
              ++ [Report.line (.error (.ofFailure cause))]),
            Outcome.complaintText ("cannot read " ++ path)
              (LexicalError.ofFailure cause).message⟩ := by
  rw [FileMode.runOpened, ofOutcome_conclude hlog, ← FileMode.runOpened]
  split
  · rename_i hdecided
    obtain ⟨hstdout, hcomplaint, hcode⟩ := FileMode.conclude_of_decided h hdecided path
    rw [hstdout, hcomplaint, hcode]
  · rename_i hdecided
    obtain ⟨hstdout, hcomplaint, hcode⟩ :=
      FileMode.conclude_of_failure h (Bool.eq_false_iff.2 hdecided) path
    rw [hstdout, hcomplaint, hcode]

theorem ofOutcome_directory (hlog : filter.IsAtMost .warn) (path : String) :
    Result.ofOutcome (FileMode.runOpened path OpenFile.directory) filter
      = ⟨1, "error: failed to read input: Is a directory (os error 21)\n",
        "Error: cannot read " ++ path
          ++ "\n\nCaused by:\n    failed to read input: Is a directory (os error 21)\n"⟩ := by
  have hnone : endsInError [] = false := rfl
  have hline : unlines [Report.line (.error (.ofFailure OpenFile.directoryFailure))]
      = "error: failed to read input: Is a directory (os error 21)\n" := by decide
  rw [ofOutcome_of_failure hlog OpenFile.handsOut_directory path, decidedItems_nil, hnone,
    if_neg Bool.false_ne_true, List.map_nil, List.nil_append, hline, message_directoryFailure]
  simp [← String.toList_inj, Outcome.complaintText]

end Command

/-- **A session on a named file.** Of a file it shows a line for each token of its contents, and
then a line for the first lexical error if there is one; only then it fails, and it writes nothing
besides. If a read fails behind some bytes, it shows what these decide, and unless there is an error
in that it shows the failure as well and complains of it; a directory fails at once. Of a path that
leads nowhere nothing is shown. -/
theorem run_of_named_file {arguments : List String} {s : Settings} {path : String}
    {around : Command.Surroundings} (hparse : Command.parse arguments = .ok (.start s))
    (hfile : s.file = some path)
    (hlog : (LogFilter.choose around.logRequest s.log).IsAtMost .warn) :
    (∀ bytes, around.folder.lookUp path = .ok (.file bytes) →
      ∃ tokens error?,
        (Cursor.ofSource bytes).tokens.1 = tokens.map .ok ++ error?.toList.map .error
        ∧ (∀ e, error? = some e → e.isEndOfInput = false ∧ ∃ p, e.position? = some p)
        ∧ (∀ line ∈ Report.linesOf tokens error?, IsOneLine line)
        ∧ Command.run arguments around
          = ⟨if error?.isSome then 1 else 0, unlines (Report.linesOf tokens error?), ""⟩) ∧
    (∀ entry, around.folder.lookUp path = .ok entry →
      Command.run arguments around
        = .ofOutcome (FileMode.runOpened path (OpenFile.ofEntry entry))
          (LogFilter.choose around.logRequest s.log)) ∧
    (∀ {ρ : Type} [Reader ρ] [Patient ρ] [Bounded ρ] (r : ρ) (bytes : List UInt8)
        (cause : ReadFailure), HandsOut (.failure cause) r bytes →
      Command.Result.ofOutcome (FileMode.runOpened path r)
          (LogFilter.choose around.logRequest s.log)
        = if endsInError (decidedItems bytes) then
            ⟨1, unlines ((decidedItems bytes).map Report.line), ""⟩
          else
            ⟨1, unlines ((decidedItems bytes).map Report.line
                ++ [Report.line (.error (.ofFailure cause))]),
              Outcome.complaintText ("cannot read " ++ path)
                (LexicalError.ofFailure cause).message⟩) ∧
    (around.folder.lookUp path = .ok .directory →
      Command.run arguments around
        = ⟨1, "error: failed to read input: Is a directory (os error 21)\n",
          "Error: cannot read " ++ path
            ++ "\n\nCaused by:\n    failed to read input: Is a directory (os error 21)\n"⟩) ∧
    ∀ failure, around.folder.lookUp path = .error failure →
      Command.run arguments around
        = ⟨1, "",
          "Error: cannot open " ++ path ++ "\n\nCaused by:\n    " ++ failure.text ++ "\n"⟩ := by
  have hsession : Command.session s around = FileMode.run path (around.folder.lookUp path) := by
    rw [Command.session, hfile]
  have hopened : ∀ entry, around.folder.lookUp path = .ok entry →
      Command.run arguments around
        = .ofOutcome (FileMode.runOpened path (OpenFile.ofEntry entry))
          (LogFilter.choose around.logRequest s.log) := by
    intro entry hentry
    rw [Command.run_of_parse around hparse, hsession, hentry, FileMode.run_of_entry]
  refine ⟨?_, hopened, ?_, ?_, ?_⟩
  · intro bytes hbytes
    obtain ⟨last, unread, hlist⟩ := Cursor.exists_lists_tokens bytes
    obtain ⟨tokens, error?, hitems⟩ := exists_itemsOf hlist
    have hlexical : ∀ e, error? = some e → e.isEndOfInput = false ∧ ∃ p, e.position? = some p := by
      intro e he
      refine exists_position_of_error hlist ?_
      rw [hitems]
      exact mem_itemsOf_error.2 he
    refine ⟨tokens, error?, hitems, hlexical, ?_, ?_⟩
    · rw [← Report.map_line_itemsOf, ← hitems]
      simpa using isOneLine_line hlist
    · obtain ⟨hstdout, hcomplaint, hcode⟩ := FileMode.conclude_of_itemsOf
        ((Cursor.tokens_of_contents bytes).trans hitems) (fun e he => (hlexical e he).2) path
      rw [hopened _ hbytes, OpenFile.ofEntry, FileMode.runOpened, Command.ofOutcome_conclude hlog,
        hstdout, hcomplaint, hcode]
  · intro ρ _ _ _ r bytes cause hands
    exact Command.ofOutcome_of_failure hlog hands path
  · intro hdirectory
    rw [hopened _ hdirectory]
    exact Command.ofOutcome_directory hlog path
  · intro failure hfailure
    rw [Command.run_of_parse around hparse, hsession, hfailure]
    simp only [FileMode.run, Command.Result.ofOutcome, Outcome.stderr, Command.Result.mk.injEq,
      true_and]
    rw [LogFilter.write_of_isAtMost hlog (fun n hn => absurd hn List.not_mem_nil)]
    simp [← String.toList_inj, Outcome.complaintText]

/-- A file with an error between its two tokens, a directory, a path that leads nowhere, and a file
that cannot be read behind its second digit, which might have gone on. -/
theorem run_of_small_folder :
    let around : Command.Surroundings :=
      ⟨{ files := [(["a.bas"], [0x31, 0x20, 0x40, 0x20, 0x32])], directories := [["d"]] }, [], none⟩
    Command.run ["a.bas"] around
        = ⟨1, "Parsed token: 1 @ 1:1-1:2\nerror: unknown token `@` at 1:3\n", ""⟩ ∧
      Command.run ["d"] around
        = ⟨1, "error: failed to read input: Is a directory (os error 21)\n",
          "Error: cannot read d\n\nCaused by:\n"
            ++ "    failed to read input: Is a directory (os error 21)\n"⟩ ∧
      Command.run ["b.bas"] around
        = ⟨1, "",
          "Error: cannot open b.bas\n\nCaused by:\n"
            ++ "    No such file or directory (os error 2)\n"⟩ ∧
      Command.Result.ofOutcome (FileMode.runOpened "a.bas" (Script.mk
          [.data [0x31, 0x20, 0x32] none, .failure ⟨.timedOut, some "the disk is gone"⟩]))
          (LogFilter.choose none none)
        = ⟨1, "Parsed token: 1 @ 1:1-1:2\nerror: failed to read input: the disk is gone\n",
          "Error: cannot read a.bas\n\nCaused by:\n"
            ++ "    failed to read input: the disk is gone\n"⟩ := by
  intro around
  have hlog : (LogFilter.choose around.logRequest none).IsAtMost .warn :=
    LogFilter.isAtMost_choose_none
  have hsession : ∀ path, Command.parse [path] = .ok (.start { file := some path }) →
      _ ∧ _ ∧ _ ∧ _ ∧ _ := fun path hparse => run_of_named_file hparse rfl hlog
  refine ⟨?_, ?_, ?_, ?_⟩
  · obtain ⟨tokens, error?, hitems, -, -, hrun⟩ := (hsession "a.bas" (by decide +kernel)).1
      [0x31, 0x20, 0x40, 0x20, 0x32] (by decide +kernel)
    have hlines : Report.linesOf tokens error?
        = ["Parsed token: 1 @ 1:1-1:2", "error: unknown token `@` at 1:3"] := by
      rw [← Report.map_line_itemsOf, itemsOf, ← hitems]
      decide +kernel
    have herror : error? = some (.unknownToken "@" ⟨1, 3⟩) := by
      rw [← Report.errorOf?_itemsOf tokens error?, itemsOf, ← hitems]
      decide +kernel
    rw [hrun, hlines, herror]
    decide +kernel
  · rw [(hsession "d" (by decide +kernel)).2.2.2.1 (by decide +kernel)]
    decide +kernel
  · rw [(hsession "b.bas" (by decide +kernel)).2.2.2.2 .missing (by decide +kernel)]
    decide +kernel
  · have hands : HandsOut (.failure ⟨.timedOut, some "the disk is gone"⟩)
        (Script.mk [.data [0x31, 0x20, 0x32] none, .failure ⟨.timedOut, some "the disk is gone"⟩])
        [0x31, 0x20, 0x32] :=
      @Script.handsOut _ [.data [0x31, 0x20, 0x32] none]
        [.failure ⟨.timedOut, some "the disk is gone"⟩] (by decide) ⟨by decide, rfl⟩
    exact ((hsession "a.bas" (by decide +kernel)).2.2.1 _ _ _ hands).trans (by decide +kernel)

end BasicTokens
