import BasicTokens.Proofs.Session.FileMode
import BasicTokens.Proofs.Session.Line
import Mathlib.Data.List.TakeWhile

/-!
# An interactive session

What a session shows is its greeting and then, line by line, the prompt and what a session on a file
with just this line in it would show (`run_without_file`). So no line has anything to do with
another one, and an error in a line is no error of the session. The one thing that sets a line apart
from a file is that backspaces take back what was typed before them (`run_of_backspace`).
-/

namespace BasicTokens

/-! ### One line -/

theorem FileMode.stdout_run_file (path : String) (bytes : List UInt8) :
    (run path (.ok (.file bytes))).stdout = (Report.ofCursor (Cursor.ofSource bytes)).text := by
  obtain ⟨last, unread, hlist⟩ := Cursor.exists_lists_tokens bytes
  obtain ⟨tokens, error?, hitems⟩ := exists_itemsOf hlist
  have hconclude : ∀ report, (conclude path report).stdout = report.text := by
    intro report
    unfold conclude
    split <;> rfl
  rw [run, hconclude, Report.text_ofCursor hitems]
  exact Report.text_ofCursor ((Cursor.tokens_of_contents bytes).trans hitems)

theorem FileMode.stdout_run_nil (path : String) : (run path (.ok (.file []))).stdout = "" := by
  obtain ⟨last, unread, hlist⟩ := Cursor.exists_lists_tokens []
  have hitems : (Cursor.ofSource ([] : List UInt8)).tokens.1 = itemsOf [] none := lists_nil hlist
  rw [stdout_run_file, Report.text_ofCursor hitems]
  rfl

namespace Prompt

/-- What is shown for a line that is taken as typed. -/
def shown (path : String) (line : List UInt8) : String :=
  (FileMode.run path (.ok (.file line))).stdout

theorem answer?_of_isUTF8 {raw : List UInt8} (h : isUTF8 raw = true) (path : String) :
    ∃ a, answer? raw = some a ∧ a.stdout = shown path (typed (strip raw)) := by
  rw [answer?, h]
  split
  · contradiction
  · split
    · rename_i hline
      refine ⟨_, rfl, ?_⟩
      rw [hline]
      exact (FileMode.stdout_run_nil path).symm
    · exact ⟨_, rfl, (FileMode.stdout_run_file path _).symm⟩

/-! ### All lines -/

/-- The prompt before what is shown for each line, and once more before the last words. -/
def transcript (shown : List String) (last : String) : String :=
  String.join (shown.map (prompt ++ ·)) ++ prompt ++ last

theorem stdout_converse (raws : List (List UInt8)) (path : String) :
    (converse raws).stdout
      = transcript (((raws.map strip).takeWhile isUTF8).map fun line => shown path (typed line))
          (if (raws.map strip).all isUTF8 then farewell else refusal) := by
  induction raws with
  | nil => rfl
  | cons raw raws ih =>
    rw [converse, List.map_cons, List.takeWhile_cons, List.all_cons, isUTF8_strip]
    cases hraw : isUTF8 raw with
    | false =>
      rw [answer?, hraw]
      rfl
    | true =>
      obtain ⟨a, ha, hshown⟩ := answer?_of_isUTF8 hraw path
      rw [ha]
      simp only [ih, hshown]
      simp [transcript, String.append_assoc]

theorem stdout_run (folder : Folder) (history : String) (stdin : List UInt8) (path : String) :
    (run folder history stdin).stdout
      = greeting (canLoad (folder.lookUp history))
        ++ transcript (((linesOf stdin).takeWhile isUTF8).map fun line => shown path (typed line))
          (if isUTF8 stdin then farewell else refusal) := by
  rw [run, stdout_converse _ path, map_strip_rawLines, all_isUTF8_linesOf]

end Prompt

/-! ### The session -/

/-- **A session without a file.** It greets, and then shows for each line what a session on a file
with the line in it shows, up to the first line that is not UTF-8; it never fails. No line is missing
if and only if its input is UTF-8. Before a line is read each backspace has taken back the Unicode
scalar before it; a line without one is read as it stands. -/
theorem run_without_file {arguments : List String} {s : Settings}
    {around : Command.Surroundings} (hparse : Command.parse arguments = .ok (.start s))
    (hfile : s.file = none) (path : String) :
    let lines := Prompt.linesOf around.stdin
    let read := lines.takeWhile Prompt.isUTF8
    let loaded := Prompt.canLoad
      (around.folder.lookUp (s.history.getD Command.defaultHistory))
    (Command.run arguments around).code = 0
      ∧ (Command.run arguments around).stdout
        = (if loaded then "" else "No previous REPL history\n")
          ++ "BASIC - interactive tokenizer\n"
          ++ String.join (read.map fun line =>
            "> " ++ (FileMode.run path (.ok (.file (Prompt.typed line)))).stdout)
          ++ "> " ++ (if Prompt.isUTF8 around.stdin then "CTRL-D\n" else Prompt.refusal)
      ∧ (FileMode.run path (.ok (.file []))).stdout = ""
      ∧ (Prompt.isUTF8 around.stdin = true ↔ read = lines)
      ∧ (∀ line ∈ read, ∃ text, line = utf8Of text
        ∧ Prompt.typed line = utf8Of (Prompt.typedText text))
      ∧ ∀ line, Prompt.backspace ∉ line → Prompt.typed line = line := by
  intro lines read loaded
  have hsession : Command.session s around
      = Prompt.run around.folder (s.history.getD Command.defaultHistory) around.stdin := by
    rw [Command.session, hfile]
  rw [Command.run_of_parse around hparse, hsession]
  refine ⟨rfl, ?_, FileMode.stdout_run_nil path, ?_, ?_, fun line => Prompt.typed_of_notMem⟩
  · rw [Command.Result.ofOutcome, Prompt.stdout_run _ _ _ path, Prompt.greeting,
      Prompt.transcript, List.map_map]
    simp only [String.append_assoc]
    rfl
  · rw [← Prompt.all_isUTF8_linesOf, List.all_eq_true]
    exact List.takeWhile_eq_self_iff.symm
  · intro line hline
    obtain ⟨text, rfl⟩ := Prompt.isUTF8_iff.1 (List.mem_takeWhile_imp hline)
    exact ⟨text, rfl, Prompt.typed_utf8Of text⟩

/-- Three lines: one with a character taken back, one with an error and a carriage return, and one
without an end. -/
theorem run_of_three_lines :
    (Command.run [] ⟨{}, [0x61, 0x62, 0x08, 0x0A, 0x40, 0x0D, 0x0A, 0x32], none⟩).stdout
      = "No previous REPL history\nBASIC - interactive tokenizer\n"
        ++ "> Parsed token: a @ 1:1-1:2\n> error: unknown token `@` at 1:1\n"
        ++ "> Parsed token: 2 @ 1:1-1:2\n> CTRL-D\n" := by
  have hparse : Command.parse [] = .ok (.start {}) := rfl
  have hUTF8 : Prompt.isUTF8 [0x61, 0x62, 0x08, 0x0A, 0x40, 0x0D, 0x0A, 0x32] = true :=
    Prompt.isUTF8_iff.2 ⟨['a', 'b', '\x08', '\n', '@', '\r', '\n', '2'], by decide⟩
  obtain ⟨-, hstdout, -, hread, -⟩ := @run_without_file [] {}
    ⟨{}, [0x61, 0x62, 0x08, 0x0A, 0x40, 0x0D, 0x0A, 0x32], none⟩ hparse rfl ""
  rw [hstdout, hread.1 hUTF8, hUTF8]
  decide +kernel

/-- A session does not show what a session on a file with the line in it would show, if something
has been taken back in the line. -/
theorem run_of_backspace :
    Prompt.isUTF8 [0x61, 0x62, 0x08, 0x0A] = true ∧
    Prompt.linesOf [0x61, 0x62, 0x08, 0x0A] = [[0x61, 0x62, 0x08]] ∧
    Prompt.canLoad (Folder.lookUp {} Command.defaultHistory) = false ∧
    (Command.run [] ⟨{}, [0x61, 0x62, 0x08, 0x0A], none⟩).stdout
      ≠ "No previous REPL history\nBASIC - interactive tokenizer\n"
        ++ "> " ++ (FileMode.run "" (.ok (.file [0x61, 0x62, 0x08]))).stdout
        ++ "> CTRL-D\n" := by
  have hUTF8 : Prompt.isUTF8 [0x61, 0x62, 0x08, 0x0A] = true :=
    Prompt.isUTF8_iff.2 ⟨['a', 'b', '\x08', '\n'], by decide⟩
  have hlines : Prompt.linesOf [0x61, 0x62, 0x08, 0x0A] = [[0x61, 0x62, 0x08]] := by decide
  have hread : [[0x61, 0x62, 0x08]].takeWhile Prompt.isUTF8 = [[0x61, 0x62, 0x08]] := by
    rw [List.takeWhile_eq_self_iff, ← List.all_eq_true, ← hlines, Prompt.all_isUTF8_linesOf, hUTF8]
  refine ⟨hUTF8, hlines, by decide +kernel, ?_⟩
  rw [Command.run_of_parse _ (s := {}) rfl]
  change (Prompt.run {} Command.defaultHistory [0x61, 0x62, 0x08, 0x0A]).stdout ≠ _
  rw [Prompt.stdout_run _ _ _ "", hlines, hread, hUTF8]
  decide +kernel

end BasicTokens
