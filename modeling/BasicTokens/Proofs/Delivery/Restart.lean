import BasicTokens.Proofs.Delivery.Independence
import BasicTokens.Proofs.Delivery.Signals
import BasicTokens.Proofs.Scan.Shift

/-!
# Starting again

Nothing is carried from one call to the next but the position and what is left to read. So after any
number of calls, and whatever they answered, the calls that follow answer as those of a new cursor
over what is left, moved along to where the old one stands (`restartsAs_unread`). In particular the
characters that a failed call has taken never turn up again.

What is left over bytes in memory are the bytes that were not read. What is left of a script are the
bytes in the buffer, as a step of their own, and then the steps that were not used up.
-/

namespace BasicTokens

/-! ### Signals read from another position -/

def Reply.shift (origin : Position) (r : Reply) : Reply :=
  ⟨shiftResult origin r.result, origin.shift r.here, r.rest⟩

/-- The result of a call and the position behind it, moved along. -/
def shiftCall (origin : Position) (call : Except LexicalError Token × Position) :
    Except LexicalError Token × Position :=
  (shiftResult origin call.1, origin.shift call.2)

theorem Scan.reply_shift (origin : Position) {here : Position} (h : Position.start ≤ here)
    (scan : Scan) (signals : List Signal) :
    (scan.shift origin).reply (origin.shift here) signals
      = (scan.reply here signals).shift origin := by
  induction signals generalizing scan here with
  | nil =>
    simp only [reply, finish_shift]
    rfl
  | cons signal signals ih =>
    cases signal with
    | error cause => rfl
    | ok c =>
      simp only [reply, step_shift origin h, Position.after_shift origin h]
      cases scan.step here c with
      | take next => exact ih (Position.start_le_after h c) next
      | leave result => rfl
      | complete token => rfl

theorem Scan.start_le_here_reply {here : Position} (h : Position.start ≤ here) (scan : Scan)
    (signals : List Signal) : Position.start ≤ (scan.reply here signals).here := by
  induction signals generalizing scan here with
  | nil => exact h
  | cons signal signals ih =>
    cases signal with
    | error cause => exact h
    | ok c =>
      simp only [reply]
      split
      · exact ih (Position.start_le_after h c) _
      · exact h
      · exact Position.start_le_after h c

theorem replies_shift (origin : Position) {here : Position} (h : Position.start ≤ here) (n : Nat)
    (signals : List Signal) :
    replies n (origin.shift here) signals = (replies n here signals).map (shiftCall origin) := by
  induction n generalizing here signals with
  | zero => rfl
  | succ n ih =>
    have hreply := Scan.reply_shift origin h .blank signals
    rw [show Scan.blank.shift origin = .blank from rfl] at hreply
    simp only [replies, hreply, List.map_cons]
    exact congrArg _ (ih (Scan.start_le_here_reply h .blank signals) _)

/-! ### Calls over signals -/

namespace Cursor

variable {σ : Type} [Source σ] [Bounded σ]

def afterCalls : (n : Nat) → Cursor σ → Cursor σ
  | 0, c => c
  | n + 1, c => afterCalls n c.token.2

/-- The calls from here on answer as those of a new cursor over `s`, moved along. -/
def RestartsAs (c : Cursor σ) (s : σ) : Prop :=
  ∀ n, c.calls n = ((ofSource s).calls n).map (shiftCall c.position)

variable {R : σ → List Signal → Prop} {c : Cursor σ} {signals : List Signal} (hR : IsForecast R)
include hR

theorem token_of_awaits (h : c.Awaits R signals) :
    c.token.1 = (Scan.blank.reply c.position signals).result
      ∧ c.token.2.position = (Scan.blank.reply c.position signals).here
      ∧ c.token.2.Awaits R (Scan.blank.reply c.position signals).rest := by
  obtain ⟨d, htoken, hposition, hd⟩ := token?_of_awaits hR h (Nat.lt_succ_self _)
  rw [token_of_token? htoken]
  exact ⟨rfl, hposition, hd⟩

theorem calls_of_awaits (h : c.Awaits R signals) (n : Nat) :
    c.calls n = replies n c.position signals := by
  induction n generalizing c signals with
  | zero => rfl
  | succ n ih =>
    obtain ⟨hresult, hposition, hd⟩ := token_of_awaits hR h
    rw [calls, ih hd, hresult, hposition]
    rfl

theorem exists_awaits_afterCalls (h : c.Awaits R signals) (n : Nat) :
    ∃ rest, (c.afterCalls n).Awaits R rest := by
  induction n generalizing c signals with
  | zero => exact ⟨signals, h⟩
  | succ n ih => exact ih (token_of_awaits hR h).2.2

theorem restartsAs_of_awaits {s : σ} (h : c.Awaits R signals) (hs : R s signals) :
    c.RestartsAs s := by
  intro n
  have hshift := replies_shift c.position (Position.le_refl .start) n signals
  rw [Position.shift_start] at hshift
  rw [calls_of_awaits hR h, calls_of_awaits hR (awaits_ofSource hs), hshift]
  rfl

end Cursor

/-! ### What is left to read -/

/-- The steps of a script that a cursor has not read: first what is in its buffer. -/
def Cursor.leftover (c : Cursor (Feed Script)) : Script :=
  match c.buffered with
  | [] => c.source.reader
  | b :: bytes => ⟨.data (b :: bytes) none :: c.source.reader.steps⟩

theorem tells_leftover {c : Cursor (Feed Script)} {signals : List Signal}
    (h : c.Awaits (Feed.Foretells Script.Tells) signals) : c.leftover.Tells signals := by
  obtain ⟨rest, ⟨-, ⟨hplain, rfl⟩, -⟩, rfl⟩ := h.ahead
  unfold Cursor.leftover
  split
  · rename_i hbuffered
    rw [hbuffered]
    exact ⟨hplain, rfl⟩
  · rename_i b bytes hbuffered
    rw [hbuffered]
    refine ⟨?_, rfl⟩
    intro step hstep
    rcases List.mem_cons.1 hstep with rfl | hstep
    · exact ⟨List.cons_ne_nil _ _, rfl⟩
    · exact hplain step hstep

/-- **A call leaves nothing behind but what is left to read and the position.** Over bytes in
memory, and over a script of pieces and failures in any order, the calls behind the first `n` answer
as those of a new cursor over what is left. -/
theorem restartsAs_unread :
    (∀ (bytes : List UInt8) (n : Nat),
      let c := (Cursor.ofSource bytes).afterCalls n
      c.RestartsAs c.unread) ∧
    (∀ steps : List Script.Step, (∀ step ∈ steps, step.IsPlain) → ∀ n : Nat,
      let c := (Cursor.ofSource (Feed.mk (Script.mk steps) false false)).afterCalls n
      c.RestartsAs (Feed.mk c.leftover false false)) := by
  refine ⟨?_, ?_⟩
  · intro bytes n c
    obtain ⟨signals, hc⟩ := Cursor.exists_awaits_afterCalls isForecast_slice
      (Cursor.awaits_ofSource (s := bytes) rfl) n
    refine Cursor.restartsAs_of_awaits isForecast_slice hc ?_
    obtain ⟨rest, rfl, rfl⟩ := hc.ahead
    exact (signalsOf_append _ _).symm
  · intro steps hplain n c
    have hforecast := isForecast_foretells Script.isOutlook_tells
    have hstart : Feed.Foretells Script.Tells (Feed.mk (Script.mk steps) false false)
        (Script.mk steps).signals := ⟨rfl, ⟨hplain, rfl⟩, fun hd => by cases hd⟩
    obtain ⟨signals, hc⟩ :=
      Cursor.exists_awaits_afterCalls hforecast (Cursor.awaits_ofSource hstart) n
    exact Cursor.restartsAs_of_awaits hforecast hc
      ⟨rfl, tells_leftover hc, fun hd => by cases hd⟩

/-- A reader that fails in the middle of a word. The first call takes the beginning of the word and
fails, and the second reads the rest as a word of its own. -/
theorem restartsAs_of_failing_reader :
    (∀ step ∈ [Script.Step.data [0x41] none, .failure ⟨.timedOut, none⟩, .data [0x42, 0x20] none],
      step.IsPlain) ∧
    let c := (Cursor.ofSource (Feed.mk (Script.mk
      [.data [0x41] none, .failure ⟨.timedOut, none⟩, .data [0x42, 0x20] none]) false
      false)).afterCalls 1
    c.RestartsAs (Feed.mk c.leftover false false) := by
  have hplain : ∀ step ∈ [Script.Step.data [0x41] none, .failure ⟨.timedOut, none⟩,
      .data [0x42, 0x20] none], step.IsPlain := by decide
  exact ⟨hplain, restartsAs_unread.2 _ hplain 1⟩

end BasicTokens
