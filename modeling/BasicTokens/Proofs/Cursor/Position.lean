import BasicTokens.Proofs.Delivery.Independence
import BasicTokens.Proofs.Grammar.WellFormed
import BasicTokens.Proofs.Scan.Shift
import Mathlib.Data.List.Induction

/-!
# Where a cursor stands

A cursor never counts: it steps from one position to the next with each character that it moves
past. All the same its position tells how many line ends lie behind it, and how many characters
since the last of them (`ofPast`). So no two places in a text have the same position, and positions
come in the order of the places (`order_ofPast_take`).

A call reports where its token began and ended, or where it went wrong. All of this lies between
where the call began and where it ended (`reports_of_token?`), also over a source that fails, so a
later call never reports anything ahead of the end of an earlier token.
-/

namespace BasicTokens

/-! ### Counting line ends -/

def lineBreaks : List Char := ['\n', '\x0B', '\x0C', '\r', '\u0085']

theorem isLineBreak_iff_mem {c : Char} : isLineBreak c = true ↔ c ∈ lineBreaks := by
  have hcodes : lineBreaks.map Char.toNat = [0x0A, 0x0B, 0x0C, 0x0D, 0x85] := by decide
  rw [← List.mem_map_of_injective fun _ _ => Char.toNat_inj.1, hcodes]
  simp only [isLineBreak, Bool.or_eq_true, Bool.and_eq_true, decide_eq_true_eq, beq_iff_eq,
    List.mem_cons, List.not_mem_nil, or_false]
  omega

namespace Position

/-- The position behind a text: one row for each line end, and the characters since the last one,
both counted from one. -/
def ofPast (past : List Char) : Position where
  row := 1 + past.countP (· ∈ lineBreaks)
  column := 1 + (past.reverse.takeWhile (· ∉ lineBreaks)).length

theorem ofPast_concat (past : List Char) (c : Char) :
    ofPast (past ++ [c]) = (ofPast past).after c := by
  by_cases hbreak : c ∈ lineBreaks
  · rw [after, if_pos (isLineBreak_iff_mem.2 hbreak)]
    simp [ofPast, hbreak, Nat.add_assoc]
  · rw [after, if_neg (mt isLineBreak_iff_mem.1 hbreak)]
    simp [ofPast, hbreak, Nat.add_comm]

theorem afterAll_start (past : List Char) : start.afterAll past = ofPast past := by
  induction past using List.reverseRecOn with
  | nil => rfl
  | append_singleton past c ih =>
    rw [afterAll_append, ih, ofPast_concat]
    rfl

theorem ofPast_take_lt {text : List Char} {i j : Nat} (hij : i < j) (hj : j ≤ text.length) :
    ofPast (text.take i) < ofPast (text.take j) := by
  have hsplit : text.take j = text.take i ++ (text.take j).drop i := by
    conv_lhs => rw [← List.take_append_drop i (text.take j)]
    rw [List.take_take, Nat.min_eq_left (Nat.le_of_lt hij)]
  have hne : (text.take j).drop i ≠ [] := by
    intro hnil
    have hlength := congrArg List.length hnil
    rw [List.length_drop, List.length_take, Nat.min_eq_left hj, List.length_nil] at hlength
    omega
  rw [hsplit, ← afterAll_start, ← afterAll_start, afterAll_append]
  exact lt_afterAll _ hne

theorem order_eq_gt {p q : Position} : p.order q = .gt ↔ q < p := by
  rw [order, Ordering.then_eq_gt, Nat.compare_eq_gt, Nat.compare_eq_eq, Nat.compare_eq_gt, lt_def]
  omega

/-- Positions are in the order of the places that they stand for. -/
theorem order_ofPast_take {text : List Char} {i j : Nat} (hi : i ≤ text.length)
    (hj : j ≤ text.length) :
    (ofPast (text.take i)).order (ofPast (text.take j)) = compare i j := by
  rcases Nat.lt_trichotomy i j with hlt | rfl | hgt
  · rw [Nat.compare_eq_lt.2 hlt, order_eq_lt]
    exact ofPast_take_lt hlt hj
  · rw [Nat.compare_eq_eq.2 rfl, order_eq_eq]
  · rw [Nat.compare_eq_gt.2 hgt, order_eq_gt]
    exact ofPast_take_lt hgt hi

theorem le_trans {p q r : Position} (hpq : p ≤ q) (hqr : q ≤ r) : p ≤ r := by
  rw [le_def] at *
  omega

end Position

/-! ### Demands on a cursor -/

namespace Cursor

/-- What can be asked of a cursor: an operation, or to be closed. -/
inductive Demand where
  | operation (op : Operation)
  | close
deriving DecidableEq, Repr

variable {σ : Type} [Source σ] {c d : Cursor σ}

def meet (c : Cursor σ) : Demand → Cursor σ
  | .operation op => c.perform op
  | .close => c.close

def passed (c : Cursor σ) : Demand → List Char
  | .operation op => c.taken op
  | .close => []

def meetAll : Cursor σ → List Demand → Cursor σ
  | c, [] => c
  | c, demand :: demands => (c.meet demand).meetAll demands

def passedAll : Cursor σ → List Demand → List Char
  | _, [] => []
  | c, demand :: demands => c.passed demand ++ (c.meet demand).passedAll demands

theorem position_fill (c : Cursor σ) : c.fill.2.position = c.position := by
  rcases hfill : c.fill with ⟨result, d⟩
  cases fills_of_fill hfill with
  | unasked => rfl
  | failed => rfl
  | read => rfl

omit [Source σ] in
theorem position_advance (hpos : c.pos < c.len) :
    c.advance.position = c.position.after c.current := by
  rw [advance, if_pos hpos]

theorem position_of_filled (h : c.Filled d) : d.position = c.position := by
  rcases h with rfl | ⟨-, rfl⟩
  · rfl
  · exact position_fill c

theorem position_close (c : Cursor σ) : c.close.position = c.position := by
  unfold close
  split <;> rfl

theorem position_meet (c : Cursor σ) (demand : Demand) :
    (c.meet demand).position = c.position.afterAll (c.passed demand) := by
  cases demand with
  | close => exact position_close c
  | operation op =>
    obtain ⟨d, hfilled, hmove⟩ := c.perform_cases op
    rw [meet, passed, ← position_of_filled hfilled]
    rcases hmove with ⟨hperform, htaken⟩ | ⟨hpos, hperform, htaken⟩
    · rw [hperform, htaken, Position.afterAll_nil]
    · rw [hperform, htaken, position_advance hpos]
      rfl

theorem position_meetAll (c : Cursor σ) (demands : List Demand) :
    (c.meetAll demands).position = c.position.afterAll (c.passedAll demands) := by
  induction demands generalizing c with
  | nil => rfl
  | cons demand demands ih =>
    rw [meetAll, passedAll, ih, position_meet, Position.afterAll_append]

end Cursor

/-! ### What an answer reports -/

def reported : Except LexicalError Token → List Position
  | .ok t => [t.first, t.behind]
  | .error e => e.position?.toList

/-- An answer that reports nothing ahead of `p`, and whose token ends at `here`. -/
structure Reports (p : Position) (result : Except LexicalError Token) (here : Position) : Prop where
  le : ∀ q ∈ reported result, p ≤ q
  behind : ∀ t, result = .ok t → t.behind = here

namespace Scan

variable {scan next : Scan} {p first here : Position} {c : Char}

/-- No token has begun, or it has begun at `p` or behind it. -/
def BeginsFrom (p : Position) : Scan → Prop
  | .blank => True
  | .numeral first _ _ | .word first _ | .signs first _ | .string first _ | .escape first _ =>
    p ≤ first

theorem reports_ok (hfirst : p ≤ first) (hhere : p ≤ here) (x : Lexeme) :
    Reports p (.ok ⟨x, first, here⟩) here where
  le q hq := by
    rcases List.mem_cons.1 hq with rfl | hq
    · exact hfirst
    · rw [List.mem_singleton.1 hq]
      exact hhere
  behind t ht := by
    cases ht
    rfl

theorem reports_error {e : LexicalError} (he : ∀ q, e.position? = some q → p ≤ q)
    (here : Position) : Reports p (.error e) here where
  le q hq := he q (Option.mem_toList.1 hq)
  behind _ ht := nomatch ht

theorem reports_error_at {e : LexicalError} (he : e.position? = some first) (hfirst : p ≤ first)
    (here : Position) : Reports p (.error e) here := by
  refine reports_error ?_ here
  intro q hq
  rw [he] at hq
  cases hq
  exact hfirst

theorem reports_endNumeral (hfirst : p ≤ first) (hhere : p ≤ here) (text : List Char)
    (pointed : Bool) : Reports p (endNumeral first text pointed here) here := by
  unfold endNumeral
  split
  · exact reports_ok hfirst hhere _
  · exact reports_error_at rfl hfirst here

theorem reports_endSigns (hfirst : p ≤ first) (hhere : p ≤ here) (text : List Char) :
    Reports p (endSigns first text here) here := by
  unfold endSigns
  split
  · exact reports_ok hfirst hhere _
  · exact reports_error_at rfl hfirst here

theorem beginsFrom_opening (hhere : p ≤ here) (c : Char) : (opening here c).BeginsFrom p := by
  unfold opening
  repeat' split
  all_goals exact hhere

theorem beginsFrom_of_take (h : scan.BeginsFrom p) (hhere : p ≤ here)
    (hstep : scan.step here c = .take next) : next.BeginsFrom p := by
  cases scan with
  | blank =>
    simp only [step, Step.take.injEq] at hstep
    rw [← hstep]
    split
    · trivial
    · exact beginsFrom_opening hhere c
  | _ =>
    simp only [step] at hstep
    repeat' split at hstep
    all_goals cases hstep
    all_goals exact h

theorem reports_of_leave {result : Except LexicalError Token} (h : scan.BeginsFrom p)
    (hhere : p ≤ here) (hstep : scan.step here c = .leave result) : Reports p result here := by
  cases scan with
  | blank => cases hstep
  | numeral first read pointed =>
    simp only [step] at hstep
    repeat' split at hstep
    all_goals cases hstep
    · exact reports_endNumeral h hhere _ _
    · exact reports_error_at rfl hhere here
  | word first read =>
    simp only [step] at hstep
    repeat' split at hstep
    all_goals cases hstep
    · exact reports_ok h hhere _
    · exact reports_error_at rfl hhere here
  | signs first read =>
    simp only [step] at hstep
    repeat' split at hstep
    all_goals cases hstep
    exact reports_endSigns h hhere _
  | string first decoded =>
    simp only [step] at hstep
    repeat' split at hstep
    all_goals cases hstep
  | escape first decoded =>
    simp only [step] at hstep
    repeat' split at hstep
    all_goals cases hstep
    exact reports_error_at rfl hhere here

theorem reports_of_complete {t : Token} (h : scan.BeginsFrom p) (hhere : p ≤ here)
    (hstep : scan.step here c = .complete t) : Reports p (.ok t) (here.after c) := by
  cases scan <;> simp only [step] at hstep <;> repeat' split at hstep
  all_goals cases hstep
  exact reports_ok h (Position.le_trans hhere (Position.le_afterAll here [c])) _

theorem reports_finish (h : scan.BeginsFrom p) (hhere : p ≤ here) :
    Reports p (scan.finish here) here := by
  cases scan with
  | blank => exact reports_error_at rfl hhere here
  | numeral => exact reports_endNumeral h hhere _ _
  | word => exact reports_ok h hhere _
  | signs => exact reports_endSigns h hhere _
  | string => exact reports_error_at rfl h here
  | escape => exact reports_error_at rfl h here

end Scan

namespace Cursor

variable {σ : Type} [Source σ] {c d : Cursor σ} {p : Position} {limit : Nat}
  {result : Except LexicalError Token}

theorem isKept_le_position (p : Position) : IsKept fun c : Cursor σ => p ≤ c.position where
  fill h _ := by rwa [position_fill]
  advance {c} h hpos := by
    rw [position_advance hpos]
    exact Position.le_trans h (Position.le_afterAll _ [c.current])
  note _ h := h

theorem reports_of_scan? {scan : Scan} (hp : p ≤ c.position) (h : scan.BeginsFrom p)
    (hscan : c.scan? limit scan = some (result, d)) : Reports p result d.position := by
  induction limit generalizing scan c with
  | zero => cases hscan
  | succ limit ih =>
    rw [scan?] at hscan
    split at hscan
    · rename_i e k hpeek
      cases hscan
      obtain ⟨cause, rfl⟩ := exists_cause_of_peek? hpeek
      refine Scan.reports_error ?_ _
      intro q hq
      cases hq
    · rename_i k hpeek
      cases hscan
      exact Scan.reports_finish h ((isKept_le_position p).peek? hp hpeek)
    · rename_i ch k hpeek
      have hk : p ≤ k.position := (isKept_le_position p).peek? hp hpeek
      have hpos := pos_lt_len_of_peek? hpeek
      split at hscan
      · rename_i next hstep
        exact ih ((isKept_le_position p).advance hk hpos) (Scan.beginsFrom_of_take h hk hstep) hscan
      · rename_i result hstep
        cases hscan
        exact Scan.reports_of_leave h hk hstep
      · rename_i t hstep
        cases hscan
        rw [position_advance hpos, ← current_of_peek? hpeek]
        exact Scan.reports_of_complete h hk hstep

theorem reports_of_token? (hp : p ≤ c.position) (htoken : c.token? limit = some (result, d)) :
    Reports p result d.position := by
  rw [token?, Option.map_eq_some_iff] at htoken
  obtain ⟨⟨_, k⟩, hscan, hnote⟩ := htoken
  cases hnote
  have hbegins : Scan.BeginsFrom p .blank := trivial
  have hreports : Reports p result k.position := reports_of_scan? hp hbegins hscan
  exact hreports

/-! ### Calls one after the other -/

variable {n : Nat} {results : List (Except LexicalError Token × Position)}

theorem le_of_mem_calls? (hp : p ≤ c.position) (hcalls : c.calls? limit n = some results) :
    ∀ r ∈ results, ∀ q ∈ reported r.1, p ≤ q := by
  induction n generalizing c results with
  | zero =>
    cases hcalls
    exact fun r hr => nomatch hr
  | succ n ih =>
    rw [calls?] at hcalls
    split at hcalls
    · cases hcalls
    · rename_i result d htoken
      obtain ⟨later, hlater, rfl⟩ := Option.map_eq_some_iff.1 hcalls
      intro r hr
      rcases List.mem_cons.1 hr with rfl | hr
      · exact (reports_of_token? hp htoken).le
      · exact ih ((isKept_le_position p).token? hp htoken) hlater r hr

theorem pairwise_calls? (hcalls : c.calls? limit n = some results) :
    results.Pairwise fun earlier later =>
      ∀ t, earlier.1 = .ok t → ∀ q ∈ reported later.1, t.behind ≤ q := by
  induction n generalizing c results with
  | zero =>
    cases hcalls
    exact .nil
  | succ n ih =>
    rw [calls?] at hcalls
    split at hcalls
    · cases hcalls
    · rename_i result d htoken
      obtain ⟨later, hlater, rfl⟩ := Option.map_eq_some_iff.1 hcalls
      refine .cons ?_ (ih hlater)
      intro r hr t ht
      have hbehind := (reports_of_token? (Position.le_refl c.position) htoken).behind t ht
      rw [hbehind]
      exact le_of_mem_calls? (Position.le_refl d.position) hlater r hr

end Cursor

/-- **Positions are faithful and ordered.** Whatever a cursor over any source has been asked for, its
position counts what it has moved past; positions in a text compare as the places do; and calls that
go on past errors report nothing ahead of the end of an earlier token. -/
theorem position_counts_past :
    (∀ {σ : Type} [Source σ] (s : σ) (demands : List Cursor.Demand),
      ((Cursor.ofSource s).meetAll demands).position
        = .ofPast ((Cursor.ofSource s).passedAll demands)) ∧
    (∀ (text : List Char) (i j : Fin (text.length + 1)),
      (Position.ofPast (text.take i)).order (Position.ofPast (text.take j)) = compare i j) ∧
    (∀ {σ : Type} [Source σ] (c : Cursor σ) (limit n : Nat)
      (results : List (Except LexicalError Token × Position)),
      c.calls? limit n = some results →
        results.Pairwise fun earlier later =>
          ∀ t, earlier.1 = .ok t → ∀ q ∈ reported later.1, t.behind ≤ q) := by
  refine ⟨?_, ?_, ?_⟩
  · intro σ _ s demands
    rw [Cursor.position_meetAll]
    exact Position.afterAll_start _
  · intro text i j
    exact Position.order_ofPast_take (Nat.le_of_lt_succ i.isLt) (Nat.le_of_lt_succ j.isLt)
  · intro σ _ c limit n results hcalls
    exact Cursor.pairwise_calls? hcalls

/-- A letter glued to a numeral is an error, and the calls go on with it in the same row. -/
theorem position_counts_past_of_glued_letter :
    let c := Cursor.ofSource ([0x31, 0x78, 0x0A, 0x32] : List UInt8)
    let results := [(.error (.unexpectedCharacter 'x' ⟨1, 2⟩), ⟨1, 2⟩),
      (.ok ⟨.identifier "x", ⟨1, 2⟩, ⟨1, 3⟩⟩, ⟨1, 3⟩),
      (.ok ⟨.integer 2, ⟨2, 1⟩, ⟨2, 2⟩⟩, ⟨2, 2⟩)]
    c.calls? 5 3 = some results ∧ results.Pairwise fun earlier later =>
      ∀ t, earlier.1 = .ok t → ∀ q ∈ reported later.1, t.behind ≤ q := by
  intro c results
  have hcalls : c.calls? 5 3 = some results := by
    have hreads : c.Reads .quiet ['1', 'x', '\n', '2'] :=
      Cursor.reads_ofSource (delivers_slice _)
    rw [Cursor.calls?_of_reads hreads (by decide)]
    decide +kernel
  exact ⟨hcalls, position_counts_past.2.2 c 5 3 results hcalls⟩

end BasicTokens
