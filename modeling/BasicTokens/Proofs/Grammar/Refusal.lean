import BasicTokens.Proofs.Grammar.Lexeme

/-!
# What is refused

`Refused here taken left e` is the grammar of errors: of a text that is to be read at `here`, the
part `taken` is lost, the part `left` stays ahead, and the error is `e`. Like the grammar of lexemes
it does not mention scans. The first character settles what is looked for, and a character that
cannot stand where it does goes before a value that is out of range.

Two results tie the grammars to the scans. A scan refuses what is refused, with that error and at
that place (`answer_of_refused`). And nothing lies between the two grammars: every text that begins
with no blank begins with a detached lexeme or is refused (`readOrRefused`).
-/

namespace BasicTokens

/-! ### The grammar -/

/-- The longest beginning of a text that is digits with at most one point. -/
structure IsNumeralOf (run text : List Char) : Prop where
  isPrefix : run <+: text
  isRun : IsNumeralRun run
  longest : ∀ other, other <+: text → IsNumeralRun other → other.length ≤ run.length

/-- Numerals whose value no number has: above 64 bits with a sign, or not finite. -/
inductive OutOfRange : List Char → Prop
  | integer {digits : List Char} : (∀ c ∈ digits, c.isDigit = true) →
      Int64.maxValue.toInt < Numeral.value digits → OutOfRange digits
  | float {whole places : List Char} : (∀ c ∈ whole, c.isDigit = true) →
      (∀ c ∈ places, c.isDigit = true) →
      Binary64.ofRatio? (Numeral.value (whole ++ places)) (Nat.pow 10 places.length) = none →
      OutOfRange (whole ++ '.' :: places)

inductive Refused (here : Position) : List Char → List Char → LexicalError → Prop
  | gluedNumeral {first c : Char} {more left : List Char} : first.isDigit = true →
      IsNumeralOf (first :: more) (first :: more ++ c :: left) → isBlank c = false →
      Refused here (first :: more) (c :: left)
        (.unexpectedCharacter c (here.afterAll (first :: more)))
  | outOfRange {first : Char} {more left : List Char} : first.isDigit = true →
      IsNumeralOf (first :: more) (first :: more ++ left) → AtBreak left →
      OutOfRange (first :: more) →
      Refused here (first :: more) left (.malformedNumber (String.ofList (first :: more)) here)
  | gluedWord {first c : Char} {more left : List Char} : first.isAlpha = true →
      (∀ d ∈ more, d.isAlphanum = true) → c.isAlphanum = false → isBlank c = false →
      Refused here (first :: more) (c :: left)
        (.unexpectedCharacter c (here.afterAll (first :: more)))
  | badEscape {body value : List Char} {c : Char} {left : List Char} : Encodes body value →
      (∀ d, (c, d) ∉ escapes) →
      Refused here ('\x22' :: (body ++ ['\\'])) (c :: left)
        (.unexpectedCharacter c (here.afterAll ('\x22' :: (body ++ ['\\']))))
  | unterminated {body value : List Char} : Encodes body value →
      Refused here ('\x22' :: body) [] (.unterminatedString here)
  | unterminatedEscape {body value : List Char} : Encodes body value →
      Refused here ('\x22' :: (body ++ ['\\'])) [] (.unterminatedString here)
  | unknown {first : Char} {more left : List Char} : IsSign first →
      (∀ d ∈ more, isBlank d = false) → AtBreak left →
      (∀ sign : Operator, first :: more ≠ sign.spelling.toList) →
      Refused here (first :: more) left (.unknownToken (String.ofList (first :: more)) here)

theorem Refused.exists_head {here : Position} {taken left : List Char} {e : LexicalError}
    (h : Refused here taken left e) :
    ∃ first more, taken = first :: more ∧ isBlank first = false := by
  cases h with
  | gluedNumeral hfirst => exact ⟨_, _, rfl, isBlank_of_isDigit hfirst⟩
  | outOfRange hfirst => exact ⟨_, _, rfl, isBlank_of_isDigit hfirst⟩
  | gluedWord hfirst => exact ⟨_, _, rfl, isBlank_of_isAlpha hfirst⟩
  | badEscape => exact ⟨_, _, rfl, by decide⟩
  | unterminated => exact ⟨_, _, rfl, by decide⟩
  | unterminatedEscape => exact ⟨_, _, rfl, by decide⟩
  | unknown hfirst => exact ⟨_, _, rfl, hfirst.1⟩

theorem Refused.isEndOfInput_eq_false {here : Position} {taken left : List Char} {e : LexicalError}
    (h : Refused here taken left e) : e.isEndOfInput = false := by
  cases h <;> rfl

/-! ### Longest beginnings -/

theorem isNumeralRun_concat_iff {run : List Char} {c : Char} :
    IsNumeralRun (run ++ [c]) ↔ IsNumeralRun run ∧ (c.isDigit = true ∨ c = '.' ∧ '.' ∉ run) := by
  constructor
  · intro h
    have hpoint := h.point
    rw [List.count_append] at hpoint
    refine ⟨⟨fun d hd => h.chars d (List.mem_append_left _ hd), by omega⟩, ?_⟩
    rcases h.chars c (by simp) with hdigit | rfl
    · exact .inl hdigit
    · refine .inr ⟨rfl, ?_⟩
      intro hmem
      have hone := List.one_le_count_iff.2 hmem
      rw [List.count_singleton_self] at hpoint
      omega
  · intro h
    obtain ⟨⟨hchars, hpoint⟩, hc⟩ := h
    refine ⟨?_, ?_⟩
    · intro d hd
      rcases List.mem_append.1 hd with hd | hd
      · exact hchars d hd
      · obtain rfl := List.mem_singleton.1 hd
        exact hc.imp_right And.left
    · rw [List.count_append]
      rcases hc with hdigit | ⟨rfl, hnone⟩
      · have hne := ne_point_of_isDigit hdigit
        rw [List.count_singleton, if_neg (by simpa using hne)]
        exact hpoint
      · have hzero := List.count_eq_zero_of_not_mem hnone
        have hone : ['.'].count '.' = 1 := List.count_singleton_self
        omega

theorem isNumeralRun_of_isPrefix {run text : List Char} (h : run <+: text)
    (htext : IsNumeralRun text) : IsNumeralRun run :=
  ⟨fun c hc => htext.chars c (h.subset hc), Nat.le_trans (h.sublist.count_le _) htext.point⟩

theorem isNumeralOf_iff {run left : List Char} :
    IsNumeralOf run (run ++ left)
      ↔ IsNumeralRun run ∧ ∀ c, left.head? = some c → ¬ IsNumeralRun (run ++ [c]) := by
  constructor
  · intro h
    refine ⟨h.isRun, ?_⟩
    intro c hc hrun
    obtain ⟨left, rfl⟩ : ∃ more, left = c :: more := List.head?_eq_some_iff.1 hc
    have hlong := h.longest (run ++ [c]) ⟨left, by simp⟩ hrun
    rw [List.length_append, List.length_singleton] at hlong
    omega
  · intro h
    obtain ⟨hrun, hnext⟩ := h
    refine ⟨List.prefix_append _ _, hrun, ?_⟩
    intro other hother hrun'
    apply Nat.le_of_not_lt
    intro hlt
    obtain ⟨more, rfl⟩ : run <+: other :=
      List.prefix_of_prefix_length_le (List.prefix_append _ _) hother (by omega)
    rw [List.prefix_append_right_inj] at hother
    cases more with
    | nil => simp at hlt
    | cons c more =>
      obtain ⟨tail, rfl⟩ := hother
      apply hnext c rfl
      apply isNumeralRun_of_isPrefix ⟨more, ?_⟩ hrun'
      simp

theorem exists_longest {P : List Char → Prop} (run text : List Char) (h : P run) :
    ∃ more left, text = more ++ left ∧ P (run ++ more)
      ∧ ∀ c, left.head? = some c → ¬ P (run ++ more ++ [c]) := by
  induction text generalizing run with
  | nil => exact ⟨[], [], rfl, by rwa [List.append_nil], fun c hc => by cases hc⟩
  | cons c text ih =>
    by_cases hc : P (run ++ [c])
    · obtain ⟨more, left, htext, hmore, hleft⟩ := ih _ hc
      rw [List.append_assoc] at hmore
      refine ⟨c :: more, left, by rw [htext]; rfl, hmore, fun d hd => ?_⟩
      have hnot := hleft d hd
      rwa [List.append_assoc run] at hnot
    · refine ⟨[], c :: text, rfl, by rwa [List.append_nil], fun d hd => ?_⟩
      cases hd
      rwa [List.append_nil]

theorem exists_span (p : Char → Bool) (text : List Char) :
    ∃ run left, text = run ++ left ∧ (∀ c ∈ run, p c = true)
      ∧ ∀ c, left.head? = some c → p c = false := by
  refine ⟨text.takeWhile p, text.dropWhile p, List.takeWhile_append_dropWhile.symm,
    fun c hc => List.all_eq_true.1 List.all_takeWhile c hc, fun c hc => ?_⟩
  have hnot := List.head?_dropWhile_not p text
  rw [hc] at hnot
  simpa using hnot

/-! ### A scan refuses what is refused -/

namespace Scan

theorem endNumeral_of_outOfRange {text : List Char} (h : OutOfRange text)
    (first here : Position) :
    endNumeral first text (text.contains '.') here
      = .error (.malformedNumber (String.ofList text) first) := by
  cases h with
  | @integer digits hdigits hvalue =>
    have hpoint := contains_point_of_isDigit hdigits
    have hnone : Numeral.integer? text = none := by
      refine Option.eq_none_iff_forall_ne_some.2 fun n hn => ?_
      have hle := n.toInt_le
      rw [Numeral.integer?_eq_some_iff.1 hn] at hle
      omega
    rw [hpoint, endNumeral, numeralLexeme?, hnone]
    rfl
  | @float whole places hwhole hplaces hvalue =>
    have hpoint : (whole ++ '.' :: places).contains '.' = true := by simp
    have hfloat := Numeral.float?_append hwhole places
    rw [hpoint, endNumeral, numeralLexeme?, if_pos rfl, hfloat, hvalue]
    rfl

theorem step_numeral_of_not {first here : Position} {run : List Char} {c : Char}
    (hrun : IsNumeralRun run) (hnot : ¬ IsNumeralRun (run ++ [c])) (hblank : isBlank c = false) :
    (numeral first run.reverse (run.contains '.')).step here c
      = .leave (.error (.unexpectedCharacter c here)) := by
  rw [isNumeralRun_concat_iff] at hnot
  have hdigit : c.isDigit = false := by
    rw [Bool.eq_false_iff]
    exact fun hd => hnot ⟨hrun, .inl hd⟩
  have hpoint : ¬ (c = '.' ∧ run.contains '.' = false) := by
    intro h
    obtain ⟨rfl, hfalse⟩ := h
    rw [List.contains_eq_mem, decide_eq_false_iff_not] at hfalse
    exact hnot ⟨hrun, .inr ⟨rfl, hfalse⟩⟩
  rw [step, if_neg (by simp [hdigit]), if_neg hpoint, if_neg (by simp [hblank])]

theorem step_word_of_not {first here : Position} {read : List Char} {c : Char}
    (hword : c.isAlphanum = false) (hblank : isBlank c = false) :
    (word first read).step here c = .leave (.error (.unexpectedCharacter c here)) := by
  rw [step, if_neg (by simp [hword]), if_neg (by simp [hblank])]

theorem run_blank_escape {body value : List Char} (h : Encodes body value) (here : Position) :
    blank.run here ('\x22' :: (body ++ ['\\']))
      = .pending (escape here value.reverse) (here.afterAll ('\x22' :: (body ++ ['\\']))) := by
  have hslash : ∀ there, (string here value.reverse).step there '\\'
      = .take (escape here value.reverse) := by
    simp [step]
  rw [← List.cons_append, run_append_of_pending (run_blank_string h here),
    run_cons_of_take (hslash _), Position.afterAll_append]
  rfl

theorem step_escape_of_not {first here : Position} {decoded : List Char} {c : Char}
    (h : ∀ d, (c, d) ∉ escapes) :
    (escape first decoded).step here c = .leave (.error (.unexpectedCharacter c here)) := by
  have hnone : unescape? c = none := by
    refine Option.eq_none_iff_forall_ne_some.2 fun d hd => ?_
    exact h d (unescape?_eq_some_iff.1 hd)
  rw [step, hnone]

theorem endSigns_of_not {text : List Char} (h : ∀ sign : Operator, text ≠ sign.spelling.toList)
    (first here : Position) :
    endSigns first text here = .error (.unknownToken (String.ofList text) first) := by
  have hnone : Operator.ofText? (String.ofList text) = none := by
    refine Option.eq_none_iff_forall_ne_some.2 fun sign hsign => ?_
    exact h sign (Operator.ofText?_eq_some_iff.1 hsign)
  rw [endSigns, hnone]

end Scan

theorem answer_of_leave {scan : Scan} {here there : Position} {text left : List Char} {c : Char}
    {result : Except LexicalError Token} (hrun : Scan.blank.run here text = .pending scan there)
    (hstep : scan.step there c = .leave result) :
    answer .quiet here (text ++ c :: left) = ⟨result, there, c :: left⟩ := by
  apply answer_of_decided
  rw [Scan.run_append_of_pending hrun, Scan.run_cons_of_leave hstep]

/-- What is refused is refused by a call, with the same error and at the same place. -/
theorem answer_of_refused {here : Position} {taken left : List Char} {e : LexicalError}
    (h : Refused here taken left e) :
    answer .quiet here (taken ++ left) = ⟨.error e, here.afterAll taken, left⟩ := by
  cases h with
  | @gluedNumeral first c more left hfirst hof hblank =>
    obtain ⟨hrun, hnext⟩ := isNumeralOf_iff.1 hof
    exact answer_of_leave (Scan.run_blank_numeral hfirst hrun here)
      (Scan.step_numeral_of_not hrun (hnext c rfl) hblank)
  | @outOfRange first more left hfirst hof hbreak hrange =>
    rw [answer_of_atBreak (Scan.run_blank_numeral hfirst hof.isRun here) trivial hbreak,
      Scan.finish, List.reverse_reverse, Scan.endNumeral_of_outOfRange hrange]
  | @gluedWord first c more left hfirst hmore hword hblank =>
    exact answer_of_leave (Scan.run_blank_word hfirst hmore here)
      (Scan.step_word_of_not hword hblank)
  | @badEscape body value c left hbody hescape =>
    exact answer_of_leave (Scan.run_blank_escape hbody here) (Scan.step_escape_of_not hescape)
  | unterminated hbody =>
    rw [List.append_nil, answer_of_pending (Scan.run_blank_string hbody here)]
    rfl
  | unterminatedEscape hbody =>
    rw [List.append_nil, answer_of_pending (Scan.run_blank_escape hbody here)]
    rfl
  | @unknown first more left hfirst hmore hbreak hsign =>
    rw [answer_of_atBreak (Scan.run_blank_signs hfirst hmore here) trivial hbreak,
      Scan.finish, List.reverse_reverse, Scan.endSigns_of_not hsign]

/-- The letter is refused, and not the value in front of it. -/
example : answer .quiet .start "99999999999999999999a".toList
    = ⟨.error (.unexpectedCharacter 'a' ⟨1, 21⟩), ⟨1, 21⟩, ['a']⟩ := rfl

theorem Refused.unique {here : Position} {taken taken' left left' : List Char}
    {e e' : LexicalError} (h : Refused here taken left e) (h' : Refused here taken' left' e')
    (htext : taken ++ left = taken' ++ left') : taken = taken' ∧ left = left' ∧ e = e' := by
  have hanswer := answer_of_refused h
  rw [htext, answer_of_refused h'] at hanswer
  simp only [Answer.mk.injEq, Except.error.injEq] at hanswer
  obtain ⟨rfl, -, rfl⟩ := hanswer
  exact ⟨List.append_cancel_right htext, rfl, rfl⟩

/-! ### What is refused whatever follows -/

/-- A beginning that is refused wherever it stands and whatever follows it. -/
def AlwaysRefused (text : List Char) : Prop :=
  ∀ here rest, ∃ taken left e, text ++ rest = taken ++ left ∧ Refused here taken left e

theorem alwaysRefused_of_gluedLetter {first c : Char} {more : List Char}
    (hfirst : first.isDigit = true) (hrun : IsNumeralRun (first :: more)) (hc : c.isAlpha = true)
    (left : List Char) : AlwaysRefused (first :: more ++ c :: left) := by
  intro here rest
  have hnot : ¬ IsNumeralRun (first :: more ++ [c]) := by
    intro hlonger
    rcases hlonger.chars c (by simp) with hdigit | rfl
    · rw [isDigit_of_isAlpha hc] at hdigit
      cases hdigit
    · cases hc
  have hof : IsNumeralOf (first :: more) (first :: more ++ c :: (left ++ rest)) := by
    refine isNumeralOf_iff.2 ⟨hrun, fun d hd => ?_⟩
    cases hd
    exact hnot
  exact ⟨_, _, _, by simp, .gluedNumeral hfirst hof (isBlank_of_isAlpha hc)⟩

theorem alwaysRefused_of_badEscape {body value : List Char} {c : Char} (hbody : Encodes body value)
    (hc : ∀ d, (c, d) ∉ escapes) (left : List Char) :
    AlwaysRefused ('\x22' :: (body ++ '\\' :: c :: left)) := by
  intro here rest
  exact ⟨_, c :: (left ++ rest), _, by simp, .badEscape hbody hc⟩

/-! ### Every text is read or refused -/

/-- A text begins with a detached lexeme, or it is refused. -/
def ReadOrRefused (here : Position) (text : List Char) : Prop :=
  (∃ spelling x rest, text = spelling ++ rest ∧ Spells spelling x ∧ Detached x rest)
    ∨ ∃ taken left e, text = taken ++ left ∧ Refused here taken left e

theorem spells_or_outOfRange {first : Char} {more : List Char} (hfirst : first.isDigit = true)
    (h : IsNumeralRun (first :: more)) :
    (∃ x, Spells (first :: more) x) ∨ OutOfRange (first :: more) := by
  by_cases hpoint : '.' ∈ first :: more
  · obtain ⟨whole, places, htext, hwhole⟩ := List.eq_append_cons_of_mem hpoint
    have hcount := h.point
    rw [htext, List.count_append, List.count_cons_self] at hcount
    have hplaces : '.' ∉ places := List.count_eq_zero.1 (by omega)
    have hdigits : ∀ part : List Char, '.' ∉ part → part ⊆ first :: more →
        ∀ c ∈ part, c.isDigit = true := by
      intro part hpart hsub c hc
      rcases h.chars c (hsub hc) with hdigit | rfl
      · exact hdigit
      · exact absurd hc hpart
    have hleft := hdigits whole hwhole (by rw [htext]; exact List.subset_append_left _ _)
    have hright := hdigits places hplaces (by rw [htext]; intro c hc; simp [hc])
    have hne : whole ≠ [] := by
      intro hnil
      rw [hnil, List.nil_append, List.cons.injEq] at htext
      rw [htext.1] at hfirst
      cases hfirst
    rw [htext]
    cases hvalue : Binary64.ofRatio? (Numeral.value (whole ++ places)) (Nat.pow 10 places.length) with
    | none => exact .inr (.float hleft hright hvalue)
    | some x => exact .inl ⟨_, .float hne hleft hright hvalue⟩
  · have hdigits : ∀ c ∈ first :: more, c.isDigit = true := by
      intro c hc
      rcases h.chars c hc with hdigit | rfl
      · exact hdigit
      · exact absurd hc hpoint
    have hmax : Int64.maxValue.toInt = 2 ^ 63 - 1 := by decide
    by_cases hvalue : Numeral.value (first :: more) < 2 ^ 63
    · have hn := Int64.toInt_ofNat_of_lt hvalue
      exact .inl ⟨_, .integer (List.cons_ne_nil _ _) hdigits hn⟩
    · exact .inr (.integer hdigits (by omega))

theorem atBreak_or (text : List Char) :
    AtBreak text ∨ ∃ c rest, text = c :: rest ∧ isBlank c = false := by
  cases text with
  | nil => exact .inl fun c hc => by cases hc
  | cons c rest =>
    cases hblank : isBlank c with
    | false => exact .inr ⟨c, rest, rfl, hblank⟩
    | true =>
      refine .inl fun d hd => ?_
      cases hd
      exact hblank

theorem readOrRefused_of_isDigit {first : Char} (hfirst : first.isDigit = true) (here : Position)
    (text : List Char) : ReadOrRefused here (first :: text) := by
  have hone : IsNumeralRun [first] := isNumeralRun_of_isDigit (by simpa using hfirst)
  obtain ⟨more, left, rfl, hrun, hnext⟩ := exists_longest [first] text hone
  have hof : IsNumeralOf (first :: more) (first :: more ++ left) := isNumeralOf_iff.2 ⟨hrun, hnext⟩
  rcases atBreak_or left with hbreak | ⟨c, left, rfl, hblank⟩
  · rcases spells_or_outOfRange hfirst hrun with ⟨x, hx⟩ | hrange
    · exact .inl ⟨_, x, left, rfl, hx, .inr hbreak⟩
    · exact .inr ⟨_, left, _, rfl, .outOfRange hfirst hof hbreak hrange⟩
  · exact .inr ⟨_, c :: left, _, rfl, .gluedNumeral hfirst hof hblank⟩

theorem readOrRefused_of_isAlpha {first : Char} (hfirst : first.isAlpha = true) (here : Position)
    (text : List Char) : ReadOrRefused here (first :: text) := by
  obtain ⟨more, left, rfl, hmore, hnext⟩ := exists_span Char.isAlphanum text
  rcases atBreak_or left with hbreak | ⟨c, left, rfl, hblank⟩
  · by_cases hword : ∃ word : Keyword, (first :: more).map Char.toLower = word.spelling.toList
    · obtain ⟨word, hword⟩ := hword
      exact .inl ⟨first :: more, _, left, rfl, .keyword hfirst hmore hword, .inr hbreak⟩
    · have hnone : ∀ word : Keyword, (first :: more).map Char.toLower ≠ word.spelling.toList :=
        fun word h => hword ⟨word, h⟩
      exact .inl ⟨first :: more, _, left, rfl, .identifier hfirst hmore hnone, .inr hbreak⟩
  · exact .inr ⟨first :: more, c :: left, _, rfl, .gluedWord hfirst hmore (hnext c rfl) hblank⟩

theorem readOrRefused_of_isSign {first : Char} (hfirst : IsSign first) (here : Position)
    (text : List Char) : ReadOrRefused here (first :: text) := by
  obtain ⟨more, left, rfl, hmore, hnext⟩ := exists_span (fun c => !isBlank c) text
  have hbreak : AtBreak left := fun c hc => by simpa using hnext c hc
  have hmore' : ∀ c ∈ more, isBlank c = false := fun c hc => by simpa using hmore c hc
  by_cases hsign : ∃ sign : Operator, first :: more = sign.spelling.toList
  · obtain ⟨sign, hsign⟩ := hsign
    refine .inl ⟨first :: more, .operator sign, left, rfl, ?_, .inr hbreak⟩
    rw [hsign]
    exact .operator sign
  · have hnone : ∀ sign : Operator, first :: more ≠ sign.spelling.toList :=
      fun sign h => hsign ⟨sign, h⟩
    exact .inr ⟨first :: more, left, _, rfl, .unknown hfirst hmore' hbreak hnone⟩

/-- Where reading the inside of a string stops: at the end of the text, between a backslash and the
end, at the mark, or at a backslash before a character that it does not go with. -/
def StopsString (left : List Char) : Prop :=
  left = [] ∨ left = ['\\'] ∨ (∃ rest, left = '\x22' :: rest)
    ∨ ∃ c rest, left = '\\' :: c :: rest ∧ ∀ d, (c, d) ∉ escapes

theorem exists_body : ∀ text : List Char,
    ∃ body value left, text = body ++ left ∧ Encodes body value ∧ StopsString left
  | [] => ⟨[], [], [], rfl, .nil, .inl rfl⟩
  | [c] => by
    by_cases hmark : c = '\x22'
    · exact ⟨[], [], _, rfl, .nil, .inr (.inr (.inl ⟨[], by rw [hmark]⟩))⟩
    · by_cases hslash : c = '\\'
      · exact ⟨[], [], _, rfl, .nil, .inr (.inl (by rw [hslash]))⟩
      · exact ⟨[c], [c], [], rfl, .raw hmark hslash .nil, .inl rfl⟩
  | c :: d :: rest => by
    by_cases hmark : c = '\x22'
    · exact ⟨[], [], _, rfl, .nil, .inr (.inr (.inl ⟨d :: rest, by rw [hmark]⟩))⟩
    · by_cases hslash : c = '\\'
      · subst hslash
        by_cases hescape : ∃ e, (d, e) ∈ escapes
        · obtain ⟨e, hescape⟩ := hescape
          obtain ⟨body, value, left, htext, hbody, hleft⟩ := exists_body rest
          refine ⟨'\\' :: d :: body, e :: value, left, ?_, .escaped hescape hbody, hleft⟩
          rw [htext]
          rfl
        · exact ⟨[], [], _, rfl, .nil,
            .inr (.inr (.inr ⟨d, rest, rfl, fun e he => hescape ⟨e, he⟩⟩))⟩
      · obtain ⟨body, value, left, htext, hbody, hleft⟩ := exists_body (d :: rest)
        refine ⟨c :: body, c :: value, left, ?_, .raw hmark hslash hbody, hleft⟩
        rw [htext]
        rfl

theorem readOrRefused_of_mark (here : Position) (text : List Char) :
    ReadOrRefused here ('\x22' :: text) := by
  obtain ⟨body, value, left, rfl, hbody, hleft⟩ := exists_body text
  rcases hleft with rfl | rfl | ⟨rest, rfl⟩ | ⟨c, rest, rfl, hescape⟩
  · exact .inr ⟨'\x22' :: body, [], _, rfl, .unterminated hbody⟩
  · exact .inr ⟨'\x22' :: (body ++ ['\\']), [], _, by simp, .unterminatedEscape hbody⟩
  · exact .inl ⟨'\x22' :: (body ++ ['\x22']), _, rest, by simp, .string hbody, .inl rfl⟩
  · exact .inr ⟨'\x22' :: (body ++ ['\\']), c :: rest, _, by simp, .badEscape hbody hescape⟩

/-- **Every text that begins with no blank begins with a detached lexeme or is refused.** -/
theorem readOrRefused {first : Char} (hfirst : isBlank first = false) (here : Position)
    (text : List Char) : ReadOrRefused here (first :: text) := by
  cases hdigit : first.isDigit with
  | true => exact readOrRefused_of_isDigit hdigit here text
  | false =>
    cases halpha : first.isAlpha with
    | true => exact readOrRefused_of_isAlpha halpha here text
    | false =>
      by_cases hmark : first = '\x22'
      · subst hmark
        exact readOrRefused_of_mark here text
      · exact readOrRefused_of_isSign ⟨hfirst, hdigit, halpha, hmark⟩ here text

end BasicTokens
