import BasicTokens.Proofs.Scan.Text

/-!
# What lexemes are written as

`Spells text lexeme` is the grammar of lexemes: digits, digits with a point, words, operators and
strings, each with what it denotes. It does not mention scans. What may follow a lexeme is a rule
apart from it (`Detached`): anything behind a string, and a blank or nothing behind all others.

The main result is that a scan reads every lexeme that is detached from what follows it, with what
it denotes and with its span (`answer_of_spells`). It rests on one fact about the scans that are no
strings: a blank does to them what the end of the text does (`step_of_isBlank`).
-/

namespace BasicTokens

/-! ### Classes of characters -/

theorem isBlank_iff {c : Char} :
    isBlank c = true ↔
      (0x09 ≤ c.toNat ∧ c.toNat ≤ 0x0D) ∨ c.toNat = 0x20 ∨ c.toNat = 0x85 ∨ c.toNat = 0xA0 := by
  simp only [isBlank, isLineBreak, Bool.or_eq_true, Bool.and_eq_true, decide_eq_true_eq, beq_iff_eq]
  omega

theorem isDigit_iff {c : Char} : c.isDigit = true ↔ 0x30 ≤ c.toNat ∧ c.toNat ≤ 0x39 := by
  simp [Char.isDigit, UInt32.le_iff_toNat_le]

theorem isAlpha_iff {c : Char} :
    c.isAlpha = true ↔ (0x41 ≤ c.toNat ∧ c.toNat ≤ 0x5A) ∨ (0x61 ≤ c.toNat ∧ c.toNat ≤ 0x7A) := by
  have hupper : c.isUpper = true ↔ 0x41 ≤ c.toNat ∧ c.toNat ≤ 0x5A := by
    change decide ('A'.val ≤ c.val ∧ c.val ≤ 'Z'.val) = true ↔ _
    simp [UInt32.le_iff_toNat_le]
  have hlower : c.isLower = true ↔ 0x61 ≤ c.toNat ∧ c.toNat ≤ 0x7A := by
    change (decide ('a'.val ≤ c.val) && decide (c.val ≤ 'z'.val)) = true ↔ _
    simp [UInt32.le_iff_toNat_le]
  change (c.isUpper || c.isLower) = true ↔ _
  rw [Bool.or_eq_true, hupper, hlower]

theorem isBlank_of_isDigit {c : Char} (h : c.isDigit = true) : isBlank c = false := by
  rw [isDigit_iff] at h
  rw [Bool.eq_false_iff, Ne, isBlank_iff]
  omega

theorem isBlank_of_isAlpha {c : Char} (h : c.isAlpha = true) : isBlank c = false := by
  rw [isAlpha_iff] at h
  rw [Bool.eq_false_iff, Ne, isBlank_iff]
  omega

theorem isBlank_of_isAlphanum {c : Char} (h : c.isAlphanum = true) : isBlank c = false := by
  rcases Bool.or_eq_true_iff.1 h with h | h
  · exact isBlank_of_isAlpha h
  · exact isBlank_of_isDigit h

theorem isDigit_of_isAlpha {c : Char} (h : c.isAlpha = true) : c.isDigit = false := by
  rw [isAlpha_iff] at h
  rw [Bool.eq_false_iff, Ne, isDigit_iff]
  omega

theorem isAlphanum_of_mem_word {first : Char} {more : List Char} (hfirst : first.isAlpha = true)
    (hmore : ∀ c ∈ more, c.isAlphanum = true) : ∀ c ∈ first :: more, c.isAlphanum = true :=
  List.forall_mem_cons.2 ⟨Bool.or_eq_true_iff.2 (.inl hfirst), hmore⟩

theorem ne_point_of_isDigit {c : Char} (h : c.isDigit = true) : c ≠ '.' := by
  intro hpoint
  rw [hpoint] at h
  cases h

theorem point_notMem_of_isDigit {digits : List Char} (h : ∀ c ∈ digits, c.isDigit = true) :
    '.' ∉ digits := by
  intro hmem
  exact ne_point_of_isDigit (h _ hmem) rfl

theorem contains_point_of_isDigit {digits : List Char} (h : ∀ c ∈ digits, c.isDigit = true) :
    digits.contains '.' = false := by
  rw [List.contains_eq_mem, decide_eq_false_iff_not]
  exact point_notMem_of_isDigit h

/-! ### The grammar -/

/-- The characters that may follow a backslash in a string, and what the two stand for. -/
def escapes : List (Char × Char) :=
  [('\x22', '\x22'), ('\\', '\\'), ('n', '\n'), ('t', '\t'), ('r', '\r')]

/-- What stands between the marks of a string, and the characters it denotes. -/
inductive Encodes : List Char → List Char → Prop
  | nil : Encodes [] []
  | raw {c : Char} {body value : List Char} : c ≠ '\x22' → c ≠ '\\' → Encodes body value →
      Encodes (c :: body) (c :: value)
  | escaped {c d : Char} {body value : List Char} : (c, d) ∈ escapes → Encodes body value →
      Encodes ('\\' :: c :: body) (d :: value)

/-- A text that is a lexeme, and what it denotes. -/
inductive Spells : List Char → Lexeme → Prop
  | integer {digits : List Char} {n : Int64} : digits ≠ [] → (∀ c ∈ digits, c.isDigit = true) →
      n.toInt = Numeral.value digits → Spells digits (.integer n)
  | float {whole places : List Char} {x : Binary64} : whole ≠ [] →
      (∀ c ∈ whole, c.isDigit = true) → (∀ c ∈ places, c.isDigit = true) →
      Binary64.ofRatio? (Numeral.value (whole ++ places)) (Nat.pow 10 places.length) = some x →
      Spells (whole ++ '.' :: places) (.float x)
  | keyword {first : Char} {more : List Char} {word : Keyword} : first.isAlpha = true →
      (∀ c ∈ more, c.isAlphanum = true) →
      (first :: more).map Char.toLower = word.spelling.toList →
      Spells (first :: more) (.keyword word)
  | identifier {first : Char} {more : List Char} : first.isAlpha = true →
      (∀ c ∈ more, c.isAlphanum = true) →
      (∀ word : Keyword, (first :: more).map Char.toLower ≠ word.spelling.toList) →
      Spells (first :: more) (.identifier (String.ofList (first :: more)))
  | operator (sign : Operator) : Spells sign.spelling.toList (.operator sign)
  | string {body value : List Char} : Encodes body value →
      Spells ('\x22' :: (body ++ ['\x22'])) (.string (String.ofList value))

/-- The end of a text, or a blank. -/
def AtBreak (rest : List Char) : Prop :=
  ∀ c, rest.head? = some c → isBlank c = true

theorem atBreak_nil : AtBreak [] := fun _ hc => nomatch hc

def Lexeme.isString : Lexeme → Bool
  | .string _ => true
  | _ => false

/-- What may follow a lexeme. -/
def Detached (lexeme : Lexeme) (rest : List Char) : Prop :=
  lexeme.isString = true ∨ AtBreak rest

theorem Spells.exists_head {spelling : List Char} {x : Lexeme} (h : Spells spelling x) :
    ∃ first more, spelling = first :: more ∧ isBlank first = false := by
  cases h with
  | integer hne hdigits =>
    obtain ⟨d, digits, rfl⟩ := List.exists_cons_of_ne_nil hne
    exact ⟨d, digits, rfl, isBlank_of_isDigit (hdigits d List.mem_cons_self)⟩
  | @float whole places _ hne hwhole =>
    obtain ⟨d, whole, rfl⟩ := List.exists_cons_of_ne_nil hne
    exact ⟨d, whole ++ '.' :: places, rfl, isBlank_of_isDigit (hwhole d List.mem_cons_self)⟩
  | keyword hfirst => exact ⟨_, _, rfl, isBlank_of_isAlpha hfirst⟩
  | identifier hfirst => exact ⟨_, _, rfl, isBlank_of_isAlpha hfirst⟩
  | operator sign => cases sign <;> exact ⟨_, _, rfl, by decide⟩
  | string => exact ⟨_, _, rfl, by decide⟩

/-- Digits with at most one point among them. -/
structure IsNumeralRun (text : List Char) : Prop where
  chars : ∀ c ∈ text, c.isDigit = true ∨ c = '.'
  point : text.count '.' ≤ 1

theorem isNumeralRun_of_isDigit {digits : List Char} (h : ∀ c ∈ digits, c.isDigit = true) :
    IsNumeralRun digits := by
  refine ⟨fun c hc => .inl (h c hc), ?_⟩
  rw [List.count_eq_zero_of_not_mem (point_notMem_of_isDigit h)]
  exact Nat.zero_le _

theorem isNumeralRun_of_point {whole places : List Char} (hwhole : ∀ c ∈ whole, c.isDigit = true)
    (hplaces : ∀ c ∈ places, c.isDigit = true) : IsNumeralRun (whole ++ '.' :: places) := by
  refine ⟨?_, ?_⟩
  · intro c hc
    rcases List.mem_append.1 hc with hc | hc
    · exact .inl (hwhole c hc)
    · rcases List.mem_cons.1 hc with rfl | hc
      · exact .inr rfl
      · exact .inl (hplaces c hc)
  · have hbefore := List.count_eq_zero_of_not_mem (point_notMem_of_isDigit hwhole)
    have hbehind := List.count_eq_zero_of_not_mem (point_notMem_of_isDigit hplaces)
    rw [List.count_append, List.count_cons_self]
    omega

def IsSign (c : Char) : Prop :=
  isBlank c = false ∧ c.isDigit = false ∧ c.isAlpha = false ∧ c ≠ '\x22'

/-! ### What is denoted -/

theorem Numeral.integer?_eq_some_iff {text : List Char} {n : Int64} :
    Numeral.integer? text = some n ↔ n.toInt = Numeral.value text := by
  unfold Numeral.integer?
  have hmax : Int64.maxValue.toInt = 2 ^ 63 - 1 := by decide
  constructor
  · intro h
    split at h
    · rename_i hle
      cases h
      rw [Int64.toInt_ofNat_of_lt (by omega)]
    · cases h
  · intro h
    have hlt := n.toInt_lt
    rw [if_pos (by omega), Option.some.injEq, ← Int64.toInt_inj, h]
    rw [Int64.toInt_ofNat_of_lt (by omega)]

theorem Numeral.float?_append {whole : List Char} (h : ∀ c ∈ whole, c.isDigit = true)
    (places : List Char) :
    Numeral.float? (whole ++ '.' :: places)
      = Binary64.ofRatio? (Numeral.value (whole ++ places)) (Nat.pow 10 places.length) := by
  have hpoint : ∀ c ∈ whole, decide (c ≠ '.') = true := by
    intro c hc
    exact decide_eq_true (ne_point_of_isDigit (h c hc))
  have htake : (whole ++ '.' :: places).takeWhile (· ≠ '.') = whole := by
    rw [List.takeWhile_append_of_pos hpoint]
    simp
  have hdrop : (whole ++ '.' :: places).dropWhile (· ≠ '.') = '.' :: places := by
    rw [List.dropWhile_append_of_pos hpoint]
    simp
  rw [Numeral.float?, Numeral.whole, Numeral.places, htake, hdrop]
  rfl

theorem Keyword.ofWord?_eq_some_iff {text : List Char} {word : Keyword} :
    Keyword.ofWord? (String.ofList text) = some word
      ↔ text.map Char.toLower = word.spelling.toList := by
  have hfold : fold (String.ofList text) = text.map Char.toLower := by
    rw [fold, String.toList_ofList]
  constructor
  · intro h
    rw [ofWord?, List.find?_eq_some_iff_append] at h
    have hspelling := of_decide_eq_true h.1
    rw [← hfold, hspelling]
  · intro h
    rw [ofWord?, hfold, h]
    cases word <;> decide

theorem Operator.ofText?_eq_some_iff {text : List Char} {sign : Operator} :
    Operator.ofText? (String.ofList text) = some sign ↔ text = sign.spelling.toList := by
  constructor
  · intro h
    rw [ofText?, List.find?_eq_some_iff_append] at h
    have hspelling := of_decide_eq_true h.1
    rw [hspelling, String.toList_ofList]
  · rintro rfl
    rw [String.ofList_toList]
    cases sign <;> decide

/-! ### Scans over parts of a lexeme -/

namespace Scan

theorem unescape?_eq_some_iff {c d : Char} : unescape? c = some d ↔ (c, d) ∈ escapes := by
  constructor
  · intro h
    unfold unescape? at h
    split at h <;> cases h <;> decide
  · intro h
    simp only [escapes, List.mem_cons, Prod.mk.injEq, List.not_mem_nil, or_false] at h
    rcases h with ⟨rfl, rfl⟩ | ⟨rfl, rfl⟩ | ⟨rfl, rfl⟩ | ⟨rfl, rfl⟩ | ⟨rfl, rfl⟩ <;> rfl

theorem step_of_isBlank {scan : Scan} {c : Char} (hbare : scan.IsBare) (here : Position)
    (h : isBlank c = true) : scan.step here c = .leave (scan.finish here) := by
  have hdigit : c.isDigit = false := by
    refine Bool.eq_false_iff.2 fun hd => ?_
    rw [isBlank_of_isDigit hd] at h
    cases h
  have hword : c.isAlphanum = false := by
    refine Bool.eq_false_iff.2 fun hd => ?_
    rw [isBlank_of_isAlphanum hd] at h
    cases h
  have hpoint : c ≠ '.' := by
    rintro rfl
    cases h
  cases scan with
  | numeral first read pointed => simp [step, hdigit, hpoint, h, finish]
  | word first read => simp [step, hword, h, finish]
  | signs first read => simp [step, h, finish]
  | blank => cases hbare
  | string first decoded => cases hbare
  | escape first decoded => cases hbare

theorem run_blanks {gap : List Char} (h : ∀ c ∈ gap, isBlank c = true) (here : Position) :
    blank.run here gap = .pending blank (here.afterAll gap) := by
  induction gap generalizing here with
  | nil => rfl
  | cons c gap ih =>
    have hstep : blank.step here c = .take blank := by
      simp [step, h c List.mem_cons_self]
    rw [run_cons_of_take hstep]
    exact ih (fun d hd => h d (List.mem_cons_of_mem _ hd)) _

theorem run_opening {c : Char} (h : isBlank c = false) (here : Position) (rest : List Char) :
    blank.run here (c :: rest) = (opening here c).run (here.after c) rest := by
  have hstep : blank.step here c = .take (opening here c) := by simp [step, h]
  exact run_cons_of_take hstep rest

/-- Digits with at most one point, counting one that was read before. -/
theorem run_numeral {first : Position} {text : List Char} {read : List Char} {pointed : Bool}
    (h : ∀ c ∈ text, c.isDigit = true ∨ c = '.') (hcount : text.count '.' + pointed.toNat ≤ 1)
    (here : Position) :
    (numeral first read pointed).run here text
      = .pending (numeral first (text.reverse ++ read) (pointed || text.contains '.'))
          (here.afterAll text) := by
  induction text generalizing read pointed here with
  | nil => simp
  | cons c text ih =>
    have htail : ∀ c ∈ text, c.isDigit = true ∨ c = '.' := fun d hd =>
      h d (List.mem_cons_of_mem _ hd)
    rcases h c List.mem_cons_self with hdigit | rfl
    · have hpoint := ne_point_of_isDigit hdigit
      have hstep : (numeral first read pointed).step here c
          = .take (numeral first (c :: read) pointed) := by simp [step, hdigit]
      rw [List.count_cons_of_ne hpoint] at hcount
      rw [run_cons_of_take hstep, ih htail hcount]
      simp [Ne.symm hpoint]
    · rw [List.count_cons_self] at hcount
      obtain rfl : pointed = false := by
        cases pointed with
        | false => rfl
        | true => simp at hcount
      have hstep : (numeral first read false).step here '.'
          = .take (numeral first ('.' :: read) true) := by simp [step]
      rw [run_cons_of_take hstep, ih htail (by simpa using hcount)]
      simp

theorem run_word {first : Position} {text read : List Char}
    (h : ∀ c ∈ text, c.isAlphanum = true) (here : Position) :
    (word first read).run here text
      = .pending (word first (text.reverse ++ read)) (here.afterAll text) := by
  induction text generalizing read here with
  | nil => rfl
  | cons c text ih =>
    have hstep : (word first read).step here c = .take (word first (c :: read)) := by
      simp [step, h c List.mem_cons_self]
    rw [run_cons_of_take hstep, ih fun d hd => h d (List.mem_cons_of_mem _ hd)]
    simp

theorem run_signs {first : Position} {text read : List Char}
    (h : ∀ c ∈ text, isBlank c = false) (here : Position) :
    (signs first read).run here text
      = .pending (signs first (text.reverse ++ read)) (here.afterAll text) := by
  induction text generalizing read here with
  | nil => rfl
  | cons c text ih =>
    have hstep : (signs first read).step here c = .take (signs first (c :: read)) := by
      simp [step, h c List.mem_cons_self]
    rw [run_cons_of_take hstep, ih fun d hd => h d (List.mem_cons_of_mem _ hd)]
    simp

theorem run_string {first : Position} {body value decoded : List Char} (h : Encodes body value)
    (here : Position) :
    (string first decoded).run here body
      = .pending (string first (value.reverse ++ decoded)) (here.afterAll body) := by
  induction h generalizing decoded here with
  | nil => rfl
  | @raw c body value hmark hslash _ ih =>
    have hstep : (string first decoded).step here c = .take (string first (c :: decoded)) := by
      simp [step, hmark, hslash]
    rw [run_cons_of_take hstep, ih]
    simp
  | @escaped c d body value hescape _ ih =>
    have hslash : (string first decoded).step here '\\' = .take (escape first decoded) := by
      simp [step]
    have hstep : (escape first decoded).step (here.after '\\') c
        = .take (string first (d :: decoded)) := by
      simp [step, unescape?_eq_some_iff.2 hescape]
    rw [run_cons_of_take hslash, run_cons_of_take hstep, ih]
    simp

/-! ### Scans from the first character on -/

theorem run_blank_numeral {first : Char} {more : List Char} (hfirst : first.isDigit = true)
    (h : IsNumeralRun (first :: more)) (here : Position) :
    blank.run here (first :: more)
      = .pending (numeral here (first :: more).reverse ((first :: more).contains '.'))
          (here.afterAll (first :: more)) := by
  have hpoint := ne_point_of_isDigit hfirst
  have hcount := h.point
  rw [List.count_cons_of_ne hpoint] at hcount
  rw [run_opening (isBlank_of_isDigit hfirst), opening, if_pos hfirst,
    run_numeral (fun c hc => h.chars c (List.mem_cons_of_mem _ hc)) (by simpa using hcount)]
  simp [Ne.symm hpoint]

theorem run_blank_word {first : Char} {more : List Char} (hfirst : first.isAlpha = true)
    (h : ∀ c ∈ more, c.isAlphanum = true) (here : Position) :
    blank.run here (first :: more)
      = .pending (word here (first :: more).reverse) (here.afterAll (first :: more)) := by
  have hopening : opening here first = word here [first] := by
    simp [opening, isDigit_of_isAlpha hfirst, hfirst]
  rw [run_opening (isBlank_of_isAlpha hfirst), hopening, run_word h]
  simp

theorem run_blank_signs {first : Char} {more : List Char} (hfirst : IsSign first)
    (h : ∀ c ∈ more, isBlank c = false) (here : Position) :
    blank.run here (first :: more)
      = .pending (signs here (first :: more).reverse) (here.afterAll (first :: more)) := by
  obtain ⟨hblank, hdigit, halpha, hmark⟩ := hfirst
  have hopening : opening here first = signs here [first] := by
    simp [opening, hdigit, halpha, hmark]
  rw [run_opening hblank, hopening, run_signs h]
  simp

theorem run_blank_string {body value : List Char} (h : Encodes body value) (here : Position) :
    blank.run here ('\x22' :: body)
      = .pending (string here value.reverse) (here.afterAll ('\x22' :: body)) := by
  have hblank : isBlank '\x22' = false := by decide
  rw [run_opening hblank, opening]
  show (string here []).run (here.after '\x22') body = _
  rw [run_string h, List.append_nil]
  rfl

theorem exists_run_of_spells {text : List Char} {x : Lexeme} (h : Spells text x)
    (hstring : x.isString = false) (here : Position) :
    ∃ scan, blank.run here text = .pending scan (here.afterAll text) ∧ scan.IsBare
      ∧ ∀ there, scan.finish there = .ok ⟨x, here, there⟩ := by
  cases h with
  | @integer digits n hne hdigits hvalue =>
    have hpoint := contains_point_of_isDigit hdigits
    obtain ⟨d, digits, rfl⟩ := List.exists_cons_of_ne_nil hne
    refine ⟨_, run_blank_numeral (hdigits d List.mem_cons_self) (isNumeralRun_of_isDigit hdigits)
      here, trivial, fun there => ?_⟩
    rw [finish, List.reverse_reverse, hpoint, endNumeral, numeralLexeme?,
      Numeral.integer?_eq_some_iff.2 hvalue]
    rfl
  | @float whole places value hne hwhole hplaces hvalue =>
    have hfloat := Numeral.float?_append hwhole places
    rw [hvalue] at hfloat
    have hpoint : (whole ++ '.' :: places).contains '.' = true := by simp
    have hrun := isNumeralRun_of_point hwhole hplaces
    obtain ⟨d, whole, rfl⟩ := List.exists_cons_of_ne_nil hne
    refine ⟨_, run_blank_numeral (hwhole d List.mem_cons_self) hrun here, trivial,
      fun there => ?_⟩
    rw [finish, List.reverse_reverse]
    show endNumeral here (d :: whole ++ '.' :: places)
      ((d :: whole ++ '.' :: places).contains '.') there = _
    rw [hpoint, endNumeral, numeralLexeme?, if_pos rfl, hfloat]
    rfl
  | @keyword first more word hfirst hmore hword =>
    refine ⟨_, run_blank_word hfirst hmore here, trivial, fun there => ?_⟩
    rw [finish, List.reverse_reverse, endWord, wordLexeme, Keyword.ofWord?_eq_some_iff.2 hword]
  | @identifier first more hfirst hmore hword =>
    have hnone : Keyword.ofWord? (String.ofList (first :: more)) = none := by
      refine Option.eq_none_iff_forall_ne_some.2 fun word hsome => ?_
      exact hword word (Keyword.ofWord?_eq_some_iff.1 hsome)
    refine ⟨_, run_blank_word hfirst hmore here, trivial, fun there => ?_⟩
    rw [finish, List.reverse_reverse, endWord, wordLexeme, hnone]
  | operator sign =>
    have hsigns : ∃ first more, sign.spelling.toList = first :: more ∧ IsSign first
        ∧ more.all (fun c => !isBlank c) = true := by
      cases sign <;> exact ⟨_, _, rfl, by unfold IsSign; decide, by decide⟩
    obtain ⟨first, more, hspelling, hfirst, hall⟩ := hsigns
    have hmore : ∀ c ∈ more, isBlank c = false := by simpa using hall
    rw [hspelling]
    refine ⟨_, run_blank_signs hfirst hmore here, trivial, fun there => ?_⟩
    rw [finish, List.reverse_reverse, endSigns, Operator.ofText?_eq_some_iff.2 hspelling.symm]
  | string => cases hstring

end Scan

/-! ### Answers -/

theorem answer_of_atBreak {scan : Scan} {here there : Position} {text rest : List Char}
    (hrun : Scan.blank.run here text = .pending scan there) (hbare : scan.IsBare)
    (hbreak : AtBreak rest) :
    answer .quiet here (text ++ rest) = ⟨scan.finish there, there, rest⟩ := by
  cases rest with
  | nil =>
    rw [List.append_nil, answer_of_pending hrun]
    rfl
  | cons c rest =>
    have hstep := Scan.step_of_isBlank hbare there (hbreak c rfl)
    apply answer_of_decided
    rw [Scan.run_append_of_pending hrun, Scan.run_cons_of_leave hstep]

/-- Every lexeme is read as what it denotes, whatever follows it as far as it may follow it. -/
theorem answer_of_spells {text rest : List Char} {x : Lexeme} (h : Spells text x)
    (hdetached : Detached x rest) (here : Position) :
    answer .quiet here (text ++ rest)
      = ⟨.ok ⟨x, here, here.afterAll text⟩, here.afterAll text, rest⟩ := by
  cases hstring : x.isString with
  | false =>
    obtain ⟨scan, hrun, hbare, hfinish⟩ := Scan.exists_run_of_spells h hstring here
    have hbreak : AtBreak rest := by
      rcases hdetached with hd | hd
      · rw [hstring] at hd
        cases hd
      · exact hd
    rw [answer_of_atBreak hrun hbare hbreak, hfinish]
  | true =>
    cases h with
    | @string body value hbody =>
      have hclose : ∀ there, (Scan.string here value.reverse).step there '\x22'
          = .complete ⟨.string (String.ofList value), here, there.after '\x22'⟩ := by
        simp [Scan.step]
      apply answer_of_decided
      rw [← List.cons_append, List.append_assoc,
        Scan.run_append_of_pending (Scan.run_blank_string hbody here),
        List.singleton_append, Scan.run_cons_of_complete (hclose _), Position.afterAll_append]
      rfl
    | integer => cases hstring
    | float => cases hstring
    | keyword => cases hstring
    | identifier => cases hstring
    | operator => cases hstring

example : answer .quiet .start ['\x22', 'a', '\x22', '1']
    = ⟨.ok ⟨.string "a", ⟨1, 1⟩, ⟨1, 4⟩⟩, ⟨1, 4⟩, ['1']⟩ := rfl

theorem answer_blanks {gap : List Char} (h : ∀ c ∈ gap, isBlank c = true) (ending : Ending)
    (here : Position) (text : List Char) :
    answer ending here (gap ++ text) = answer ending (here.afterAll gap) text := by
  rw [answer, Scan.run_append_of_pending (Scan.run_blanks h here)]
  rfl

theorem spells_unique {spelling spelling' rest rest' : List Char} {x x' : Lexeme}
    (h : Spells spelling x) (hdetached : Detached x rest) (h' : Spells spelling' x')
    (hdetached' : Detached x' rest') (htext : spelling ++ rest = spelling' ++ rest') :
    spelling = spelling' ∧ x = x' ∧ rest = rest' := by
  have hread := answer_of_spells h hdetached .start
  rw [htext, answer_of_spells h' hdetached' .start] at hread
  simp only [Answer.mk.injEq, Except.ok.injEq, Token.mk.injEq] at hread
  obtain ⟨⟨hx, -, -⟩, -, rfl⟩ := hread
  exact ⟨List.append_cancel_right htext, hx.symm, rfl⟩

end BasicTokens
