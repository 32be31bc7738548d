import BasicTokens.Proofs.Grammar.Token
import Mathlib

/-!
# Upper and lower case

Nothing but the look-up of reserved words takes two letters for the same. Yet outside of strings the
case of a letter decides nothing else either: a letter in lower case is of the same class as before,
an operator has no letters, and the characters of a word, of a run of signs and of an error are only
handed on. So a text in lower case gives what the text gives, with its names and its errors in lower
case (`step_lowered`, and from there for runs, calls and listings). Inside a string this fails, for
the letter behind a backslash has to be a small one.

Two texts that differ in the case of letters alone are the same text in lower case, and so their
items differ in the case of names and errors alone (`tokens_of_same_letters`). What is handed on is
the text as it stands: a name is what stands at the span of its token (`keepsNames_of_lists`).
-/

namespace BasicTokens

/-! ### Characters -/

theorem toNat_toLower (c : Char) :
    c.toLower.toNat = if 0x41 ≤ c.toNat ∧ c.toNat ≤ 0x5A then c.toNat + 0x20 else c.toNat := by
  have hupper : (c.val ≥ 'A'.val ∧ c.val ≤ 'Z'.val) ↔ 0x41 ≤ c.toNat ∧ c.toNat ≤ 0x5A := by
    simp [UInt32.le_iff_toNat_le]
  by_cases h : 0x41 ≤ c.toNat ∧ c.toNat ≤ 0x5A
  · rw [if_pos h, show c.toLower = _ from dif_pos (hupper.2 h)]
    show (c.toNat + 0x20) % 2 ^ 32 = _
    omega
  · rw [if_neg h, show c.toLower = c from dif_neg (mt hupper.1 h)]

theorem isLineBreak_iff {c : Char} :
    isLineBreak c = true ↔ (0x0A ≤ c.toNat ∧ c.toNat ≤ 0x0D) ∨ c.toNat = 0x85 := by
  simp [isLineBreak]

@[simp] theorem isLineBreak_toLower (c : Char) : isLineBreak c.toLower = isLineBreak c := by
  rw [Bool.eq_iff_iff, isLineBreak_iff, isLineBreak_iff, toNat_toLower]
  split_ifs <;> omega

@[simp] theorem isBlank_toLower (c : Char) : isBlank c.toLower = isBlank c := by
  rw [Bool.eq_iff_iff, isBlank_iff, isBlank_iff, toNat_toLower]
  split_ifs <;> omega

@[simp] theorem isDigit_toLower (c : Char) : c.toLower.isDigit = c.isDigit := by
  rw [Bool.eq_iff_iff, isDigit_iff, isDigit_iff, toNat_toLower]
  split_ifs <;> omega

@[simp] theorem isAlphanum_toLower (c : Char) : c.toLower.isAlphanum = c.isAlphanum := by
  change (c.toLower.isAlpha || c.toLower.isDigit) = (c.isAlpha || c.isDigit)
  rw [Char.isAlpha_toLower_eq_isAlpha, isDigit_toLower]

theorem toLower_eq_iff {c d : Char} (hd : d.isAlpha = false) : c.toLower = d ↔ c = d := by
  rw [Bool.eq_false_iff, Ne, isAlpha_iff] at hd
  rw [← Char.toNat_inj, ← Char.toNat_inj, toNat_toLower]
  split_ifs <;> omega

theorem toLower_of_isDigit {c : Char} (h : c.isDigit = true) : c.toLower = c := by
  refine (toLower_eq_iff ?_).2 rfl
  rw [Bool.eq_false_iff]
  intro halpha
  rw [isDigit_of_isAlpha halpha] at h
  cases h

@[simp] theorem Position.after_toLower (p : Position) (c : Char) :
    p.after c.toLower = p.after c := by
  rw [after, after, isLineBreak_toLower]

/-! ### What carries letters -/

/-- A text in lower case; only the ASCII letters change. -/
def lowered (text : List Char) : List Char :=
  text.map Char.toLower

@[simp] theorem lowered_nil : lowered [] = [] := rfl

@[simp] theorem lowered_cons (c : Char) (text : List Char) :
    lowered (c :: text) = c.toLower :: lowered text := rfl

@[simp] theorem lowered_lowered (text : List Char) : lowered (lowered text) = lowered text := by
  simp only [lowered, List.map_map]
  exact List.map_congr_left fun c _ => Char.toLower_toLower_eq_toLower c

theorem lowered_reverse (text : List Char) : (lowered text).reverse = lowered text.reverse :=
  List.map_reverse.symm

theorem mark_mem_lowered {text : List Char} : '\x22' ∈ lowered text ↔ '\x22' ∈ text := by
  constructor
  · intro h
    obtain ⟨c, hc, hlower⟩ := List.mem_map.1 h
    rwa [← (toLower_eq_iff (by decide)).1 hlower]
  · exact List.mem_map_of_mem

def Lexeme.lowered : Lexeme → Lexeme
  | identifier name => identifier (String.ofList (BasicTokens.lowered name.toList))
  | x => x

def Token.lowered (t : Token) : Token :=
  { t with lexeme := t.lexeme.lowered }

def LexicalError.lowered : LexicalError → LexicalError
  | unexpectedCharacter c p => unexpectedCharacter c.toLower p
  | unknownToken text p => unknownToken (String.ofList (BasicTokens.lowered text.toList)) p
  | e => e

def loweredResult : Except LexicalError Token → Except LexicalError Token
  | .ok t => .ok t.lowered
  | .error e => .error e.lowered

@[simp] theorem LexicalError.isEndOfInput_lowered (e : LexicalError) :
    e.lowered.isEndOfInput = e.isEndOfInput := by
  cases e <;> rfl

theorem Lexeme.lowered_eq_keyword_iff {x : Lexeme} {word : Keyword} :
    x.lowered = .keyword word ↔ x = .keyword word := by
  cases x <;> simp [lowered]

def Answer.lowered (a : Answer) : Answer :=
  ⟨loweredResult a.result, a.here, BasicTokens.lowered a.rest⟩

namespace Scan

def lowered : Scan → Scan
  | word first read => word first (BasicTokens.lowered read)
  | signs first read => signs first (BasicTokens.lowered read)
  | scan => scan

def Step.lowered : Step → Step
  | take next => take next.lowered
  | leave result => leave (loweredResult result)
  | complete token => complete token.lowered

def Progress.lowered : Progress → Progress
  | pending scan here => pending scan.lowered here
  | decided answer => decided answer.lowered

def IsUnquoted : Scan → Prop
  | string _ _ | escape _ _ => False
  | _ => True

end Scan

/-! ### Look-ups -/

theorem Keyword.ofWord?_lowered (text : List Char) :
    ofWord? (String.ofList (lowered text)) = ofWord? (String.ofList text) := by
  have hfold : fold (String.ofList (lowered text)) = fold (String.ofList text) := by
    rw [fold, fold, String.toList_ofList, String.toList_ofList]
    exact lowered_lowered text
  rw [ofWord?, ofWord?, hfold]

theorem Operator.isAlpha_of_mem_spelling (sign : Operator) :
    ∀ c ∈ sign.spelling.toList, c.isAlpha = false := by
  have hnone : (sign.spelling.toList.all fun c => !c.isAlpha) = true := by
    cases sign <;> rfl
  intro c hc
  simpa using List.all_eq_true.1 hnone c hc

theorem lowered_eq_iff {text signs : List Char} (h : ∀ c ∈ signs, c.isAlpha = false) :
    lowered text = signs ↔ text = signs := by
  induction text generalizing signs with
  | nil => rfl
  | cons c text ih =>
    cases signs with
    | nil => simp
    | cons d signs =>
      obtain ⟨hd, hsigns⟩ := List.forall_mem_cons.1 h
      rw [lowered_cons, List.cons.injEq, List.cons.injEq, toLower_eq_iff hd, ih hsigns]

theorem Operator.ofText?_lowered (text : List Char) :
    ofText? (String.ofList (lowered text)) = ofText? (String.ofList text) := by
  ext sign
  rw [ofText?_eq_some_iff, ofText?_eq_some_iff, lowered_eq_iff sign.isAlpha_of_mem_spelling]

/-! ### Steps and runs -/

namespace Scan

theorem opening_lowered (here : Position) {c : Char} (hc : c ≠ '\x22') :
    opening here c.toLower = (opening here c).lowered := by
  have hmark : c.toLower ≠ '\x22' := mt (toLower_eq_iff (by decide)).1 hc
  unfold opening
  rw [isDigit_toLower, Char.isAlpha_toLower_eq_isAlpha, if_neg hmark, if_neg hc]
  split_ifs with hdigit halpha
  · rw [toLower_of_isDigit hdigit]
    rfl
  · rfl
  · rfl

theorem endNumeral_lowered (first : Position) (text : List Char) (pointed : Bool)
    (here : Position) :
    loweredResult (endNumeral first text pointed here) = endNumeral first text pointed here := by
  unfold endNumeral numeralLexeme?
  cases pointed with
  | true => cases Numeral.float? text <;> rfl
  | false => cases Numeral.integer? text <;> rfl

theorem endWord_lowered (first : Position) (text : List Char) (here : Position) :
    endWord first (BasicTokens.lowered text) here = loweredResult (endWord first text here) := by
  unfold endWord wordLexeme
  rw [Keyword.ofWord?_lowered]
  cases Keyword.ofWord? (String.ofList text) with
  | some word => rfl
  | none => simp [loweredResult, Token.lowered, Lexeme.lowered]

theorem endSigns_lowered (first : Position) (text : List Char) (here : Position) :
    endSigns first (BasicTokens.lowered text) here = loweredResult (endSigns first text here) := by
  unfold endSigns
  rw [Operator.ofText?_lowered]
  cases Operator.ofText? (String.ofList text) with
  | some sign => rfl
  | none => simp [loweredResult, LexicalError.lowered]

theorem finish_lowered (scan : Scan) (here : Position) :
    scan.lowered.finish here = loweredResult (scan.finish here) := by
  cases scan with
  | blank => rfl
  | numeral first read pointed => exact (endNumeral_lowered first read.reverse pointed here).symm
  | word first read =>
    rw [lowered, finish, finish, lowered_reverse]
    exact endWord_lowered first read.reverse here
  | signs first read =>
    rw [lowered, finish, finish, lowered_reverse]
    exact endSigns_lowered first read.reverse here
  | string first decoded => rfl
  | escape first decoded => rfl

theorem isUnquoted_opening (here : Position) {c : Char} (hc : c ≠ '\x22') :
    (opening here c).IsUnquoted := by
  unfold opening
  split_ifs <;> trivial

/-- Without a mark no scan gets into a string. -/
theorem isUnquoted_of_take {scan next : Scan} {here : Position} {c : Char} (h : scan.IsUnquoted)
    (hc : c ≠ '\x22') (hstep : scan.step here c = .take next) : next.IsUnquoted := by
  cases scan with
  | blank =>
    cases hstep
    split
    · trivial
    · exact isUnquoted_opening here hc
  | numeral first read pointed =>
    simp only [step] at hstep
    split_ifs at hstep <;> cases hstep <;> trivial
  | word first read =>
    simp only [step] at hstep
    split_ifs at hstep
    cases hstep
    trivial
  | signs first read =>
    simp only [step] at hstep
    split_ifs at hstep
    cases hstep
    trivial
  | string first decoded => cases h
  | escape first decoded => cases h

theorem step_lowered {scan : Scan} (h : scan.IsUnquoted) (here : Position) {c : Char}
    (hc : c ≠ '\x22') : scan.lowered.step here c.toLower = (scan.step here c).lowered := by
  cases scan with
  | blank =>
    simp only [lowered, step, Step.lowered, isBlank_toLower, opening_lowered here hc]
    split <;> rfl
  | numeral first read pointed =>
    have hpoint : c.toLower = '.' ↔ c = '.' := toLower_eq_iff (by decide)
    simp only [lowered, step, isDigit_toLower, isBlank_toLower, hpoint]
    split_ifs with hdigit hpoint hblank
    · rw [toLower_of_isDigit hdigit]
      rfl
    · rw [hpoint.1]
      rfl
    · exact congrArg Step.leave (endNumeral_lowered first read.reverse pointed here).symm
    · rfl
  | word first read =>
    simp only [lowered, step, isAlphanum_toLower, isBlank_toLower, lowered_reverse,
      endWord_lowered]
    split_ifs <;> rfl
  | signs first read =>
    simp only [lowered, step, isBlank_toLower, lowered_reverse, endSigns_lowered]
    split_ifs <;> rfl
  | string first decoded => cases h
  | escape first decoded => cases h

theorem run_lowered {scan : Scan} (h : scan.IsUnquoted) (here : Position) {text : List Char}
    (htext : '\x22' ∉ text) :
    scan.lowered.run here (BasicTokens.lowered text) = (scan.run here text).lowered := by
  induction text generalizing scan here with
  | nil => rfl
  | cons c text ih =>
    have hc : c ≠ '\x22' := fun hmark => htext (hmark ▸ List.mem_cons_self)
    have hrest : '\x22' ∉ text := fun hmark => htext (List.mem_cons_of_mem c hmark)
    have hstep := step_lowered h here hc
    cases hs : scan.step here c with
    | take next =>
      rw [hs] at hstep
      rw [lowered_cons, run_cons_of_take hs, run_cons_of_take hstep, Position.after_toLower]
      exact ih (isUnquoted_of_take h hc hs) _ hrest
    | leave result =>
      rw [hs] at hstep
      rw [lowered_cons, run_cons_of_leave hs, run_cons_of_leave hstep]
      rfl
    | complete token =>
      rw [hs] at hstep
      rw [lowered_cons, run_cons_of_complete hs, run_cons_of_complete hstep,
        Position.after_toLower]
      rfl

end Scan

/-! ### Calls and listings -/

theorem answer_lowered (here : Position) {text : List Char} (htext : '\x22' ∉ text) :
    answer .quiet here (lowered text) = (answer .quiet here text).lowered := by
  have hblank : Scan.blank.IsUnquoted := trivial
  have hrun := Scan.run_lowered hblank here htext
  cases hs : Scan.blank.run here text with
  | pending scan there =>
    rw [hs] at hrun
    rw [answer_of_pending hs, answer_of_pending hrun]
    exact congrArg (Answer.mk · there []) (scan.finish_lowered there)
  | decided a =>
    rw [hs] at hrun
    rw [answer_of_decided hs, answer_of_decided hrun]

theorem rest_isSuffix (ending : Ending) (here : Position) (text : List Char) :
    (answer ending here text).rest <:+ text := by
  cases hrun : Scan.blank.run here text with
  | pending scan there =>
    rw [answer_of_pending hrun]
    exact List.nil_suffix
  | decided a =>
    rw [answer_of_decided hrun]
    obtain ⟨taken, htext, -⟩ := Scan.exists_taken_of_run_decided hrun
    exact ⟨taken, htext.symm⟩

theorem Lists.lowered {here last : Position} {text unread : List Char}
    {items : List (Except LexicalError Token)} (h : Lists .quiet here text items last unread)
    (htext : '\x22' ∉ text) :
    Lists .quiet here (lowered text) (items.map loweredResult) last (lowered unread) := by
  induction h with
  | stop ha he =>
    refine .stop ?_ ((LexicalError.isEndOfInput_lowered _).trans he)
    rw [answer_lowered _ htext, ha]
    rfl
  | fail ha he =>
    refine .fail ?_ ((LexicalError.isEndOfInput_lowered _).trans he)
    rw [answer_lowered _ htext, ha]
    rfl
  | @token here text t there rest items last unread ha _ ih =>
    have hrest : '\x22' ∉ rest := by
      have hsuffix := rest_isSuffix .quiet here text
      rw [ha] at hsuffix
      exact mt (hsuffix.subset ·) htext
    refine .token ?_ (ih hrest)
    rw [answer_lowered _ htext, ha]
    rfl

/-! ### Names -/

/-- Every name among the items stands in the text just so, at the span of its token. -/
def KeepsNames (here : Position) (text : List Char) (items : List (Except LexicalError Token)) :
    Prop :=
  ∀ name first behind, .ok ⟨.identifier name, first, behind⟩ ∈ items →
    ∃ before after, text = before ++ (name.toList ++ after) ∧ first = here.afterAll before
      ∧ behind = first.afterAll name.toList

theorem Spells.toList_name {spelling : List Char} {name : String}
    (h : Spells spelling (.identifier name)) : name.toList = spelling := by
  cases h with
  | identifier => exact String.toList_ofList

theorem keepsNames_of_lists {here last : Position} {text unread : List Char}
    {items : List (Except LexicalError Token)} (h : Lists .quiet here text items last unread) :
    KeepsNames here text items := by
  induction h with
  | stop => exact fun _ _ _ hmem => absurd hmem List.not_mem_nil
  | fail =>
    intro name first behind hmem
    cases List.mem_singleton.1 hmem
  | @token here text t there rest items last unread ha _ ih =>
    obtain ⟨rfl, gap, spelling, hat⟩ := exists_tokenAt ha
    intro name first behind hmem
    rcases List.mem_cons.1 hmem with heq | hmem
    · cases heq
      have hname := hat.spells.toList_name
      refine ⟨gap, rest, ?_, hat.first, ?_⟩
      · rw [hname, hat.text_eq]
      · rw [hname]
        exact hat.behind
    · obtain ⟨before, after, hrest, hfirst, hbehind⟩ := ih name first behind hmem
      refine ⟨gap ++ (spelling ++ before), after, ?_, ?_, hbehind⟩
      · rw [hat.text_eq, hrest]
        simp only [List.append_assoc]
      · rw [hfirst, hat.behind, hat.first, Position.afterAll_append, Position.afterAll_append]

/-! ### Two texts -/

/-- What the items of two texts have in common that differ in the case of letters alone. -/
structure AgreeButForCase (text other : List Char)
    (items items' : List (Except LexicalError Token)) : Prop where
  /-- Item by item they are the same, at the same positions, once names and errors are in lower
  case. -/
  lowered : items.map loweredResult = items'.map loweredResult
  names : KeepsNames .start text items
  names' : KeepsNames .start other items'
  keywords : ∀ (i : Nat) (t u : Token), items[i]? = some (.ok t) → items'[i]? = some (.ok u) →
    ∀ word, t.lexeme = .keyword word ↔ u.lexeme = .keyword word

theorem keyword_iff_of_lowered {items items' : List (Except LexicalError Token)}
    (h : items.map loweredResult = items'.map loweredResult) {i : Nat} {t u : Token}
    (ht : items[i]? = some (.ok t)) (hu : items'[i]? = some (.ok u)) (word : Keyword) :
    t.lexeme = .keyword word ↔ u.lexeme = .keyword word := by
  have hi := congrArg (·[i]?) h
  simp only [List.getElem?_map, ht, hu, Option.map_some, loweredResult, Option.some.injEq,
    Except.ok.injEq] at hi
  have hlexeme : t.lexeme.lowered = u.lexeme.lowered := congrArg Token.lexeme hi
  rw [← Lexeme.lowered_eq_keyword_iff, hlexeme, Lexeme.lowered_eq_keyword_iff]

/-- **The case of letters matters to reserved words only, and there it is ignored.** Two texts
without strings that are the same but for the case of letters have the same items but for the case
of names and of what errors quote, and every name is handed on as it stands in its own text. -/
theorem tokens_of_same_letters {bytes others : List UInt8}
    (hcase : lowered (textOf bytes) = lowered (textOf others)) (hmark : '\x22' ∉ textOf bytes) :
    AgreeButForCase (textOf bytes) (textOf others) (Cursor.ofSource bytes).tokens.1
      (Cursor.ofSource others).tokens.1 := by
  obtain ⟨last, unread, hlist⟩ := Cursor.exists_lists_tokens bytes
  obtain ⟨last', unread', hlist'⟩ := Cursor.exists_lists_tokens others
  have hmark' : '\x22' ∉ textOf others := by
    rwa [← mark_mem_lowered, ← hcase, mark_mem_lowered]
  -- both are listed in lower case, and there they are one text
  have hlowered := hlist.lowered hmark
  rw [hcase] at hlowered
  have hitems := (hlowered.unique (hlist'.lowered hmark')).1
  exact ⟨hitems, keepsNames_of_lists hlist, keepsNames_of_lists hlist',
    fun _ _ _ ht hu => keyword_iff_of_lowered hitems ht hu⟩

/-- A keyword, a name and an error, in two mixtures of case. -/
theorem tokens_of_same_letters_of_mixed_case :
    let bytes : List UInt8 := [0x4F, 0x72, 0x20, 0x61, 0x31, 0x20, 0x40, 0x78]
    let others : List UInt8 := [0x6F, 0x52, 0x20, 0x41, 0x31, 0x20, 0x40, 0x58]
    lowered (textOf bytes) = lowered (textOf others) ∧ '\x22' ∉ textOf bytes ∧
      AgreeButForCase (textOf bytes) (textOf others) (Cursor.ofSource bytes).tokens.1
        (Cursor.ofSource others).tokens.1 := by
  have hcase : lowered (textOf [0x4F, 0x72, 0x20, 0x61, 0x31, 0x20, 0x40, 0x78])
      = lowered (textOf [0x6F, 0x52, 0x20, 0x41, 0x31, 0x20, 0x40, 0x58]) := by decide
  have hmark : '\x22' ∉ textOf [0x4F, 0x72, 0x20, 0x61, 0x31, 0x20, 0x40, 0x78] := by decide
  exact ⟨hcase, hmark, tokens_of_same_letters hcase hmark⟩

end BasicTokens
