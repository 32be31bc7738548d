import BasicTokens.Proofs.Scan.Text
import Mathlib.Tactic.SplitIfs

/-!
# What a text decides whatever follows it

The items of a text are decided by its characters, except perhaps the last one. If the text ends in
the middle of a numeral, a word, a run of signs or a string, then only the end of the text decides
what comes of it, and another character might decide otherwise.

Whether this is so can be seen from the last item (`reachesEnd`), because a scan that the end of the
text finishes has taken everything up to there, while one that a blank finishes has not. Taking such
an item away leaves the items that the text decides (`decides_settled`). These are given over a source
that fails behind the text (`Decides.lists_failure`), and every longer text begins with them
(`Decides.isPrefix`).
-/

namespace BasicTokens

/-! ### The order of positions -/

namespace Position

theorem lt_irrefl (p : Position) : ¬p < p := by
  rw [lt_def]
  omega

theorem lt_trans {p q r : Position} (hpq : p < q) (hqr : q < r) : p < r := by
  rw [lt_def] at *
  omega

theorem lt_afterAll (p : Position) {text : List Char} (h : text ≠ []) : p < p.afterAll text := by
  induction text generalizing p with
  | nil => exact absurd rfl h
  | cons c text ih =>
    rw [afterAll_cons]
    cases text with
    | nil => exact lt_after p c
    | cons d text => exact lt_trans (lt_after p c) (ih _ (List.cons_ne_nil _ _))

theorem ne_afterAll (p : Position) {text : List Char} (h : text ≠ []) : p ≠ p.afterAll text := by
  intro heq
  have hlt := lt_afterAll p h
  rw [← heq] at hlt
  exact lt_irrefl p hlt

end Position

/-! ### Items that the end of the text decides -/

/-- Whether an item of a text that ends at `stop` was decided by that end alone: a token other than
a string or an offending text that reaches up to it, or a string without its end. -/
def reachesEnd (stop : Position) : Except LexicalError Token → Bool
  | .ok ⟨.string _, _, _⟩ => false
  | .ok t => t.behind = stop
  | .error (.unknownToken text first) => first.afterAll text.toList = stop
  | .error (.malformedNumber text first) => first.afterAll text.toList = stop
  | .error (.unterminatedString _) => true
  | .error _ => false

/-- The items that are left without a last one that only the end of the text decided. -/
def settled (stop : Position) (items : List (Except LexicalError Token)) :
    List (Except LexicalError Token) :=
  if items.getLast?.any (reachesEnd stop) then items.dropLast else items

theorem settled_singleton {stop : Position} {item : Except LexicalError Token}
    (h : reachesEnd stop item = true) : settled stop [item] = [] := by
  simp [settled, h]

theorem settled_cons {stop : Position} {item : Except LexicalError Token}
    (h : reachesEnd stop item = false) (items : List (Except LexicalError Token)) :
    settled stop (item :: items) = item :: settled stop items := by
  cases items with
  | nil => simp [settled, h]
  | cons next items =>
    simp only [settled, List.getLast?_cons_cons, List.dropLast_cons_cons]
    split <;> rfl

/-- Whether the last item is an error. -/
def endsInError (items : List (Except LexicalError Token)) : Bool :=
  match items.getLast? with
  | some (.error _) => true
  | _ => false

theorem endsInError_cons_ok (t : Token) (items : List (Except LexicalError Token)) :
    endsInError (.ok t :: items) = endsInError items := by
  cases items with
  | nil => rfl
  | cons next items => simp only [endsInError, List.getLast?_cons_cons]

namespace Scan

/-- The characters a scan keeps stand right before the position it has come to. -/
def Spans : Scan → Position → Prop
  | .numeral first read _, here => first.afterAll read.reverse = here
  | .signs first read, here => first.afterAll read.reverse = here
  | _, _ => True

theorem spans_blank (here : Position) : blank.Spans here := trivial

theorem afterAll_reverse_cons (first : Position) (read : List Char) (c : Char) :
    first.afterAll (c :: read).reverse = (first.afterAll read.reverse).after c := by
  rw [List.reverse_cons, Position.afterAll_append]
  rfl

theorem spans_of_take {scan next : Scan} {here : Position} {c : Char} (h : scan.Spans here)
    (hstep : scan.step here c = .take next) : next.Spans (here.after c) := by
  cases scan with
  | blank =>
    simp only [step, Step.take.injEq] at hstep
    subst hstep
    split
    · trivial
    · unfold opening
      split_ifs
      · rfl
      · trivial
      · trivial
      · rfl
  | numeral first read pointed =>
    have hspan : first.afterAll (c :: read).reverse = here.after c := by
      rw [afterAll_reverse_cons, show first.afterAll read.reverse = here from h]
    simp only [step] at hstep
    split_ifs at hstep <;> cases hstep <;> exact hspan
  | word first read =>
    simp only [step] at hstep
    split_ifs at hstep
    cases hstep
    trivial
  | signs first read =>
    have hspan : first.afterAll (c :: read).reverse = here.after c := by
      rw [afterAll_reverse_cons, show first.afterAll read.reverse = here from h]
    simp only [step] at hstep
    split_ifs at hstep
    cases hstep
    exact hspan
  | string first decoded =>
    simp only [step] at hstep
    split_ifs at hstep <;> cases hstep <;> trivial
  | escape first decoded =>
    simp only [step] at hstep
    split at hstep <;> cases hstep
    trivial

theorem result_of_leave {scan : Scan} {here : Position} {c : Char}
    {result : Except LexicalError Token} (h : scan.step here c = .leave result) :
    scan.IsBare ∧ result = scan.finish here
      ∨ result = .error (.unexpectedCharacter c here) := by
  cases scan with
  | blank => cases h
  | numeral first read pointed =>
    simp only [step] at h
    split_ifs at h <;> cases h
    · exact .inl ⟨trivial, rfl⟩
    · exact .inr rfl
  | word first read =>
    simp only [step] at h
    split_ifs at h <;> cases h
    · exact .inl ⟨trivial, rfl⟩
    · exact .inr rfl
  | signs first read =>
    simp only [step] at h
    split_ifs at h
    cases h
    exact .inl ⟨trivial, rfl⟩
  | string first decoded =>
    simp only [step] at h
    split_ifs at h
  | escape first decoded =>
    simp only [step] at h
    split at h <;> cases h
    exact .inr rfl

theorem exists_string_of_complete {scan : Scan} {here : Position} {c : Char} {t : Token}
    (h : scan.step here c = .complete t) : ∃ s first, t = ⟨.string s, first, here.after c⟩ := by
  cases scan with
  | blank => cases h
  | string first decoded =>
    simp only [step] at h
    split_ifs at h
    cases h
    exact ⟨_, _, rfl⟩
  | numeral first read pointed =>
    simp only [step] at h
    split_ifs at h
  | word first read =>
    simp only [step] at h
    split_ifs at h
  | signs first read =>
    simp only [step] at h
    split_ifs at h
  | escape first decoded =>
    simp only [step] at h
    split at h <;> cases h

theorem reachesEnd_finish {scan : Scan} {here : Position} (stop : Position)
    (hbare : scan.IsBare) (h : scan.Spans here) :
    reachesEnd stop (scan.finish here) = decide (here = stop) := by
  cases scan with
  | numeral first read pointed =>
    simp only [finish, endNumeral]
    split
    · rename_i lexeme hlexeme
      unfold numeralLexeme? at hlexeme
      split at hlexeme <;> obtain ⟨_, -, rfl⟩ := Option.map_eq_some_iff.1 hlexeme <;> rfl
    · rw [reachesEnd, String.toList_ofList, show first.afterAll read.reverse = here from h]
  | word first read =>
    simp only [finish, endWord, wordLexeme]
    split <;> rfl
  | signs first read =>
    simp only [finish, endSigns]
    split
    · rfl
    · rw [reachesEnd, String.toList_ofList, show first.afterAll read.reverse = here from h]
  | blank => cases hbare
  | string first decoded => cases hbare
  | escape first decoded => cases hbare

theorem isEndOfInput_of_finish {scan : Scan} {here : Position} {e : LexicalError}
    (hbare : scan.IsBare) (h : scan.finish here = .error e) : e.isEndOfInput = false := by
  cases scan with
  | numeral first read pointed =>
    simp only [finish, endNumeral] at h
    split at h <;> cases h
    rfl
  | word first read => cases h
  | signs first read =>
    simp only [finish, endSigns] at h
    split at h <;> cases h
    rfl
  | blank => cases hbare
  | string first decoded => cases hbare
  | escape first decoded => cases hbare

theorem eq_of_finish_endOfInput {scan : Scan} {here p : Position}
    (h : scan.finish here = .error (.endOfInput p)) : p = here := by
  have hbare : ¬scan.IsBare := fun hbare => Bool.noConfusion (isEndOfInput_of_finish hbare h)
  cases scan with
  | blank =>
    cases h
    rfl
  | numeral first read pointed => exact absurd trivial hbare
  | word first read => exact absurd trivial hbare
  | signs first read => exact absurd trivial hbare
  | string first decoded => cases h
  | escape first decoded => cases h

theorem isEndOfInput_of_leave {scan : Scan} {here : Position} {c : Char} {e : LexicalError}
    (h : scan.step here c = .leave (.error e)) : e.isEndOfInput = false := by
  rcases result_of_leave h with ⟨hbare, hfinish⟩ | hresult
  · exact isEndOfInput_of_finish hbare hfinish.symm
  · cases hresult
    rfl

theorem reachesEnd_of_run_decided {scan : Scan} {here : Position} {text : List Char} {a : Answer}
    (h : scan.Spans here) (hrun : scan.run here text = .decided a) :
    reachesEnd (here.afterAll text) a.result = false := by
  induction text generalizing scan here with
  | nil => cases hrun
  | cons c text ih =>
    cases hstep : scan.step here c with
    | take next =>
      rw [run_cons_of_take hstep] at hrun
      exact ih (spans_of_take h hstep) hrun
    | leave result =>
      rw [run_cons_of_leave hstep, Progress.decided.injEq] at hrun
      subst hrun
      rcases result_of_leave hstep with ⟨hbare, rfl⟩ | rfl
      · rw [reachesEnd_finish _ hbare h]
        exact decide_eq_false (here.ne_afterAll (List.cons_ne_nil _ _))
      · rfl
    | complete t =>
      rw [run_cons_of_complete hstep, Progress.decided.injEq] at hrun
      subst hrun
      obtain ⟨s, first, rfl⟩ := exists_string_of_complete hstep
      rfl

theorem spans_of_run_pending {scan next : Scan} {here there : Position} {text : List Char}
    (h : scan.Spans here) (hrun : scan.run here text = .pending next there) :
    next.Spans there := by
  induction text generalizing scan here with
  | nil =>
    cases hrun
    exact h
  | cons c text ih =>
    cases hstep : scan.step here c with
    | take next =>
      rw [run_cons_of_take hstep] at hrun
      exact ih (spans_of_take h hstep) hrun
    | leave result =>
      rw [run_cons_of_leave hstep] at hrun
      cases hrun
    | complete t =>
      rw [run_cons_of_complete hstep] at hrun
      cases hrun

/-- What the end decides shows that it did, unless there was nothing but blanks. -/
theorem reachesEnd_of_run_pending {scan next : Scan} {here there : Position} {text : List Char}
    (h : scan.Spans here) (hrun : scan.run here text = .pending next there) :
    next = .blank ∨ reachesEnd (here.afterAll text) (next.finish there) = true := by
  have hspans := spans_of_run_pending h hrun
  rw [← here_of_run_pending hrun]
  have hbare : next.IsBare → reachesEnd there (next.finish there) = true := fun hbare =>
    (reachesEnd_finish there hbare hspans).trans (decide_eq_true rfl)
  cases next with
  | blank => exact .inl rfl
  | numeral first read pointed => exact .inr (hbare trivial)
  | word first read => exact .inr (hbare trivial)
  | signs first read => exact .inr (hbare trivial)
  | string first decoded => exact .inr rfl
  | escape first decoded => exact .inr rfl

theorem isEndOfInput_of_run_error {scan : Scan} {here there : Position} {text rest : List Char}
    {e : LexicalError} (h : scan.run here text = .decided ⟨.error e, there, rest⟩) :
    e.isEndOfInput = false := by
  induction text generalizing scan here with
  | nil => cases h
  | cons c text ih =>
    cases hstep : scan.step here c with
    | take next =>
      rw [run_cons_of_take hstep] at h
      exact ih h
    | leave result =>
      rw [run_cons_of_leave hstep, Progress.decided.injEq, Answer.mk.injEq] at h
      obtain ⟨rfl, -⟩ := h
      exact isEndOfInput_of_leave hstep
    | complete t =>
      rw [run_cons_of_complete hstep] at h
      cases h

end Scan

/-! ### The decided items -/

/-- The items that a text decides by its characters. -/
inductive Decides : Position → List Char → List (Except LexicalError Token) → Prop
  | pending {here : Position} {text : List Char} {scan : Scan} {there : Position} :
      Scan.blank.run here text = .pending scan there → Decides here text []
  | fail {here : Position} {text : List Char} {e : LexicalError} {there : Position}
      {rest : List Char} :
      Scan.blank.run here text = .decided ⟨.error e, there, rest⟩ → Decides here text [.error e]
  | token {here : Position} {text : List Char} {t : Token} {there : Position} {rest : List Char}
      {items : List (Except LexicalError Token)} :
      Scan.blank.run here text = .decided ⟨.ok t, there, rest⟩ → Decides there rest items →
      Decides here text (.ok t :: items)

theorem lists_nil {here last : Position} {items : List (Except LexicalError Token)}
    {unread : List Char} (h : Lists .quiet here [] items last unread) : items = [] :=
  (h.unique (.stop (answer_nil .quiet here) rfl)).1

theorem decides_settled {here last : Position} {text unread : List Char}
    {items : List (Except LexicalError Token)} (h : Lists .quiet here text items last unread) :
    Decides here text (settled (here.afterAll text) items) := by
  induction h with
  | @stop here text e there rest ha he =>
    cases hrun : Scan.blank.run here text with
    | pending scan last => exact .pending hrun
    | decided a =>
      rw [answer_of_decided hrun] at ha
      subst ha
      rw [Scan.isEndOfInput_of_run_error hrun] at he
      cases he
  | @fail here text e there rest ha he =>
    cases hrun : Scan.blank.run here text with
    | pending scan last =>
      rw [answer_of_pending hrun, Answer.mk.injEq] at ha
      have hfinish : scan.finish last = .error e := ha.1
      rcases Scan.reachesEnd_of_run_pending (Scan.spans_blank _) hrun with rfl | hreaches
      · cases hfinish
        cases he
      · rw [hfinish] at hreaches
        rw [settled_singleton hreaches]
        exact .pending hrun
    | decided a =>
      rw [answer_of_decided hrun] at ha
      subst ha
      rw [settled_cons (Scan.reachesEnd_of_run_decided (Scan.spans_blank _) hrun)]
      exact .fail hrun
  | @token here text t there rest items last unread ha hrest ih =>
    cases hrun : Scan.blank.run here text with
    | pending scan last =>
      rw [answer_of_pending hrun, Answer.mk.injEq] at ha
      obtain ⟨hfinish, -, rfl⟩ := ha
      rcases Scan.reachesEnd_of_run_pending (Scan.spans_blank _) hrun with rfl | hreaches
      · cases hfinish
      · rw [show scan.finish last = .ok t from hfinish] at hreaches
        rw [lists_nil hrest, settled_singleton hreaches]
        exact .pending hrun
    | decided a =>
      rw [answer_of_decided hrun] at ha
      subst ha
      rw [settled_cons (Scan.reachesEnd_of_run_decided (Scan.spans_blank _) hrun)]
      rw [Scan.afterAll_rest_of_run_decided hrun] at ih
      exact .token hrun ih

/-- Over a source that fails behind the text, the decided items come first, and then the failure
unless an error has ended the listing already. -/
theorem Decides.lists_failure {here : Position} {text : List Char}
    {items : List (Except LexicalError Token)} (h : Decides here text items)
    (cause : ReadFailure) :
    ∃ last unread,
      Lists (.failure cause) here text
        (items ++ if endsInError items then [] else [.error (.ofFailure cause)]) last unread
      ∧ (endsInError items = false → last = here.afterAll text ∧ unread = []) := by
  induction h with
  | @pending here text scan there hrun =>
    refine ⟨there, [], .fail (answer_of_pending hrun) rfl, fun _ => ⟨?_, rfl⟩⟩
    exact Scan.here_of_run_pending hrun
  | fail hrun =>
    refine ⟨_, _, .fail (answer_of_decided hrun) (Scan.isEndOfInput_of_run_error hrun), ?_⟩
    intro hfalse
    cases hfalse
  | @token here text t there rest items hrun _ ih =>
    obtain ⟨last, unread, hlist, hend⟩ := ih
    rw [endsInError_cons_ok]
    refine ⟨last, unread, .token (answer_of_decided hrun) hlist, fun hfalse => ?_⟩
    rw [← Scan.afterAll_rest_of_run_decided hrun]
    exact hend hfalse

theorem Decides.isPrefix {here last : Position} {text more unread : List Char}
    {items others : List (Except LexicalError Token)} (h : Decides here text items)
    (hlist : Lists .quiet here (text ++ more) others last unread) : items <+: others := by
  induction h generalizing others with
  | pending => exact List.nil_prefix
  | fail hrun =>
    have ha : answer .quiet _ _ = _ := answer_of_decided (Scan.run_append_of_decided hrun more)
    have hfail := Lists.fail ha (Scan.isEndOfInput_of_run_error hrun)
    obtain ⟨rfl, -, -⟩ := hlist.unique hfail
    exact List.prefix_rfl
  | token hrun _ ih =>
    have ha : answer .quiet _ _ = _ := answer_of_decided (Scan.run_append_of_decided hrun more)
    cases hlist with
    | stop ha' he =>
      rw [ha] at ha'
      cases ha'
    | fail ha' he =>
      rw [ha] at ha'
      cases ha'
    | token ha' hrest =>
      rw [ha] at ha'
      cases ha'
      exact List.cons_prefix_cons.2 ⟨rfl, ih hrest⟩

end BasicTokens
