import BasicTokens.Proofs.Delivery.Basic
import BasicTokens.Scan.Listing
import Mathlib.Tactic.ByContra

/-!
# Reading a delivered text

A cursor reads a text when its buffer and its source together still have it. Looking at a character,
moving past it, a call and a listing are followed here one after the other, and each does to the
text ahead what the functions of `Scan.Text` say. The buffer does not occur in any of these
statements, which is why it cannot matter where one piece of a delivery ends and the next begins.
-/

namespace BasicTokens.Cursor

variable {σ : Type} {c : Cursor σ}

/-! ### The buffer -/

theorem buffered_eq_nil (h : ¬c.pos < c.len) : c.buffered = [] := by
  rw [buffered, List.drop_eq_nil_iff, List.length_take]
  omega

theorem textOf_buffered (hpos : c.pos < c.len) (hlen : c.len ≤ capacity) :
    textOf c.buffered = c.current :: textOf ((c.buffer.toList.take c.len).drop (c.pos + 1)) := by
  have hlt : c.pos < (c.buffer.toList.take c.len).length := by
    rw [List.length_take, Vector.length_toList]
    omega
  rw [buffered, List.drop_eq_getElem_cons hlt, textOf_cons, current,
    Vector.getElem?_eq_getElem (by omega)]
  simp

theorem buffered_advance (hpos : c.pos < c.len) :
    c.advance.buffered = (c.buffer.toList.take c.len).drop (c.pos + 1) := by
  rw [advance, if_pos hpos]
  rfl

variable [Source σ]

def refilled (c : Cursor σ) : Cursor σ :=
  let reading := Reader.read c.source c.buffer
  { c with
    source := reading.next
    buffer := reading.buffer
    pos := 0
    len := reading.count
    diary := .filled reading.count :: c.diary }

theorem buffered_refilled (c : Cursor σ) :
    c.refilled.buffered = (Reader.read c.source c.buffer).bytes := rfl

/-- The cursor that a failed read leaves. What the read wrote into the buffer does not count. -/
def broken (c : Cursor σ) : Cursor σ :=
  let reading := Reader.read c.source c.buffer
  { c with
    source := reading.next
    buffer := reading.buffer }

theorem buffered_broken (hpos : ¬c.pos < c.len) : c.broken.buffered = [] :=
  buffered_eq_nil hpos

theorem fill_of_unavailable (h : Source.available c.source = false) :
    c.fill = (.error (.endOfInput c.position), c) := by
  simp [fill, h]

theorem fill_of_ok {k : Nat} (hopen : c.closed = false) (ha : Source.available c.source = true)
    (hok : (Reader.read c.source c.buffer).outcome = .ok k) :
    c.fill = (if (Reader.read c.source c.buffer).count = 0 then .error (.endOfInput c.position)
      else .ok (), c.refilled) := by
  simp only [fill, hopen, ha, hok, refilled]
  split
  · contradiction
  · split <;> rfl

theorem fill_of_error {cause : ReadFailure} (hopen : c.closed = false)
    (ha : Source.available c.source = true)
    (herror : (Reader.read c.source c.buffer).outcome = .error cause) :
    c.fill = (.error (.ofFailure cause), c.broken) := by
  simp [fill, hopen, ha, herror, broken]

variable {ending : Ending} {text : List Char}

/-! ### The text ahead -/

/-- A cursor with exactly this text ahead, and then this ending. -/
structure Reads (ending : Ending) (c : Cursor σ) (text : List Char) : Prop where
  isOpen : c.closed = false
  len_le : c.len ≤ capacity
  ahead : ∃ bytes, Delivers ending c.source bytes ∧ text = textOf (c.buffered ++ bytes)

theorem reads_ofSource {s : σ} {bytes : List UInt8} (h : Delivers ending s bytes) :
    (ofSource s).Reads ending (textOf bytes) :=
  ⟨rfl, Nat.zero_le _, bytes, h, rfl⟩

theorem reads_advance {ch : Char} (h : c.Reads ending (ch :: text)) (hpos : c.pos < c.len) :
    c.advance.Reads ending text ∧ c.advance.position = c.position.after ch := by
  obtain ⟨bytes, hdelivers, hahead⟩ := h.ahead
  rw [textOf_append, textOf_buffered hpos h.len_le, List.cons_append, List.cons.injEq,
    ← buffered_advance hpos, ← textOf_append] at hahead
  obtain ⟨hch, htext⟩ := hahead
  have hadvance : c.advance = { c with pos := c.pos + 1, position := c.position.after c.current } :=
    if_pos hpos
  refine ⟨⟨?_, ?_, bytes, ?_, htext⟩, ?_⟩ <;> rw [hadvance]
  · exact h.isOpen
  · exact h.len_le
  · exact hdelivers
  · rw [hch]

/-- Nothing is buffered and the source has failed after handing out all it had. -/
structure BrokenOff (cause : ReadFailure) (c : Cursor σ) : Prop where
  isOpen : c.closed = false
  buffered : c.buffered = []
  source : ∃ (s : σ) (buffer : Vector UInt8 capacity),
    Delivers (.failure cause) s [] ∧ c.source = (Reader.read s buffer).next

def Spent : Ending → Cursor σ → Prop
  | .quiet, c => c.Reads .quiet []
  | .failure cause, c => c.BrokenOff cause

theorem exists_delivers_of_reads (h : c.Reads ending text) (hpos : ¬c.pos < c.len) :
    ∃ bytes, Delivers ending c.source bytes ∧ text = textOf bytes := by
  obtain ⟨bytes, hdelivers, hahead⟩ := h.ahead
  rw [buffered_eq_nil hpos, List.nil_append] at hahead
  exact ⟨bytes, hdelivers, hahead⟩

theorem available_of_reads (h : c.Reads ending text) (hpos : ¬c.pos < c.len)
    (hmore : ¬(text = [] ∧ ending = .quiet)) : Source.available c.source = true := by
  by_contra ha
  obtain ⟨bytes, hdelivers, rfl⟩ := exists_delivers_of_reads h hpos
  obtain ⟨rfl, hending⟩ :=
    (isDelivery_delivers ending).unavailable hdelivers (Bool.eq_false_iff.2 ha)
  exact hmore ⟨rfl, hending⟩

theorem hasMore_of_reads (h : c.Reads ending text) (hmore : ¬(text = [] ∧ ending = .quiet)) :
    c.hasMore = true := by
  by_cases hpos : c.pos < c.len
  · simp [hasMore, hpos]
  · simp [hasMore, h.isOpen, available_of_reads h hpos hmore]

theorem fill_of_reads_cons {ch : Char} (h : c.Reads ending (ch :: text)) (hpos : ¬c.pos < c.len) :
    ∃ d, c.fill = (.ok (), d) ∧ d.Reads ending (ch :: text) ∧ d.position = c.position := by
  obtain ⟨bytes, hdelivers, hahead⟩ := exists_delivers_of_reads h hpos
  have hne : bytes ≠ [] := by
    rintro rfl
    cases hahead
  have ha := available_of_reads h hpos (by simp)
  cases (isDelivery_delivers ending).honest hdelivers ha c.buffer with
  | piece piece rest hpiece hbytes hok hread hnext =>
    have hcount : (Reader.read c.source c.buffer).count ≠ 0 := by
      intro hzero
      rw [Reading.bytes, hzero, List.take_zero] at hread
      exact hpiece hread.symm
    refine ⟨c.refilled, ?_, ⟨h.isOpen, Reading.count_le _, rest, hnext, ?_⟩, rfl⟩
    · rw [fill_of_ok h.isOpen ha hok, if_neg hcount]
    · rw [hahead, buffered_refilled, hread, hbytes]
  | nothing hnil => exact absurd hnil hne
  | failure cause hnil => exact absurd hnil hne

theorem delivers_nil_of_reads_nil (h : c.Reads ending []) :
    c.buffered = [] ∧ Delivers ending c.source [] := by
  obtain ⟨bytes, hdelivers, hahead⟩ := h.ahead
  have hnil : c.buffered ++ bytes = [] := List.map_eq_nil_iff.1 hahead.symm
  obtain ⟨hbuffered, rfl⟩ := List.append_eq_nil_iff.1 hnil
  exact ⟨hbuffered, hdelivers⟩

theorem not_pos_lt_len_of_reads_nil (h : c.Reads ending []) : ¬c.pos < c.len := by
  intro hpos
  have hbuffered := textOf_buffered hpos h.len_le
  rw [(delivers_nil_of_reads_nil h).1] at hbuffered
  cases hbuffered

theorem fill_of_reads_nil_quiet (h : c.Reads .quiet []) :
    ∃ d, c.fill = (.error (.endOfInput c.position), d) ∧ d.Reads .quiet []
      ∧ d.position = c.position := by
  have hdelivers := (delivers_nil_of_reads_nil h).2
  cases ha : Source.available c.source with
  | false => exact ⟨c, fill_of_unavailable ha, h, rfl⟩
  | true =>
    cases (isDelivery_delivers .quiet).honest hdelivers ha c.buffer with
    | piece piece rest hpiece hbytes => exact absurd hbytes.symm (by simp [hpiece])
    | nothing _ _ hok =>
      have hcount : (Reader.read c.source c.buffer).count = 0 := by
        simp [Reading.count, hok]
      refine ⟨c.refilled, ?_, ⟨h.isOpen, Reading.count_le _, [], ?_, ?_⟩, rfl⟩
      · rw [fill_of_ok h.isOpen ha hok, if_pos hcount]
      · exact (isDelivery_delivers .quiet).dry hdelivers ha c.buffer hok
      · rw [buffered_refilled, Reading.bytes, hcount]
        rfl
    | failure cause _ hending => cases hending

theorem fill_of_reads_nil_failure {cause : ReadFailure} (h : c.Reads (.failure cause) []) :
    ∃ d, c.fill = (.error (.ofFailure cause), d) ∧ d.BrokenOff cause
      ∧ d.position = c.position := by
  have hpos := not_pos_lt_len_of_reads_nil h
  have hdelivers := (delivers_nil_of_reads_nil h).2
  have ha := available_of_reads h hpos (by simp)
  cases (isDelivery_delivers _).honest hdelivers ha c.buffer with
  | piece piece rest hpiece hbytes => exact absurd hbytes.symm (by simp [hpiece])
  | nothing _ hending => cases hending
  | failure cause' _ hending herror =>
    cases hending
    exact ⟨_, fill_of_error h.isOpen ha herror,
      ⟨h.isOpen, buffered_eq_nil hpos, _, _, hdelivers, rfl⟩, rfl⟩

/-! ### Looking one character ahead -/

theorem peek_of_fill_error {d : Cursor σ} {e : LexicalError} (hpos : ¬c.pos < c.len)
    (h : c.fill = (.error e, d)) : c.peek = (.error e, d) := by
  rw [peek, if_neg hpos, h]

theorem current_of_reads {ch : Char} (h : c.Reads ending (ch :: text)) (hpos : c.pos < c.len) :
    c.current = ch := by
  obtain ⟨bytes, -, hahead⟩ := h.ahead
  rw [textOf_append, textOf_buffered hpos h.len_le, List.cons_append, List.cons.injEq] at hahead
  exact hahead.1.symm

theorem peek_of_reads_cons {ch : Char} (h : c.Reads ending (ch :: text)) :
    ∃ d, c.peek = (.ok ch, d) ∧ d.Reads ending (ch :: text) ∧ d.position = c.position := by
  by_cases hpos : c.pos < c.len
  · refine ⟨c, ?_, h, rfl⟩
    rw [peek, if_pos hpos, current_of_reads h hpos]
  · obtain ⟨d, hfill, hd, hposition⟩ := fill_of_reads_cons h hpos
    refine ⟨d, ?_, hd, hposition⟩
    rw [peek, if_neg hpos, hfill, ← current_of_reads hd (pos_lt_len_of_fill hfill)]

theorem peek?_of_reads_cons {ch : Char} (h : c.Reads ending (ch :: text)) :
    ∃ d, c.peek? = (.ok (some ch), d) ∧ d.Reads ending (ch :: text) ∧ d.position = c.position
      ∧ d.advance.Reads ending text ∧ d.advance.position = c.position.after ch := by
  obtain ⟨d, hpeek, hd, hposition⟩ := peek_of_reads_cons h
  have hadvance := reads_advance hd (pos_lt_len_of_peek hpeek)
  rw [hposition] at hadvance
  refine ⟨d, ?_, hd, hposition, hadvance⟩
  rw [peek?, if_pos (hasMore_of_reads h (by simp)), hpeek]

theorem peek?_of_reads_nil_quiet (h : c.Reads .quiet []) :
    ∃ d, c.peek? = (.ok none, d) ∧ d.Reads .quiet [] ∧ d.position = c.position := by
  cases hmore : c.hasMore with
  | false => exact ⟨c, by simp [peek?, hmore], h, rfl⟩
  | true =>
    obtain ⟨d, hfill, hd, hposition⟩ := fill_of_reads_nil_quiet h
    refine ⟨d, ?_, hd, hposition⟩
    rw [peek?, if_pos hmore, peek_of_fill_error (not_pos_lt_len_of_reads_nil h) hfill]
    rfl

theorem peek?_of_reads_nil_failure {cause : ReadFailure} (h : c.Reads (.failure cause) []) :
    ∃ d, c.peek? = (.error (.ofFailure cause), d) ∧ d.BrokenOff cause
      ∧ d.position = c.position := by
  obtain ⟨d, hfill, hd, hposition⟩ := fill_of_reads_nil_failure h
  refine ⟨d, ?_, hd, hposition⟩
  rw [peek?, if_pos (hasMore_of_reads h (by simp)),
    peek_of_fill_error (not_pos_lt_len_of_reads_nil h) hfill]
  rfl

/-! ### A call -/

/-- Where a cursor stands when a text has brought a scan this far. -/
def Follows (ending : Ending) (d : Cursor σ) : Scan.Progress → Prop
  | .pending _ here => d.position = here ∧ d.Spent ending
  | .decided answer => d.position = answer.here ∧ d.Reads ending answer.rest

/-- A call does to a delivered text what the scan does to the plain text. -/
theorem scan?_of_reads {limit : Nat} (h : c.Reads ending text) (hlimit : text.length < limit)
    (scan : Scan) :
    ∃ d, c.scan? limit scan = some ((ending.settle (scan.run c.position text)).result, d)
      ∧ d.Follows ending (scan.run c.position text) := by
  induction limit generalizing scan c text with
  | zero => omega
  | succ limit ih =>
    cases text with
    | nil =>
      cases ending with
      | quiet =>
        obtain ⟨d, hpeek, hd, hposition⟩ := peek?_of_reads_nil_quiet h
        refine ⟨d, ?_, hposition, hd⟩
        rw [scan?, hpeek]
        simp only [hposition]
        rfl
      | failure cause =>
        obtain ⟨d, hpeek, hd, hposition⟩ := peek?_of_reads_nil_failure h
        refine ⟨d, ?_, hposition, hd⟩
        rw [scan?, hpeek]
        rfl
    | cons ch text =>
      obtain ⟨d, hpeek, hd, hposition, hadvance, hafter⟩ := peek?_of_reads_cons h
      have hlength : text.length < limit := Nat.lt_of_succ_lt_succ hlimit
      rw [scan?, hpeek]
      simp only [hposition]
      cases hstep : scan.step c.position ch with
      | take next =>
        obtain ⟨e, hscan, he⟩ := ih hadvance hlength next
        rw [hafter] at hscan he
        rw [Scan.run_cons_of_take hstep]
        exact ⟨e, hscan, he⟩
      | leave result =>
        rw [Scan.run_cons_of_leave hstep]
        exact ⟨d, rfl, hposition, hd⟩
      | complete token =>
        rw [Scan.run_cons_of_complete hstep]
        exact ⟨d.advance, rfl, hafter, hadvance⟩

theorem token?_of_reads {limit : Nat} (h : c.Reads ending text) (hlimit : text.length < limit) :
    ∃ d, c.token? limit = some ((answer ending c.position text).result, d)
      ∧ d.Follows ending (Scan.blank.run c.position text) := by
  obtain ⟨d, hscan, hd⟩ := scan?_of_reads h hlimit .blank
  refine ⟨d.note (.ofResult (answer ending c.position text).result), ?_, ?_⟩
  · rw [token?, hscan]
    rfl
  · cases hrun : Scan.blank.run c.position text with
    | pending scan here =>
      rw [hrun] at hd
      cases ending with
      | quiet => exact ⟨hd.1, ⟨hd.2.isOpen, hd.2.len_le, hd.2.ahead⟩⟩
      | failure cause => exact ⟨hd.1, ⟨hd.2.isOpen, hd.2.buffered, hd.2.source⟩⟩
    | decided a =>
      rw [hrun] at hd
      exact ⟨hd.1, ⟨hd.2.isOpen, hd.2.len_le, hd.2.ahead⟩⟩

theorem reads_of_follows_quiet {here : Position} {d : Cursor σ}
    (h : d.Follows .quiet (Scan.blank.run here text)) :
    d.position = (answer .quiet here text).here
      ∧ d.Reads .quiet (answer .quiet here text).rest := by
  rw [answer]
  cases hrun : Scan.blank.run here text with
  | pending scan there =>
    rw [hrun] at h
    exact h
  | decided a =>
    rw [hrun] at h
    exact h

theorem token?_mono {limit limit' : Nat} (hle : limit ≤ limit')
    {result : Except LexicalError Token × Cursor σ} (h : c.token? limit = some result) :
    c.token? limit' = some result := by
  rw [token?, Option.map_eq_some_iff] at h ⊢
  obtain ⟨scanned, hscan, hresult⟩ := h
  exact ⟨scanned, scan?_mono hle hscan, hresult⟩

theorem token_of_token? [Bounded σ] {limit : Nat} {result : Except LexicalError Token × Cursor σ}
    (h : c.token? limit = some result) : c.token = result := by
  have hown := token?_mono (Nat.le_max_left (c.budget + 1) limit) c.token?_eq_some_token
  have hgiven := token?_mono (Nat.le_max_right (c.budget + 1) limit) h
  exact Option.some.inj (hown.symm.trans hgiven)

/-! ### A listing -/

/-- Where a cursor stands when a listing has stopped and left this of the text. -/
def StopsAt (ending : Ending) (d : Cursor σ) : List Char → Prop
  | [] => d.Spent ending
  | ch :: rest => d.Reads ending (ch :: rest)

theorem stopsAt_of_error {d : Cursor σ} {here there : Position} {e : LexicalError}
    {rest : List Char} (ha : answer ending here text = ⟨.error e, there, rest⟩)
    (h : d.Follows ending (Scan.blank.run here text)) :
    d.position = there ∧ d.StopsAt ending rest := by
  cases hrun : Scan.blank.run here text with
  | pending scan last =>
    rw [hrun] at h
    rw [answer_of_pending hrun, Answer.mk.injEq] at ha
    obtain ⟨-, rfl, rfl⟩ := ha
    exact h
  | decided a =>
    rw [hrun] at h
    rw [answer_of_decided hrun] at ha
    subst ha
    obtain ⟨ch, tail, htail⟩ := List.exists_cons_of_ne_nil (Scan.rest_ne_nil_of_run_error hrun)
    obtain rfl : rest = ch :: tail := htail
    exact h

theorem reads_of_ok {d : Cursor σ} {here there : Position} {t : Token} {rest : List Char}
    (ha : answer ending here text = ⟨.ok t, there, rest⟩)
    (h : d.Follows ending (Scan.blank.run here text)) :
    d.position = there ∧ d.Reads ending rest := by
  cases hrun : Scan.blank.run here text with
  | pending scan last =>
    rw [hrun] at h
    rw [answer_of_pending hrun, Answer.mk.injEq] at ha
    obtain ⟨hresult, rfl, rfl⟩ := ha
    cases ending with
    | quiet => exact h
    | failure cause => cases hresult
  | decided a =>
    rw [hrun] at h
    rw [answer_of_decided hrun] at ha
    subst ha
    exact h

end BasicTokens.Cursor

namespace BasicTokens.Listing

variable {σ : Type} [Source σ] {ending : Ending} {c : Cursor σ} {text : List Char}

theorem poll?_of_reads {limit : Nat} (h : c.Reads ending text) (hlimit : text.length < limit)
    (hmore : ¬(text = [] ∧ ending = .quiet)) :
    ∃ d, (Listing.mk c false).poll? limit
        = some ((Listing.mk c false).take ((answer ending c.position text).result, d))
      ∧ d.Follows ending (Scan.blank.run c.position text) := by
  obtain ⟨d, htoken, hd⟩ := Cursor.token?_of_reads h hlimit
  refine ⟨d, ?_, hd⟩
  simp [poll?, Cursor.hasMore_of_reads h hmore, htoken]

theorem poll?_of_reads_nil {limit : Nat} (h : c.Reads .quiet []) (hlimit : 0 < limit) :
    ∃ d, (Listing.mk c false).poll? limit = some (none, ⟨d, false⟩) ∧ d.Reads .quiet []
      ∧ d.position = c.position := by
  cases hmore : c.hasMore with
  | false => exact ⟨c, by simp [poll?, hmore], h, rfl⟩
  | true =>
    obtain ⟨d, htoken, hd⟩ := Cursor.token?_of_reads h hlimit
    refine ⟨d, ?_, hd.2, hd.1⟩
    simp only [poll?, hmore, htoken, Bool.not_true, Bool.or_self, Bool.false_eq_true, if_false,
      Option.map_some]
    rfl

theorem collect?_of_reads {limit polls : Nat} {here last : Position} {unread : List Char}
    {items : List (Except LexicalError Token)} (hlist : Lists ending here text items last unread)
    (h : c.Reads ending text) (hhere : c.position = here) (hlimit : text.length < limit)
    (hpolls : items.length < polls) :
    ∃ l, (Listing.mk c false).collect? limit polls = some (items, l)
      ∧ l.cursor.position = last ∧ l.cursor.StopsAt ending unread := by
  obtain ⟨polls, rfl⟩ : ∃ k, polls = k + 1 := ⟨polls - 1, by omega⟩
  induction hlist generalizing c polls with
  | @stop here text e there rest ha he =>
    subst hhere
    by_cases hmore : text = [] ∧ ending = .quiet
    · obtain ⟨rfl, rfl⟩ := hmore
      obtain ⟨d, hpoll, hd, hposition⟩ := poll?_of_reads_nil h hlimit
      rw [answer_nil, Answer.mk.injEq] at ha
      obtain ⟨-, rfl, rfl⟩ := ha
      refine ⟨⟨d, false⟩, ?_, hposition, hd⟩
      rw [collect?, hpoll]
    · obtain ⟨d, hpoll, hd⟩ := poll?_of_reads h hlimit hmore
      refine ⟨⟨d, false⟩, ?_, Cursor.stopsAt_of_error ha hd⟩
      rw [collect?, hpoll, ha]
      simp [take, he]
  | @fail here text e there rest ha he =>
    subst hhere
    have hmore : ¬(text = [] ∧ ending = .quiet) := by
      rintro ⟨rfl, rfl⟩
      cases ha
      cases he
    obtain ⟨d, hpoll, hd⟩ := poll?_of_reads h hlimit hmore
    obtain ⟨polls, rfl⟩ : ∃ k, polls = k + 1 := ⟨polls - 1, by simp at hpolls; omega⟩
    refine ⟨⟨d, true⟩, ?_, Cursor.stopsAt_of_error ha hd⟩
    rw [collect?, hpoll, ha]
    simp [take, he, collect?, poll?]
  | @token here text t there rest items last unread ha hrest ih =>
    subst hhere
    have hmore : ¬(text = [] ∧ ending = .quiet) := by
      rintro ⟨rfl, rfl⟩
      cases ha
    obtain ⟨d, hpoll, hd⟩ := poll?_of_reads h hlimit hmore
    obtain ⟨polls, rfl⟩ : ∃ k, polls = k + 1 := ⟨polls - 1, by simp at hpolls; omega⟩
    obtain ⟨hposition, hreads⟩ := Cursor.reads_of_ok ha hd
    have hlength := length_rest_lt_of_ok ha
    obtain ⟨l, hl, hlast⟩ := ih hreads hposition (by omega) polls (by simpa using hpolls)
    refine ⟨l, ?_, hlast⟩
    rw [collect?, hpoll, ha]
    simp [take, hl]

end BasicTokens.Listing

/-! ### Bytes in memory -/

namespace BasicTokens.Cursor

def unread (c : Cursor (List UInt8)) : List UInt8 :=
  c.buffered ++ c.source

theorem textOf_unread {c : Cursor (List UInt8)} {text : List Char} (h : c.Reads .quiet text) :
    textOf c.unread = text := by
  obtain ⟨bytes, hdelivers, hahead⟩ := h.ahead
  rw [hahead, unread, (delivers_slice c.source).unique hdelivers]

theorem tokens_of_lists {bytes : List UInt8} {items : List (Except LexicalError Token)}
    {last : Position} {rest : List Char}
    (hlist : Lists .quiet .start (textOf bytes) items last rest) :
    (ofSource bytes).tokens.1 = items ∧ (ofSource bytes).tokens.2.position = last
      ∧ textOf (ofSource bytes).tokens.2.unread = rest := by
  have hbudget : (ofSource bytes).budget = bytes.length := Nat.zero_add _
  have hlength := hlist.length_le
  rw [length_textOf] at hlength
  have hlimit : (textOf bytes).length < (ofSource bytes).budget + 1 := by
    rw [hbudget, length_textOf]
    omega
  have hpolls : items.length < (Listing.mk (ofSource bytes) false).remaining + 1 := by
    simp only [Listing.remaining, hbudget, Bool.false_eq_true, if_false]
    omega
  obtain ⟨l, hl, hposition, hstops⟩ :=
    Listing.collect?_of_reads hlist (reads_ofSource (delivers_slice bytes)) rfl hlimit hpolls
  have hcollect : (Listing.mk (ofSource bytes) false).collect = (items, l) := by
    simp only [Listing.collect, hl, Option.get_some]
  have hreads : l.cursor.Reads .quiet rest := by
    cases rest with
    | nil => exact hstops
    | cons ch rest => exact hstops
  refine ⟨?_, ?_, ?_⟩
  · rw [tokens, hcollect]
  · rw [tokens, hcollect]
    exact hposition
  · rw [tokens, hcollect]
    exact textOf_unread hreads

theorem exists_lists_tokens (bytes : List UInt8) :
    ∃ last rest, Lists .quiet .start (textOf bytes) (ofSource bytes).tokens.1 last rest := by
  obtain ⟨items, last, rest, hlist⟩ := exists_lists .quiet .start (textOf bytes)
  rw [(tokens_of_lists hlist).1]
  exact ⟨last, rest, hlist⟩

end BasicTokens.Cursor
