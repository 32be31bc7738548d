import BasicTokens.Proofs.Delivery.Reading

/-!
# Deliveries with failures among them

A source may fail between two pieces and still go on, as a reader does that times out now and then.
What such a source has ahead is a list of signals: characters, and between them failures. Each
failure is met once, by the first call that reads up to it, and what lies behind it is still there
for the next call.

As for a plain text, what a call does is a function of the signals alone (`Scan.reply`), and a
cursor does just that, wherever the buffer begins and ends (`scan?_of_awaits`). What a source has
ahead is described by a relation that its reads respect (`IsForecast`), and for a reader behind a
feed by one that its own reads respect (`IsOutlook`).
-/

namespace BasicTokens

/-- What reading on brings: a character, or a failure. -/
abbrev Signal := Except ReadFailure Char

def signalsOf (bytes : List UInt8) : List Signal :=
  (textOf bytes).map .ok

theorem signalsOf_append (bytes others : List UInt8) :
    signalsOf (bytes ++ others) = signalsOf bytes ++ signalsOf others := by
  rw [signalsOf, textOf_append, List.map_append]
  rfl

/-! ### A call over signals -/

structure Reply where
  result : Except LexicalError Token
  here : Position
  rest : List Signal

/-- Shows signals to a scan until it is over, a failure included. -/
def Scan.reply : Scan → Position → List Signal → Reply
  | scan, here, [] => ⟨scan.finish here, here, []⟩
  | _, here, .error cause :: rest => ⟨.error (.ofFailure cause), here, rest⟩
  | scan, here, .ok c :: rest =>
    match scan.step here c with
    | .take next => next.reply (here.after c) rest
    | .leave result => ⟨result, here, .ok c :: rest⟩
    | .complete token => ⟨.ok token, here.after c, rest⟩

/-- The replies to the first `n` calls, and the position behind each. -/
def replies : (n : Nat) → Position → List Signal → List (Except LexicalError Token × Position)
  | 0, _, _ => []
  | n + 1, here, signals =>
    let r := Scan.blank.reply here signals
    (r.result, r.here) :: replies n r.here r.rest

/-! ### Sources and readers -/

/-- A reading that gives the next of the signals: a piece of the text, or a failure, or nothing when
none are left. -/
inductive Reading.Gives {ρ : Type} {n : Nat} (R : ρ → List Signal → Prop) (reading : Reading ρ n)
    (signals : List Signal) : Prop
  | piece (piece : List UInt8) (rest : List Signal) : piece ≠ [] →
      signals = signalsOf piece ++ rest → reading.outcome = .ok piece.length →
      reading.bytes = piece → R reading.next rest → Gives R reading signals
  | failure (cause : ReadFailure) (rest : List Signal) : signals = .error cause :: rest →
      reading.outcome = .error cause → R reading.next rest → Gives R reading signals
  | nothing : signals = [] → reading.outcome = .ok 0 → R reading.next [] → Gives R reading signals

/-- A relation between sources and the signals they still have that reads respect. -/
structure IsForecast {σ : Type} [Source σ] (R : σ → List Signal → Prop) : Prop where
  unavailable : ∀ {s signals}, R s signals → Source.available s = false → signals = []
  gives : ∀ {s signals}, R s signals → Source.available s = true →
    ∀ buffer : Vector UInt8 capacity, (Reader.read s buffer).Gives R signals

/-- A relation between readers and the signals they still have that reads respect. To be interrupted
is no signal. -/
structure IsOutlook {ρ : Type} [Reader ρ] (R : ρ → List Signal → Prop) : Prop where
  interrupted : ∀ {r signals}, R r signals → ∀ buffer : Vector UInt8 capacity,
    (Reader.read r buffer).isInterrupted = true → R (Reader.read r buffer).next signals
  gives : ∀ {r signals}, R r signals → ∀ buffer : Vector UInt8 capacity,
    (Reader.read r buffer).isInterrupted = false → (Reader.read r buffer).Gives R signals

theorem isForecast_slice :
    IsForecast fun (bytes : List UInt8) signals => signals = signalsOf bytes where
  unavailable := by
    rintro bytes _ rfl ha
    have hdelivered := (isDelivery_delivers .quiet).unavailable (delivers_slice bytes) ha
    rw [hdelivered.1]
    rfl
  gives := by
    rintro bytes _ rfl ha buffer
    cases (isDelivery_delivers .quiet).honest (delivers_slice bytes) ha buffer with
    | piece piece rest hne hbytes hok hread hnext =>
      refine .piece piece (signalsOf rest) hne ?_ hok hread ?_
      · rw [← signalsOf_append, hbytes]
      · rw [(delivers_slice _).unique hnext]
    | nothing hbytes _ hok =>
      subst hbytes
      cases ha
    | failure cause _ hending => cases hending

section Feed

variable {ρ : Type} [Reader ρ] [Patient ρ] {R : ρ → List Signal → Prop}

theorem gives_readPatiently (hR : IsOutlook R) {retries : Nat} {r : ρ} {signals : List Signal}
    (h : R r signals) (hretries : Patient.patience r ≤ retries) (buffer : Vector UInt8 capacity) :
    (readPatiently retries r buffer).Gives R signals := by
  induction retries generalizing r buffer with
  | zero =>
    refine hR.gives h buffer (Bool.eq_false_iff.2 fun hi => ?_)
    have := Patient.patience_lt r buffer hi
    omega
  | succ retries ih =>
    simp only [readPatiently]
    split
    · rename_i hi
      have := Patient.patience_lt r buffer hi
      exact ih (hR.interrupted h buffer hi) (by omega) _
    · rename_i hi
      exact hR.gives h buffer (Bool.eq_false_iff.2 hi)

/-- The relation between a feed and the signals of its reader, of which none are left once it has
run dry. -/
def Feed.Foretells (R : ρ → List Signal → Prop) (feed : Feed ρ) (signals : List Signal) : Prop :=
  feed.released = false ∧ R feed.reader signals ∧ (feed.drained = true → signals = [])

theorem isForecast_foretells (hR : IsOutlook R) : IsForecast (Feed.Foretells R) where
  unavailable := by
    intro feed signals h ha
    obtain ⟨hreleased, -, hdry⟩ := h
    refine hdry (Bool.of_not_eq_false fun hdrained => ?_)
    rw [(Feed.available_iff_of_not_released hreleased).2 hdrained] at ha
    cases ha
  gives := by
    intro feed signals h ha buffer
    obtain ⟨hreleased, hreader, -⟩ := h
    have hdrained := (Feed.available_iff_of_not_released hreleased).1 ha
    have hopen : ∀ rest : List Signal, feed.drained = true → rest = [] := by
      intro rest hd
      rw [hdrained] at hd
      cases hd
    have hgives : (feed.reading buffer).Gives R signals :=
      gives_readPatiently hR hreader (Nat.le_refl _) buffer
    cases hgives with
    | piece piece rest hne hsignals hok hread hnext =>
      have hlength : piece.length ≠ 0 := mt List.length_eq_zero_iff.1 hne
      rw [Feed.read_of_ne_ok_zero hreleased (by simpa [hok] using hlength)]
      exact .piece piece rest hne hsignals hok hread ⟨hreleased, hnext, hopen rest⟩
    | failure cause rest hsignals herror hnext =>
      rw [Feed.read_of_ne_ok_zero hreleased (by simp [herror])]
      exact .failure cause rest hsignals herror ⟨hreleased, hnext, hopen rest⟩
    | nothing hsignals hok hnext =>
      rw [Feed.read_of_ok_zero hreleased hok]
      exact .nothing hsignals hok ⟨hreleased, hnext, fun _ => rfl⟩

end Feed

/-! ### Scripts -/

namespace Script

/-- A step that hands out something and reports just that, or fails. -/
def Step.IsPlain : Step → Prop
  | .data bytes report => bytes ≠ [] ∧ report = none
  | .failure _ => True

instance (step : Step) : Decidable step.IsPlain :=
  match step with
  | .data bytes report => inferInstanceAs (Decidable (bytes ≠ [] ∧ report = none))
  | .failure _ => inferInstanceAs (Decidable True)

def Step.signals : Step → List Signal
  | .data bytes _ => signalsOf bytes
  | .failure cause =>
    if cause.kind = .interrupted then [] else [.error cause]

def signals (script : Script) : List Signal :=
  script.steps.flatMap Step.signals

def Tells (script : Script) (signals : List Signal) : Prop :=
  (∀ step ∈ script.steps, step.IsPlain) ∧ signals = script.signals

theorem gives_data {bytes : List UInt8} {steps : List Step}
    (h : ∀ step ∈ Step.data bytes none :: steps, step.IsPlain) (buffer : Vector UInt8 capacity) :
    (Reader.read (Script.mk (.data bytes none :: steps)) buffer).Gives Tells
      (Script.mk (.data bytes none :: steps)).signals := by
  have hne : bytes ≠ [] := (h _ List.mem_cons_self).1
  have htail : ∀ step ∈ steps, step.IsPlain := fun step hs => h step (List.mem_cons_of_mem _ hs)
  refine .piece (bytes.take capacity)
    (signalsOf (bytes.drop capacity) ++ steps.flatMap Step.signals) ?_ ?_ ?_ ?_ ?_
  · simp [hne, capacity]
  · rw [← List.append_assoc, ← signalsOf_append, List.take_append_drop]
    rfl
  · rw [List.length_take]
    rfl
  · rw [← take_overlay_take bytes buffer]
    simp [Reading.bytes, Reading.count, Reader.read, read]
  · by_cases hlength : bytes.length ≤ capacity
    · have hnext : (Reader.read (Script.mk (.data bytes none :: steps)) buffer).next = ⟨steps⟩ := by
        simp [Reader.read, read, hlength]
      rw [hnext, List.drop_of_length_le hlength]
      exact ⟨htail, rfl⟩
    · have hnext : (Reader.read (Script.mk (.data bytes none :: steps)) buffer).next
          = ⟨.data (bytes.drop capacity) none :: steps⟩ := by
        simp [Reader.read, read, hlength]
      rw [hnext]
      refine ⟨?_, rfl⟩
      intro step hstep
      rcases List.mem_cons.1 hstep with rfl | hstep
      · exact ⟨by simpa [List.drop_eq_nil_iff] using hlength, rfl⟩
      · exact htail step hstep

theorem isOutlook_tells : IsOutlook Tells where
  interrupted := by
    rintro ⟨steps⟩ _ ⟨hplain, rfl⟩ buffer hi
    cases steps with
    | nil => cases hi
    | cons step steps =>
      cases step with
      | data bytes report => cases hi
      | failure cause =>
        have hkind : cause.kind = .interrupted := of_decide_eq_true hi
        refine ⟨fun step hs => hplain step (List.mem_cons_of_mem _ hs), ?_⟩
        simp [signals, Step.signals, hkind, Reader.read, read]
  gives := by
    rintro ⟨steps⟩ _ ⟨hplain, rfl⟩ buffer hi
    cases steps with
    | nil => exact .nothing rfl rfl ⟨hplain, rfl⟩
    | cons step steps =>
      cases step with
      | data bytes report =>
        obtain rfl : report = none := (hplain _ List.mem_cons_self).2
        exact gives_data hplain buffer
      | failure cause =>
        have hkind : cause.kind ≠ .interrupted := of_decide_eq_false hi
        refine .failure cause (signals ⟨steps⟩) ?_ rfl
          ⟨fun step hs => hplain step (List.mem_cons_of_mem _ hs), rfl⟩
        simp [signals, Step.signals, hkind]

end Script

/-! ### A cursor over signals -/

namespace Cursor

variable {σ : Type} {R : σ → List Signal → Prop} {c : Cursor σ} {signals : List Signal}

structure Awaits (R : σ → List Signal → Prop) (c : Cursor σ) (signals : List Signal) : Prop where
  isOpen : c.closed = false
  len_le : c.len ≤ capacity
  ahead : ∃ rest, R c.source rest ∧ signals = signalsOf c.buffered ++ rest

theorem awaits_ofSource {s : σ} (h : R s signals) : (ofSource s).Awaits R signals :=
  ⟨rfl, Nat.zero_le _, signals, h, rfl⟩

theorem source_of_awaits (h : c.Awaits R signals) (hpos : ¬c.pos < c.len) : R c.source signals := by
  obtain ⟨rest, hrest, hahead⟩ := h.ahead
  rw [buffered_eq_nil hpos] at hahead
  rwa [hahead]

theorem exists_signals_of_awaits (h : c.Awaits R signals) (hpos : c.pos < c.len) :
    ∃ rest, signals = .ok c.current :: rest ∧ c.advance.Awaits R rest
      ∧ c.advance.position = c.position.after c.current := by
  obtain ⟨rest, hrest, hahead⟩ := h.ahead
  have hadvance : c.advance = { c with pos := c.pos + 1, position := c.position.after c.current } :=
    if_pos hpos
  refine ⟨signalsOf c.advance.buffered ++ rest, ?_, ⟨?_, ?_, rest, ?_, rfl⟩, ?_⟩
  · rw [hahead, signalsOf, textOf_buffered hpos h.len_le, ← buffered_advance hpos]
    rfl
  · rw [hadvance]
    exact h.isOpen
  · rw [hadvance]
    exact h.len_le
  · rw [hadvance]
    exact hrest
  · rw [hadvance]

def filling (here : Position) : List Signal → Except LexicalError Unit
  | [] => .error (.endOfInput here)
  | .ok _ :: _ => .ok ()
  | .error cause :: _ => .error (.ofFailure cause)

def found : List Signal → Except LexicalError (Option Char)
  | [] => .ok none
  | .ok ch :: _ => .ok (some ch)
  | .error cause :: _ => .error (.ofFailure cause)

/-- What is left to be met once one has looked ahead: a failure is over. -/
def pending : List Signal → List Signal
  | .error _ :: rest => rest
  | signals => signals

variable [Source σ] (hR : IsForecast R)
include hR

theorem fill_of_awaits (h : c.Awaits R signals) (hpos : ¬c.pos < c.len) :
    ∃ d, c.fill = (filling c.position signals, d) ∧ d.Awaits R (pending signals)
      ∧ d.position = c.position := by
  have hsource := source_of_awaits h hpos
  cases ha : Source.available c.source with
  | false =>
    obtain rfl := hR.unavailable hsource ha
    exact ⟨c, fill_of_unavailable ha, h, rfl⟩
  | true =>
    cases hR.gives hsource ha c.buffer with
    | piece piece rest hne hsignals hok hread hnext =>
      obtain ⟨b, bytes, rfl⟩ := List.exists_cons_of_ne_nil hne
      have hcount : (Reader.read c.source c.buffer).count ≠ 0 := by
        intro hzero
        rw [Reading.bytes, hzero, List.take_zero] at hread
        exact hne hread.symm
      subst hsignals
      refine ⟨c.refilled, ?_, ⟨h.isOpen, Reading.count_le _, rest, hnext, ?_⟩, rfl⟩
      · rw [fill_of_ok h.isOpen ha hok, if_neg hcount]
        rfl
      · rw [buffered_refilled, hread]
        rfl
    | failure cause rest hsignals herror hnext =>
      subst hsignals
      refine ⟨c.broken, fill_of_error h.isOpen ha herror,
        ⟨h.isOpen, h.len_le, rest, hnext, ?_⟩, rfl⟩
      rw [buffered_broken hpos]
      rfl
    | nothing hsignals hok hnext =>
      subst hsignals
      have hcount : (Reader.read c.source c.buffer).count = 0 := by
        simp [Reading.count, hok]
      refine ⟨c.refilled, ?_, ⟨h.isOpen, Reading.count_le _, [], hnext, ?_⟩, rfl⟩
      · rw [fill_of_ok h.isOpen ha hok, if_pos hcount]
        rfl
      · rw [buffered_refilled, Reading.bytes, hcount]
        rfl

theorem peek?_of_awaits (h : c.Awaits R signals) :
    ∃ d, c.peek? = (found signals, d) ∧ d.Awaits R (pending signals) ∧ d.position = c.position := by
  by_cases hpos : c.pos < c.len
  · obtain ⟨rest, rfl, -⟩ := exists_signals_of_awaits h hpos
    refine ⟨c, ?_, h, rfl⟩
    simp [peek?, hasMore, peek, hpos, found]
  · cases hmore : c.hasMore with
    | false =>
      have ha : Source.available c.source = false := by
        simpa [hasMore, hpos, h.isOpen] using hmore
      obtain rfl := hR.unavailable (source_of_awaits h hpos) ha
      exact ⟨c, by simp [peek?, hmore, found], h, rfl⟩
    | true =>
      obtain ⟨d, hfill, hd, hposition⟩ := fill_of_awaits hR h hpos
      refine ⟨d, ?_, hd, hposition⟩
      rw [peek?, if_pos hmore, peek, if_neg hpos, hfill]
      cases signals with
      | nil => rfl
      | cons signal signals =>
        cases signal with
        | error cause => rfl
        | ok ch =>
          obtain ⟨rest, hsignals, -⟩ := exists_signals_of_awaits hd (pos_lt_len_of_fill hfill)
          cases hsignals
          rfl

/-- A call does to the signals ahead what the scan does to plain signals. -/
theorem scan?_of_awaits {limit : Nat} (h : c.Awaits R signals) (hlimit : signals.length < limit)
    (scan : Scan) :
    ∃ d, c.scan? limit scan = some ((scan.reply c.position signals).result, d)
      ∧ d.position = (scan.reply c.position signals).here
      ∧ d.Awaits R (scan.reply c.position signals).rest := by
  induction limit generalizing scan c signals with
  | zero => omega
  | succ limit ih =>
    obtain ⟨d, hpeek, hd, hposition⟩ := peek?_of_awaits hR h
    rw [scan?, hpeek]
    cases signals with
    | nil =>
      refine ⟨d, ?_, hposition, hd⟩
      simp only [found, hposition]
      rfl
    | cons signal signals =>
      cases signal with
      | error cause => exact ⟨d, rfl, hposition, hd⟩
      | ok ch =>
        obtain ⟨rest, hrest, hadvance, hafter⟩ :=
          exists_signals_of_awaits hd (pos_lt_len_of_peek? hpeek)
        cases hrest
        rw [hposition] at hafter
        simp only [found, hposition, Scan.reply]
        cases hstep : scan.step c.position d.current with
        | take next =>
          obtain ⟨e, hscan, he⟩ := ih hadvance (Nat.lt_of_succ_lt_succ hlimit) next
          rw [hafter] at hscan he
          exact ⟨e, hscan, he⟩
        | leave result => exact ⟨d, rfl, hposition, hd⟩
        | complete token => exact ⟨d.advance, rfl, hafter, hadvance⟩

theorem token?_of_awaits {limit : Nat} (h : c.Awaits R signals) (hlimit : signals.length < limit) :
    ∃ d, c.token? limit = some ((Scan.blank.reply c.position signals).result, d)
      ∧ d.position = (Scan.blank.reply c.position signals).here
      ∧ d.Awaits R (Scan.blank.reply c.position signals).rest := by
  obtain ⟨d, hscan, hposition, hd⟩ := scan?_of_awaits hR h hlimit .blank
  refine ⟨d.note (.ofResult (Scan.blank.reply c.position signals).result), ?_, hposition,
    ⟨hd.isOpen, hd.len_le, hd.ahead⟩⟩
  rw [token?, hscan]
  rfl

end Cursor

end BasicTokens
