import BasicTokens.Proofs.Delivery.Basic

/-!
# Sources with failing reads put in

A read may fail and yet the next one may go well. Here failing reads are put in before the reads of
some reader (`Faltering`), any number of them and wherever one likes. They tell nothing about the
reader itself: behind each of them it goes on where it was, and hands out the same as it would have.
What a failing read has written into the buffer is not its business if it does not look at the
buffer (`Honest`), and if nothing was written there is nothing to look at (`Faltering.Covers`).

So the reader with and without the failing reads go the same way, but for the failures
(`IsFaltering`). For readers behind a feed it takes more, since there an interruption is tried again
within one read: a failing read that is put in behind an interruption breaks such a read off, and
then the two have come apart by the interruptions before it (`Lags`).
-/

namespace BasicTokens

/-- A failing read to be put in: why it fails, and what it still writes into the buffer. -/
structure Fault where
  cause : ReadFailure
  written : List UInt8 := []
deriving DecidableEq, Repr

/-- A reader and the failing reads put in before its own: those of the first list before its next
read, those of the second before the one behind that, and so on. -/
structure Faltering (ρ : Type) where
  inner : ρ
  faults : List (List Fault)

namespace Faltering

variable {ρ : Type}

/-- How many failing reads are still to come. -/
def count (f : Faltering ρ) : Nat :=
  f.faults.flatten.length

/-- No failing read touches the buffer. -/
def IsClean (f : Faltering ρ) : Prop :=
  ∀ fault ∈ f.faults.flatten, fault.written = []

section Reader

variable [Reader ρ]

def read (f : Faltering ρ) {n : Nat} (buffer : Vector UInt8 n) : Reading (Faltering ρ) n :=
  match f.faults with
  | (fault :: now) :: later =>
    ⟨.error fault.cause, overlay buffer 0 fault.written, ⟨f.inner, now :: later⟩⟩
  | faults => (Reader.read f.inner buffer).map fun inner => ⟨inner, faults.tail⟩

instance : Reader (Faltering ρ) where
  read := read
  close f := { f with inner := Reader.close f.inner }

instance {σ : Type} [Source σ] : Source (Faltering σ) where
  available f := Source.available f.inner

theorem read_cases (f : Faltering ρ) {n : Nat} (buffer : Vector UInt8 n) :
    (∃ fault g, Reader.read f buffer = ⟨.error fault.cause, overlay buffer 0 fault.written, g⟩
      ∧ g.inner = f.inner ∧ f.faults.flatten = fault :: g.faults.flatten)
    ∨ ∃ faults, Reader.read f buffer = (Reader.read f.inner buffer).map (Faltering.mk · faults)
      ∧ faults.flatten = f.faults.flatten := by
  obtain ⟨inner, faults⟩ := f
  cases faults with
  | nil => exact .inr ⟨[], rfl, rfl⟩
  | cons now later =>
    cases now with
    | nil => exact .inr ⟨later, rfl, rfl⟩
    | cons fault now => exact .inl ⟨fault, ⟨inner, now :: later⟩, rfl, rfl, rfl⟩

omit [Reader ρ] in
theorem count_of_cons {fault : Fault} {f g : Faltering ρ}
    (h : f.faults.flatten = fault :: g.faults.flatten) : f.count = g.count + 1 := by
  rw [count, h]
  rfl

omit [Reader ρ] in
theorem count_mk {faults : List (List Fault)} {f : Faltering ρ}
    (h : faults.flatten = f.faults.flatten) (inner : ρ) : (mk inner faults).count = f.count :=
  congrArg List.length h

/-- Failing reads that are put in can only make for so many more interruptions in a row. -/
instance [Patient ρ] : Patient (Faltering ρ) where
  patience f := f.count + Patient.patience f.inner
  patience_lt f n buffer hi := by
    rcases f.read_cases buffer with ⟨fault, g, hread, hinner, hflat⟩ | ⟨faults, hread, hflat⟩
    · have hcount := count_of_cons hflat
      rw [hread]
      show g.count + Patient.patience g.inner < f.count + Patient.patience f.inner
      rw [hinner]
      omega
    · rw [hread] at hi ⊢
      have hlt := Patient.patience_lt f.inner buffer hi
      rw [Reading.next_map, count_mk hflat]
      exact Nat.add_lt_add_left hlt _

end Reader

end Faltering

/-! ### Honest readers -/

/-- A reader that reports just the bytes that it has written, now and behind every read: what a read
hands out, and where it leaves the reader, does not depend on what is in the buffer. -/
def Honest {ρ : Type} [Reader ρ] (r : ρ) : Prop :=
  ∃ H : ρ → Prop, H r ∧ ∀ r, H r → ∃ (got : Except ReadFailure (List UInt8)) (next : ρ), H next ∧
    ∀ buffer : Vector UInt8 capacity,
      (Reader.read r buffer).outcome = got.map List.length
        ∧ (Reader.read r buffer).bytes = got.toOption.getD []
        ∧ (Reader.read r buffer).next = next

/-- Two readings that go the same way, whatever else is in their buffers. -/
structure Reading.Agrees {ρ τ : Type} {n : Nat} (left : Reading ρ n) (right : Reading τ n) :
    Prop where
  outcome : left.outcome = right.outcome
  bytes : left.bytes = right.bytes

theorem Reading.Agrees.isInterrupted {ρ τ : Type} {n : Nat} {left : Reading ρ n}
    {right : Reading τ n} (h : left.Agrees right) : left.isInterrupted = right.isInterrupted := by
  rw [Reading.isInterrupted, Reading.isInterrupted, h.outcome]

theorem Reading.Agrees.count {ρ τ : Type} {n : Nat} {left : Reading ρ n}
    {right : Reading τ n} (h : left.Agrees right) : left.count = right.count := by
  rw [Reading.count, Reading.count, h.outcome]

theorem Reading.Agrees.map {ρ τ υ : Type} {n : Nat} {left : Reading ρ n} {right : Reading τ n}
    (h : left.Agrees right) (g : ρ → υ) : (left.map g).Agrees right :=
  ⟨h.outcome, h.bytes⟩

section Honest

variable {ρ : Type} [Reader ρ] {r : ρ}

theorem agrees_of_honest (h : Honest r) (b b' : Vector UInt8 capacity) :
    (Reader.read r b).Agrees (Reader.read r b')
      ∧ (Reader.read r b).next = (Reader.read r b').next ∧ Honest (Reader.read r b').next := by
  obtain ⟨H, hr, hH⟩ := h
  obtain ⟨got, next, hnext, hread⟩ := hH r hr
  obtain ⟨houtcome, hbytes, hn⟩ := hread b
  obtain ⟨houtcome', hbytes', hn'⟩ := hread b'
  refine ⟨⟨houtcome.trans houtcome'.symm, hbytes.trans hbytes'.symm⟩, hn.trans hn'.symm, H, ?_, hH⟩
  rw [hn']
  exact hnext

theorem honest_slice (bytes : List UInt8) : Honest bytes := by
  refine ⟨fun _ => True, trivial, fun bytes _ => ?_⟩
  refine ⟨.ok (bytes.take capacity), bytes.drop capacity, trivial, fun buffer => ⟨?_, ?_, rfl⟩⟩
  · show Except.ok (min capacity bytes.length) = Except.ok (bytes.take capacity).length
    rw [List.length_take]
  · show _ = bytes.take capacity
    rw [← take_overlay_take bytes buffer]
    simp [Reading.bytes, Reading.count, Reader.read, readBytes]

theorem honest_script {script : Script}
    (h : ∀ bytes report, .data bytes report ∈ script.steps → report = none) : Honest script := by
  refine ⟨fun script => ∀ bytes report, .data bytes report ∈ script.steps → report = none, h, ?_⟩
  rintro ⟨steps⟩ hsteps
  cases steps with
  | nil => exact ⟨.ok [], ⟨[]⟩, hsteps, fun buffer => ⟨rfl, rfl, rfl⟩⟩
  | cons step steps =>
    have htail : ∀ bytes report, .data bytes report ∈ steps → report = none :=
      fun bytes report hmem => hsteps bytes report (List.mem_cons_of_mem _ hmem)
    cases step with
    | failure cause =>
      exact ⟨.error cause, ⟨steps⟩, htail, fun buffer => ⟨rfl, rfl, rfl⟩⟩
    | data bytes report =>
      obtain rfl : report = none := hsteps bytes report List.mem_cons_self
      refine ⟨.ok (bytes.take capacity),
        if bytes.length ≤ capacity then ⟨steps⟩ else ⟨.data (bytes.drop capacity) none :: steps⟩,
        ?_, fun buffer => ⟨?_, ?_, rfl⟩⟩
      · split
        · exact htail
        · intro rest report hmem
          rcases List.mem_cons.1 hmem with heq | hmem
          · cases heq
            rfl
          · exact htail rest report hmem
      · show Except.ok (min capacity bytes.length) = Except.ok (bytes.take capacity).length
        rw [List.length_take]
      · show _ = bytes.take capacity
        rw [← take_overlay_take bytes buffer]
        simp [Reading.bytes, Reading.count, Reader.read, Script.read]

end Honest

/-! ### A reader and the same one with failing reads put in -/

namespace Faltering

variable {ρ : Type} [Reader ρ] {f : Faltering ρ} {r : ρ} {b b' : Vector UInt8 capacity}

/-- The reader inside is `r`, and does the same with either buffer, now and behind any number of
the failing reads. -/
structure Covers (f : Faltering ρ) (b : Vector UInt8 capacity) (r : ρ)
    (b' : Vector UInt8 capacity) : Prop where
  inner : f.inner = r
  ignores : b = b' ∧ f.IsClean ∨ Honest r

theorem covers_of_fault {fault : Fault} {g : Faltering ρ} (h : f.Covers b r b')
    (hinner : g.inner = f.inner) (hflat : f.faults.flatten = fault :: g.faults.flatten) :
    g.Covers (overlay b 0 fault.written) r b' := by
  refine ⟨hinner.trans h.inner, h.ignores.imp_left ?_⟩
  rintro ⟨rfl, hclean⟩
  rw [IsClean, hflat] at hclean
  obtain ⟨hwritten, hrest⟩ := List.forall_mem_cons.1 hclean
  rw [hwritten]
  exact ⟨rfl, hrest⟩

theorem agrees_of_covers {faults : List (List Fault)} (h : f.Covers b r b')
    (hflat : faults.flatten = f.faults.flatten) :
    (Reader.read f.inner b).Agrees (Reader.read r b')
      ∧ (mk (Reader.read f.inner b).next faults).Covers (Reader.read f.inner b).buffer
          (Reader.read r b').next (Reader.read r b').buffer := by
  obtain ⟨rfl, ⟨rfl, hclean⟩ | honest⟩ := h
  · refine ⟨⟨rfl, rfl⟩, rfl, .inl ⟨rfl, ?_⟩⟩
    rw [IsClean, hflat]
    exact hclean
  · obtain ⟨hagrees, hnext, hhonest⟩ := agrees_of_honest honest b b'
    exact ⟨hagrees, hnext, .inr hhonest⟩

end Faltering

/-! ### Sources that go the same way -/

/-- A relation between sources, each with the buffer it is shown, in which the left one goes as the
right one but for at most `k` failing reads. -/
structure IsFaltering {τ σ : Type} [Source τ] [Source σ]
    (R : Nat → τ → Vector UInt8 capacity → σ → Vector UInt8 capacity → Prop) : Prop where
  available : ∀ {k t b s b'}, R k t b s b' → Source.available t = Source.available s
  read : ∀ {k t b s b'}, R k t b s b' → Source.available s = true →
    (∃ cause j, (Reader.read t b).outcome = .error cause ∧ j < k
      ∧ R j (Reader.read t b).next (Reader.read t b).buffer s b')
    ∨ (Reader.read t b).Agrees (Reader.read s b')
      ∧ R k (Reader.read t b).next (Reader.read t b).buffer (Reader.read s b').next
          (Reader.read s b').buffer

theorem isFaltering_covers {σ : Type} [Source σ] :
    IsFaltering fun k (f : Faltering σ) b (s : σ) b' => f.count ≤ k ∧ f.Covers b s b' where
  available h := congrArg Source.available h.2.inner
  read {k f b s b'} h _ := by
    obtain ⟨hcount, hcovers⟩ := h
    rcases f.read_cases b with ⟨fault, g, hread, hinner, hflat⟩ | ⟨faults, hread, hflat⟩
    · have hfewer := Faltering.count_of_cons hflat
      rw [hread]
      exact .inl ⟨fault.cause, g.count, rfl, by omega, Nat.le_refl _,
        Faltering.covers_of_fault hcovers hinner hflat⟩
    · obtain ⟨hagrees, hnext⟩ := Faltering.agrees_of_covers hcovers hflat
      rw [hread]
      refine .inr ⟨hagrees.map _, ?_, hnext⟩
      rw [Reading.next_map, Faltering.count_mk hflat]
      exact hcount

/-! ### Readers behind a feed -/

section Feed

variable {ρ : Type} [Reader ρ] [Patient ρ]

omit [Patient ρ] in
theorem readPatiently_of_not_interrupted {n : Nat} {r : ρ} {buffer : Vector UInt8 n}
    (h : (Reader.read r buffer).isInterrupted = false) (retries : Nat) :
    readPatiently retries r buffer = Reader.read r buffer := by
  cases retries with
  | zero => rfl
  | succ retries => simp [readPatiently, h]

theorem readPatiently_of_patience_le {n : Nat} {r : ρ} {buffer : Vector UInt8 n}
    {retries more : Nat} (hretries : Patient.patience r ≤ retries)
    (hmore : Patient.patience r ≤ more) :
    readPatiently retries r buffer = readPatiently more r buffer := by
  induction retries generalizing more r buffer with
  | zero =>
    cases hi : (Reader.read r buffer).isInterrupted with
    | false => rw [readPatiently_of_not_interrupted hi, readPatiently_of_not_interrupted hi]
    | true =>
      have hlt := Patient.patience_lt r buffer hi
      omega
  | succ retries ih =>
    cases hi : (Reader.read r buffer).isInterrupted with
    | false => rw [readPatiently_of_not_interrupted hi, readPatiently_of_not_interrupted hi]
    | true =>
      have hlt := Patient.patience_lt r buffer hi
      obtain ⟨more, rfl⟩ : ∃ m, more = m + 1 := ⟨more - 1, by omega⟩
      simp only [readPatiently, hi, if_true]
      exact ih (by omega) (by omega)

def patientReading {n : Nat} (r : ρ) (buffer : Vector UInt8 n) : Reading ρ n :=
  readPatiently (Patient.patience r) r buffer

theorem patientReading_of_interrupted {n : Nat} {r : ρ} {buffer : Vector UInt8 n}
    (h : (Reader.read r buffer).isInterrupted = true) :
    patientReading r buffer
      = patientReading (Reader.read r buffer).next (Reader.read r buffer).buffer := by
  have hlt := Patient.patience_lt r buffer h
  obtain ⟨retries, hretries⟩ : ∃ m, Patient.patience r = m + 1 :=
    ⟨Patient.patience r - 1, by omega⟩
  rw [patientReading, hretries, readPatiently, if_pos h, patientReading]
  exact readPatiently_of_patience_le (by omega) (Nat.le_refl _)

theorem patientReading_of_not_interrupted {n : Nat} {r : ρ} {buffer : Vector UInt8 n}
    (h : (Reader.read r buffer).isInterrupted = false) :
    patientReading r buffer = Reader.read r buffer :=
  readPatiently_of_not_interrupted h _

/-- The reader inside is `r`, or where `r` gets to when it is interrupted. -/
inductive Lags (f : Faltering ρ) (b : Vector UInt8 capacity) : ρ → Vector UInt8 capacity → Prop
  | level {r : ρ} {b' : Vector UInt8 capacity} : f.Covers b r b' → Lags f b r b'
  | behind {r : ρ} {b' : Vector UInt8 capacity} : (Reader.read r b').isInterrupted = true →
      Lags f b (Reader.read r b').next (Reader.read r b').buffer → Lags f b r b'

/-- How a patient reading goes when failing reads have been put in: it meets one of them, or goes as
that of the reader itself. -/
def Reading.GoesOn (left : Reading (Faltering ρ) capacity) (count : Nat) (r : ρ)
    (b' : Vector UInt8 capacity) : Prop :=
  (∃ cause, left.outcome = .error cause ∧ left.next.count < count
    ∧ Lags left.next left.buffer r b')
  ∨ left.Agrees (patientReading r b') ∧ left.next.count ≤ count
    ∧ Lags left.next left.buffer (patientReading r b').next (patientReading r b').buffer

theorem Reading.GoesOn.mono {left : Reading (Faltering ρ) capacity} {count more : Nat} {r : ρ}
    {b' : Vector UInt8 capacity} (h : left.GoesOn count r b') (hcount : count ≤ more) :
    left.GoesOn more r b' := by
  rcases h with ⟨cause, herror, hfewer, hlags⟩ | ⟨hagrees, hfewer, hlags⟩
  · exact .inl ⟨cause, herror, Nat.lt_of_lt_of_le hfewer hcount, hlags⟩
  · exact .inr ⟨hagrees, Nat.le_trans hfewer hcount, hlags⟩

theorem Reading.GoesOn.of_interrupted {left : Reading (Faltering ρ) capacity} {count : Nat}
    {r : ρ} {b' : Vector UInt8 capacity} (hi : (Reader.read r b').isInterrupted = true)
    (h : left.GoesOn count (Reader.read r b').next (Reader.read r b').buffer) :
    left.GoesOn count r b' := by
  rcases h with ⟨cause, herror, hfewer, hlags⟩ | ⟨hagrees, hfewer, hlags⟩
  · exact .inl ⟨cause, herror, hfewer, .behind hi hlags⟩
  · rw [← patientReading_of_interrupted hi] at hagrees hlags
    exact .inr ⟨hagrees, hfewer, hlags⟩

theorem goesOn_of_covers {f : Faltering ρ} {b b' : Vector UInt8 capacity} {r : ρ}
    (h : f.Covers b r b') : (patientReading f b).GoesOn f.count r b' := by
  obtain ⟨patience, hpatience⟩ : ∃ n, Patient.patience f = n := ⟨_, rfl⟩
  induction patience using Nat.strongRecOn generalizing f b r b' with
  | ind patience ih =>
    have hlt := Patient.patience_lt f b
    cases hi : (Reader.read f b).isInterrupted with
    | false =>
      rw [patientReading_of_not_interrupted hi]
      rcases f.read_cases b with ⟨fault, g, hread, hinner, hflat⟩ | ⟨faults, hread, hflat⟩
      · have hcount := Faltering.count_of_cons hflat
        rw [hread]
        exact .inl ⟨fault.cause, rfl, hcount ▸ Nat.lt_succ_self g.count,
          .level (Faltering.covers_of_fault h hinner hflat)⟩
      · obtain ⟨hagrees, hcovers⟩ := Faltering.agrees_of_covers h hflat
        rw [hread, Reading.isInterrupted_map, hagrees.isInterrupted] at hi
        rw [hread, Reading.GoesOn, patientReading_of_not_interrupted hi]
        refine .inr ⟨hagrees.map _, ?_, .level hcovers⟩
        rw [Reading.next_map]
        exact Nat.le_of_eq (Faltering.count_mk hflat _)
    | true =>
      have hless := hlt hi
      rw [patientReading_of_interrupted hi]
      rcases f.read_cases b with ⟨fault, g, hread, hinner, hflat⟩ | ⟨faults, hread, hflat⟩
      · have hcount := Faltering.count_of_cons hflat
        rw [hread] at hless ⊢
        refine (ih _ (hpatience ▸ hless) ?_ rfl).mono (show g.count ≤ f.count by omega)
        exact Faltering.covers_of_fault h hinner hflat
      · obtain ⟨hagrees, hcovers⟩ := Faltering.agrees_of_covers h hflat
        rw [hread, Reading.isInterrupted_map, hagrees.isInterrupted] at hi
        rw [hread] at hless ⊢
        rw [← Faltering.count_mk hflat (Reader.read f.inner b).next]
        exact .of_interrupted hi (ih _ (hpatience ▸ hless) hcovers rfl)

theorem goesOn_of_lags {f : Faltering ρ} {b b' : Vector UInt8 capacity} {r : ρ}
    (h : Lags f b r b') : (patientReading f b).GoesOn f.count r b' := by
  induction h with
  | level h => exact goesOn_of_covers h
  | behind hi _ ih => exact .of_interrupted hi ih

structure FeedsAlike (k : Nat) (left : Feed (Faltering ρ)) (b : Vector UInt8 capacity)
    (right : Feed ρ) (b' : Vector UInt8 capacity) : Prop where
  count : left.reader.count ≤ k
  lags : Lags left.reader b right.reader b'
  isOpen : left.released = false
  isOpen' : right.released = false
  drained : left.drained = right.drained

theorem isFaltering_feedsAlike : IsFaltering (FeedsAlike (ρ := ρ)) where
  available h := by
    simp only [Source.available, h.isOpen, h.isOpen', h.drained]
  read {k left b right b'} h _ := by
    have hreading : left.reading b = patientReading left.reader b := rfl
    have hreading' : right.reading b' = patientReading right.reader b' := rfl
    rcases goesOn_of_lags h.lags with ⟨cause, herror, hfewer, hlags⟩ | ⟨hagrees, hfewer, hlags⟩
    · rw [← hreading] at herror hfewer hlags
      have hne : (left.reading b).outcome ≠ .ok 0 := by
        rw [herror]
        exact nofun
      rw [Feed.read_of_ne_ok_zero h.isOpen hne]
      exact .inl ⟨cause, _, herror, Nat.lt_of_lt_of_le hfewer h.count, Nat.le_refl _, hlags,
        h.isOpen, h.isOpen', h.drained⟩
    · right
      rw [← hreading, ← hreading'] at hagrees
      rw [← hreading] at hfewer
      rw [← hreading, ← hreading'] at hlags
      have hcount := Nat.le_trans hfewer h.count
      by_cases hok : (right.reading b').outcome = .ok 0
      · rw [Feed.read_of_ok_zero h.isOpen' hok,
          Feed.read_of_ok_zero h.isOpen (hagrees.outcome.trans hok), h.drained]
        exact ⟨⟨hagrees.outcome, hagrees.bytes⟩, hcount, hlags, h.isOpen, h.isOpen', rfl⟩
      · rw [Feed.read_of_ne_ok_zero h.isOpen' hok,
          Feed.read_of_ne_ok_zero h.isOpen (hagrees.outcome ▸ hok)]
        exact ⟨⟨hagrees.outcome, hagrees.bytes⟩, hcount, hlags, h.isOpen, h.isOpen', h.drained⟩

end Feed

end BasicTokens
