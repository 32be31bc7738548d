import BasicTokens.Proofs.Scan.Text
import BasicTokens.Cursor
import BasicTokens.Source.Feed
import BasicTokens.Source.Script
import BasicTokens.Source.Slice

/-!
# Honest deliveries

A source delivers some bytes if its reads hand them out in order, in pieces of any size above zero,
and it says that it has more as long as there are some left. Behind the last byte the delivery ends
in one of the two ways of `Ending`: either the source says that it has no more or its reads come back
empty, or the next read fails.

How a source goes on depends on the buffers it is shown, so a delivery is not one run but a relation
between sources and bytes that every read respects. `Delivers` is the greatest such relation.
-/

namespace BasicTokens

/-- A reading that hands out a piece of `bytes`, or, when none are left, shows how they end. -/
inductive Reading.IsHonest {ρ : Type} {n : Nat} (ending : Ending) (R : ρ → List UInt8 → Prop)
    (reading : Reading ρ n) (bytes : List UInt8) : Prop
  | piece (piece rest : List UInt8) : piece ≠ [] → bytes = piece ++ rest →
      reading.outcome = .ok piece.length → reading.bytes = piece → R reading.next rest →
      IsHonest ending R reading bytes
  | nothing : bytes = [] → ending = .quiet → reading.outcome = .ok 0 →
      IsHonest ending R reading bytes
  | failure (cause : ReadFailure) : bytes = [] → ending = .failure cause →
      reading.outcome = .error cause → IsHonest ending R reading bytes

theorem Reading.IsHonest.mono {ρ : Type} {n : Nat} {ending : Ending} {R S : ρ → List UInt8 → Prop}
    {reading : Reading ρ n} {bytes : List UInt8} (hRS : ∀ r bytes, R r bytes → S r bytes)
    (h : reading.IsHonest ending R bytes) : reading.IsHonest ending S bytes := by
  cases h with
  | piece piece rest hne hbytes hok hpiece hnext =>
    exact .piece piece rest hne hbytes hok hpiece (hRS _ _ hnext)
  | nothing hbytes hending hok => exact .nothing hbytes hending hok
  | failure cause hbytes hending herror => exact .failure cause hbytes hending herror

/-! ### Sources -/

/-- A relation between sources and the bytes they still have that reads respect. -/
structure IsDelivery {σ : Type} [Source σ] (ending : Ending) (R : σ → List UInt8 → Prop) :
    Prop where
  unavailable : ∀ {s bytes}, R s bytes → Source.available s = false →
    bytes = [] ∧ ending = .quiet
  honest : ∀ {s bytes}, R s bytes → Source.available s = true →
    ∀ buffer : Vector UInt8 capacity, (Reader.read s buffer).IsHonest ending R bytes
  /-- A read that comes back empty changes nothing. -/
  dry : ∀ {s}, R s [] → Source.available s = true → ∀ buffer : Vector UInt8 capacity,
    (Reader.read s buffer).outcome = .ok 0 → R (Reader.read s buffer).next []

/-- A source that hands out exactly these bytes and then ends so. -/
def Delivers {σ : Type} [Source σ] (ending : Ending) (s : σ) (bytes : List UInt8) : Prop :=
  ∃ R : σ → List UInt8 → Prop, IsDelivery ending R ∧ R s bytes

theorem IsDelivery.delivers {σ : Type} [Source σ] {ending : Ending} {R : σ → List UInt8 → Prop}
    (hR : IsDelivery ending R) {s : σ} {bytes : List UInt8} (h : R s bytes) :
    Delivers ending s bytes :=
  ⟨R, hR, h⟩

theorem isDelivery_delivers {σ : Type} [Source σ] (ending : Ending) :
    IsDelivery (σ := σ) ending (Delivers ending) where
  unavailable := fun ⟨_, hR, h⟩ ha => hR.unavailable h ha
  honest := fun ⟨_, hR, h⟩ ha buffer => (hR.honest h ha buffer).mono fun _ _ => hR.delivers
  dry := fun ⟨_, hR, h⟩ ha buffer hok => hR.delivers (hR.dry h ha buffer hok)

theorem Delivers.unique {σ : Type} [Source σ] {ending : Ending} {s : σ} {bytes others : List UInt8}
    (h : Delivers ending s bytes) (h' : Delivers ending s others) : bytes = others := by
  obtain ⟨n, hn⟩ : ∃ n, bytes.length = n := ⟨_, rfl⟩
  induction n using Nat.strongRecOn generalizing s bytes others with
  | ind n ih =>
    have hD := isDelivery_delivers (σ := σ) ending
    cases ha : Source.available s with
    | false => rw [(hD.unavailable h ha).1, (hD.unavailable h' ha).1]
    | true =>
      -- any buffer will do, since both deliveries answer the same read
      have buffer : Vector UInt8 capacity := Vector.replicate capacity 0
      cases hD.honest h ha buffer with
      | piece piece rest hne hbytes hok hread hnext =>
        have hlength : piece.length ≠ 0 := mt List.length_eq_zero_iff.1 hne
        cases hD.honest h' ha buffer with
        | piece piece' rest' hne' hbytes' hok' hread' hnext' =>
          rw [hbytes, List.length_append] at hn
          rw [hbytes, hbytes', ← hread, ← hread', ih rest.length (by omega) hnext hnext' rfl]
        | nothing _ _ hok' =>
          rw [hok, Except.ok.injEq] at hok'
          exact absurd hok' hlength
        | failure cause _ _ herror =>
          rw [hok] at herror
          cases herror
      | nothing hnil _ hok =>
        cases hD.honest h' ha buffer with
        | piece piece' rest' hne' hbytes' hok' =>
          rw [hok, Except.ok.injEq] at hok'
          exact absurd hok'.symm (mt List.length_eq_zero_iff.1 hne')
        | nothing hnil' => rw [hnil, hnil']
        | failure cause hnil' => rw [hnil, hnil']
      | failure cause hnil _ herror =>
        cases hD.honest h' ha buffer with
        | piece piece' rest' hne' hbytes' hok' =>
          rw [herror] at hok'
          cases hok'
        | nothing hnil' => rw [hnil, hnil']
        | failure cause' hnil' => rw [hnil, hnil']

theorem take_overlay_take {n : Nat} (bytes : List UInt8) (buffer : Vector UInt8 n) :
    (overlay buffer 0 (bytes.take n)).toList.take (min n bytes.length) = bytes.take n := by
  have htake := take_overlay (bytes.take n) buffer (List.length_take_le n bytes)
  rwa [List.length_take] at htake

theorem delivers_slice (bytes : List UInt8) : Delivers .quiet bytes bytes := by
  refine ⟨fun s rest => s = rest, ⟨?_, ?_, ?_⟩, rfl⟩
  · rintro s _ rfl ha
    exact ⟨by simpa [Source.available] using ha, rfl⟩
  · rintro s _ rfl ha buffer
    have hne : s ≠ [] := by simpa [Source.available] using ha
    refine .piece (s.take capacity) (s.drop capacity) ?_ (List.take_append_drop _ _).symm ?_ ?_ rfl
    · simp [hne, capacity]
    · rw [List.length_take]
      rfl
    · rw [← take_overlay_take s buffer]
      simp [Reading.bytes, Reading.count, Reader.read, readBytes]
  · rintro s rfl ha
    cases ha

/-! ### Readers -/

/-- A relation between readers and the bytes they still have that reads respect. A read may be
interrupted, and then nothing has been handed out. -/
structure IsHandover {ρ : Type} [Reader ρ] (ending : Ending) (R : ρ → List UInt8 → Prop) :
    Prop where
  interrupted : ∀ {r bytes}, R r bytes → ∀ buffer : Vector UInt8 capacity,
    (Reader.read r buffer).isInterrupted = true → R (Reader.read r buffer).next bytes
  honest : ∀ {r bytes}, R r bytes → ∀ buffer : Vector UInt8 capacity,
    (Reader.read r buffer).isInterrupted = false →
      (Reader.read r buffer).IsHonest ending R bytes

/-- A reader that hands out exactly these bytes and then ends so, interruptions apart. -/
def HandsOut {ρ : Type} [Reader ρ] (ending : Ending) (r : ρ) (bytes : List UInt8) : Prop :=
  ∃ R : ρ → List UInt8 → Prop, IsHandover ending R ∧ R r bytes

section Feed

variable {ρ : Type} [Reader ρ] [Patient ρ]

theorem isHonest_readPatiently {ending : Ending} {R : ρ → List UInt8 → Prop}
    (hR : IsHandover ending R) {retries : Nat} {r : ρ} {bytes : List UInt8} (h : R r bytes)
    (hretries : Patient.patience r ≤ retries) (buffer : Vector UInt8 capacity) :
    (readPatiently retries r buffer).IsHonest ending R bytes := by
  induction retries generalizing r buffer with
  | zero =>
    refine hR.honest h buffer (Bool.eq_false_iff.2 fun hi => ?_)
    have := Patient.patience_lt r buffer hi
    omega
  | succ retries ih =>
    simp only [readPatiently]
    split
    · rename_i hi
      have := Patient.patience_lt r buffer hi
      exact ih (hR.interrupted h buffer hi) (by omega) _
    · rename_i hi
      exact hR.honest h buffer (Bool.eq_false_iff.2 hi)

def Feed.reading {n : Nat} (feed : Feed ρ) (buffer : Vector UInt8 n) : Reading ρ n :=
  readPatiently (Patient.patience feed.reader) feed.reader buffer

theorem Feed.read_of_ok_zero {n : Nat} {feed : Feed ρ} {buffer : Vector UInt8 n}
    (hreleased : feed.released = false) (hok : (feed.reading buffer).outcome = .ok 0) :
    Reader.read feed buffer = (feed.reading buffer).map fun r =>
      { feed with reader := r, drained := feed.drained || 0 < n } := by
  rw [Feed.reading] at hok ⊢
  simp only [Reader.read, Feed.read, hreleased, Bool.false_eq_true, if_false, hok]

theorem Feed.read_of_ne_ok_zero {n : Nat} {feed : Feed ρ} {buffer : Vector UInt8 n}
    (hreleased : feed.released = false) (hne : (feed.reading buffer).outcome ≠ .ok 0) :
    Reader.read feed buffer
      = (feed.reading buffer).map fun r => { feed with reader := r } := by
  rw [Feed.reading] at hne ⊢
  simp only [Reader.read, Feed.read, hreleased, Bool.false_eq_true, if_false]

theorem Feed.available_iff_of_not_released {feed : Feed ρ} (h : feed.released = false) :
    Source.available feed = true ↔ feed.drained = false := by
  simp [Source.available, h]

/-- The relation between a feed and what is left of it: what its reader still has, or nothing once
the reader has run dry. -/
def Feed.Holds (ending : Ending) (R : ρ → List UInt8 → Prop) (feed : Feed ρ)
    (bytes : List UInt8) : Prop :=
  feed.released = false ∧
    (feed.drained = false ∧ R feed.reader bytes
      ∨ feed.drained = true ∧ bytes = [] ∧ ending = .quiet)

theorem isDelivery_holds {ending : Ending} {R : ρ → List UInt8 → Prop} (hR : IsHandover ending R) :
    IsDelivery ending (Feed.Holds ending R) := by
  have hopen : ∀ {feed : Feed ρ} {bytes : List UInt8}, feed.Holds ending R bytes →
      Source.available feed = true →
      feed.released = false ∧ feed.drained = false ∧
        ∀ buffer : Vector UInt8 capacity, (feed.reading buffer).IsHonest ending R bytes := by
    intro feed bytes h ha
    obtain ⟨hreleased, hholds⟩ := h
    have hdrained := (Feed.available_iff_of_not_released hreleased).1 ha
    have hr : R feed.reader bytes := by simpa [hdrained] using hholds
    exact ⟨hreleased, hdrained, isHonest_readPatiently hR hr (Nat.le_refl _)⟩
  refine ⟨?_, ?_, ?_⟩
  · rintro feed bytes ⟨hreleased, ⟨hdrained, -⟩ | ⟨-, hend⟩⟩ ha
    · rw [(Feed.available_iff_of_not_released hreleased).2 hdrained] at ha
      cases ha
    · exact hend
  · intro feed bytes hholds ha buffer
    obtain ⟨hreleased, hdrained, hhonest⟩ := hopen hholds ha
    cases hhonest buffer with
    | piece piece rest hne hbytes hok hpiece hnext =>
      have hlength : piece.length ≠ 0 := mt List.length_eq_zero_iff.1 hne
      rw [Feed.read_of_ne_ok_zero hreleased (by simpa [hok] using hlength)]
      exact .piece piece rest hne hbytes hok hpiece ⟨hreleased, .inl ⟨hdrained, hnext⟩⟩
    | nothing hbytes hending hok =>
      rw [Feed.read_of_ok_zero hreleased hok]
      exact .nothing hbytes hending hok
    | failure cause hbytes hending herror =>
      rw [Feed.read_of_ne_ok_zero hreleased (by simp [herror])]
      exact .failure cause hbytes hending herror
  · intro feed hholds ha buffer hok
    obtain ⟨hreleased, hdrained, hhonest⟩ := hopen hholds ha
    cases hhonest buffer with
    | piece piece rest hne hbytes => exact absurd hbytes.symm (by simp [hne])
    | nothing hbytes hending hzero =>
      rw [Feed.read_of_ok_zero hreleased hzero]
      refine ⟨hreleased, .inr ⟨?_, rfl, hending⟩⟩
      exact Bool.or_eq_true_iff.2 (.inr (decide_eq_true (Nat.succ_pos _)))
    | failure cause hbytes hending herror =>
      rw [Feed.read_of_ne_ok_zero hreleased (by simp [herror])] at hok
      simp [Reading.map, herror] at hok

theorem delivers_feed {ending : Ending} {r : ρ} {bytes : List UInt8}
    (h : HandsOut ending r bytes) : Delivers ending (Feed.mk r false false) bytes := by
  obtain ⟨R, hR, hr⟩ := h
  exact (isDelivery_holds hR).delivers ⟨rfl, .inl ⟨rfl, hr⟩⟩

end Feed

/-! ### Scripts -/

namespace Script

/-- A step of an honest reader: it hands something out and reports just that, or is interrupted. -/
def Step.IsHonest : Step → Prop
  | .data bytes report => bytes ≠ [] ∧ report = none
  | .failure cause => cause.kind = .interrupted

instance (step : Step) : Decidable step.IsHonest :=
  match step with
  | .data bytes report => inferInstanceAs (Decidable (bytes ≠ [] ∧ report = none))
  | .failure cause => inferInstanceAs (Decidable (cause.kind = .interrupted))

def Step.bytes : Step → List UInt8
  | .data bytes _ => bytes
  | .failure _ => []

def Shows : Ending → List Step → Prop
  | .quiet, steps => steps = []
  | .failure cause, steps => cause.kind ≠ .interrupted ∧ steps.head? = some (.failure cause)

theorem handsOut {ending : Ending} {steps more : List Step}
    (hsteps : ∀ step ∈ steps, step.IsHonest) (hmore : Shows ending more) :
    HandsOut ending (Script.mk (steps ++ more)) (steps.flatMap Step.bytes) := by
  refine ⟨fun script bytes => ∃ steps, script = ⟨steps ++ more⟩ ∧
    (∀ step ∈ steps, step.IsHonest) ∧ bytes = steps.flatMap Step.bytes, ⟨?_, ?_⟩,
    steps, rfl, hsteps, rfl⟩
  · rintro _ _ ⟨steps, rfl, hsteps, rfl⟩ buffer hi
    cases steps with
    | nil =>
      cases ending with
      | quiet =>
        obtain rfl : more = [] := hmore
        cases hi
      | failure cause =>
        obtain ⟨hkind, hhead⟩ := hmore
        obtain ⟨tail, rfl⟩ := List.head?_eq_some_iff.1 hhead
        exact absurd (of_decide_eq_true hi) hkind
    | cons step steps =>
      cases step with
      | data bytes report => cases hi
      | failure cause =>
        exact ⟨steps, rfl, fun step h => hsteps step (List.mem_cons_of_mem _ h), rfl⟩
  · rintro _ _ ⟨steps, rfl, hsteps, rfl⟩ buffer hi
    cases steps with
    | nil =>
      cases ending with
      | quiet =>
        obtain rfl : more = [] := hmore
        exact .nothing rfl rfl rfl
      | failure cause =>
        obtain ⟨-, hhead⟩ := hmore
        obtain ⟨tail, rfl⟩ := List.head?_eq_some_iff.1 hhead
        exact .failure cause rfl rfl rfl
    | cons step steps =>
      have htail : ∀ step ∈ steps, step.IsHonest := fun step h =>
        hsteps step (List.mem_cons_of_mem _ h)
      cases step with
      | data bytes report =>
        obtain ⟨hne, rfl⟩ := hsteps _ List.mem_cons_self
        refine .piece (bytes.take capacity) (bytes.drop capacity ++ steps.flatMap Step.bytes)
          ?_ ?_ ?_ ?_ ?_
        · simp [hne, capacity]
        · rw [← List.append_assoc, List.take_append_drop]
          rfl
        · rw [List.length_take]
          rfl
        · rw [← take_overlay_take bytes buffer]
          simp [Reading.bytes, Reading.count, Reader.read, read]
        · by_cases hlength : bytes.length ≤ capacity
          · refine ⟨steps, ?_, htail, ?_⟩
            · simp [Reader.read, read, hlength]
            · rw [List.drop_of_length_le hlength, List.nil_append]
          · refine ⟨.data (bytes.drop capacity) none :: steps, ?_, ?_, rfl⟩
            · simp [Reader.read, read, hlength]
            · intro step hstep
              rcases List.mem_cons.1 hstep with rfl | hstep
              · exact ⟨by simpa [List.drop_eq_nil_iff] using hlength, rfl⟩
              · exact htail step hstep
      | failure cause =>
        have hkind : cause.kind = .interrupted := hsteps _ List.mem_cons_self
        simp [Reader.read, read, Reading.isInterrupted, hkind] at hi

end Script

end BasicTokens
