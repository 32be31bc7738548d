import BasicTokens.Proofs.Grammar.Refusal
import BasicTokens.Proofs.Text.Bytes

/-!
# What quoted text reads as

The quotation marks and escapes a text is shown with are those of a string literal only in part. A
plain character (`Text.IsPlain`) comes back as itself. An invisible one is shown by its number, or
as a zero, and no literal has such an escape. A visible one beyond ASCII is shown as itself, which
takes two bytes, and they are read as two characters.

So up to `U+00FF` a quoted text denotes the text if all its characters are plain
(`Text.spells_quote`), and otherwise it denotes another text or is refused
(`Text.quote_of_not_plain`).
-/

namespace BasicTokens

/-! ### What is shown as it is seen again -/

/-- What a text in UTF-8 is read as. -/
def seen (text : List Char) : List Char :=
  textOf (utf8Of text)

@[simp] theorem seen_append (text more : List Char) :
    seen (text ++ more) = seen text ++ seen more := by
  rw [seen, utf8Of_append, textOf_append]
  rfl

theorem seen_of_lt {text : List Char} (h : ∀ c ∈ text, c.toNat < 0x80) : seen text = text :=
  textOf_utf8Of_of_lt h

theorem exists_seen_of_le {c : Char} (h : 0x80 ≤ c.toNat) (hc : c.toNat ≤ 0xFF) :
    ∃ a b, seen [c] = [a, b] ∧ 0x80 ≤ a.toNat ∧ 0x80 ≤ b.toNat := by
  obtain ⟨a, b, hbytes, ha, hb⟩ := exists_utf8EncodeChar_of_le h hc
  refine ⟨Char.ofUInt8 a, Char.ofUInt8 b, ?_, ha, hb⟩
  rw [seen, utf8Of_cons, hbytes]
  rfl

theorem Encodes.append {body more value rest : List Char} (h : Encodes body value)
    (hmore : Encodes more rest) : Encodes (body ++ more) (value ++ rest) := by
  induction h with
  | nil => exact hmore
  | raw hmark hslash _ ih => exact .raw hmark hslash ih
  | escaped hescape _ ih => exact .escaped hescape ih

namespace Text

/-! ### One character -/

/-- Printable ASCII, and the three controls that a literal has an escape for. -/
def IsPlain (c : Char) : Prop :=
  c = '\t' ∨ c = '\n' ∨ c = '\r' ∨ 0x20 ≤ c.toNat ∧ c.toNat ≤ 0x7E

instance (c : Char) : Decidable (IsPlain c) :=
  inferInstanceAs (Decidable (_ ∨ _ ∨ _ ∨ _))

theorem isHidden_iff {c : Char} :
    isHidden c = true ↔ c.toNat < 0x20 ∨ (0x7F ≤ c.toNat ∧ c.toNat ≤ 0xA0) ∨ c.toNat = 0xAD := by
  simp [isHidden, or_assoc]

theorem isPlain_iff {c : Char} :
    IsPlain c ↔ (∃ b, (b, c) ∈ escapes) ∨ isHidden c = false ∧ c.toNat < 0x80 := by
  have hvisible : isHidden c = false ∧ c.toNat < 0x80 ↔ 0x20 ≤ c.toNat ∧ c.toNat ≤ 0x7E := by
    rw [← Bool.not_eq_true, isHidden_iff]
    omega
  rw [hvisible]
  constructor
  · rintro (rfl | rfl | rfl | hascii)
    · exact .inl ⟨'t', by decide⟩
    · exact .inl ⟨'n', by decide⟩
    · exact .inl ⟨'r', by decide⟩
    · exact .inr hascii
  · rintro (⟨b, hb⟩ | hascii)
    · simp only [escapes, List.mem_cons, Prod.mk.injEq, List.not_mem_nil, or_false] at hb
      rcases hb with ⟨-, rfl⟩ | ⟨-, rfl⟩ | ⟨-, rfl⟩ | ⟨-, rfl⟩ | ⟨-, rfl⟩ <;> decide
    · exact .inr (.inr (.inr hascii))

theorem escape_of_mem {b c : Char} (h : (b, c) ∈ escapes) :
    escape '\x22' c = ['\\', b] ∧ seen ['\\', b] = ['\\', b] := by
  simp only [escapes, List.mem_cons, Prod.mk.injEq, List.not_mem_nil, or_false] at h
  rcases h with ⟨rfl, rfl⟩ | ⟨rfl, rfl⟩ | ⟨rfl, rfl⟩ | ⟨rfl, rfl⟩ | ⟨rfl, rfl⟩ <;>
    exact ⟨by decide, by decide⟩

theorem ne_of_notMem {b c d : Char} (h : ∀ b, (b, c) ∉ escapes) (hd : (b, d) ∈ escapes) :
    c ≠ d := by
  rintro rfl
  exact h b hd

/-- What a literal has no escape for is shown by its number, or as a zero, or as it is. -/
theorem escape_of_notMem {c : Char} (h : ∀ b, (b, c) ∉ escapes) :
    escape '\x22' c
      = if c = '\x00' then ['\\', '0'] else if isHidden c = true then byNumber c else [c] := by
  have hmark : ¬ (c = '\x22' ∨ c = '\\') := by
    rintro (rfl | rfl)
    · exact h '\x22' (by decide)
    · exact h '\\' (by decide)
  have hnewline : c ≠ '\n' := @ne_of_notMem 'n' _ _ h (by decide)
  have hreturn : c ≠ '\r' := @ne_of_notMem 'r' _ _ h (by decide)
  have htab : c ≠ '\t' := @ne_of_notMem 't' _ _ h (by decide)
  rw [escape, if_neg hmark, if_neg hnewline, if_neg hreturn, if_neg htab]

theorem escape_of_visible {c : Char} (h : ∀ b, (b, c) ∉ escapes) (hc : isHidden c = false) :
    escape '\x22' c = [c] := by
  have hzero : c ≠ '\x00' := by
    rintro rfl
    cases hc
  rw [escape_of_notMem h, if_neg hzero, if_neg (by rw [hc]; exact Bool.false_ne_true)]

theorem encodes_escape {c : Char} (h : IsPlain c) : Encodes (seen (escape '\x22' c)) [c] := by
  by_cases hescape : ∃ b, (b, c) ∈ escapes
  · obtain ⟨b, hb⟩ := hescape
    obtain ⟨hescaped, hseen⟩ := escape_of_mem hb
    rw [hescaped, hseen]
    exact .escaped hb .nil
  · obtain ⟨hhidden, hlt⟩ := (isPlain_iff.1 h).resolve_left hescape
    rw [not_exists] at hescape
    rw [escape_of_visible hescape hhidden, seen_of_lt (by simpa using hlt)]
    exact .raw (@ne_of_notMem '\x22' _ _ hescape (by decide))
      (@ne_of_notMem '\\' _ _ hescape (by decide)) .nil

theorem notMem_of_not_isPlain {c : Char} (h : ¬ IsPlain c) (b : Char) : (b, c) ∉ escapes := by
  intro hb
  exact h (isPlain_iff.2 (.inl ⟨b, hb⟩))

/-- No literal has the escape that an invisible character is shown by. -/
theorem exists_badEscape {c : Char} (h : ¬ IsPlain c) (hc : isHidden c = true) :
    ∃ b left, seen (escape '\x22' c) = '\\' :: b :: left ∧ ∀ d, (b, d) ∉ escapes := by
  rw [escape_of_notMem (notMem_of_not_isPlain h), if_pos hc]
  split
  · exact ⟨'0', [], by decide, by simp [escapes]⟩
  · refine ⟨'u', seen ('\x7b' :: (Nat.toDigits 16 c.toNat ++ ['\x7d'])), ?_, by simp [escapes]⟩
    rw [byNumber]
    exact seen_append ['\\', 'u'] _

theorem exists_encodes_pair {c : Char} (h : ¬ IsPlain c) (hc : isHidden c = false)
    (hle : c.toNat ≤ 0xFF) : ∃ a b, Encodes (seen (escape '\x22' c)) [a, b] := by
  have hbeyond : 0x80 ≤ c.toNat := by
    refine Nat.le_of_not_lt fun hlt => h (isPlain_iff.2 (.inr ⟨hc, hlt⟩))
  have hraw : ∀ d : Char, 0x80 ≤ d.toNat → d ≠ '\x22' ∧ d ≠ '\\' := by
    intro d hd
    refine ⟨?_, ?_⟩ <;> rintro rfl <;> exact absurd hd (by decide)
  obtain ⟨a, b, hseen, ha, hb⟩ := exists_seen_of_le hbeyond hle
  rw [escape_of_visible (notMem_of_not_isPlain h) hc, hseen]
  exact ⟨a, b, .raw (hraw a ha).1 (hraw a ha).2 (.raw (hraw b hb).1 (hraw b hb).2 .nil)⟩

/-- A shown character encodes itself, or more than one character, or nothing. -/
theorem escape_cases {c : Char} (h : c.toNat ≤ 0xFF) :
    (∃ value, Encodes (seen (escape '\x22' c)) value
      ∧ (value = [c] ∧ IsPlain c ∨ 1 < value.length))
    ∨ ∃ b left, seen (escape '\x22' c) = '\\' :: b :: left ∧ ∀ d, (b, d) ∉ escapes := by
  by_cases hplain : IsPlain c
  · exact .inl ⟨[c], encodes_escape hplain, .inl ⟨rfl, hplain⟩⟩
  · cases hc : isHidden c with
    | true => exact .inr (exists_badEscape hplain hc)
    | false =>
      obtain ⟨a, b, hpair⟩ := exists_encodes_pair hplain hc h
      exact .inl ⟨[a, b], hpair, .inr Nat.one_lt_two⟩

/-! ### Whole texts -/

theorem encodes_body {text : List Char} (h : ∀ c ∈ text, IsPlain c) :
    Encodes (seen (text.flatMap (escape '\x22'))) text := by
  induction text with
  | nil => exact .nil
  | cons c text ih =>
    rw [List.flatMap_cons, seen_append]
    exact (encodes_escape (h c List.mem_cons_self)).append
      (ih fun d hd => h d (List.mem_cons_of_mem _ hd))

/-- What stands between the quotation marks encodes a text that is no shorter, and is another one
unless all characters are plain; or it has an escape that no literal has. -/
theorem body_cases {text : List Char} (h : ∀ c ∈ text, c.toNat ≤ 0xFF) :
    (∃ value, Encodes (seen (text.flatMap (escape '\x22'))) value ∧ text.length ≤ value.length
      ∧ (value = text → ∀ c ∈ text, IsPlain c))
    ∨ ∃ body value c left, seen (text.flatMap (escape '\x22')) = body ++ '\\' :: c :: left
      ∧ Encodes body value ∧ ∀ d, (c, d) ∉ escapes := by
  induction text with
  | nil => exact .inl ⟨[], .nil, Nat.le_refl _, fun _ c hc => by cases hc⟩
  | cons c text ih =>
    rw [List.flatMap_cons, seen_append]
    rcases escape_cases (h c List.mem_cons_self) with ⟨head, hhead, hone⟩ | ⟨b, left, hseen, hb⟩
    · rcases ih fun d hd => h d (List.mem_cons_of_mem _ hd) with
        ⟨value, hvalue, hlength, hsame⟩ | ⟨body, value, d, left, hbody, hvalue, hd⟩
      · refine .inl ⟨head ++ value, hhead.append hvalue, ?_, fun heq => ?_⟩
        · rcases hone with ⟨rfl, -⟩ | hlong
          · simpa using hlength
          · rw [List.length_append, List.length_cons]
            omega
        · rcases hone with ⟨rfl, hplain⟩ | hlong
          · exact List.forall_mem_cons.2 ⟨hplain, hsame (List.cons.inj heq).2⟩
          · have hlengths := congrArg List.length heq
            rw [List.length_append, List.length_cons] at hlengths
            omega
      · exact .inr ⟨_, _, d, left, by rw [hbody, List.append_assoc], hhead.append hvalue, hd⟩
    · exact .inr ⟨[], [], b, left ++ seen (text.flatMap (escape '\x22')), by rw [hseen]; rfl, .nil,
        hb⟩

theorem seen_quote (s : String) :
    seen (quote s).toList = '\x22' :: (seen (s.toList.flatMap (escape '\x22')) ++ ['\x22']) := by
  have hmark : seen ['\x22'] = ['\x22'] := by decide
  rw [quote, String.toList_ofList, quoteWith, ← List.singleton_append, seen_append, seen_append,
    hmark]
  rfl

/-- **A quoted text of plain characters denotes the text.** -/
theorem spells_quote {s : String} (h : ∀ c ∈ s.toList, IsPlain c) :
    Spells (seen (quote s).toList) (.string s) := by
  have hspells := Spells.string (encodes_body h)
  rwa [String.ofList_toList, ← seen_quote] at hspells

/-- **Any other quoted text up to `U+00FF` denotes another text or is refused.** -/
theorem quote_of_not_plain {s : String} (h : ∀ c ∈ s.toList, c.toNat ≤ 0xFF)
    (hplain : ¬ ∀ c ∈ s.toList, IsPlain c) :
    (∃ other, other ≠ s ∧ Spells (seen (quote s).toList) (.string other))
      ∨ AlwaysRefused (seen (quote s).toList) := by
  rw [seen_quote]
  rcases body_cases h with ⟨value, hvalue, -, heq⟩ | ⟨body, value, c, left, hbody, hvalue, hc⟩
  · refine .inl ⟨String.ofList value, ?_, .string hvalue⟩
    rintro rfl
    rw [String.toList_ofList] at heq hplain
    exact hplain (heq rfl)
  · right
    rw [hbody, List.append_assoc]
    exact alwaysRefused_of_badEscape hvalue hc (left ++ ['\x22'])

end Text

end BasicTokens
