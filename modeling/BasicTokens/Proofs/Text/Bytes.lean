import BasicTokens.Proofs.Scan.Text
import Mathlib.Data.List.Basic

/-!
# Texts as bytes

Two encodings meet wherever a text is written and read again. What is read is decoded byte by byte
(`textOf`), what is written is encoded in UTF-8 (`utf8Of`). On ASCII the two undo each other. Beyond
it a character is written as several bytes, none of which is ASCII, and each of them is read as a
character of its own.

So an ASCII byte stands for itself in UTF-8 wherever it occurs, and UTF-8 may be cut at it
(`exists_utf8Of_of_cut`).
-/

namespace BasicTokens

theorem toNat_ofUInt8 (b : UInt8) : (Char.ofUInt8 b).toNat = b.toNat := rfl

theorem ofUInt8_injective (a b : UInt8) (h : Char.ofUInt8 a = Char.ofUInt8 b) : a = b :=
  UInt8.toNat_inj.1 (congrArg Char.toNat h)

theorem textOf_injective {bytes others : List UInt8} (h : textOf bytes = textOf others) :
    bytes = others :=
  (List.map_inj_right ofUInt8_injective).1 h

/-- A text in UTF-8. -/
def utf8Of (text : List Char) : List UInt8 :=
  text.flatMap String.utf8EncodeChar

@[simp] theorem utf8Of_nil : utf8Of [] = [] := rfl

@[simp] theorem utf8Of_cons (c : Char) (text : List Char) :
    utf8Of (c :: text) = String.utf8EncodeChar c ++ utf8Of text := rfl

@[simp] theorem utf8Of_append (text more : List Char) :
    utf8Of (text ++ more) = utf8Of text ++ utf8Of more :=
  List.flatMap_append

theorem toList_toUTF8 (s : String) : s.toUTF8.data.toList = utf8Of s.toList := by
  have hbytes : s.toUTF8 = (utf8Of s.toList).toByteArray := by
    rw [String.toUTF8_eq_toByteArray, ← String.ofList_toList (s := s), String.toByteArray_ofList,
      String.toList_ofList]
    rfl
  rw [hbytes, List.data_toByteArray]

/-! ### One character -/

theorem utf8EncodeChar_of_lt {c : Char} (h : c.toNat < 0x80) :
    String.utf8EncodeChar c = [UInt8.ofNat c.toNat] := by
  have hle : c.val.toNat ≤ 127 := Nat.le_of_lt_succ h
  simp only [String.utf8EncodeChar, if_pos hle]
  rfl

theorem utf8EncodeChar_ofUInt8 {b : UInt8} (h : b.toNat < 0x80) :
    String.utf8EncodeChar (Char.ofUInt8 b) = [b] := by
  have hc : (Char.ofUInt8 b).toNat < 0x80 := h
  rw [utf8EncodeChar_of_lt hc, toNat_ofUInt8, UInt8.ofNat_toNat]

theorem textOf_utf8EncodeChar_of_lt {c : Char} (h : c.toNat < 0x80) :
    textOf (String.utf8EncodeChar c) = [c] := by
  rw [utf8EncodeChar_of_lt h, textOf_cons, textOf_nil]
  have hc : (Char.ofUInt8 (UInt8.ofNat c.toNat)).toNat = c.toNat := by
    rw [toNat_ofUInt8, UInt8.toNat_ofNat']
    omega
  rw [Char.toNat_inj.1 hc]

theorem le_toNat_ofNat {n : Nat} (h : 0x80 ≤ n) (hn : n < 0x100) :
    0x80 ≤ (UInt8.ofNat n).toNat := by
  rw [UInt8.toNat_ofNat']
  omega

theorem le_toNat_of_mem_utf8EncodeChar {c : Char} {b : UInt8} (h : 0x80 ≤ c.toNat)
    (hb : b ∈ String.utf8EncodeChar c) : 0x80 ≤ b.toNat := by
  have hnot : ¬c.val.toNat ≤ 127 := Nat.not_le_of_lt h
  simp only [String.utf8EncodeChar, if_neg hnot] at hb
  split_ifs at hb <;> simp only [List.mem_cons, List.not_mem_nil, or_false] at hb
  · rcases hb with rfl | rfl <;> exact le_toNat_ofNat (by omega) (by omega)
  · rcases hb with rfl | rfl | rfl <;> exact le_toNat_ofNat (by omega) (by omega)
  · rcases hb with rfl | rfl | rfl | rfl <;> exact le_toNat_ofNat (by omega) (by omega)

/-- A character beyond ASCII and up to `U+00FF` is written as two bytes. -/
theorem exists_utf8EncodeChar_of_le {c : Char} (h : 0x80 ≤ c.toNat) (hc : c.toNat ≤ 0xFF) :
    ∃ a b, String.utf8EncodeChar c = [a, b] ∧ 0x80 ≤ a.toNat ∧ 0x80 ≤ b.toNat := by
  have hnot : ¬c.val.toNat ≤ 127 := Nat.not_le_of_lt h
  have hle : c.val.toNat ≤ 2047 := Nat.le_trans hc (by decide)
  refine ⟨UInt8.ofNat (c.val.toNat / 64 % 32 + 192), UInt8.ofNat (c.val.toNat % 64 + 128), ?_,
    le_toNat_ofNat (by omega) (by omega), le_toNat_ofNat (by omega) (by omega)⟩
  simp only [String.utf8EncodeChar, if_neg hnot, if_pos hle]

/-! ### Texts -/

theorem textOf_utf8Of_of_lt {text : List Char} (h : ∀ c ∈ text, c.toNat < 0x80) :
    textOf (utf8Of text) = text := by
  induction text with
  | nil => rfl
  | cons c text ih =>
    rw [utf8Of_cons, textOf_append, textOf_utf8EncodeChar_of_lt (h c List.mem_cons_self),
      ih fun d hd => h d (List.mem_cons_of_mem _ hd)]
    rfl

/-- What stands before an ASCII byte and what stands behind it are UTF-8 if the whole is. -/
theorem exists_utf8Of_of_cut {b : UInt8} (hb : b.toNat < 0x80) {text : List Char}
    {before behind : List UInt8} (h : utf8Of text = before ++ b :: behind) :
    ∃ front back, before = utf8Of front ∧ behind = utf8Of back := by
  induction text generalizing before with
  | nil => simp at h
  | cons c text ih =>
    have hlater : ∀ more, utf8Of text = more ++ b :: behind →
        before = String.utf8EncodeChar c ++ more →
        ∃ front back, before = utf8Of front ∧ behind = utf8Of back := by
      intro more hmore hbefore
      obtain ⟨front, back, rfl, hback⟩ := ih hmore
      exact ⟨c :: front, back, hbefore, hback⟩
    rw [utf8Of_cons, List.append_eq_append_iff] at h
    rcases h with ⟨more, hbefore, htext⟩ | ⟨more, hchar, hbehind⟩
    · exact hlater more htext hbefore
    · cases more with
      | nil =>
        rw [List.append_nil] at hchar
        exact hlater [] hbehind.symm (by rw [hchar, List.append_nil])
      | cons d more =>
        obtain ⟨rfl, hmore⟩ : b = d ∧ behind = more ++ utf8Of text := by simpa using hbehind
        have hmem : b ∈ String.utf8EncodeChar c := by simp [hchar]
        by_cases hc : c.toNat < 0x80
        · rw [utf8EncodeChar_of_lt hc] at hchar
          obtain ⟨rfl, hrest⟩ : before = [] ∧ more = [] := by
            have hlength := congrArg List.length hchar
            simp only [List.length_append, List.length_cons, List.length_nil] at hlength
            exact ⟨List.length_eq_zero_iff.1 (by omega), List.length_eq_zero_iff.1 (by omega)⟩
          exact ⟨[], text, rfl, by rw [hmore, hrest, List.nil_append]⟩
        · have hle := le_toNat_of_mem_utf8EncodeChar (Nat.le_of_not_lt hc) hmem
          omega

end BasicTokens
