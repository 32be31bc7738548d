import BasicTokens.Source.Basic

/-!
# Bytes in memory

A list of bytes is its own source. It knows exactly whether it has more, a read hands out as much as
the buffer takes, and closing it drops the rest.
-/

namespace BasicTokens

def readBytes (bytes : List UInt8) {n : Nat} (buffer : Vector UInt8 n) : Reading (List UInt8) n :=
  ⟨.ok (min n bytes.length), overlay buffer 0 (bytes.take n), bytes.drop n⟩

theorem count_add_length_readBytes_le (bytes : List UInt8) {n : Nat} (buffer : Vector UInt8 n) :
    (readBytes bytes buffer).count + (readBytes bytes buffer).next.length ≤ bytes.length := by
  simp only [readBytes, Reading.count, List.length_drop]
  omega

instance : Source (List UInt8) where
  read := readBytes
  close _ := []
  available bytes := !bytes.isEmpty

instance : Bounded (List UInt8) where
  budget := List.length
  count_add_budget_le bytes _ buffer := count_add_length_readBytes_le bytes buffer

end BasicTokens
