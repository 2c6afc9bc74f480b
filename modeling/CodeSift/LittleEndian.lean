/-!
# Little-endian numbers

Every number in machine code and in the container around it is stored with its least
significant byte first.  `value` reads such a number and `bytes` writes one; each undoes the
other at a fixed number of bytes.  `signed` and `unsigned` extend a number of one, two or four
bytes to a 32-bit word.
-/

namespace CodeSift.LittleEndian

/-- The number that the bytes spell, least significant byte first. -/
def value : List UInt8 → Nat
  | [] => 0
  | b :: rest => b.toNat + 256 * value rest

def bytes : Nat → Nat → List UInt8
  | 0, _ => []
  | n + 1, v => UInt8.ofNat v :: bytes n (v / 256)

/-- The word with the value of the bytes, the missing high bytes being zero. -/
def unsigned (stored : List UInt8) : UInt32 := UInt32.ofNat (value stored)

/-- The word with the value of the bytes read in two's complement. -/
def signed (stored : List UInt8) : UInt32 :=
  let v := value stored
  let bound := 1 <<< (8 * stored.length)
  UInt32.ofNat (if 2 * v < bound then v else v + (UInt32.size - bound))

@[simp] theorem length_bytes (n v : Nat) : (bytes n v).length = n := by
  induction n generalizing v with
  | zero => rfl
  | succ n ih => simp [bytes, ih]

/-- Writing a number that was read gives back its bytes. -/
theorem bytes_value (stored : List UInt8) : bytes stored.length (value stored) = stored := by
  induction stored with
  | nil => rfl
  | cons b rest ih =>
    have hb : b.toNat < 256 := b.toNat_lt
    have hlow : UInt8.ofNat (b.toNat + 256 * value rest) = b := by
      apply UInt8.toNat_inj.mp
      rw [UInt8.toNat_ofNat']
      omega
    have hhigh : (b.toNat + 256 * value rest) / 256 = value rest := by omega
    simp only [List.length_cons, value, bytes, hlow, hhigh, ih]

end CodeSift.LittleEndian
