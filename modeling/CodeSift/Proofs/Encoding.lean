import CodeSift.Instruction.Encode
import CodeSift.Proofs.Decoding
import Mathlib.Algebra.GroupWithZero.Nat

/-!
# Decoding loses nothing

The record of a decoded instruction determines the bytes it was read from: `Instruction.encode` lays
the record out again, and gives back those bytes (`decode_lossless`).  The encoder sees the record
only, neither the mode nor where the bytes came from.

Each reader of the decoder *spells* what it returns: the bytes it takes are a fixed function of the
result.  For numbers this needs that extending a stored number by its sign, or by zeros, leaves its
low bytes as they were (`LittleEndian.bytes_signed`).  For opcodes it needs that no byte but `0f`
leads into the secondary map, and no byte but `38` and `3a` from there into the two maps behind it,
since the record keeps the map and not the escape bytes.
-/

namespace CodeSift

namespace LittleEndian

/-- Only the low bytes of a number are stored. -/
lemma bytes_add_mul (n v k : Nat) : bytes n (v + 256 ^ n * k) = bytes n v := by
  induction n generalizing v with
  | zero => rfl
  | succ n ih =>
    have hfactor : 256 ^ (n + 1) * k = 256 * (256 ^ n * k) := by
      rw [Nat.pow_succ, Nat.mul_comm (256 ^ n), Nat.mul_assoc]
    have hlow : UInt8.ofNat (v + 256 * (256 ^ n * k)) = UInt8.ofNat v := by
      apply UInt8.toNat_inj.mp
      rw [UInt8.toNat_ofNat', UInt8.toNat_ofNat']
      omega
    have hhigh : (v + 256 * (256 ^ n * k)) / 256 = v / 256 + 256 ^ n * k := by omega
    simp only [bytes, hfactor, hlow, hhigh, ih]

lemma value_lt (stored : List UInt8) : value stored < 256 ^ stored.length := by
  induction stored with
  | nil => simp [value]
  | cons b rest ih =>
    have hb : b.toNat < 256 := b.toNat_lt
    simp only [value, List.length_cons, Nat.pow_succ]
    omega

/-- Filling up a stored number with zeros keeps its bytes. -/
lemma bytes_unsigned {stored : List UInt8} (h : stored.length ≤ 4) :
    bytes stored.length (unsigned stored).toNat = stored := by
  have hlt : value stored < 2 ^ 32 :=
    Nat.lt_of_lt_of_le (value_lt stored) (Nat.pow_le_pow_right (by decide) h)
  rw [unsigned, UInt32.toNat_ofNat', Nat.mod_eq_of_lt hlt, bytes_value]

/-- Filling up a stored number with its sign keeps its bytes. -/
lemma bytes_signed {stored : List UInt8} (h : stored.length ≤ 4) :
    bytes stored.length (signed stored).toNat = stored := by
  have hvalue := value_lt stored
  have hwidth : 1 <<< (8 * stored.length) = 256 ^ stored.length := by
    rw [Nat.one_shiftLeft, Nat.pow_mul]
  have hsize : UInt32.size = 2 ^ 32 := rfl
  have hfill : 2 ^ 32 - 256 ^ stored.length =
      256 ^ stored.length * (256 ^ (4 - stored.length) - 1) := by
    rw [Nat.mul_sub_one, ← Nat.pow_add, Nat.add_sub_cancel' h, show 2 ^ 32 = 256 ^ 4 from rfl]
  have hle : 256 ^ stored.length ≤ 2 ^ 32 := Nat.pow_le_pow_right (by decide) h
  simp only [signed, hwidth, hsize]
  split
  · exact bytes_unsigned h
  · rw [UInt32.toNat_ofNat', Nat.mod_eq_of_lt (by omega), hfill, bytes_add_mul, bytes_value]

end LittleEndian

namespace OpcodeTable

/-- A slot that stands in one place of a table is found for one byte. -/
lemma eq_of_getD {slots : Array Slot} {slot : Slot} {b : UInt8} {k : Nat}
    (hslot : slot ≠ .unassigned)
    (honly : slots.toList.zipIdx.filter (fun p => p.1 = slot) = [(slot, k)])
    (h : slots.getD b.toNat .unassigned = slot) : b.toNat = k := by
  have hfound : slots.toList[b.toNat]? = some slot := by
    rw [Array.getD_eq_getD_getElem?] at h
    rw [Array.getElem?_toList]
    cases hget : slots[b.toNat]? with
    | none =>
      rw [hget] at h
      exact absurd h.symm hslot
    | some found => simpa [hget] using h
  have hmem : (slot, b.toNat) ∈ slots.toList.zipIdx.filter (fun p => p.1 = slot) :=
    List.mem_filter.mpr ⟨List.mk_mem_zipIdx_iff_getElem?.mpr hfound, by simp⟩
  rw [honly] at hmem
  simpa using hmem

/-- Only `0f` leads into the secondary map. -/
lemma eq_of_primary_escape {b : UInt8} (h : primary b = .escape) : b = 0x0f := by
  have honly : primarySlots.toList.zipIdx.filter (fun p => p.1 = .escape) = [(.escape, 0x0f)] := by
    decide +kernel
  exact UInt8.toNat_inj.mp (eq_of_getD (by decide) honly h)

/-- Only `38` leads into the map behind `0f 38`. -/
lemma eq_of_secondary_escape38 {b : UInt8} (h : secondary b = .escape38) : b = 0x38 := by
  have honly : secondarySlots.toList.zipIdx.filter (fun p => p.1 = .escape38) =
      [(.escape38, 0x38)] := by
    decide +kernel
  exact UInt8.toNat_inj.mp (eq_of_getD (by decide) honly h)

/-- Only `3a` leads into the map behind `0f 3a`. -/
lemma eq_of_secondary_escape3A {b : UInt8} (h : secondary b = .escape3A) : b = 0x3a := by
  have honly : secondarySlots.toList.zipIdx.filter (fun p => p.1 = .escape3A) =
      [(.escape3A, 0x3a)] := by
    decide +kernel
  exact UInt8.toNat_inj.mp (eq_of_getD (by decide) honly h)

end OpcodeTable

/-! ## The sizes of fields -/

lemma ImmediateSize.bytes_le (size : ImmediateSize) (operand16 : Bool) :
    size.bytes operand16 ≤ 4 := by
  cases size <;> cases operand16 <;> decide

lemma AddressSize.bytes_le (size : AddressSize) : size.bytes ≤ 4 := by
  cases size <;> decide

namespace MemoryOperand

lemma displacementBytes_le (size : AddressSize) (m : ModRm) (s : Option Sib) :
    displacementBytes size m s ≤ 4 := by
  unfold displacementBytes
  split
  · split <;> decide
  · split <;> decide
  · decide
  · exact AddressSize.bytes_le _
  · decide

@[simp] lemma addressSize_ofModRm16 (m : ModRm) (d : Int32) :
    (ofModRm16 m d).addressSize = .bits16 := by
  unfold ofModRm16
  split <;> rfl

@[simp] lemma displacement_ofModRm16 (m : ModRm) (d : Int32) :
    (ofModRm16 m d).displacement = d := by
  unfold ofModRm16
  split <;> rfl

@[simp] lemma addressSize_ofModRm32 (m : ModRm) (s : Option Sib) (d : Int32) :
    (ofModRm32 m s d).addressSize = .bits32 := by
  cases s <;> rfl

@[simp] lemma displacement_ofModRm32 (m : ModRm) (s : Option Sib) (d : Int32) :
    (ofModRm32 m s d).displacement = d := by
  cases s <;> rfl

end MemoryOperand

namespace Reader

variable {α β : Type}

/-! ## Readers that spell what they return -/

/-- Behind the bytes `front`, the reader takes bytes that make them the spelling of what it
returns. -/
def Spells (front : List UInt8) (spelling : α → List UInt8) (x : Reader α) : Prop :=
  ∀ ⦃c : Cursor⦄ ⦃a : α⦄ ⦃c' : Cursor⦄, x c = .ok (a, c') → front ++ c.rest = spelling a ++ c'.rest

lemma spells_pure {front : List UInt8} {spelling : α → List UInt8} {a : α}
    (h : spelling a = front) : Spells front spelling (pure a) := by
  intro c b c' hrun
  cases hrun
  rw [h]

lemma spells_throw (front : List UInt8) (spelling : α → List UInt8) (e : DecodeFailure) :
    Spells front spelling (throw e) := by
  intro c a c' hrun
  cases hrun

lemma spells_get : Spells [] (fun _ => []) (get : Reader Cursor) := by
  intro c a c' hrun
  cases hrun
  rfl

/-- Of readers in a row, each finds the spelling of the former in front of it. -/
lemma Spells.bind {front : List UInt8} {first : α → List UInt8} {spelling : β → List UInt8}
    {x : Reader α} {f : α → Reader β} (hx : Spells [] first x)
    (hf : ∀ a, Spells (front ++ first a) spelling (f a)) : Spells front spelling (x >>= f) := by
  intro c b c' hrun
  obtain ⟨a, c₁, hfirst, hsecond⟩ := exists_of_bind_eq_ok hrun
  have hrest : c.rest = first a ++ c₁.rest := hx hfirst
  rw [hrest, ← List.append_assoc]
  exact hf a hsecond

lemma spells_byte : Spells [] (fun b => [b]) byte := fun _ _ _ hrun => (eq_cons_of_byte hrun).1

lemma spells_prefixes : Spells [] id prefixes :=
  fun _ _ _ hrun => (eq_append_of_prefixesFrom hrun).1

/-- A number of at most four bytes is spelled by its low bytes, however it was filled up. -/
lemma spells_number {n : Nat} (hn : n ≤ 4) (signed : Bool) :
    Spells [] (fun v => LittleEndian.bytes n v.toNat) (number n signed) := by
  intro c v c' hrun
  obtain ⟨stored, c₁, htake, hvalue⟩ := exists_of_bind_eq_ok hrun
  obtain ⟨hrest, rfl, -⟩ := eq_append_of_take htake
  cases hvalue
  cases signed
  · simpa [LittleEndian.bytes_unsigned hn] using hrest
  · simpa [LittleEndian.bytes_signed hn] using hrest

/-! ## The fields of an instruction -/

lemma spells_opcode : Spells [] (fun found => found.1.escape ++ [found.2.1]) opcode := by
  refine spells_byte.bind fun first => ?_
  split
  · next hescape =>
    rw [OpcodeTable.eq_of_primary_escape hescape]
    refine spells_byte.bind fun second => ?_
    split
    · next hescape =>
      rw [OpcodeTable.eq_of_secondary_escape38 hescape]
      exact spells_byte.bind fun _ => spells_pure rfl
    · next hescape =>
      rw [OpcodeTable.eq_of_secondary_escape3A hescape]
      exact spells_byte.bind fun _ => spells_pure rfl
    · exact spells_pure rfl
  · exact spells_pure rfl

lemma spells_modrm : Spells [] (fun m => [m.toByte]) modrm :=
  spells_byte.bind fun b => spells_pure (by simp)

lemma spells_form (map : OpcodeMap) (opcode : UInt8) (slot : Slot) :
    Spells [] (fun found => (found.1.map ModRm.toByte).toList) (form map opcode slot) := by
  unfold form
  split
  · split
    · exact spells_pure rfl
    · exact spells_modrm.bind fun _ => spells_pure rfl
  · refine spells_modrm.bind fun m => ?_
    split
    · exact spells_throw _ _ _
    · exact spells_pure rfl
  · exact spells_throw _ _ _

lemma spells_sib (size : AddressSize) (m : ModRm) :
    Spells [] (fun s => (s.map Sib.toByte).toList) (sib size m) := by
  unfold sib
  split
  · exact spells_byte.bind fun b => spells_pure (by simp)
  · exact spells_pure rfl

lemma spells_immediate (operand16 : Bool) (form : Option ImmediateForm) :
    Spells [] (fun imm => (imm.map Immediate.encode).getD []) (immediate operand16 form) := by
  unfold immediate
  split
  · exact spells_pure rfl
  · next form =>
    exact (spells_number (form.size.bytes_le operand16) _).bind fun _ => spells_pure rfl

/-- The displacement as stored behind the given ModRM and SIB bytes. -/
def storedDisplacement (m : Option ModRm) (s : Option Sib) : Option MemoryOperand → List UInt8
  | none => []
  | some memory =>
    let size := match m with
      | some m => MemoryOperand.displacementBytes memory.addressSize m s
      | none => memory.addressSize.bytes
    LittleEndian.bytes size memory.displacement.toUInt32.toNat

lemma spells_memory (size : AddressSize) (m : ModRm) :
    Spells [] (fun p => (p.1.map Sib.toByte).toList ++ storedDisplacement (some m) p.1 p.2)
      (memory size m) := by
  unfold memory
  split
  · exact spells_pure rfl
  · refine (spells_sib size m).bind fun s => ?_
    refine (spells_number (MemoryOperand.displacementBytes_le size m s) true).bind
      fun displacement => ?_
    split
    · refine spells_pure ?_
      simp [storedDisplacement]
    · refine spells_pure ?_
      simp [storedDisplacement]

lemma spells_operand (opcode : UInt8) (size : AddressSize) (f : Form) (m : Option ModRm) :
    Spells [] (fun p => (p.1.map Sib.toByte).toList ++ storedDisplacement m p.1 p.2)
      (operand opcode size f m) := by
  unfold operand
  split
  · split
    · exact spells_pure rfl
    · split
      · exact spells_throw _ _ _
      · exact spells_memory _ _
    · exact spells_memory _ _
  · split
    · refine (spells_number size.bytes_le false).bind fun displacement => spells_pure ?_
      simp [storedDisplacement, MemoryOperand.fixed]
    · exact spells_pure rfl

end Reader

namespace Instruction

/-! ## Whole instructions -/

lemma displacementField_eq (i : Instruction) :
    i.displacementField = Reader.storedDisplacement i.modrm i.sib i.memory := by
  cases hmemory : i.memory <;> cases hmodrm : i.modrm <;>
    simp [displacementField, displacementSize, Reader.storedDisplacement, hmemory, hmodrm]

/-- **An instruction is spelled by its record.** -/
lemma spells_reader (mode : CpuMode) (scope : Span) (address : Address) :
    Reader.Spells [] encode (reader mode scope address) := by
  refine Reader.spells_prefixes.bind fun prefixes => Reader.spells_opcode.bind
    fun (map, opcode, slot) => ?_
  refine (Reader.spells_form map opcode slot).bind fun (modrm, form) => ?_
  refine (Reader.spells_operand opcode _ form modrm).bind fun (sib, memory) => ?_
  refine (Reader.spells_immediate _ _).bind fun immediate => ?_
  refine (Reader.spells_immediate _ _).bind fun extra => ?_
  refine Reader.spells_get.bind fun c => Reader.spells_pure ?_
  simp [encode, displacementField_eq]

/-- Laying out a decoded instruction gives back its bytes. -/
lemma encode_of_decode {mode : CpuMode} {scope : Span} {bytes : List UInt8} {address : Address}
    {i : Instruction} (h : decode mode scope bytes address = .ok i) :
    i.encode = bytes.take i.length := by
  obtain ⟨c, hrun⟩ := exists_of_decode_eq_ok h
  have hspelled : bytes = i.encode ++ c.rest := spells_reader mode scope address hrun
  obtain ⟨front, -, hrest, htaken⟩ := takes_reader mode scope address hrun
  have hfront : front = i.encode := List.append_cancel_right (hrest.symm.trans hspelled)
  have hlength : i.length = i.encode.length := by
    rw [(ensures_reader mode scope address hrun).2, htaken, hfront]
    exact Nat.zero_add _
  rw [hlength, hspelled, List.take_left]

/-- The sizes of the fields that an instruction is laid out in, in their order. -/
def fieldSizes (i : Instruction) : List Nat :=
  [i.prefixes.length, i.map.escape.length, 1, i.modrm.toList.length, i.sib.toList.length,
    i.displacementSize, (i.immediate.map Immediate.size).getD 0,
    (i.extraImmediate.map Immediate.size).getD 0]

lemma length_displacementField (i : Instruction) :
    i.displacementField.length = i.displacementSize := by
  cases hmemory : i.memory <;> simp [displacementField, displacementSize, hmemory]

lemma length_encode_immediate (imm : Option Immediate) :
    ((imm.map Immediate.encode).getD []).length = (imm.map Immediate.size).getD 0 := by
  cases imm <;> simp [Immediate.encode]

/-- An instruction is laid out in as many bytes as its fields have together. -/
lemma length_encode (i : Instruction) : i.encode.length = i.fieldSizes.sum := by
  simp only [encode, fieldSizes, List.length_append, Option.toList_map, List.length_map,
    List.length_singleton, length_displacementField, length_encode_immediate,
    List.sum_cons, List.sum_nil]
  omega

/-- **Decoding loses nothing.**  The bytes of a decoded instruction can be laid out from its record.
So its length is that of its fields together, and whatever else decodes to the same record, in
whichever mode and wherever, starts with the same bytes. -/
theorem decode_lossless {mode : CpuMode} {scope : Span} {bytes : List UInt8} {address : Address}
    {i : Instruction} (h : decode mode scope bytes address = .ok i) :
    i.encode = bytes.take i.length ∧ i.length = i.fieldSizes.sum ∧
    ∀ mode' scope' bytes' address', decode mode' scope' bytes' address' = .ok i →
      bytes'.take i.length = bytes.take i.length := by
  refine ⟨encode_of_decode h, ?_, fun mode' scope' bytes' address' h' => ?_⟩
  · have hlength := congrArg List.length (encode_of_decode h)
    rw [List.length_take, Nat.min_eq_left (decode_eq_ok h).2.2] at hlength
    rw [← length_encode, hlength]
  · rw [← encode_of_decode h, ← encode_of_decode h']

/-- The record of a far call in 16-bit mode with 32-bit operands is laid out as it stood. -/
theorem decode_lossless_far_call :
    let bytes : List UInt8 := [0x66, 0x9a, 0x78, 0x56, 0x34, 0x12, 0x08, 0x00, 0x90]
    ∃ i, decode .bits16 ⟨0, 0x10000⟩ bytes 0x100 = .ok i ∧ i.length = 8 ∧
      i.encode = [0x66, 0x9a, 0x78, 0x56, 0x34, 0x12, 0x08, 0x00] ∧ i.fieldSizes.sum = 8 := by
  intro bytes
  have height : (decode .bits16 ⟨0, 0x10000⟩ bytes 0x100).toOption.map Instruction.length =
      some 8 := by
    decide +kernel
  cases hdecode : decode .bits16 ⟨0, 0x10000⟩ bytes 0x100 with
  | error e =>
    rw [hdecode] at height
    cases height
  | ok i =>
    rw [hdecode] at height
    have hlength : i.length = 8 := Option.some.inj height
    obtain ⟨hencode, hsum, -⟩ := decode_lossless hdecode
    rw [hlength] at hencode hsum
    exact ⟨i, rfl, hlength, hencode, hsum.symm⟩

end Instruction

end CodeSift
