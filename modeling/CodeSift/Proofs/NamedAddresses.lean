import CodeSift.Proofs.Address
import CodeSift.Proofs.Encoding
import Mathlib.Algebra.Group.Int.Defs

/-!
# Decoding depends on the place of the bytes for references only

The same bytes decode to the same instruction wherever they stand and whichever addresses count as
references.  Two readers *agree* when they take the same bytes and fail alike (`Reader.Agrees`); the
readers of an instruction at two places are the same but for the record that is put together at the
end.

Which address an instruction names is said by `Instruction.named?`, which looks at the bytes of the
instruction and not at how they are decoded: the distance of a branch is a number in two's
complement behind the opcode, the offset of a far pointer stands in front of a selector of two
bytes, and a memory operand without registers is its displacement.  The decoder goes by the form
that its tables give an opcode.  That the forms of branches and of far pointers belong to the
opcodes of branches and of far pointers is checked along the tables (`Slot.suits`).
-/

namespace CodeSift

/-! ## Stored numbers -/

namespace LittleEndian

/-- The number that the bytes spell in two's complement. -/
def integer (stored : List UInt8) : Int := Int.bmod (value stored) (256 ^ stored.length)

/-- A number whose highest bit is set stands for one that is less by all that the bytes can hold. -/
lemma integer_eq (stored : List UInt8) : integer stored =
    if 2 * value stored < 256 ^ stored.length then (value stored : Int)
    else (value stored : Int) - (256 ^ stored.length : Nat) := by
  have hvalue := value_lt stored
  simp only [integer, Int.bmod_def]
  generalize 256 ^ stored.length = bound at *
  have hmod : (value stored : Int) % (bound : Int) = value stored :=
    Int.emod_eq_of_lt (by omega) (by omega)
  rw [hmod]
  split
  · rw [if_pos (by omega)]
  · rw [if_neg (by omega)]

lemma toNat_signed {stored : List UInt8} (h : stored.length ≤ 4) :
    ((signed stored).toNat : Int) = integer stored % 2 ^ 32 := by
  have hvalue := value_lt stored
  have hwidth : 1 <<< (8 * stored.length) = 256 ^ stored.length := by
    rw [Nat.one_shiftLeft, Nat.pow_mul]
  have hsize : UInt32.size = 2 ^ 32 := rfl
  have hbound : 256 ^ stored.length ≤ 2 ^ 32 := Nat.pow_le_pow_right (by decide) h
  rw [integer_eq]
  simp only [signed, hwidth, hsize]
  generalize 256 ^ stored.length = bound at *
  split
  · rw [Address.toNat_ofNat (by omega)]
    omega
  · rw [Address.toNat_ofNat (by omega)]
    omega

lemma toNat_unsigned {stored : List UInt8} (h : stored.length ≤ 4) :
    (unsigned stored).toNat = value stored := by
  apply Address.toNat_ofNat
  exact Nat.lt_of_lt_of_le (value_lt stored) (Nat.pow_le_pow_right (by decide) h)

lemma value_bytes (n v : Nat) : value (bytes n v) = v % 256 ^ n := by
  induction n generalizing v with
  | zero => simp [bytes, value, Nat.mod_one]
  | succ n ih =>
    have hlow : (UInt8.ofNat v).toNat = v % 256 := UInt8.toNat_ofNat'
    rw [bytes, value, ih, hlow, Nat.pow_succ, Nat.mul_comm (256 ^ n), Nat.mod_mul]

end LittleEndian

/-! ## The opcodes that name addresses -/

namespace OpcodeMap

/-- The opcode is that of a branch over a distance: a conditional jump, a loop, a near call or a
near jump. -/
def branches (map : OpcodeMap) (opcode : UInt8) : Bool :=
  match map with
  | .primary =>
    (0x70 ≤ opcode && opcode ≤ 0x7f) || (0xe0 ≤ opcode && opcode ≤ 0xe3) || opcode == 0xe8
      || opcode == 0xe9 || opcode == 0xeb
  | .secondary => 0x80 ≤ opcode && opcode ≤ 0x8f
  | .map38 | .map3A => false

/-- The opcode is that of a far call or a far jump. -/
def goesFar (map : OpcodeMap) (opcode : UInt8) : Bool :=
  match map with
  | .primary => opcode == 0x9a || opcode == 0xea
  | .secondary | .map38 | .map3A => false

end OpcodeMap

/-- The form is one for the opcode, as far as the naming of addresses goes. -/
def Form.suits (map : OpcodeMap) (opcode : UInt8) (f : Form) : Bool :=
  if map.branches opcode then f == .rel8 || f == .relZ
  else if map.goesFar opcode then f == .farPointer
  else f.reference == .memory

/-- Whatever form the slot leads to is one for the opcode.  Branches and far pointers are in no
group. -/
def Slot.suits (map : OpcodeMap) (opcode : UInt8) : Slot → Bool
  | .form f => f.suits map opcode
  | .group g => !map.branches opcode && !map.goesFar opcode &&
      g.members.all fun member => member.all fun f => f.reference == .memory
  | _ => true

namespace OpcodeTable

/-- A test that all slots of a table pass is passed by what is looked up. -/
lemma forall_getD {slots : Array Slot} (test : UInt8 → Slot → Bool)
    (hunassigned : ∀ b, test b .unassigned = true)
    (hall : slots.toList.zipIdx.all (fun p => test (UInt8.ofNat p.2) p.1) = true) (b : UInt8) :
    test b (slots.getD b.toNat .unassigned) = true := by
  rw [Array.getD_eq_getD_getElem?]
  cases hget : slots[b.toNat]? with
  | none => exact hunassigned b
  | some slot =>
    have hmem : (slot, b.toNat) ∈ slots.toList.zipIdx :=
      List.mk_mem_zipIdx_iff_getElem?.mpr (by rw [Array.getElem?_toList, hget])
    simpa using List.all_eq_true.mp hall _ hmem

lemma suits_primary (b : UInt8) : (primary b).suits .primary b = true := by
  have hall : primarySlots.toList.zipIdx.all (fun p => p.1.suits .primary (UInt8.ofNat p.2)) =
      true := by
    decide +kernel
  unfold primary
  exact forall_getD (fun b slot => slot.suits .primary b) (fun _ => rfl) hall b

lemma suits_secondary (b : UInt8) : (secondary b).suits .secondary b = true := by
  have hall : secondarySlots.toList.zipIdx.all (fun p => p.1.suits .secondary (UInt8.ofNat p.2)) =
      true := by
    decide +kernel
  unfold secondary
  exact forall_getD (fun b slot => slot.suits .secondary b) (fun _ => rfl) hall b

end OpcodeTable

namespace Reader

variable {α β : Type}

/-! ## What the readers ensure -/

lemma ensures_pure {P : α → Cursor → Prop} {a : α} (h : ∀ c, P a c) : Ensures P (pure a) := by
  intro c b c' hrun
  cases hrun
  exact h c

lemma ensures_throw (P : α → Cursor → Prop) (e : DecodeFailure) : Ensures P (throw e) := by
  intro c a c' hrun
  cases hrun

/-- What the first reader ensures can be used of the second. -/
lemma Ensures.bind {Q : α → Prop} {P : β → Cursor → Prop} {x : Reader α} {f : α → Reader β}
    (hx : Ensures (fun a _ => Q a) x) (hf : ∀ a, Q a → Ensures P (f a)) : Ensures P (x >>= f) := by
  intro c b c' hrun
  obtain ⟨a, c₁, hfirst, hsecond⟩ := exists_of_bind_eq_ok hrun
  exact hf a (hx hfirst) hsecond

lemma ensures_opcode :
    Ensures (fun found _ => found.2.2.suits found.1 found.2.1 = true) opcode := by
  apply ensures_bind
  intro first
  split
  · apply ensures_bind
    intro second
    split
    · apply ensures_bind
      exact fun _ => ensures_pure fun _ => rfl
    · apply ensures_bind
      exact fun _ => ensures_pure fun _ => rfl
    · apply ensures_pure
      simp only [OpcodeTable.suits_secondary, implies_true]
  · apply ensures_pure
    simp only [OpcodeTable.suits_primary, implies_true]

/-- A form that suits the opcode of a branch or of a far pointer comes without a ModRM byte. -/
lemma modrm_of_suits {map : OpcodeMap} {opcode : UInt8} {f : Form}
    (hsuits : f.suits map opcode = true)
    (hnames : map.branches opcode = true ∨ map.goesFar opcode = true) : f.modrm = .absent := by
  rw [Form.suits] at hsuits
  split at hsuits
  · simp only [Bool.or_eq_true, beq_iff_eq] at hsuits
    rcases hsuits with rfl | rfl <;> rfl
  · next hbranches =>
    rw [if_pos (hnames.resolve_left hbranches), beq_iff_eq] at hsuits
    rw [hsuits]
    rfl

lemma ensures_form {map : OpcodeMap} {opcode : UInt8} {slot : Slot}
    (hsuits : slot.suits map opcode = true) :
    Ensures (fun found _ => found.2.suits map opcode = true ∧
      (map.branches opcode = true ∨ map.goesFar opcode = true → found.1 = none))
      (form map opcode slot) := by
  unfold form
  split
  · next f =>
    split
    · exact ensures_pure fun _ => ⟨hsuits, fun _ => rfl⟩
    · next hmodrm =>
      apply ensures_bind
      refine fun m => ensures_pure fun _ => ⟨hsuits, fun hnames => ?_⟩
      exact absurd (modrm_of_suits hsuits hnames) hmodrm
  · next g =>
    simp only [Slot.suits, Bool.and_eq_true, Bool.not_eq_true', List.all_eq_true] at hsuits
    obtain ⟨⟨hbranches, hfar⟩, hmembers⟩ := hsuits
    apply ensures_bind
    intro m
    split
    · exact ensures_throw _ _
    · next f hmember =>
      refine ensures_pure fun _ => ⟨?_, by simp [hbranches, hfar]⟩
      have hmem : some f ∈ g.members := by
        rw [Group.member, Option.join_eq_some_iff] at hmember
        exact List.mem_of_getElem? hmember
      simpa [Form.suits, hbranches, hfar] using hmembers _ hmem
  · exact ensures_throw _ _

/-- **What the operand of an instruction is.**  Without a ModRM byte or a bare address there is
none.  A memory operand has the address size in force, and if it has no registers its displacement
is a whole address. -/
structure Describes (size : AddressSize) (f : Form) (modrm : Option ModRm) (sib : Option Sib)
    (memory : Option MemoryOperand) : Prop where
  absent : modrm = none → f.offset = false → sib = none ∧ memory = none
  addressSize : ∀ operand ∈ memory, operand.addressSize = size
  whole : ∀ m ∈ modrm, ∀ operand ∈ memory, operand.base = none → operand.index = none →
    MemoryOperand.displacementBytes size m sib = size.bytes

/-- A 16-bit operand without registers has a displacement of two bytes. -/
lemma displacementBytes_of_ofModRm16 {m : ModRm} {d : Int32} (sib : Option Sib)
    (hbase : (MemoryOperand.ofModRm16 m d).base = none) :
    MemoryOperand.displacementBytes .bits16 m sib = AddressSize.bytes .bits16 := by
  have hregister : (MemoryOperand.registers16 m.rm).1 ≠ none := by
    generalize m.rm = rm
    revert rm
    decide
  by_cases hfixed : m.mode = 0 ∧ m.rm = 6
  · simp [MemoryOperand.displacementBytes, hfixed.1, hfixed.2, AddressSize.bytes]
  · refine absurd ?_ hregister
    simpa [MemoryOperand.ofModRm16, hfixed] using hbase

/-- A 32-bit operand without a base has a displacement of four bytes. -/
lemma displacementBytes_of_ofModRm32 {m : ModRm} {sib : Option Sib} {d : Int32}
    (hbase : (MemoryOperand.ofModRm32 m sib d).base = none) :
    MemoryOperand.displacementBytes .bits32 m sib = AddressSize.bytes .bits32 := by
  cases sib with
  | none =>
    have hfixed : m.mode = 0 ∧ m.rm = 5 := by simpa [MemoryOperand.ofModRm32] using hbase
    simp [MemoryOperand.displacementBytes, hfixed.1, hfixed.2, AddressSize.bytes]
  | some s =>
    have hfixed : m.mode = 0 ∧ s.base = 5 := by simpa [MemoryOperand.ofModRm32] using hbase
    simp [MemoryOperand.displacementBytes, hfixed.1, hfixed.2, AddressSize.bytes]

lemma ensures_memory (size : AddressSize) (f : Form) (m : ModRm) :
    Ensures (fun p _ => Describes size f (some m) p.1 p.2) (memory size m) := by
  unfold memory
  split
  · exact ensures_pure fun _ => ⟨by simp, by simp, by simp⟩
  · apply ensures_bind
    intro sib
    apply ensures_bind
    intro displacement
    split
    · apply ensures_pure
      refine fun _ => ⟨by simp, by simp, ?_⟩
      rintro _ ⟨⟩ _ ⟨⟩ hbase -
      exact displacementBytes_of_ofModRm16 sib hbase
    · apply ensures_pure
      refine fun _ => ⟨by simp, by simp, ?_⟩
      rintro _ ⟨⟩ _ ⟨⟩ hbase -
      exact displacementBytes_of_ofModRm32 hbase

lemma ensures_operand (opcode : UInt8) (size : AddressSize) (f : Form) (modrm : Option ModRm) :
    Ensures (fun p _ => Describes size f modrm p.1 p.2) (operand opcode size f modrm) := by
  unfold operand
  split
  · split
    · exact ensures_pure fun _ => ⟨by simp, by simp, by simp⟩
    · split
      · exact ensures_throw _ _
      · exact ensures_memory _ _ _
    · exact ensures_memory _ _ _
  · split
    · next hoffset =>
      apply ensures_bind
      intro d
      exact ensures_pure fun _ => ⟨by simp [hoffset], by simp [MemoryOperand.fixed], by simp⟩
    · exact ensures_pure fun _ => ⟨by simp, by simp, by simp⟩

/-- **What an immediate is**: a stored number of the size that the form asks for, extended as it
asks for. -/
def Holds (operand16 : Bool) (form : Option ImmediateForm) (imm : Option Immediate) : Prop :=
  match form with
  | none => imm = none
  | some form => ∃ stored : List UInt8, stored.length = form.size.bytes operand16 ∧
      imm = some ⟨if form.signed then LittleEndian.signed stored else LittleEndian.unsigned stored,
        stored.length⟩

lemma ensures_immediate (operand16 : Bool) (form : Option ImmediateForm) :
    Ensures (fun imm _ => Holds operand16 form imm) (immediate operand16 form) := by
  unfold immediate
  split
  · exact ensures_pure fun _ => rfl
  · next form =>
    intro c imm c' hrun
    obtain ⟨v, c₁, hnumber, hvalue⟩ := exists_of_bind_eq_ok hrun
    obtain ⟨stored, c₂, htake, hv⟩ := exists_of_bind_eq_ok hnumber
    obtain ⟨-, hlength, -⟩ := eq_append_of_take htake
    cases hvalue
    cases hv
    exact ⟨stored, hlength, by rw [hlength]⟩

/-- An immediate is stored in the bytes that it is laid out as. -/
lemma exists_stored {operand16 : Bool} {form : ImmediateForm} {imm : Option Immediate}
    (h : Holds operand16 (some form) imm) :
    ∃ stored : List UInt8, stored.length = form.size.bytes operand16 ∧
      stored.length ≤ 4 ∧ (imm.map Immediate.encode).getD [] = stored ∧
      imm.map Immediate.value = some
        (if form.signed then LittleEndian.signed stored else LittleEndian.unsigned stored) := by
  obtain ⟨stored, hlength, rfl⟩ := h
  have hle : stored.length ≤ 4 := hlength ▸ form.size.bytes_le operand16
  refine ⟨stored, hlength, hle, ?_, rfl⟩
  simp only [Option.map_some, Option.getD_some, Immediate.encode]
  split
  · exact LittleEndian.bytes_signed hle
  · exact LittleEndian.bytes_unsigned hle

/-! ## Readers that agree -/

/-- The readers fail alike, or they stop at one place and what they return is related. -/
def Agrees (R : α → β → Prop) (x : Reader α) (y : Reader β) : Prop :=
  ∀ c, (∃ e, x c = .error e ∧ y c = .error e) ∨ ∃ a b c',
    x c = .ok (a, c') ∧ y c = .ok (b, c') ∧ R a b

lemma agrees_pure {R : α → β → Prop} {a : α} {b : β} (h : R a b) : Agrees R (pure a) (pure b) :=
  fun c => Or.inr ⟨a, b, c, rfl, rfl, h⟩

/-- Readers with the same beginning agree if what follows it does. -/
lemma agrees_bind {γ : Type} {R : β → γ → Prop} {x : Reader α} {f : α → Reader β} {g : α → Reader γ}
    (h : ∀ a, Agrees R (f a) (g a)) : Agrees R (x >>= f) (x >>= g) := by
  intro c
  show (∃ e, (x c >>= fun p => f p.1 p.2) = _ ∧ (x c >>= fun p => g p.1 p.2) = _) ∨
    ∃ a b c', (x c >>= fun p => f p.1 p.2) = _ ∧ (x c >>= fun p => g p.1 p.2) = _ ∧ _
  cases x c with
  | error e => exact Or.inl ⟨e, rfl, rfl⟩
  | ok p => exact h p.1 p.2

end Reader

namespace Instruction

variable {mode : CpuMode} {scope : Span} {address : Address} {bytes : List UInt8}
  {i : Instruction} {f : Form}

/-! ## What a record holds -/

/-- **What decoding an instruction of some form gives.** -/
structure Follows (mode : CpuMode) (scope : Span) (address : Address) (f : Form) (i : Instruction) :
    Prop where
  suits : f.suits i.map i.opcode = true
  bare : i.map.branches i.opcode = true ∨ i.map.goesFar i.opcode = true → i.modrm = none
  operand : Reader.Describes (addressSizeOf mode i.prefixes) f i.modrm i.sib i.memory
  immediate : Reader.Holds (has16BitOperands mode i.prefixes) f.immediate i.immediate
  extra : Reader.Holds (has16BitOperands mode i.prefixes) f.extra i.extraImmediate
  reference : i.reference = (destination mode (has16BitOperands mode i.prefixes)
    (address + UInt32.ofNat i.length) f.reference i.immediate i.memory).filter (· ∈ scope)

lemma ensures_follows (mode : CpuMode) (scope : Span) (address : Address) :
    Reader.Ensures (fun i _ => ∃ f, Follows mode scope address f i)
      (reader mode scope address) := by
  unfold reader
  refine Reader.ensures_bind fun prefixes => ?_
  refine Reader.ensures_opcode.bind fun (map, opcode, slot) hslot => ?_
  refine (Reader.ensures_form hslot).bind fun (modrm, form) hform => ?_
  refine (Reader.ensures_operand opcode _ form modrm).bind fun (sib, memory) hoperand => ?_
  refine (Reader.ensures_immediate _ _).bind fun immediate himmediate => ?_
  refine (Reader.ensures_immediate _ _).bind fun extra hextra => ?_
  intro c i c' hrun
  cases hrun
  exact ⟨form, hform.1, hform.2, hoperand, himmediate, hextra, rfl⟩

/-! ## The address that is named -/

/-- The bytes of the instruction behind its opcode. -/
def behindOpcode (i : Instruction) (bytes : List UInt8) : List UInt8 :=
  (bytes.take i.length).drop (i.prefixes.length + i.map.escape.length + 1)

/-- The bytes of the instruction behind its opcode and its ModRM and SIB bytes. -/
def behindModRm (i : Instruction) (bytes : List UInt8) : List UInt8 :=
  (i.behindOpcode bytes).drop (i.modrm.toList.length + i.sib.toList.length)

/-- The target of a branch over a distance from `next`.  With 16-bit operands, only the low half of
the sum counts; 16-bit code stays in its segment. -/
def landing (mode : CpuMode) (operand16 : Bool) (next : Nat) (distance : Int) : Nat :=
  let sum := ((next + distance) % 2 ^ 32).toNat
  if operand16 then
    match mode with
    | .bits32 => sum % 2 ^ 16
    | .bits16 => next / 2 ^ 16 * 2 ^ 16 + sum % 2 ^ 16
  else sum

/-- **The address that an instruction names**, read off its bytes.  A branch names the address that
lies its distance behind the instruction, a far call or jump the offset in front of the selector,
and any other instruction its memory operand, if no register enters into it. -/
def named? (mode : CpuMode) (address : Address) (bytes : List UInt8) (i : Instruction) :
    Option Nat :=
  if i.map.branches i.opcode then
    some (landing mode (has16BitOperands mode i.prefixes) ((address.toNat + i.length) % 2 ^ 32)
      (LittleEndian.integer (i.behindOpcode bytes)))
  else if i.map.goesFar i.opcode then
    some (LittleEndian.value ((i.behindOpcode bytes).take ((i.behindOpcode bytes).length - 2)))
  else match i.memory with
    | none => none
    | some operand =>
      if operand.base = none ∧ operand.index = none then
        some (LittleEndian.value ((i.behindModRm bytes).take (addressSizeOf mode i.prefixes).bytes))
      else none

lemma toNat_branchDestination {operand16 : Bool} {next distance : Address} {d : Int}
    (hd : (distance.toNat : Int) = d % 2 ^ 32) :
    (branchDestination mode operand16 next distance).toNat =
      landing mode operand16 next.toNat d := by
  have hsum : (next + distance).toNat = ((next.toNat + d) % 2 ^ 32).toNat := by
    rw [UInt32.toNat_add]
    omega
  cases operand16 with
  | false => simpa [branchDestination, landing] using hsum
  | true =>
    cases mode with
    | bits16 => simp only [branchDestination, landing, if_true, Address.toNat_or_halves, hsum]
    | bits32 => simp only [branchDestination, landing, if_true, Address.toNat_and_low, hsum]

/-- Behind the opcode come the ModRM and SIB bytes, the displacement and the immediates. -/
lemma behindOpcode_eq (h : i.encode = bytes.take i.length) : i.behindOpcode bytes =
    (i.modrm.map ModRm.toByte).toList ++ (i.sib.map Sib.toByte).toList ++ i.displacementField
      ++ (i.immediate.map Immediate.encode).getD [] ++
        (i.extraImmediate.map Immediate.encode).getD [] := by
  rw [behindOpcode, ← h]
  simp only [encode, List.append_assoc]
  rw [← List.append_assoc, ← List.append_assoc]
  apply List.drop_left'
  simp [Nat.add_assoc]

/-- The displacement stands first behind the ModRM and SIB bytes. -/
lemma take_behindModRm (h : i.encode = bytes.take i.length) :
    (i.behindModRm bytes).take i.displacementSize = i.displacementField := by
  rw [behindModRm, behindOpcode_eq h]
  simp only [List.append_assoc]
  rw [← List.append_assoc, List.drop_left' (by simp [Option.toList_map]),
    List.take_left' i.length_displacementField]

/-- A branch or a far pointer has its immediates behind the opcode and nothing else. -/
lemma Follows.behindOpcode_eq_immediates (hf : Follows mode scope address f i)
    (h : i.encode = bytes.take i.length) (hoffset : f.offset = false)
    (hnames : i.map.branches i.opcode = true ∨ i.map.goesFar i.opcode = true) :
    i.behindOpcode bytes =
      (i.immediate.map Immediate.encode).getD [] ++
        (i.extraImmediate.map Immediate.encode).getD [] := by
  have hmodrm := hf.bare hnames
  obtain ⟨hsib, hmemory⟩ := hf.operand.absent hmodrm hoffset
  simp [behindOpcode_eq h, hmodrm, hsib, displacementField, hmemory]

/-- The distance of a branch is its immediate. -/
lemma Follows.immediate_of_branches (hf : Follows mode scope address f i)
    (h : i.encode = bytes.take i.length) (hbranches : i.map.branches i.opcode = true) :
    f.reference = .relative ∧ (i.behindOpcode bytes).length ≤ 4 ∧
      i.immediate.map Immediate.value = some (LittleEndian.signed (i.behindOpcode bytes)) := by
  have hform : f = .rel8 ∨ f = .relZ := by simpa [Form.suits, hbranches] using hf.suits
  have hshape : f.offset = false ∧ f.extra = none ∧ f.reference = .relative ∧
      ∃ size, f.immediate = some ⟨size, true⟩ := by
    rcases hform with rfl | rfl <;> simp [Form.rel8, Form.relZ]
  obtain ⟨hoffset, hextra, hreference, size, himmediate⟩ := hshape
  obtain ⟨stored, -, hle, hencode, hvalue⟩ := Reader.exists_stored (himmediate ▸ hf.immediate)
  have hnone : i.extraImmediate = none := by simpa [Reader.Holds, hextra] using hf.extra
  have hbehind : i.behindOpcode bytes = stored := by
    simp [hf.behindOpcode_eq_immediates h hoffset (Or.inl hbranches), hencode, hnone]
  rw [hbehind]
  exact ⟨hreference, hle, by simpa using hvalue⟩

/-- The offset of a far pointer is its immediate, and the selector behind it has two bytes. -/
lemma Follows.immediate_of_goesFar (hf : Follows mode scope address f i)
    (h : i.encode = bytes.take i.length) (hbranches : ¬ i.map.branches i.opcode = true)
    (hfar : i.map.goesFar i.opcode = true) :
    f.reference = .far ∧ ((i.immediate.map Immediate.value).map UInt32.toNat) = some
      (LittleEndian.value ((i.behindOpcode bytes).take ((i.behindOpcode bytes).length - 2))) := by
  have hform : f = .farPointer := by simpa [Form.suits, hbranches, hfar] using hf.suits
  subst hform
  obtain ⟨stored, -, hle, hencode, hvalue⟩ := Reader.exists_stored hf.immediate
  obtain ⟨selector, hselector, -, hencode', -⟩ := Reader.exists_stored hf.extra
  have hbehind : i.behindOpcode bytes = stored ++ selector := by
    rw [hf.behindOpcode_eq_immediates h rfl (Or.inr hfar), hencode, hencode']
  have hsize : (stored ++ selector).length - 2 = stored.length := by
    simp [hselector, ImmediateSize.bytes]
  rw [hbehind, hsize, List.take_left, hvalue]
  exact ⟨rfl, congrArg some (LittleEndian.toNat_unsigned hle)⟩

/-- The address of a memory operand without registers is its displacement, filled up with zeros. -/
lemma Follows.absolute_of_memory (hf : Follows mode scope address f i)
    (h : i.encode = bytes.take i.length) {operand : MemoryOperand}
    (hmemory : i.memory = some operand) (hbase : operand.base = none)
    (hindex : operand.index = none) : operand.absolute?.map UInt32.toNat =
      some (LittleEndian.value
        ((i.behindModRm bytes).take (addressSizeOf mode i.prefixes).bytes)) := by
  have hsize := hf.operand.addressSize operand hmemory
  have hwhole : i.displacementSize = (addressSizeOf mode i.prefixes).bytes := by
    cases hmodrm : i.modrm with
    | none => simp [displacementSize, hmemory, hmodrm, hsize]
    | some m => simpa [displacementSize, hmemory, hmodrm, hsize] using
        hf.operand.whole m hmodrm operand hmemory hbase hindex
  have hfield : i.displacementField =
      LittleEndian.bytes (addressSizeOf mode i.prefixes).bytes
      operand.displacement.toUInt32.toNat := by
    simp [displacementField, hmemory, hwhole]
  rw [← hwhole, take_behindModRm h, hfield, LittleEndian.value_bytes, MemoryOperand.absolute?]
  simp only [hbase, hindex, hsize, Option.isSome_none, Bool.or_self, Bool.false_eq_true, if_false]
  cases addressSizeOf mode i.prefixes with
  | bits16 => exact congrArg some (Address.toNat_and_low _)
  | bits32 => exact congrArg some (Nat.mod_eq_of_lt (UInt32.toNat_lt _)).symm

/-- **The decoder resolves what the bytes name.** -/
lemma Follows.named?_eq (hf : Follows mode scope address f i) (h : i.encode = bytes.take i.length) :
    (destination mode (has16BitOperands mode i.prefixes)
      (address + UInt32.ofNat i.length) f.reference i.immediate i.memory).map UInt32.toNat =
      i.named? mode address bytes := by
  have hnext : (address + UInt32.ofNat i.length).toNat = (address.toNat + i.length) % 2 ^ 32 := by
    simp [UInt32.toNat_add, UInt32.toNat_ofNat']
  unfold named?
  split
  · next hbranches =>
    obtain ⟨hreference, hle, hvalue⟩ := hf.immediate_of_branches h hbranches
    obtain ⟨imm, himm, hsigned⟩ := Option.map_eq_some_iff.mp hvalue
    rw [hreference, himm, ← hnext]
    refine congrArg some (toNat_branchDestination ?_)
    rw [hsigned, LittleEndian.toNat_signed hle]
  · next hbranches =>
    split
    · next hfar =>
      obtain ⟨hreference, hvalue⟩ := hf.immediate_of_goesFar h hbranches hfar
      rw [hreference]
      exact hvalue
    · next hfar =>
      have hreference : f.reference = .memory := by
        simpa [Form.suits, hbranches, hfar] using hf.suits
      rw [hreference]
      show (i.memory.bind MemoryOperand.absolute?).map UInt32.toNat = _
      cases hmemory : i.memory with
      | none => rfl
      | some operand =>
        show operand.absolute?.map UInt32.toNat = if _ then _ else _
        split
        · next hfixed => exact hf.absolute_of_memory h hmemory hfixed.1 hfixed.2
        · next hregister =>
          have hsome : operand.base.isSome = true ∨ operand.index.isSome = true := by
            rw [Option.isSome_iff_ne_none, Option.isSome_iff_ne_none]
            exact Decidable.not_and_iff_not_or_not.mp hregister
          simp [MemoryOperand.absolute?, hsome]

/-! ## The place of the bytes -/

/-- The readers at two places take the same bytes, and what they return differs in the place and the
reference only. -/
lemma agrees_reader (mode : CpuMode) (scope scope' : Span) (address address' : Address) :
    Reader.Agrees (fun i i' => i = { i' with address := address, reference := i.reference })
      (reader mode scope address) (reader mode scope' address') := by
  unfold reader
  refine Reader.agrees_bind fun prefixes => Reader.agrees_bind fun (map, opcode, slot) => ?_
  refine Reader.agrees_bind fun (modrm, form) => Reader.agrees_bind fun (sib, memory) => ?_
  refine Reader.agrees_bind fun immediate => Reader.agrees_bind fun extra => ?_
  exact Reader.agrees_bind fun c => Reader.agrees_pure rfl

lemma decode_eq_of_reader {result : Except DecodeFailure (Instruction × Cursor)}
    (h : reader mode scope address ⟨0, bytes⟩ = result) :
    decode mode scope bytes address = result.map Prod.fst := by
  rw [← h]
  rfl

/-- The reference of a decoded instruction is the address that it names, if that lies in scope. -/
lemma reference_eq_some_iff (h : decode mode scope bytes address = .ok i) (t : Address) :
    i.reference = some t ↔ i.named? mode address bytes = some t.toNat ∧ t ∈ scope := by
  obtain ⟨c, hrun⟩ := exists_of_decode_eq_ok h
  obtain ⟨f, hf⟩ := ensures_follows mode scope address hrun
  rw [← hf.named?_eq (encode_of_decode h), hf.reference, Option.filter_eq_some_iff,
    decide_eq_true_eq]
  refine and_congr_left fun _ => ?_
  rw [Option.map_eq_some_iff]
  constructor
  · exact fun htarget => ⟨t, htarget, rfl⟩
  · rintro ⟨u, htarget, hu⟩
    rw [htarget, UInt32.toNat_inj.mp hu]

/-- **Decoding depends on the place of the bytes for references only.**  At two places, with any two
scopes, the same bytes fail alike or decode to the same record but for the address and the
reference; and the reference is the address that the bytes name at their place, if it lies in
scope. -/
theorem decode_position_independent (mode : CpuMode) (bytes : List UInt8) (scope scope' : Span)
    (address address' : Address) :
    (∃ e, decode mode scope bytes address = .error e ∧
      decode mode scope' bytes address' = .error e) ∨
    ∃ i i', decode mode scope bytes address = .ok i ∧ decode mode scope' bytes address' = .ok i' ∧
      i = { i' with address := address, reference := i.reference } ∧
      ∀ t, i.reference = some t ↔ i.named? mode address bytes = some t.toNat ∧ t ∈ scope := by
  rcases agrees_reader mode scope scope' address address' ⟨0, bytes⟩ with
    ⟨e, hfirst, hsecond⟩ | ⟨i, i', c, hfirst, hsecond, hrecord⟩
  · exact Or.inl ⟨e, decode_eq_of_reader hfirst, decode_eq_of_reader hsecond⟩
  · have hdecode : decode mode scope bytes address = .ok i := decode_eq_of_reader hfirst
    have hdecode' : decode mode scope' bytes address' = .ok i' := decode_eq_of_reader hsecond
    exact Or.inr ⟨i, i', hdecode, hdecode', hrecord, reference_eq_some_iff hdecode⟩

/-- A short jump back from the beginning of a segment lands near its end. -/
example :
    (decode .bits16 ⟨0x30000, 0x40000⟩ [0xeb, 0x80] 0x30010).toOption.bind reference =
      some 0x3ff92 := by
  decide +kernel

end Instruction

end CodeSift
