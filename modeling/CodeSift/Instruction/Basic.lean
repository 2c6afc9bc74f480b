import CodeSift.Address
import CodeSift.LittleEndian
import CodeSift.Text.Hex

/-!
# Instructions of the 16- and 32-bit x86 instruction set

An `Instruction` is what one encoding says: its prefixes, its opcode and the map the opcode
belongs to, the ModRM and SIB bytes, the memory operand they describe, and its immediates.
Together with the address it was read at and the absolute address it names, if it names one,
this is all that code discovery needs; no mnemonic is kept.

Everything that follows from these fields is a function of them: how control leaves the
instruction (`flow`), the address behind it (`stop`), and the four kinds of address it can
hand on (`branchTarget`, `memoryReference`, `jumpTableBase`, `codePointer`).
-/

namespace CodeSift

/-! The fields of an encoding have two or three bits, and their numerals rest on these two facts. -/

instance neZero_four : @NeZero Nat Zero.ofOfNat0 4 := ⟨by decide⟩

instance neZero_eight : @NeZero Nat Zero.ofOfNat0 8 := ⟨by decide⟩

/-- The default size of operands and addresses. -/
inductive CpuMode where
  | bits16
  | bits32
deriving DecidableEq, Repr, Inhabited

namespace CpuMode

def description : CpuMode → String
  | .bits16 => "16-bit"
  | .bits32 => "32-bit"

def label : CpuMode → String
  | .bits16 => "bits16"
  | .bits32 => "bits32"

def ofLabel? : String → Option CpuMode
  | "bits16" => some .bits16
  | "bits32" => some .bits32
  | _ => none

end CpuMode

/-- The table an opcode byte is looked up in: the primary one, or one behind escape bytes. -/
inductive OpcodeMap where
  | primary
  | secondary
  | map38
  | map3A
deriving DecidableEq, Repr, Inhabited

namespace OpcodeMap

def description : OpcodeMap → String
  | .primary => "primary"
  | .secondary => "0f"
  | .map38 => "0f38"
  | .map3A => "0f3a"

def label : OpcodeMap → String
  | .primary => "one_byte"
  | .secondary => "two_byte"
  | .map38 => "three_byte38"
  | .map3A => "three_byte3_a"

/-- The bytes in front of an opcode of the map. -/
def escape : OpcodeMap → List UInt8
  | .primary => []
  | .secondary => [0x0f]
  | .map38 => [0x0f, 0x38]
  | .map3A => [0x0f, 0x3a]

end OpcodeMap

/-- Why a byte string is no instruction. -/
inductive DecodeFailure where
  | endOfRegion
  | unassigned (map : OpcodeMap) (opcode : UInt8)
  /-- The opcode is shared by a group of instructions, and the ModRM byte selects none. -/
  | undefinedMember (opcode : UInt8) (reg : UInt8)
  /-- The instruction exists for memory operands only, and the ModRM byte names a register. -/
  | memoryRequired (opcode : UInt8)
  | tooLong
deriving DecidableEq, Repr, Inhabited

def maxInstructionLength : Nat := 15

def DecodeFailure.message : DecodeFailure → String
  | .endOfRegion => "instruction runs past the end of the code region"
  | .unassigned map opcode =>
    "opcode " ++ Hex.marked 2 opcode.toNat ++ " is unassigned in the " ++ map.description ++ " map"
  | .undefinedMember opcode reg =>
    "group opcode " ++ Hex.marked 2 opcode.toNat ++ " has no member /" ++ toString reg.toNat
  | .memoryRequired opcode => "opcode " ++ Hex.marked 2 opcode.toNat ++ " requires a memory operand"
  | .tooLong => "instruction exceeds " ++ toString maxInstructionLength ++ " bytes"

/-- The ModRM byte: two bits of mode, three that name a register or extend the opcode, three
that name a register or an addressing form. -/
structure ModRm where
  mode : Fin 4
  reg : Fin 8
  rm : Fin 8
deriving DecidableEq, Repr, Inhabited

namespace ModRm

def ofByte (b : UInt8) : ModRm where
  mode := ⟨b.toNat / 64, by have := b.toNat_lt; omega⟩
  reg := ⟨b.toNat / 8 % 8, by omega⟩
  rm := ⟨b.toNat % 8, by omega⟩

def toByte (m : ModRm) : UInt8 := UInt8.ofNat (m.mode * 64 + m.reg * 8 + m.rm)

def isRegister (m : ModRm) : Bool := m.mode == 3

@[simp] theorem toByte_ofByte (b : UInt8) : (ofByte b).toByte = b := by
  have hb := b.toNat_lt
  apply UInt8.toNat_inj.mp
  simp only [toByte, ofByte, UInt8.toNat_ofNat']
  omega

end ModRm

/-- The SIB byte: a scale exponent, an index register and a base register. -/
structure Sib where
  exponent : Fin 4
  index : Fin 8
  base : Fin 8
deriving DecidableEq, Repr, Inhabited

namespace Sib

def ofByte (b : UInt8) : Sib where
  exponent := ⟨b.toNat / 64, by have := b.toNat_lt; omega⟩
  index := ⟨b.toNat / 8 % 8, by omega⟩
  base := ⟨b.toNat % 8, by omega⟩

def toByte (s : Sib) : UInt8 := UInt8.ofNat (s.exponent * 64 + s.index * 8 + s.base)

/-- The factor of the index register: one, two, four or eight. -/
def scale (s : Sib) : Nat := 1 <<< s.exponent.val

@[simp] theorem toByte_ofByte (b : UInt8) : (ofByte b).toByte = b := by
  have hb := b.toNat_lt
  apply UInt8.toNat_inj.mp
  simp only [toByte, ofByte, UInt8.toNat_ofNat']
  omega

end Sib

/-- The size of the addresses that an instruction computes. -/
inductive AddressSize where
  | bits16
  | bits32
deriving DecidableEq, Repr, Inhabited

namespace AddressSize

def bytes : AddressSize → Nat
  | .bits16 => 2
  | .bits32 => 4

def label : AddressSize → String
  | .bits16 => "bits16"
  | .bits32 => "bits32"

end AddressSize

/-- A memory operand: the registers and the displacement whose sum is the address. -/
structure MemoryOperand where
  base : Option (Fin 8)
  index : Option (Fin 8)
  scale : Nat
  displacement : Int32
  addressSize : AddressSize
deriving DecidableEq, Repr, Inhabited

namespace MemoryOperand

def fixed (displacement : Int32) (size : AddressSize) : MemoryOperand :=
  ⟨none, none, 1, displacement, size⟩

/-- The address of an operand that no register enters into. -/
def absolute? (m : MemoryOperand) : Option Address :=
  if m.base.isSome || m.index.isSome then none
  else match m.addressSize with
    | .bits16 => some (m.displacement.toUInt32 &&& 0xffff)
    | .bits32 => some m.displacement.toUInt32

end MemoryOperand

/-- An immediate operand: its value extended to 32 bits, and the bytes it is stored in. -/
structure Immediate where
  value : UInt32
  size : Nat
deriving DecidableEq, Repr, Inhabited

/-- How control leaves an instruction. -/
inductive Flow where
  | sequential
  | call
  | callIndirect
  | jump
  | jumpIndirect
  | conditionalJump
  | return
deriving DecidableEq, Repr, Inhabited

namespace Flow

def label : Flow → String
  | .sequential => "sequential"
  | .call => "call"
  | .callIndirect => "call_indirect"
  | .jump => "jump"
  | .jumpIndirect => "jump_indirect"
  | .conditionalJump => "conditional_jump"
  | .return => "return"

/-- The flow of an opcode; the ModRM byte tells the members of the last primary group apart. -/
def ofOpcode (map : OpcodeMap) (opcode : UInt8) (modrm : Option ModRm) : Flow :=
  match map with
  | .primary =>
    if (0x70 ≤ opcode && opcode ≤ 0x7f) || (0xe0 ≤ opcode && opcode ≤ 0xe3) then .conditionalJump
    else if opcode == 0xe8 || opcode == 0x9a then .call
    else if opcode == 0xe9 || opcode == 0xea || opcode == 0xeb then .jump
    else if opcode == 0xc2 || opcode == 0xc3 || opcode == 0xca || opcode == 0xcb
        || opcode == 0xcf then .return
    else if opcode == 0xff then
      match modrm with
      | some m =>
        if m.reg == 2 || m.reg == 3 then .callIndirect
        else if m.reg == 4 || m.reg == 5 then .jumpIndirect
        else .sequential
      | none => .sequential
    else .sequential
  | .secondary => if 0x80 ≤ opcode && opcode ≤ 0x8f then .conditionalJump else .sequential
  | .map38 | .map3A => .sequential

end Flow

structure Instruction where
  address : Address
  map : OpcodeMap
  opcode : UInt8
  prefixes : List UInt8
  modrm : Option ModRm
  sib : Option Sib
  memory : Option MemoryOperand
  immediate : Option Immediate
  extraImmediate : Option Immediate
  length : Nat
  /-- The absolute address the instruction names, if it lies in the image. -/
  reference : Option Address
deriving DecidableEq, Repr, Inhabited

namespace Instruction

def operandSizeByte : UInt8 := 0x66

def addressSizeByte : UInt8 := 0x67

def swapsOperandSize (i : Instruction) : Bool := i.prefixes.contains operandSizeByte

def swapsAddressSize (i : Instruction) : Bool := i.prefixes.contains addressSizeByte

def flow (i : Instruction) : Flow := Flow.ofOpcode i.map i.opcode i.modrm

def stop (i : Instruction) : Address := i.address + UInt32.ofNat i.length

/-- Control never reaches the byte behind the instruction. -/
def isTerminator (i : Instruction) : Bool :=
  match i.flow with
  | .return | .jump | .jumpIndirect => true
  | _ => false

/-- The target of a direct call, jump or conditional jump. -/
def branchTarget (i : Instruction) : Option Address :=
  match i.flow with
  | .call | .jump | .conditionalJump => i.reference
  | _ => none

/-- The address of a memory operand that no register enters into. -/
def memoryReference (i : Instruction) : Option Address :=
  match i.memory.bind MemoryOperand.absolute? with
  | some _ => i.reference
  | none => none

/-- The table behind an indirect jump through `[table + register * 4]`. -/
def jumpTableBase (i : Instruction) : Option Address :=
  match i.memory with
  | some m =>
    if i.flow == .jumpIndirect && m.addressSize == .bits32 && m.base.isNone && m.index.isSome
        && m.scale == 4 then
      some m.displacement.toUInt32
    else none
  | none => none

/-- The 32-bit immediate of a push or a move, which may be a pointer. -/
def codePointer (i : Instruction) : Option Address :=
  match i.immediate with
  | some imm =>
    if i.map == .primary && imm.size == 4
        && (i.opcode == 0x68 || (0xb8 ≤ i.opcode && i.opcode ≤ 0xbf) || i.opcode == 0xc7) then
      some imm.value
    else none
  | none => none

/-- The opcode with its escape bytes, in hexadecimal and separated by blanks. -/
def opcodeText (i : Instruction) : String :=
  String.intercalate " " ((i.map.escape ++ [i.opcode]).map fun b => Hex.lower 2 b.toNat)

end Instruction

end CodeSift
