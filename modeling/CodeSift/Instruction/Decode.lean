import CodeSift.Instruction.OpcodeTable

/-!
# Decoding instructions

`Instruction.decode` reads one instruction from the front of a byte string.  It takes the
prefixes, the opcode, the ModRM and SIB bytes, the displacement and the immediates, in this
order, and every byte of the encoding is taken exactly once.

Bytes are taken through a `Reader`, which knows how many bytes came before.  A field that
would end behind the longest allowed instruction is refused before the bytes are looked at, so
an instruction that is too long is told from one that the byte string cuts short.

The decoder is a value of type `Decoder`, a function of the bytes and of the address they stand
at.  `Decoder.x86` is the real one; `Decoder.failingAt` makes any decoder fail at chosen
addresses.
-/

namespace CodeSift

/-- A place in the bytes of an instruction: how many were taken, and what comes. -/
structure Cursor where
  taken : Nat
  rest : List UInt8
deriving DecidableEq, Repr, Inhabited

abbrev Reader (α : Type) := StateT Cursor (Except DecodeFailure) α

/-- The first `n` elements and the others, when there are as many. -/
def splitExactly? {α : Type} : Nat → List α → Option (List α × List α)
  | 0, xs => some ([], xs)
  | _ + 1, [] => none
  | n + 1, x :: xs => (splitExactly? n xs).map fun (front, rest) => (x :: front, rest)

namespace Reader

def take (n : Nat) : Reader (List UInt8) := fun c =>
  if maxInstructionLength < c.taken + n then .error .tooLong
  else match splitExactly? n c.rest with
    | none => .error .endOfRegion
    | some (front, rest) => .ok (front, ⟨c.taken + n, rest⟩)

def byte : Reader UInt8 := fun c =>
  if maxInstructionLength ≤ c.taken then .error .tooLong
  else match c.rest with
    | [] => .error .endOfRegion
    | b :: rest => .ok (b, ⟨c.taken + 1, rest⟩)

/-- Takes a number of `n` bytes, extended by its sign if asked to. -/
def number (n : Nat) (signed : Bool) : Reader UInt32 := do
  let stored ← take n
  return if signed then LittleEndian.signed stored else LittleEndian.unsigned stored

/-- The prefixes in front of an opcode, and the place of the opcode. -/
def prefixesFrom (taken : Nat) : List UInt8 → Except DecodeFailure (List UInt8 × Cursor)
  | [] => if maxInstructionLength ≤ taken then .error .tooLong else .error .endOfRegion
  | b :: rest =>
    if maxInstructionLength ≤ taken then .error .tooLong
    else if OpcodeTable.isPrefixByte b then
      match prefixesFrom (taken + 1) rest with
      | .error e => .error e
      | .ok (more, c) => .ok (b :: more, c)
    else .ok ([], ⟨taken, b :: rest⟩)

def prefixes : Reader (List UInt8) := fun c => prefixesFrom c.taken c.rest

/-- Takes the opcode with its escape bytes, and looks it up. -/
def opcode : Reader (OpcodeMap × UInt8 × Slot) := do
  let first ← byte
  match OpcodeTable.primary first with
  | .escape =>
    let second ← byte
    match OpcodeTable.secondary second with
    | .escape38 => return (.map38, ← byte, .form .rm)
    | .escape3A => return (.map3A, ← byte, .form .rmImm8)
    | slot => return (.secondary, second, slot)
  | slot => return (.primary, first, slot)

def modrm : Reader ModRm := do return ModRm.ofByte (← byte)

/-- Takes the ModRM byte that the slot calls for, and settles the form. -/
def form (map : OpcodeMap) (opcode : UInt8) : Slot → Reader (Option ModRm × Form)
  | .form f =>
    match f.modrm with
    | .absent => return (none, f)
    | _ => return (some (← modrm), f)
  | .group g => do
    let m ← modrm
    match g.member m.reg with
    | none => throw (.undefinedMember opcode (UInt8.ofNat m.reg))
    | some f => return (some m, f)
  | _ => throw (.unassigned map opcode)

end Reader

namespace MemoryOperand

/-- The bytes of the displacement of a memory operand with a ModRM byte. -/
def displacementBytes (size : AddressSize) (m : ModRm) (sib : Option Sib) : Nat :=
  match m.mode, size with
  | 0, .bits16 => if m.rm == 6 then 2 else 0
  | 0, .bits32 => if m.rm == 5 || (sib.map Sib.base) == some 5 then 4 else 0
  | 1, _ => 1
  | 2, size => size.bytes
  | _, _ => 0

/-- The base and index registers of the eight 16-bit addressing forms. -/
def registers16 (rm : Fin 8) : Option (Fin 8) × Option (Fin 8) :=
  match rm with
  | 0 => (some 3, some 6)
  | 1 => (some 3, some 7)
  | 2 => (some 5, some 6)
  | 3 => (some 5, some 7)
  | 4 => (some 6, none)
  | 5 => (some 7, none)
  | 6 => (some 5, none)
  | 7 => (some 3, none)

def ofModRm16 (m : ModRm) (displacement : Int32) : MemoryOperand :=
  if m.mode == 0 && m.rm == 6 then fixed displacement .bits16
  else
    let (base, index) := registers16 m.rm
    ⟨base, index, 1, displacement, .bits16⟩

def ofModRm32 (m : ModRm) (sib : Option Sib) (displacement : Int32) : MemoryOperand :=
  match sib with
  | none => ⟨if m.mode == 0 && m.rm == 5 then none else some m.rm, none, 1, displacement, .bits32⟩
  | some s =>
    ⟨if m.mode == 0 && s.base == 5 then none else some s.base,
      if s.index == 4 then none else some s.index, s.scale, displacement, .bits32⟩

end MemoryOperand

namespace Reader

/-- Takes the SIB byte of a 32-bit operand, when the ModRM byte calls for one. -/
def sib (size : AddressSize) (m : ModRm) : Reader (Option Sib) :=
  if size == .bits32 && m.rm == 4 then return some (Sib.ofByte (← byte)) else return none

/-- Takes what follows the ModRM byte of a memory operand. -/
def memory (size : AddressSize) (m : ModRm) : Reader (Option Sib × Option MemoryOperand) := do
  if m.isRegister then return (none, none)
  else
    let s ← sib size m
    let displacement ← number (MemoryOperand.displacementBytes size m s) true
    match size with
    | .bits16 => return (s, some (.ofModRm16 m displacement.toInt32))
    | .bits32 => return (s, some (.ofModRm32 m s displacement.toInt32))

/-- Takes the operand that the form describes with a ModRM byte, or as a bare address. -/
def operand (opcode : UInt8) (size : AddressSize) (f : Form) :
    Option ModRm → Reader (Option Sib × Option MemoryOperand)
  | some m =>
    match f.modrm with
    | .register => return (none, none)
    | .memory => if m.isRegister then throw (.memoryRequired opcode) else memory size m
    | _ => memory size m
  | none => do
    if f.offset then
      let displacement ← number size.bytes false
      return (none, some (.fixed displacement.toInt32 size))
    else return (none, none)

def immediate (operand16 : Bool) : Option ImmediateForm → Reader (Option Immediate)
  | none => return none
  | some form => do
    let size := form.size.bytes operand16
    return some ⟨← number size form.signed, size⟩

end Reader

namespace Instruction

/-- The operand size is 16 bits: the mode says so and no prefix swaps it, or the reverse. -/
def has16BitOperands (mode : CpuMode) (prefixes : List UInt8) : Bool :=
  (mode == .bits16) != prefixes.contains operandSizeByte

/-- The address size in force, which a prefix swaps. -/
def addressSizeOf (mode : CpuMode) (prefixes : List UInt8) : AddressSize :=
  if (mode == .bits16) != prefixes.contains addressSizeByte then .bits16 else .bits32

/-- The target of a branch over a distance counted from `next`.  With 16-bit operands only the
low half of the sum counts; in 16-bit mode the high half of `next` is kept. -/
def branchDestination (mode : CpuMode) (operand16 : Bool) (next distance : Address) : Address :=
  let target := next + distance
  if operand16 then
    match mode with
    | .bits32 => target &&& 0xffff
    | .bits16 => (next &&& 0xffff0000) ||| (target &&& 0xffff)
  else target

/-- The absolute address that the form makes the operands name. -/
def destination (mode : CpuMode) (operand16 : Bool) (next : Address) (rule : ReferenceRule)
    (immediate : Option Immediate) (memory : Option MemoryOperand) : Option Address :=
  match rule with
  | .relative => immediate.map fun imm => branchDestination mode operand16 next imm.value
  | .far => immediate.map Immediate.value
  | .memory => memory.bind MemoryOperand.absolute?

/-- Takes one instruction.  `scope` is the part of the address space whose addresses count as
references. -/
def reader (mode : CpuMode) (scope : Span) (address : Address) : Reader Instruction := do
  let prefixes ← Reader.prefixes
  let (map, opcode, slot) ← Reader.opcode
  let (modrm, form) ← Reader.form map opcode slot
  let operand16 := has16BitOperands mode prefixes
  let (sib, memory) ← Reader.operand opcode (addressSizeOf mode prefixes) form modrm
  let immediate ← Reader.immediate operand16 form.immediate
  let extraImmediate ← Reader.immediate operand16 form.extra
  let length := (← get).taken
  let next := address + UInt32.ofNat length
  let target := destination mode operand16 next form.reference immediate memory
  return {
    address, map, opcode, prefixes, modrm, sib, memory, immediate, extraImmediate, length
    reference := target.filter (· ∈ scope) }

/-- The instruction at the front of the bytes, which stand at `address`. -/
def decode (mode : CpuMode) (scope : Span) (bytes : List UInt8) (address : Address) :
    Except DecodeFailure Instruction :=
  (reader mode scope address).run' ⟨0, bytes⟩

end Instruction

/-- A way to read an instruction from the bytes at an address. -/
abbrev Decoder := List UInt8 → Address → Except DecodeFailure Instruction

namespace Decoder

def x86 (mode : CpuMode) (scope : Span) : Decoder := Instruction.decode mode scope

/-- The decoder made to run out of bytes at the given addresses. -/
def failingAt (decoder : Decoder) (addresses : List Address) : Decoder := fun bytes address =>
  if addresses.contains address then .error .endOfRegion else decoder bytes address

end Decoder

end CodeSift
