import CodeSift.Instruction.Decode

/-!
# Encoding instructions

`Instruction.encode` lays an instruction record out as bytes: prefixes, escape bytes, opcode,
ModRM byte, SIB byte, displacement, immediates.  The displacement has the size that the ModRM
and SIB bytes give it, or the full address size when the operand is a bare address; each
immediate has the size the record keeps.
-/

namespace CodeSift

def Immediate.encode (imm : Immediate) : List UInt8 := LittleEndian.bytes imm.size imm.value.toNat

namespace Instruction

/-- The bytes of the displacement: as many as the ModRM byte asks for, or a whole address. -/
def displacementSize (i : Instruction) : Nat :=
  match i.memory, i.modrm with
  | none, _ => 0
  | some memory, some m => MemoryOperand.displacementBytes memory.addressSize m i.sib
  | some memory, none => memory.addressSize.bytes

/-- The displacement as stored. -/
def displacementField (i : Instruction) : List UInt8 :=
  match i.memory with
  | none => []
  | some memory => LittleEndian.bytes i.displacementSize memory.displacement.toUInt32.toNat

def encode (i : Instruction) : List UInt8 :=
  i.prefixes ++ i.map.escape ++ [i.opcode]
    ++ (i.modrm.map ModRm.toByte).toList ++ (i.sib.map Sib.toByte).toList
    ++ i.displacementField
    ++ (i.immediate.map Immediate.encode).getD [] ++ (i.extraImmediate.map Immediate.encode).getD []

end Instruction

end CodeSift
