import CodeSift.Instruction.Basic

/-!
# The opcode tables

What follows an opcode is a `Form`: whether a ModRM byte comes, whether a bare address comes,
and which immediates close the encoding.  A form is data, so decoding and encoding walk the
same fields in the same order and need no case per opcode.

`primary` and `secondary` assign every byte value a `Slot`.  A group slot shares one opcode
between several instructions and leaves the choice of the form to the ModRM byte.
-/

namespace CodeSift

/-- What a form asks of the ModRM byte. -/
inductive ModRmRule where
  | absent
  /-- A register or a memory operand. -/
  | either
  /-- A register, whatever the mode bits say. -/
  | register
  | memory
deriving DecidableEq, Repr, Inhabited

/-- The size of an immediate; `operand` is the operand size in force. -/
inductive ImmediateSize where
  | byte
  | word
  | operand
deriving DecidableEq, Repr, Inhabited

/-- The bytes of an immediate, given whether operands have 16 bits. -/
def ImmediateSize.bytes (operand16 : Bool) : ImmediateSize → Nat
  | .byte => 1
  | .word => 2
  | .operand => if operand16 then 2 else 4

/-- An immediate of a form, and whether its value is extended by its sign. -/
structure ImmediateForm where
  size : ImmediateSize
  signed : Bool := false
deriving DecidableEq, Repr, Inhabited

/-- Which part of an instruction names an absolute address. -/
inductive ReferenceRule where
  /-- The memory operand, when no register enters into it. -/
  | memory
  /-- The immediate, counted from the address behind the instruction. -/
  | relative
  | far
deriving DecidableEq, Repr, Inhabited

/-- What follows an opcode. -/
structure Form where
  modrm : ModRmRule := .absent
  /-- An address comes, of the address size in force. -/
  offset : Bool := false
  immediate : Option ImmediateForm := none
  extra : Option ImmediateForm := none
  reference : ReferenceRule := .memory
deriving DecidableEq, Repr, Inhabited

namespace Form

def bare : Form := {}

def imm8 : Form := { immediate := some ⟨.byte, false⟩ }

def simm8 : Form := { immediate := some ⟨.byte, true⟩ }

def imm16 : Form := { immediate := some ⟨.word, false⟩ }

/-- An immediate of the operand size. -/
def immZ : Form := { immediate := some ⟨.operand, false⟩ }

def rel8 : Form := { immediate := some ⟨.byte, true⟩, reference := .relative }

def relZ : Form := { immediate := some ⟨.operand, true⟩, reference := .relative }

def rm : Form := { modrm := .either }

def reg : Form := { modrm := .register }

def mem : Form := { modrm := .memory }

def rmImm8 : Form := { modrm := .either, immediate := some ⟨.byte, false⟩ }

def rmSimm8 : Form := { modrm := .either, immediate := some ⟨.byte, true⟩ }

def rmImmZ : Form := { modrm := .either, immediate := some ⟨.operand, false⟩ }

def address : Form := { offset := true }

/-- A far pointer: an offset of the operand size, then a 16-bit selector. -/
def farPointer : Form :=
  { immediate := some ⟨.operand, false⟩, extra := some ⟨.word, false⟩, reference := .far }

def imm16Imm8 : Form := { immediate := some ⟨.word, false⟩, extra := some ⟨.byte, false⟩ }

end Form

/-- The forms of a group, by the register field of the ModRM byte. -/
structure Group where
  members : List (Option Form)
deriving DecidableEq, Repr, Inhabited

def Group.member (g : Group) (reg : Fin 8) : Option Form := (g.members[reg.val]?).join

/-- What a table assigns an opcode byte. -/
inductive Slot where
  | form (f : Form)
  | group (g : Group)
  | prefixByte
  | escape
  /-- The way into the map of opcodes behind `0f 38`. -/
  | escape38
  /-- The way into the map of opcodes behind `0f 3a`. -/
  | escape3A
  | unassigned
deriving DecidableEq, Repr, Inhabited

namespace OpcodeTable

open Form

def run (n : Nat) (f : Form) : List Slot := List.replicate n (.form f)

def gap (n : Nat) : List Slot := List.replicate n .unassigned

/-- The eight slots of an arithmetic operation: four with a ModRM byte, two with an immediate
for the accumulator, and two given. -/
def arithmetic (seventh eighth : Slot) : List Slot :=
  run 4 rm ++ [.form imm8, .form immZ, seventh, eighth]

/-- `8f`: pop. -/
def pop : Group := ⟨[rm, none, none, none, none, none, none, none]⟩

/-- `c6`: move an 8-bit immediate. -/
def moveByte : Group := ⟨[rmImm8, none, none, none, none, none, none, none]⟩

/-- `c7`: move an immediate of the operand size. -/
def moveOperand : Group := ⟨[rmImmZ, none, none, none, none, none, none, none]⟩

/-- `f6`: test, not, negate, multiply, divide, on bytes. -/
def unaryByte : Group := ⟨[rmImm8, rmImm8, rm, rm, rm, rm, rm, rm]⟩

/-- `f7`: test, not, negate, multiply, divide, at the operand size. -/
def unaryOperand : Group := ⟨[rmImmZ, rmImmZ, rm, rm, rm, rm, rm, rm]⟩

/-- `fe`: increment and decrement bytes. -/
def stepByte : Group := ⟨[rm, rm, none, none, none, none, none, none]⟩

/-- `ff`: increment, decrement, call, far call, jump, far jump, push. -/
def transfer : Group := ⟨[rm, rm, rm, mem, rm, mem, rm, none]⟩

/-- `0f 00`: descriptor table registers. -/
def descriptors : Group := ⟨[rm, rm, rm, rm, rm, rm, none, none]⟩

/-- `0f ba`: bit tests by an immediate. -/
def bitTests : Group := ⟨[none, none, none, none, rmImm8, rmImm8, rmImm8, rmImm8]⟩

/-- `0f c7`: compare and exchange eight bytes, random numbers. -/
def exchange : Group := ⟨[none, mem, none, none, none, none, rm, rm]⟩

/-- The slots of the primary map, sixteen to a row. -/
def primarySlots : Array Slot :=
  let pieces : List (List Slot) := [
    -- 00: add, or
    arithmetic (.form bare) (.form bare), arithmetic (.form bare) .escape,
    -- 10: add with carry, subtract with borrow
    arithmetic (.form bare) (.form bare), arithmetic (.form bare) (.form bare),
    -- 20: and, subtract
    arithmetic .prefixByte (.form bare), arithmetic .prefixByte (.form bare),
    -- 30: exclusive or, compare
    arithmetic .prefixByte (.form bare), arithmetic .prefixByte (.form bare),
    -- 40: increment and decrement registers
    run 16 bare,
    -- 50: push and pop registers
    run 16 bare,
    -- 60: push and pop all, bound check, prefixes, push and multiply immediates, string input and
    -- output
    run 2 bare, [.form mem, .form rm], List.replicate 4 .prefixByte,
    [.form immZ, .form rmImmZ, .form simm8, .form rmSimm8], run 4 bare,
    -- 70: short conditional jumps
    run 16 rel8,
    -- 80: arithmetic with immediates, test, exchange, move, load address, pop
    [.form rmImm8, .form rmImmZ, .form rmImm8, .form rmSimm8], run 9 rm,
    [.form mem, .form rm, .group pop],
    -- 90: exchange, convert, far call, flags
    run 10 bare, [.form farPointer], run 5 bare,
    -- a0: move from and to an address, string operations, test
    run 4 address, run 4 bare, [.form imm8, .form immZ], run 6 bare,
    -- b0: move immediates to registers
    run 8 imm8, run 8 immZ,
    -- c0: shifts, return, load far pointers, move immediates, enter, leave, interrupts
    run 2 rmImm8, [.form imm16, .form bare], run 2 mem, [.group moveByte, .group moveOperand],
    [.form imm16Imm8, .form bare, .form imm16], run 2 bare, [.form imm8], run 2 bare,
    -- d0: shifts, decimal adjustment, translate, floating point
    run 4 rm, run 2 imm8, run 2 bare, run 8 rm,
    -- e0: loops, ports, call, jump
    run 4 rel8, run 4 imm8, run 2 relZ, [.form farPointer, .form rel8], run 4 bare,
    -- f0: prefixes, halt, unary operations, flags, increment and transfer
    [.prefixByte, .form bare, .prefixByte, .prefixByte], run 2 bare,
    [.group unaryByte, .group unaryOperand], run 6 bare, [.group stepByte, .group transfer]]
  pieces.flatten.toArray

/-- The slots of the secondary map, sixteen to a row. -/
def secondarySlots : Array Slot :=
  let pieces : List (List Slot) := [
    -- 00: descriptor tables, limits, system calls, caches
    [.group descriptors], run 3 rm, gap 1, run 5 bare, gap 1, run 1 bare, gap 1,
    [.form rm, .form bare], gap 1,
    -- 10: vector moves, hints
    run 16 rm,
    -- 20: control and debug registers, vector moves
    run 4 reg, gap 4, run 8 rm,
    -- 30: model registers, time stamps, system entry, further maps
    run 6 bare, gap 1, run 1 bare, [.escape38], gap 1, [.escape3A], gap 5,
    -- 40: conditional moves
    run 16 rm,
    -- 50 and 60: vector arithmetic
    run 32 rm,
    -- 70: shuffles, shifts by immediates, comparisons
    run 4 rmImm8, run 3 rm, run 1 bare, run 2 rm, gap 2, run 4 rm,
    -- 80: conditional jumps
    run 16 relZ,
    -- 90: conditional bytes
    run 16 rm,
    -- a0: segment registers, bit tests, double shifts
    run 3 bare, [.form rm, .form rmImm8, .form rm], gap 2,
    run 3 bare, [.form rm, .form rmImm8], run 3 rm,
    -- b0: compare and exchange, far pointers, extending moves, bit scans
    run 10 rm, [.group bitTests], run 5 rm,
    -- c0: exchange and add, vector comparisons, byte swaps
    run 2 rm, [.form rmImm8, .form rm], run 3 rmImm8, [.group exchange], run 8 bare,
    -- d0, e0 and f0: vector arithmetic
    run 48 rm]
  pieces.flatten.toArray

def primary (opcode : UInt8) : Slot := primarySlots.getD opcode.toNat .unassigned

def secondary (opcode : UInt8) : Slot := secondarySlots.getD opcode.toNat .unassigned

def isPrefixByte (b : UInt8) : Bool := primary b == .prefixByte

theorem size_primarySlots : primarySlots.size = 256 := by decide +kernel

theorem size_secondarySlots : secondarySlots.size = 256 := by decide +kernel

end OpcodeTable

end CodeSift
