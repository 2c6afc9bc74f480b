import CodeSift.Instruction.Decode
import Mathlib.Tactic.Lemma

/-!
# Decoders read from the front of what they are given

A decoder is *faithful* when every instruction it returns stands at the address that was asked for
and is made of at least one and at most all of the given bytes.  Nothing else about a decoder is
used by the theory of surveys.

The decoder of the x86 instruction set is faithful (`faithful_x86`), because its readers take bytes
from the front and count them (`Reader.Takes`), and the reader of opcodes takes at least one.  This
need not be shown reader by reader: behind the prefixes, an instruction is read by putting together
readers of single fields (`Reader.Composed`), and what holds of those and is kept by putting
together holds of all.  Making a decoder fail at chosen addresses keeps it faithful.
-/

namespace CodeSift

/-- The instructions that the decoder returns stand at the given address and are made of given
bytes. -/
structure Decoder.Faithful (decoder : Decoder) : Prop where
  address {bytes : List UInt8} {a : Address} {i : Instruction} :
    decoder bytes a = .ok i → i.address = a
  length_pos {bytes : List UInt8} {a : Address} {i : Instruction} :
    decoder bytes a = .ok i → 0 < i.length
  length_le {bytes : List UInt8} {a : Address} {i : Instruction} :
    decoder bytes a = .ok i → i.length ≤ bytes.length

namespace Reader

variable {α β : Type}

/-! ## Taking bytes from the front -/

/-- The reader takes at least `n` bytes from the front, and counts those it takes. -/
def Takes (n : Nat) (x : Reader α) : Prop :=
  ∀ ⦃c : Cursor⦄ ⦃a : α⦄ ⦃c' : Cursor⦄, x c = .ok (a, c') →
    ∃ front, n ≤ front.length ∧ c.rest = front ++ c'.rest ∧ c'.taken = c.taken + front.length

lemma takes_pure (a : α) : Takes 0 (pure a : Reader α) := by
  intro c b c' hrun
  cases hrun
  exact ⟨[], Nat.le_refl _, rfl, rfl⟩

lemma takes_throw (e : DecodeFailure) (n : Nat) : Takes n (throw e : Reader α) := by
  intro c a c' hrun
  cases hrun

lemma takes_get : Takes 0 (get : Reader Cursor) := by
  intro c b c' hrun
  cases hrun
  exact ⟨[], Nat.le_refl _, rfl, rfl⟩

/-- Readers in a row succeed one after the other. -/
lemma exists_of_bind_eq_ok {x : Reader α} {f : α → Reader β} {c c' : Cursor} {b : β}
    (h : (x >>= f) c = .ok (b, c')) : ∃ a c₁, x c = .ok (a, c₁) ∧ f a c₁ = .ok (b, c') := by
  change (x c >>= fun p => f p.1 p.2) = _ at h
  cases hfirst : x c with
  | error e =>
    rw [hfirst] at h
    cases h
  | ok p =>
    rw [hfirst] at h
    exact ⟨p.1, p.2, rfl, h⟩

/-- Readers in a row take the bytes of each, one after the other. -/
lemma takes_bind {n k l : Nat} {x : Reader α} {f : α → Reader β} (hx : Takes n x)
    (hf : ∀ a, Takes k (f a)) (hl : l ≤ n + k) : Takes l (x >>= f) := by
  intro c b c' hrun
  obtain ⟨a, c₁, hfirst, hsecond⟩ := exists_of_bind_eq_ok hrun
  obtain ⟨front, hn, hrest, htaken⟩ := hx hfirst
  obtain ⟨back, hk, hrest', htaken'⟩ := hf a hsecond
  refine ⟨front ++ back, ?_, ?_, ?_⟩
  · rw [List.length_append]
    omega
  · rw [hrest, hrest', List.append_assoc]
  · rw [htaken', htaken, List.length_append]
    omega

lemma Takes.bind {n : Nat} {x : Reader α} {f : α → Reader β} (hx : Takes n x)
    (hf : ∀ a, Takes 0 (f a)) : Takes n (x >>= f) := takes_bind hx hf (Nat.le_refl _)

lemma Takes.weaken {n : Nat} {x : Reader α} (h : Takes n x) : Takes 0 x := by
  intro c a c' hrun
  obtain ⟨front, -, hrest, htaken⟩ := h hrun
  exact ⟨front, Nat.zero_le _, hrest, htaken⟩

lemma eq_append_of_splitExactly? {n : Nat} {xs front rest : List α}
    (h : splitExactly? n xs = some (front, rest)) : xs = front ++ rest ∧ front.length = n := by
  induction n generalizing xs front with
  | zero =>
    simp only [splitExactly?, Option.some.injEq, Prod.mk.injEq] at h
    obtain ⟨rfl, rfl⟩ := h
    exact ⟨rfl, rfl⟩
  | succ n ih =>
    cases xs with
    | nil => cases h
    | cons x xs =>
      rw [splitExactly?, Option.map_eq_some_iff] at h
      obtain ⟨⟨front', rest'⟩, hsplit, heq⟩ := h
      cases heq
      obtain ⟨happend, hlength⟩ := ih hsplit
      exact ⟨by rw [happend, List.cons_append], by rw [List.length_cons, hlength]⟩

/-! ## The elementary readers -/

lemma eq_append_of_take {n : Nat} {c c' : Cursor} {front : List UInt8}
    (h : take n c = .ok (front, c')) :
    c.rest = front ++ c'.rest ∧ front.length = n ∧ c'.taken = c.taken + n ∧
      c'.taken ≤ maxInstructionLength := by
  simp only [take] at h
  split at h
  · cases h
  · next hshort =>
    split at h
    · cases h
    · next front rest hsplit =>
      cases h
      obtain ⟨happend, hlength⟩ := eq_append_of_splitExactly? hsplit
      exact ⟨happend, hlength, rfl, Nat.not_lt.mp hshort⟩

lemma takes_take (n : Nat) : Takes 0 (take n) := by
  intro c front c' hrun
  obtain ⟨happend, hlength, htaken, -⟩ := eq_append_of_take hrun
  exact ⟨front, Nat.zero_le _, happend, by rw [hlength, htaken]⟩

lemma eq_cons_of_byte {c c' : Cursor} {b : UInt8} (h : byte c = .ok (b, c')) :
    c.rest = b :: c'.rest ∧ c'.taken = c.taken + 1 ∧ c'.taken ≤ maxInstructionLength := by
  simp only [byte] at h
  split at h
  · cases h
  · next hshort =>
    split at h
    · cases h
    · next first rest hrest =>
      cases h
      exact ⟨hrest, rfl, Nat.not_le.mp hshort⟩

lemma takes_byte : Takes 1 byte := by
  intro c b c' hrun
  obtain ⟨hcons, htaken, -⟩ := eq_cons_of_byte hrun
  exact ⟨[b], Nat.le_refl _, hcons, htaken⟩

lemma eq_append_of_prefixesFrom {taken : Nat} {bytes front : List UInt8} {c : Cursor}
    (h : prefixesFrom taken bytes = .ok (front, c)) :
    bytes = front ++ c.rest ∧ c.taken = taken + front.length ∧ c.taken < maxInstructionLength := by
  induction bytes generalizing taken front with
  | nil =>
    simp only [prefixesFrom] at h
    split at h <;> cases h
  | cons b rest ih =>
    simp only [prefixesFrom] at h
    split at h
    · cases h
    · next hshort =>
      split at h
      · split at h
        · cases h
        · next more cursor hmore =>
          cases h
          obtain ⟨happend, htaken, hlt⟩ := ih hmore
          refine ⟨by rw [List.cons_append, ← happend], ?_, hlt⟩
          rw [htaken, List.length_cons]
          omega
      · cases h
        exact ⟨rfl, rfl, Nat.not_le.mp hshort⟩

lemma takes_prefixes : Takes 0 prefixes := by
  intro c a c' hrun
  obtain ⟨happend, htaken, -⟩ := eq_append_of_prefixesFrom hrun
  exact ⟨a, Nat.zero_le _, happend, htaken⟩

/-! ## How the readers behind the prefixes are put together -/

/-- The readers that are put together from those that take a field.  Of the cursor itself they may
look at the count only. -/
inductive Composed : {α : Type} → Reader α → Prop where
  | pure {α : Type} (a : α) : Composed (pure a : Reader α)
  | throw {α : Type} (e : DecodeFailure) : Composed (throw e : Reader α)
  | byte : Composed byte
  | take (n : Nat) : Composed (take n)
  | bind {α β : Type} {x : Reader α} {f : α → Reader β} (hx : Composed x)
      (hf : ∀ a, Composed (f a)) :
      Composed (x >>= f)
  | count {α : Type} {f : Cursor → Reader α} (hf : ∀ c, Composed (f c))
      (hcount : ∀ c d : Cursor, c.taken = d.taken → f c = f d) : Composed (get >>= f)

lemma Composed.takes {x : Reader α} (hx : Composed x) : Takes 0 x := by
  induction hx with
  | pure a => exact takes_pure a
  | throw e => exact takes_throw e 0
  | byte => exact takes_byte.weaken
  | take n => exact takes_take n
  | bind _ _ ihx ihf => exact ihx.bind ihf
  | count _ _ ih => exact takes_get.bind ih

lemma composed_number (n : Nat) (signed : Bool) : Composed (number n signed) :=
  .bind (.take n) fun _ => .pure _

/-- An opcode is a byte and what the byte calls for. -/
lemma exists_behind_byte : ∃ behind : UInt8 → Reader (OpcodeMap × UInt8 × Slot),
    opcode = (do behind (← byte)) ∧ ∀ first, Composed (behind first) := by
  refine ⟨_, rfl, fun first => ?_⟩
  split
  · refine .bind .byte fun second => ?_
    split
    · exact .bind .byte fun _ => .pure _
    · exact .bind .byte fun _ => .pure _
    · exact .pure _
  · exact .pure _

lemma composed_opcode : Composed opcode := by
  obtain ⟨behind, hopcode, hcomposed⟩ := exists_behind_byte
  rw [hopcode]
  exact .bind .byte hcomposed

/-- An opcode is at least one byte. -/
lemma takes_opcode : Takes 1 opcode := by
  obtain ⟨behind, hopcode, hcomposed⟩ := exists_behind_byte
  rw [hopcode]
  exact takes_byte.bind fun first => (hcomposed first).takes

lemma composed_modrm : Composed modrm := .bind .byte fun _ => .pure _

lemma composed_form (map : OpcodeMap) (opcode : UInt8) (slot : Slot) :
    Composed (form map opcode slot) := by
  unfold form
  split
  · split
    · exact .pure _
    · exact .bind composed_modrm fun _ => .pure _
  · refine .bind composed_modrm fun m => ?_
    split
    · exact .throw _
    · exact .pure _
  · exact .throw _

lemma composed_sib (size : AddressSize) (m : ModRm) : Composed (sib size m) := by
  unfold sib
  split
  · exact .bind .byte fun _ => .pure _
  · exact .pure _

lemma composed_memory (size : AddressSize) (m : ModRm) : Composed (memory size m) := by
  unfold memory
  split
  · exact .pure _
  · refine .bind (composed_sib size m) fun s => .bind (composed_number _ _) fun displacement => ?_
    split
    · exact .pure _
    · exact .pure _

lemma composed_operand (opcode : UInt8) (size : AddressSize) (f : Form) (m : Option ModRm) :
    Composed (operand opcode size f m) := by
  unfold operand
  split
  · split
    · exact .pure _
    · split
      · exact .throw _
      · exact composed_memory _ _
    · exact composed_memory _ _
  · split
    · exact .bind (composed_number _ _) fun _ => .pure _
    · exact .pure _

lemma composed_immediate (operand16 : Bool) (form : Option ImmediateForm) :
    Composed (immediate operand16 form) := by
  unfold immediate
  split
  · exact .pure _
  · exact .bind (composed_number _ _) fun _ => .pure _

/-- An instruction is its prefixes, its opcode, and what a composed reader takes behind them. -/
lemma exists_behind_opcode (mode : CpuMode) (scope : Span) (address : Address) :
    ∃ behind : List UInt8 → OpcodeMap × UInt8 × Slot → Reader Instruction,
      Instruction.reader mode scope address = (do behind (← prefixes) (← opcode)) ∧
        ∀ front found, Composed (behind front found) := by
  refine ⟨_, rfl, fun front (map, opcode, slot) => ?_⟩
  refine .bind (composed_form map opcode slot) fun (modrm, form) => ?_
  refine .bind (composed_operand opcode _ form modrm) fun (sib, memory) => ?_
  refine .bind (composed_immediate _ _) fun immediate => .bind (composed_immediate _ _)
    fun extra => ?_
  refine .count (fun _ => .pure _) fun c d hcount => ?_
  simp only [hcount]

/-! ## Whole instructions -/

/-- What the reader returns is in the relation to the place where it stops. -/
def Ensures (P : α → Cursor → Prop) (x : Reader α) : Prop :=
  ∀ ⦃c : Cursor⦄ ⦃a : α⦄ ⦃c' : Cursor⦄, x c = .ok (a, c') → P a c'

/-- What the last of readers in a row ensures, all ensure together. -/
lemma ensures_bind {P : β → Cursor → Prop} {x : Reader α} {f : α → Reader β}
    (hf : ∀ a, Ensures P (f a)) : Ensures P (x >>= f) := by
  intro c b c' hrun
  obtain ⟨a, c₁, -, hsecond⟩ := exists_of_bind_eq_ok hrun
  exact hf a hsecond

end Reader

namespace Instruction

lemma takes_reader (mode : CpuMode) (scope : Span) (address : Address) :
    Reader.Takes 1 (reader mode scope address) := by
  obtain ⟨behind, hreader, hcomposed⟩ := Reader.exists_behind_opcode mode scope address
  rw [hreader]
  refine Reader.takes_bind Reader.takes_prefixes (fun front => ?_)
    (Nat.le_of_eq (Nat.zero_add 1).symm)
  exact Reader.takes_opcode.bind fun found => (hcomposed front found).takes

/-- The record of an instruction holds the address asked for and the number of bytes taken. -/
lemma ensures_reader (mode : CpuMode) (scope : Span) (address : Address) :
    Reader.Ensures (fun i c => i.address = address ∧ i.length = c.taken)
      (reader mode scope address) := by
  unfold reader
  refine Reader.ensures_bind fun prefixes => ?_
  refine Reader.ensures_bind fun (map, opcode, slot) => ?_
  refine Reader.ensures_bind fun (modrm, form) => ?_
  refine Reader.ensures_bind fun (sib, memory) => ?_
  refine Reader.ensures_bind fun immediate => ?_
  refine Reader.ensures_bind fun extra => ?_
  intro c i c' hrun
  cases hrun
  exact ⟨rfl, rfl⟩

lemma exists_of_decode_eq_ok {mode : CpuMode} {scope : Span} {bytes : List UInt8} {a : Address}
    {i : Instruction} (h : decode mode scope bytes a = .ok i) :
    ∃ c, reader mode scope a ⟨0, bytes⟩ = .ok (i, c) := by
  change ((reader mode scope a) ⟨0, bytes⟩).map Prod.fst = _ at h
  cases hrun : (reader mode scope a) ⟨0, bytes⟩ with
  | error e =>
    rw [hrun] at h
    cases h
  | ok p =>
    rw [hrun] at h
    cases h
    exact ⟨p.2, rfl⟩

lemma decode_eq_ok {mode : CpuMode} {scope : Span} {bytes : List UInt8} {a : Address}
    {i : Instruction} (h : decode mode scope bytes a = .ok i) :
    i.address = a ∧ 0 < i.length ∧ i.length ≤ bytes.length := by
  obtain ⟨c, hrun⟩ := exists_of_decode_eq_ok h
  obtain ⟨front, hfront, hrest, htaken⟩ := takes_reader mode scope a hrun
  obtain ⟨haddress, hlength⟩ := ensures_reader mode scope a hrun
  have hbytes : bytes.length = front.length + c.rest.length := by
    rw [← List.length_append, ← hrest]
  have htotal : i.length = front.length := by
    rw [hlength, htaken]
    exact Nat.zero_add _
  refine ⟨haddress, ?_, ?_⟩
  · omega
  · omega

end Instruction

namespace Decoder

/-- **The x86 decoder is faithful.** -/
lemma faithful_x86 (mode : CpuMode) (scope : Span) : (x86 mode scope).Faithful where
  address h := (Instruction.decode_eq_ok h).1
  length_pos h := (Instruction.decode_eq_ok h).2.1
  length_le h := (Instruction.decode_eq_ok h).2.2

lemma eq_ok_of_failingAt {decoder : Decoder} {addresses : List Address} {bytes : List UInt8}
    {a : Address} {i : Instruction} (h : decoder.failingAt addresses bytes a = .ok i) :
    decoder bytes a = .ok i := by
  unfold failingAt at h
  split at h
  · cases h
  · exact h

/-- A faithful decoder stays faithful when it is made to fail at some addresses. -/
lemma Faithful.failingAt {decoder : Decoder} (h : decoder.Faithful) (addresses : List Address) :
    (decoder.failingAt addresses).Faithful where
  address hok := h.address (eq_ok_of_failingAt hok)
  length_pos hok := h.length_pos (eq_ok_of_failingAt hok)
  length_le hok := h.length_le (eq_ok_of_failingAt hok)

end Decoder

end CodeSift
