import CodeSift.Proofs.Decoding

/-!
# Instructions are a prefix-free code

Whether bytes start with an instruction, and with which one, is settled by the bytes that are read
for it.  More bytes behind them change nothing, and with fewer bytes the answer is that the bytes
ran out.

The argument compares one reader on some bytes and on the same bytes with more behind them.  Either
it answers the same, or it runs out of the shorter bytes, and then what it reads from the longer
ones is more than the shorter ones were (`Decided`).  A reader that takes one field at a time is
decided in this way, and so is whatever is put together from such readers (`Composed.decided`).  The
reader of prefixes looks at one byte that it does not take, so it can run out of bytes that are all
it would take; but what follows the prefixes takes at least that byte.
-/

namespace CodeSift

/-- The same place with more bytes to come. -/
def Cursor.extend (c : Cursor) (more : List UInt8) : Cursor := ⟨c.taken, c.rest ++ more⟩

namespace Reader

variable {α β : Type}

/-! ## More bytes behind -/

/-- With more bytes behind, the reader answers the same, or it has run out of bytes and what it then
reads is longer than they were.  The slack counts the bytes it looks at but does not take. -/
def Decided (slack : Nat) (x : Reader α) : Prop :=
  ∀ (c : Cursor) (more : List UInt8),
    x (c.extend more) = (x c).map (fun p => (p.1, p.2.extend more)) ∨
    (x c = .error .endOfRegion ∧
      ∀ a c', x (c.extend more) = .ok (a, c') → c.taken + c.rest.length < c'.taken + slack)

lemma decided_byte : Decided 0 byte := by
  rintro ⟨taken, rest⟩ more
  by_cases hlong : maxInstructionLength ≤ taken
  · left
    simp [byte, Cursor.extend, hlong, Except.map]
  · cases rest with
    | nil =>
      right
      refine ⟨by simp [byte, hlong], fun b c' hrun => ?_⟩
      obtain ⟨-, htaken, -⟩ := eq_cons_of_byte hrun
      simp [htaken, Cursor.extend]
    | cons b rest =>
      left
      simp [byte, Cursor.extend, hlong, Except.map]

lemma splitExactly?_append {n : Nat} {xs front rest : List α} (more : List α)
    (h : splitExactly? n xs = some (front, rest)) :
    splitExactly? n (xs ++ more) = some (front, rest ++ more) := by
  obtain ⟨rfl, rfl⟩ := eq_append_of_splitExactly? h
  rw [List.append_assoc]
  clear h
  induction front with
  | nil => rfl
  | cons x front ih => simp [splitExactly?, ih]

lemma length_lt_of_splitExactly? {n : Nat} {xs : List α} (h : splitExactly? n xs = none) :
    xs.length < n := by
  induction n generalizing xs with
  | zero => cases h
  | succ n ih =>
    cases xs with
    | nil => simp
    | cons x xs =>
      rw [splitExactly?, Option.map_eq_none_iff] at h
      simpa using ih h

lemma decided_take (n : Nat) : Decided 0 (take n) := by
  rintro ⟨taken, rest⟩ more
  by_cases hlong : maxInstructionLength < taken + n
  · left
    simp [take, Cursor.extend, hlong, Except.map]
  · cases hsplit : splitExactly? n rest with
    | none =>
      right
      refine ⟨by simp [take, hlong, hsplit], fun front c' hrun => ?_⟩
      obtain ⟨-, -, htaken, -⟩ := eq_append_of_take hrun
      have hshort := length_lt_of_splitExactly? hsplit
      simp only [htaken, Cursor.extend]
      omega
    | some p =>
      left
      simp [take, Cursor.extend, hlong, hsplit, splitExactly?_append more hsplit, Except.map]

/-- Running out of prefixes leaves it open whether more than prefixes would be there. -/
lemma decided_prefixes : Decided 1 prefixes := by
  rintro ⟨taken, rest⟩ more
  simp only [prefixes, Cursor.extend]
  induction rest generalizing taken with
  | nil =>
    by_cases hlong : maxInstructionLength ≤ taken
    · left
      cases more <;> simp [prefixesFrom, hlong, Except.map]
    · right
      refine ⟨by simp [prefixesFrom, hlong], fun front c' hrun => ?_⟩
      obtain ⟨-, htaken, -⟩ := eq_append_of_prefixesFrom hrun
      simp only [htaken, List.length_nil]
      omega
  | cons b rest ih =>
    simp only [List.cons_append, prefixesFrom]
    split
    · exact Or.inl rfl
    · split
      · obtain hsame | ⟨hend, hlonger⟩ := ih (taken + 1)
        · left
          rw [hsame]
          cases prefixesFrom (taken + 1) rest <;> rfl
        · right
          refine ⟨by rw [hend], fun front c' hrun => ?_⟩
          split at hrun
          · cases hrun
          · next hmore =>
            cases hrun
            have hlonger := hlonger _ _ hmore
            simp only [List.length_cons]
            omega
      · exact Or.inl rfl

/-- What follows a reader takes the bytes that it only looks at. -/
lemma Decided.bind {slack : Nat} {x : Reader α} {f : α → Reader β} (hx : Decided slack x)
    (htakes : Takes 0 x) (hf : ∀ a, Decided 0 (f a)) (hbehind : ∀ a, Takes slack (f a)) :
    Decided 0 (x >>= f) := by
  intro c more
  show (x (c.extend more) >>= fun p => f p.1 p.2) = (x c >>= fun p => f p.1 p.2).map _ ∨
    (x c >>= fun p => f p.1 p.2) = _ ∧ _
  obtain hsame | ⟨hend, hlonger⟩ := hx c more
  · cases hfirst : x c with
    | error e =>
      left
      rw [hsame, hfirst]
      rfl
    | ok p =>
      rw [hfirst] at hsame
      obtain hsecond | ⟨hend, hlonger⟩ := hf p.1 p.2 more
      · left
        rw [hsame]
        exact hsecond
      · right
        refine ⟨hend, fun b c' hrun => ?_⟩
        obtain ⟨front, -, hrest, htaken⟩ := htakes hfirst
        obtain ⟨a, c₁, hfirst', hsecond⟩ := exists_of_bind_eq_ok hrun
        rw [hsame] at hfirst'
        cases hfirst'
        have hlonger := hlonger b c' hsecond
        rw [hrest, List.length_append]
        omega
  · right
    refine ⟨by rw [hend]; rfl, fun b c' hrun => ?_⟩
    obtain ⟨a, c₁, hfirst, hsecond⟩ := exists_of_bind_eq_ok hrun
    obtain ⟨front, hslack, -, htaken⟩ := hbehind a hsecond
    have hlonger := hlonger a c₁ hfirst
    omega

/-- **Composed readers are decided** by the bytes that they take. -/
lemma Composed.decided {x : Reader α} (hx : Composed x) : Decided 0 x := by
  induction hx with
  | pure a => exact fun _ _ => Or.inl rfl
  | throw e => exact fun _ _ => Or.inl rfl
  | byte => exact decided_byte
  | take n => exact decided_take n
  | bind hx hf ihx ihf => exact ihx.bind hx.takes ihf fun a => (hf a).takes
  | @count _ f _ hcount ih =>
    intro c more
    have hrun : (get >>= f) (c.extend more) = f c (c.extend more) := by
      rw [hcount c (c.extend more) rfl]
      rfl
    rw [hrun]
    exact ih c c more

/-! ## The longest instruction -/

/-- A composed reader stays within the longest instruction. -/
lemma Composed.taken_le {x : Reader α} (hx : Composed x) {c c' : Cursor} {a : α}
    (hc : c.taken ≤ maxInstructionLength) (hrun : x c = .ok (a, c')) :
    c'.taken ≤ maxInstructionLength := by
  induction hx generalizing c c' with
  | pure a =>
    cases hrun
    exact hc
  | throw e => cases hrun
  | byte => exact (eq_cons_of_byte hrun).2.2
  | take n => exact (eq_append_of_take hrun).2.2.2
  | bind _ _ ihx ihf =>
    obtain ⟨a, c₁, hfirst, hsecond⟩ := exists_of_bind_eq_ok hrun
    exact ihf a (ihx hc hfirst) hsecond
  | count _ _ ih => exact ih c hc hrun

end Reader

namespace Instruction

open Reader

variable {mode : CpuMode} {scope : Span} {address : Address} {bytes : List UInt8}

lemma decided_reader (mode : CpuMode) (scope : Span) (address : Address) :
    Decided 0 (reader mode scope address) := by
  obtain ⟨behind, hreader, hcomposed⟩ := exists_behind_opcode mode scope address
  rw [hreader]
  refine decided_prefixes.bind takes_prefixes (fun front => ?_) fun front => ?_
  · exact (Composed.bind composed_opcode (hcomposed front)).decided
  · exact takes_opcode.bind fun found => (hcomposed front found).takes

/-- No instruction is longer than the longest allowed one. -/
lemma length_le_of_decode {i : Instruction} (h : decode mode scope bytes address = .ok i) :
    i.length ≤ maxInstructionLength := by
  obtain ⟨c, hrun⟩ := exists_of_decode_eq_ok h
  rw [(ensures_reader mode scope address hrun).2]
  obtain ⟨behind, hreader, hcomposed⟩ := exists_behind_opcode mode scope address
  rw [hreader] at hrun
  obtain ⟨front, c₁, hprefixes, hbehind⟩ := exists_of_bind_eq_ok hrun
  have hshort := Nat.le_of_lt (eq_append_of_prefixesFrom hprefixes).2.2
  exact (Composed.bind composed_opcode (hcomposed front)).taken_le hshort hbehind

/-- With more bytes behind, the same instruction or failure is found, unless the bytes have run out;
then an instruction that is found is longer than they were. -/
lemma decode_append (mode : CpuMode) (scope : Span) (address : Address) (bytes more : List UInt8) :
    decode mode scope (bytes ++ more) address = decode mode scope bytes address ∨
    (decode mode scope bytes address = .error .endOfRegion ∧
      ∀ i, decode mode scope (bytes ++ more) address = .ok i → bytes.length < i.length) := by
  show (reader mode scope address ⟨0, bytes ++ more⟩).map Prod.fst =
    (reader mode scope address ⟨0, bytes⟩).map Prod.fst ∨
    (reader mode scope address ⟨0, bytes⟩).map Prod.fst = _ ∧
      ∀ i, (reader mode scope address ⟨0, bytes ++ more⟩).map Prod.fst = _ → _
  obtain hsame | ⟨hend, hlonger⟩ := decided_reader mode scope address ⟨0, bytes⟩ more
  · left
    rw [show (⟨0, bytes ++ more⟩ : Cursor) = Cursor.extend ⟨0, bytes⟩ more from rfl, hsame]
    cases reader mode scope address ⟨0, bytes⟩ <;> rfl
  · right
    refine ⟨by rw [hend]; rfl, fun i hdecode => ?_⟩
    obtain ⟨c, hrun⟩ := exists_of_decode_eq_ok hdecode
    have hlonger := hlonger i c hrun
    rw [(ensures_reader mode scope address hrun).2]
    simpa using hlonger

/-- **Instructions are a prefix-free code.**  What the bytes start with stays the same whatever
follows them, unless they ran out.  An instruction has from one to fifteen bytes, all of them given;
its bytes alone are that instruction, and fewer of them run out. -/
theorem decode_prefix_free (mode : CpuMode) (scope : Span) (address : Address)
    (bytes : List UInt8) :
    (decode mode scope bytes address ≠ .error .endOfRegion →
      ∀ more, decode mode scope (bytes ++ more) address = decode mode scope bytes address) ∧
    (∀ i, decode mode scope bytes address = .ok i →
      1 ≤ i.length ∧ i.length ≤ 15 ∧ i.length ≤ bytes.length ∧
      (∀ k < i.length, decode mode scope (bytes.take k) address = .error .endOfRegion) ∧
      (∀ k ≥ i.length, decode mode scope (bytes.take k) address = .ok i)) := by
  refine ⟨fun hfound more => ?_, fun i hdecode => ?_⟩
  · obtain hsame | ⟨hend, -⟩ := decode_append mode scope address bytes more
    · exact hsame
    · exact absurd hend hfound
  · obtain ⟨-, hpos, hbytes⟩ := decode_eq_ok hdecode
    refine ⟨hpos, length_le_of_decode hdecode, hbytes, fun k hk => ?_, fun k hk => ?_⟩
    · obtain hsame | ⟨hend, -⟩ := decode_append mode scope address (bytes.take k) (bytes.drop k)
      · -- The same instruction would be made of fewer bytes than it has.
        rw [List.take_append_drop, hdecode] at hsame
        have hshort := (decode_eq_ok hsame.symm).2.2
        rw [List.length_take] at hshort
        omega
      · exact hend
    · obtain hsame | ⟨-, hlonger⟩ := decode_append mode scope address (bytes.take k) (bytes.drop k)
      · rw [List.take_append_drop] at hsame
        rw [← hsame, hdecode]
      · rw [List.take_append_drop] at hlonger
        have hlonger := hlonger i hdecode
        rw [List.length_take] at hlonger
        omega

/-- An instruction with a prefix, a SIB byte, a displacement and an immediate is found in its ten
bytes, is found again with a byte behind them, and is cut short by any fewer. -/
theorem decode_prefix_free_ten_bytes :
    let bytes : List UInt8 := [0x66, 0x81, 0x84, 0x8d, 0x78, 0x56, 0x34, 0x12, 0xcd, 0xab]
    ∃ i, decode .bits32 ⟨0x400000, 0x408000⟩ bytes 0x401000 = .ok i ∧ i.length = 10 ∧
      decode .bits32 ⟨0x400000, 0x408000⟩ (bytes ++ [0xff]) 0x401000 = .ok i ∧
      decode .bits32 ⟨0x400000, 0x408000⟩ (bytes.take 9) 0x401000 = .error .endOfRegion := by
  intro bytes
  have hten : (decode .bits32 ⟨0x400000, 0x408000⟩ bytes 0x401000).toOption.map Instruction.length =
      some 10 := by decide +kernel
  obtain ⟨hmore, hfewer⟩ := decode_prefix_free .bits32 ⟨0x400000, 0x408000⟩ 0x401000 bytes
  cases hdecode : decode .bits32 ⟨0x400000, 0x408000⟩ bytes 0x401000 with
  | error e =>
    rw [hdecode] at hten
    cases hten
  | ok i =>
    rw [hdecode] at hten hmore
    have hlength : i.length = 10 := Option.some.inj hten
    obtain ⟨-, -, -, hcut, -⟩ := hfewer i hdecode
    exact ⟨i, rfl, hlength, hmore (fun h => by cases h) [0xff], hcut 9 (by omega)⟩

end Instruction

end CodeSift
