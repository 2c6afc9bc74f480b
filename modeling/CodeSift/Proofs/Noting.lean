import CodeSift.Proofs.Attempts

/-!
# What following references is made of

Following the references of an instruction is a number of single acts, each of which notes one thing
that the instruction names (`Survey.Noted`): the address of code, a place in memory, or one slot of
the table behind an indirect jump.  An instruction that is a guess notes guesses only.

An attempt lays down instructions and notes what they name, so a property that stands the two stands
every attempt (`Survey.Grown`).  This is how properties that look at single relations, single leads
or single cells are carried through attempts; what can be said about an attempt as a whole is in
`Swept`.
-/

namespace CodeSift

/-- The instruction names the address of code, in the way of the class. -/
inductive Instruction.NamesCode (i : Instruction) : ReferenceClass → Address → Prop
  | call {r : Address} : i.flow = .call → i.branchTarget = some r → NamesCode i .call r
  | jump {r : Address} : i.flow = .jump → i.branchTarget = some r → NamesCode i .jump r
  | branch {r : Address} : i.flow = .conditionalJump → i.branchTarget = some r →
      NamesCode i .branch r
  | immediate {r : Address} : i.codePointer = some r → NamesCode i .immediate r

/-- The instruction names a place in the image, in the way of the class. -/
inductive Instruction.NamesPlace (image : Image) (i : Instruction) : ReferenceClass → Address → Prop
  | jumpTable {r : Address} : i.jumpTableBase = some r → image.isMapped r = true →
      NamesPlace image i .jumpTable r
  | importSlot {r : Address} : i.memoryReference = some r → r ∈ image.importSlots →
      NamesPlace image i .importSlot r
  | data {r : Address} : i.memoryReference = some r → r ∉ image.importSlots →
      image.isReadable r = true → NamesPlace image i .data r

namespace Survey

variable {v : Survey} {s t : State} {a slot site : Address} {i : Instruction} {suspicious : Bool}
  {confidence : Confidence}

/-! ## Single acts -/

/-- **One act of noting** what an instruction names. -/
inductive Noted (v : Survey) (i : Instruction) (suspicious : Bool) (s : State) : State → Prop
  /-- The address of code is noted and comes to wait. -/
  | code {cls : ReferenceClass} {r : Address} {confidence : Confidence} : i.NamesCode cls r →
      (suspicious = true → confidence.isSpeculative = true) →
      Noted v i suspicious s (v.refer confidence s ⟨cls, i.address, r⟩)
  /-- A place in the image is noted. -/
  | place {cls : ReferenceClass} {r : Address} : i.NamesPlace v.image cls r →
      Noted v i suspicious s { s with index := s.index.insert ⟨cls, i.address, r⟩ }
  /-- A slot of the table behind an indirect jump is noted, and what it points to. -/
  | slot {base slot : Address} {k : Nat} {confidence : Confidence} {t : State} :
      i.flow = .jumpIndirect → i.jumpTableBase = some base → k < maxJumpTableSlots →
      slot.toNat = base.toNat + 4 * k → (suspicious = true → confidence.isSpeculative = true) →
      v.readSlot i.address confidence s slot = some t → Noted v i suspicious s t
  /-- The survey stops at a slot. -/
  | halted : Noted v i suspicious s s.halt
  /-- The tables behind jumps are counted. -/
  | counted (jumpTables : Nat) : Noted v i suspicious s
      { s with stats := { s.stats with jumpTables } }

/-- A number of acts one after the other. -/
abbrev Notes (v : Survey) (i : Instruction) (suspicious : Bool) : State → State → Prop :=
  Relation.ReflTransGen (v.Noted i suspicious)

/-- What guessed code refers to is a guess. -/
lemma isSpeculative_confidenceFrom (confidence : Confidence) (h : suspicious = true) :
    (confidenceFrom suspicious confidence).isSpeculative = true := by
  rw [confidenceFrom, if_pos h]
  rfl

/-- What is known about a slot that is read. -/
lemma readSlot_eq_some (h : v.readSlot site confidence s slot = some t) :
    ∃ target, ¬(s.map.contains slot && !s.map.isUnprocessedSpan ⟨slot, slot + 4⟩) = true ∧
      v.image.word? slot = some target ∧ s.map.admitsCode v.image target = true ∧
      t = v.refer confidence
        { s with
          map := s.map.markData ⟨slot, slot + 4⟩ .pointerTable
          index := s.index.insert ⟨.tableEntry, slot, target⟩ } ⟨.jump, site, target⟩ := by
  unfold readSlot at h
  dsimp only at h
  split at h
  · cases h
  · next hfree =>
    split at h
    · cases h
    · next target hword =>
      split at h
      · next hadmits =>
        cases h
        exact ⟨target, hfree, hword, hadmits, rfl⟩
      · cases h

/-! ## All references of an instruction -/

lemma notes_followBranch (i : Instruction) (suspicious : Bool) (s : State) :
    v.Notes i suspicious s (v.followBranch i suspicious s) := by
  unfold followBranch
  split
  · exact .refl
  · next target htarget =>
    refine .single ?_
    split
    · next hflow => exact .code (.call hflow htarget) (isSpeculative_confidenceFrom _)
    · next hflow => exact .code (.jump hflow htarget) (isSpeculative_confidenceFrom _)
    · next hcall hjump =>
      -- only calls, jumps and conditional jumps have a target
      have hflow : i.flow = .conditionalJump := by
        unfold Instruction.branchTarget at htarget
        split at htarget
        · next h => exact absurd h hcall
        · next h => exact absurd h hjump
        · next h => exact h
        · cases htarget
      exact .code (.branch hflow htarget) (isSpeculative_confidenceFrom _)

lemma notes_followSlots {base : Address} (hflow : i.flow = .jumpIndirect)
    (hbase : i.jumpTableBase = some base)
    (hconfidence : suspicious = true → confidence.isSpeculative = true) {n k : Nat}
    (hn : k + n ≤ maxJumpTableSlots) (s : State) :
    v.Notes i suspicious s (v.followSlots i.address base confidence n k s) := by
  induction n generalizing k s with
  | zero => exact .refl
  | succ n ih =>
    unfold followSlots
    split
    · exact .refl
    · next slot hslot =>
      split
      · exact .refl
      · next t ht =>
        have hplace := Address.addChecked?_eq_some.mp hslot
        unfold followSlot at ht
        split at ht
        · cases ht
          exact .head .halted (ih (by omega) s.halt)
        · exact .head (.slot hflow hbase (by omega) hplace hconfidence ht) (ih (by omega) t)

lemma notes_followJumpTable (hflow : i.flow = .jumpIndirect) (s : State) :
    v.Notes i suspicious s (v.followJumpTable i suspicious s) := by
  unfold followJumpTable
  split
  · exact .refl
  · next base hbase =>
    split
    · next hmapped =>
      have hslots : v.Notes i suspicious _ _ := notes_followSlots hflow hbase
        (isSpeculative_confidenceFrom .computedJump) (Nat.le_of_eq (Nat.zero_add maxJumpTableSlots))
        { s with index := s.index.insert ⟨.jumpTable, i.address, base⟩ }
      exact .tail (.head (.place (.jumpTable hbase hmapped)) hslots) (.counted _)
    · exact .refl

lemma notes_noteMemory (i : Instruction) (suspicious : Bool) (s : State) :
    v.Notes i suspicious s (v.noteMemory i s) := by
  unfold noteMemory
  split
  · exact .refl
  · next r hr =>
    split
    · next hslot => exact .single (.place (.importSlot hr (List.contains_iff_mem.mp hslot)))
    · next hslot =>
      split
      · next hreadable =>
        exact .single
          (.place (.data hr (fun hmem => hslot (List.contains_iff_mem.mpr hmem)) hreadable))
      · exact .refl

lemma notes_followImmediate (i : Instruction) (suspicious : Bool) (s : State) :
    v.Notes i suspicious s (v.followImmediate i s) := by
  unfold followImmediate
  split
  · exact .refl
  · next hr => exact .single (.code (.immediate hr) fun _ => rfl)

/-- **Following all references of an instruction is made of single acts.** -/
lemma notes_followReferences (i : Instruction) (suspicious : Bool) (s : State) :
    v.Notes i suspicious s (v.followReferences i suspicious s) := by
  unfold followReferences
  dsimp only
  have hbranch := notes_followBranch (v := v) i suspicious s
  have htable : v.Notes i suspicious s
      (if i.flow == .jumpIndirect && v.settings.followJumpTables then
        v.followJumpTable i suspicious (v.followBranch i suspicious s)
      else v.followBranch i suspicious s) := by
    split
    · next hjump =>
      rw [Bool.and_eq_true, beq_iff_eq] at hjump
      exact hbranch.trans (notes_followJumpTable hjump.1 _)
    · exact hbranch
  have hmemory := htable.trans (notes_noteMemory i suspicious _)
  split
  · exact hmemory.trans (notes_followImmediate i suspicious _)
  · exact hmemory

/-- A single act keeps what is known about code. -/
lemma Noted.keeps (hv : v.Proper) (hs : v.Sound s.map) (h : v.Noted i suspicious s t) :
    s.map.Keeps t.map := by
  cases h with
  | @code cls r confidence hnames _ =>
    have hfollows : v.Follows true i.address s (v.refer confidence s ⟨cls, i.address, r⟩) :=
      follows_refer confidence rfl (by cases hnames <;> rfl)
    exact hfollows.keeps
  | place => exact .refl s.map
  | slot _ _ _ _ _ hslot => exact (follows_readSlot hv hs hslot).keeps
  | halted => exact .refl s.map
  | counted => exact .refl s.map

/-! ## Attempts -/

/-- **The property stands what an attempt does**: laying down instructions, and noting what they
name. -/
structure Grown (v : Survey) (suspicious : Bool) (P : State → Prop) : Prop where
  counted {s : State} (stats : Stats) : P s → P { s with stats }
  laid {s : State} {a : Address} {i : Instruction} : v.Sound s.map →
    v.examine s.map a = .ok (some i) →
    P s → P { s with map := markInstruction s.map a i suspicious }
  noted {s t : State} {i : Instruction} : v.Sound s.map → v.Stands s.map i.address i →
    v.Noted i suspicious s t → P s → P t

namespace Grown

variable {P : State → Prop}

lemma notes (h : v.Grown suspicious P) (hv : v.Proper) (hs : v.Sound s.map)
    (hi : v.Stands s.map i.address i) (hP : P s) (hnotes : v.Notes i suspicious s t) : P t := by
  suffices hall : P t ∧ v.Sound t.map ∧ v.Stands t.map i.address i from hall.1
  induction hnotes with
  | refl => exact ⟨hP, hs, hi⟩
  | tail _ hnoted ih =>
    obtain ⟨hP, hs, hi⟩ := ih
    have hkeeps := hnoted.keeps hv hs
    exact ⟨h.noted hs hi hnoted hP, hs.keeps hv hkeeps, hi.keeps hkeeps⟩

/-- **One accepted instruction.** -/
lemma accept (h : v.Grown suspicious P) (hv : v.Proper) (hs : v.Sound s.map) (purpose : Purpose)
    (hexamine : v.examine s.map a = .ok (some i)) (hP : P s) :
    P (v.accept purpose suspicious s a i) := by
  have hlaid : P (s.layDown a i suspicious) := h.counted _ (h.laid hs hexamine hP)
  cases purpose with
  | decoding => exact hlaid
  | discovery =>
    have hstands : v.Stands (s.layDown a i suspicious).map a i :=
      hs.tiled.stands_markInstruction hexamine hv
    have hsound : v.Sound (s.layDown a i suspicious).map :=
      (Change.decode suspicious hexamine).sound hv hs
    rw [accept_discovery]
    refine h.notes hv hsound ?_ hlaid (notes_followReferences i suspicious _)
    rw [hv.faithful.address hstands.reads]
    exact hstands

lemma attemptFrom (h : v.Grown suspicious P) (hv : v.Proper) (hs : v.Sound s.map)
    (purpose : Purpose) (fuel : Nat) (a : Address) (hP : P s) :
    P (v.attemptFrom purpose suspicious fuel a s).1 := by
  induction fuel generalizing s a with
  | zero => exact hP
  | succ fuel ih =>
    unfold Survey.attemptFrom
    split
    · exact hP
    · exact hP
    · next i hexamine =>
      have haccept := h.accept hv hs purpose hexamine hP
      dsimp only
      split
      · exact haccept
      · exact ih ((swept_accept hv hs purpose suspicious hexamine).changes.sound hv hs) i.stop
          haccept

/-- **A whole attempt.** -/
lemma attempt {failure : Option Failure} {purpose : Purpose}
    (h : v.Grown confidence.isSpeculative P) (hv : v.Proper) (hs : v.Sound s.map) (hP : P s)
    (hattempt : v.attempt purpose confidence s a = (t, failure)) : P t := by
  have hcounted : P s.countAttempt := h.counted _ hP
  have hfrom := h.attemptFrom (s := s.countAttempt) hv hs purpose (s.map.size + 1) a hcounted
  have hstate : (v.attempt purpose confidence s a).1 = t := by rw [hattempt]
  rw [← hstate]
  exact hfrom

end Grown

end Survey

end CodeSift
