import CodeSift.Analysis
import Mathlib.Tactic.Lemma

/-!
# Surveys that agree

What a survey does is decided by the bytes of its image, by the slots of imports, by its decoder,
and by its settings.  Two surveys that agree in these (`Survey.Agrees`) do the same: they try an
address out, decode from it, give it up and carry out the last step with the same results.  The
order in which a layout lists its parts does not matter, nor do the sections behind the regions.

The limits are left out, since surveys with different limits are compared as well.  They matter for
one thing only, whether discovery goes on; surveys with equal limits go the same way step by step
(`Agrees.step`), and the lists of code they end with are equal.
-/

namespace CodeSift

/-- The same bytes at the same addresses, with another layout. -/
def Image.withLayout (image : Image) (layout : Layout) : Image := { image with layout }

/-- The settings without limits on attempts and on failures. -/
def Settings.unlimited (settings : Settings) : Settings :=
  { settings with maxAttempts := 0, maxRecoveries := 0 }

variable {image : Image} {layout : Layout} {m : ByteMap}

/-! ## The searches -/

namespace PointerTables

variable {start limit a : Address}

lemma countSlots_withLayout (fuel i : Nat) :
    countSlots (image.withLayout layout) m start limit fuel i =
      countSlots image m start limit fuel i := by
  induction fuel generalizing i with
  | zero => rfl
  | succ fuel ih =>
    have hslot : isSlot (image.withLayout layout) m start limit i = isSlot image m start limit i :=
      rfl
    simp only [countSlots, hslot, ih]

lemma searchFrom_withLayout (stride fuel : Nat) (scan : Scan) :
    searchFrom (image.withLayout layout) stride limit fuel a scan =
      searchFrom image stride limit fuel a scan := by
  induction fuel generalizing a scan with
  | zero => rfl
  | succ fuel ih =>
    have hlength : length (image.withLayout layout) scan.map a limit =
        length image scan.map a limit :=
      countSlots_withLayout _ 0
    have hnote : ∀ count, noteTable (image.withLayout layout) scan a count =
        noteTable image scan a count :=
      fun _ => rfl
    simp only [searchFrom, hlength, hnote, ih]

lemma detect_withLayout (index : ReferenceIndex) :
    detect (image.withLayout layout) m index = detect image m index := by
  have hrun : ∀ aligned, searchRun (image.withLayout layout) aligned = searchRun image aligned := by
    intro aligned
    funext scan run
    unfold searchRun
    simp only [searchFrom_withLayout]
  simp only [detect, searchAll, hrun]

end PointerTables

namespace Strings

lemma searchFrom_withLayout (fuel : Nat) (a : Address) (bytes : List UInt8) (scan : Scan) :
    searchFrom (image.withLayout layout) fuel a bytes scan =
      searchFrom image fuel a bytes scan := by
  induction fuel generalizing a bytes scan with
  | zero => rfl
  | succ fuel ih =>
    have hnext : ∀ m s, isNextToAddress (image.withLayout layout) m s = isNextToAddress image m s :=
      fun _ _ => rfl
    cases bytes with
    | nil => rfl
    | cons byte rest => simp only [searchFrom, hnext, ih]

lemma detect_withLayout : detect (image.withLayout layout) m = detect image m := by
  have hrun : searchRun (image.withLayout layout) = searchRun image := by
    funext scan run
    exact searchFrom_withLayout _ _ _ scan
  rw [detect, hrun, detect]

end Strings

namespace CodeBlocks

lemma countInstructions_withLayout (decoder : Decoder) (stop : Address) (fuel : Nat) (a : Address)
    (s : Signature) :
    countInstructions (image.withLayout layout) decoder stop fuel a s =
      countInstructions image decoder stop fuel a s := by
  induction fuel generalizing a s with
  | zero => rfl
  | succ fuel ih =>
    have hwindow : (image.withLayout layout).window a = image.window a := rfl
    simp only [countInstructions, hwindow, ih]

lemma review_withLayout (decoder : Decoder) (index : ReferenceIndex) :
    review (image.withLayout layout) decoder m index = review image decoder m index := by
  have hblock : reviewBlock (image.withLayout layout) decoder = reviewBlock image decoder := by
    funext o block
    have hsignature : ∀ m, signature (image.withLayout layout) decoder m block =
        signature image decoder m block :=
      fun m => countInstructions_withLayout decoder _ _ _ _
    unfold reviewBlock
    simp only [hsignature]
  rw [review, hblock, review]

end CodeBlocks

namespace Survey

variable {v w : Survey} {s : State}

/-- **The two surveys agree**: in the bytes of their images, in the slots of imports, in their
decoders, and in all settings but the limits. -/
structure Agrees (v w : Survey) : Prop where
  regions : w.image.regions = v.image.regions
  slots (a : Address) : a ∈ w.image.importSlots ↔ a ∈ v.image.importSlots
  decoder : w.decoder = v.decoder
  settings : w.settings.unlimited = v.settings.unlimited

namespace Agrees

/-- The image of the one is that of the other with another layout. -/
lemma image_eq (h : v.Agrees w) : w.image = v.image.withLayout w.image.layout := by
  rw [Image.withLayout, ← h.regions]

/-! ## Looking and trying out -/

lemma examine (h : v.Agrees w) : w.examine = v.examine := by
  funext m a
  unfold Survey.examine
  rw [h.decoder, h.image_eq]
  rfl

lemma probe (h : v.Agrees w) : w.probe = v.probe := by
  have hfrom : ∀ (m : ByteMap) (seed : Address) (n : Nat) (a : Address),
      w.probeFrom m seed n a = v.probeFrom m seed n a := by
    intro m seed n
    induction n with
    | zero => exact fun _ => rfl
    | succ n ih =>
      intro a
      simp only [probeFrom, h.examine, ih]
  funext m seed
  exact hfrom m seed probeLength seed

lemma admitsCode (h : v.Agrees w) (m : ByteMap) : m.admitsCode w.image = m.admitsCode v.image := by
  rw [h.image_eq]
  rfl

lemma isSettled (h : v.Agrees w) : w.isSettled = v.isSettled := by
  funext s a
  unfold Survey.isSettled
  rw [h.admitsCode]

/-! ## Following references -/

lemma refer (h : v.Agrees w) : w.refer = v.refer := by
  funext confidence s r
  unfold Survey.refer
  rw [h.admitsCode]

lemma followSlots (h : v.Agrees w) (site base : Address) (confidence : Confidence) (n k : Nat)
    (s : State) :
    w.followSlots site base confidence n k s = v.followSlots site base confidence n k s := by
  have hslot : ∀ s slot, w.followSlot site confidence s slot =
      v.followSlot site confidence s slot := by
    intro s slot
    unfold followSlot readSlot
    rw [h.refer, h.admitsCode, h.image_eq]
    rfl
  induction n generalizing k s with
  | zero => rfl
  | succ n ih => simp only [Survey.followSlots, hslot, ih]

lemma followJumpTable (h : v.Agrees w) (i : Instruction) (suspicious : Bool) (s : State) :
    w.followJumpTable i suspicious s = v.followJumpTable i suspicious s := by
  have hmapped : w.image.isMapped = v.image.isMapped := by
    rw [h.image_eq]
    rfl
  simp only [Survey.followJumpTable, hmapped, h.followSlots]

lemma noteMemory (h : v.Agrees w) (i : Instruction) (s : State) :
    w.noteMemory i s = v.noteMemory i s := by
  have hslots : ∀ a, w.image.importSlots.contains a = v.image.importSlots.contains a := by
    intro a
    rw [Bool.eq_iff_iff, List.contains_iff_mem, List.contains_iff_mem, h.slots]
  have hreadable : w.image.isReadable = v.image.isReadable := by
    rw [h.image_eq]
    rfl
  simp only [Survey.noteMemory, hslots, hreadable]

lemma followReferences (h : v.Agrees w) (i : Instruction) (suspicious : Bool) (s : State) :
    w.followReferences i suspicious s = v.followReferences i suspicious s := by
  have htables : w.settings.followJumpTables = v.settings.followJumpTables :=
    (congrArg Settings.followJumpTables h.settings :)
  have hpointers : w.settings.followImmediatePointers = v.settings.followImmediatePointers :=
    (congrArg Settings.followImmediatePointers h.settings :)
  simp only [Survey.followReferences, followBranch, followImmediate, h.refer,
    h.followJumpTable, h.noteMemory, htables, hpointers]

/-! ## Attempts -/

lemma attempt (h : v.Agrees w) : w.attempt = v.attempt := by
  have haccept : ∀ purpose suspicious s a i,
      w.accept purpose suspicious s a i = v.accept purpose suspicious s a i := by
    intro purpose suspicious s a i
    simp only [accept, h.followReferences]
  have hfrom : ∀ (purpose : Purpose) (suspicious : Bool) (fuel : Nat) (a : Address) (s : State),
      w.attemptFrom purpose suspicious fuel a s = v.attemptFrom purpose suspicious fuel a s := by
    intro purpose suspicious fuel
    induction fuel with
    | zero => exact fun _ _ => rfl
    | succ fuel ih =>
      intro a s
      simp only [attemptFrom, h.examine, haccept, ih]
  funext purpose confidence s seed
  simp only [Survey.attempt, hfrom]

lemma recover (h : v.Agrees w) : w.recover = v.recover := by
  have hlimit : w.settings.eraseHistoryLimit = v.settings.eraseHistoryLimit :=
    (congrArg Settings.eraseHistoryLimit h.settings :)
  funext s failure
  unfold Survey.recover
  rw [hlimit]

/-! ## The last step -/

lemma decodeTarget (h : v.Agrees w) : w.decodeTarget = v.decodeTarget := by
  funext s target
  unfold Survey.decodeTarget
  rw [h.isSettled, h.probe, h.attempt, h.recover]

/-- **The last step** is the same. -/
lemma finalize (h : v.Agrees w) (s : State) : w.finalize s = v.finalize s := by
  have htables : w.settings.detectAddressTables = v.settings.detectAddressTables :=
    (congrArg Settings.detectAddressTables h.settings :)
  have hstrings : w.settings.detectStrings = v.settings.detectStrings :=
    (congrArg Settings.detectStrings h.settings :)
  have hcode : w.settings.validateCode = v.settings.validateCode :=
    (congrArg Settings.validateCode h.settings :)
  have himage := h.image_eq
  unfold Survey.finalize finalizeTables finalizeStrings finalizeCode
  rw [htables, hstrings, hcode, h.decodeTarget, h.decoder, himage]
  simp only [PointerTables.detect_withLayout, Strings.detect_withLayout,
    CodeBlocks.review_withLayout]

/-! ## Whole surveys -/

/-- **One step** is the same when the limits are. -/
lemma step (h : v.Agrees w) (hlimits : w.settings = v.settings) (cancelled : Bool) (s : State) :
    w.step cancelled s = v.step cancelled s := by
  unfold Survey.step discover recoverFailure
  rw [h.finalize, h.recover, h.isSettled, h.probe, h.attempt, hlimits]

/-- **Surveys that begin alike** end alike. -/
lemma run (h : v.Agrees w) (hlimits : w.settings = v.settings) (hstart : w.start = v.start)
    (cancelled : Nat → Bool) : w.run cancelled = v.run cancelled := by
  have hfrom : ∀ (fuel n : Nat) (s : State), w.runFrom cancelled fuel n s =
      v.runFrom cancelled fuel n s := by
    intro fuel
    induction fuel with
    | zero => exact fun _ _ => rfl
    | succ fuel ih =>
      intro n s
      simp only [runFrom, h.step hlimits, ih]
  unfold Survey.run
  rw [hstart, hfrom]

/-- The instructions that are listed are the same. -/
lemma listing (h : v.Agrees w) (m : ByteMap) :
    CodeSift.listing w.image w.decoder m = CodeSift.listing v.image v.decoder m := by
  rw [h.decoder, h.image_eq]
  rfl

end Agrees

end Survey

end CodeSift
