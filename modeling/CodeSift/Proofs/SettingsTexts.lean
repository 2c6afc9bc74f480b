import CodeSift.Proofs.JsonReading
import CodeSift.Settings.Json

/-!
# Settings read back, and override the defaults

`Overriding` says what settings an object gives: each of the nine fields has the value of the member
with its key, or its default if no member has that key.  Other keys do not count.  Where no field is
given twice and every value is one the field can have, the object gives settings, and only one
(`exists_overriding`); so it does not matter in what order the members stand, what else stands
between them, or how the text is laid out.

What is written for settings is such an object, which gives the same settings again
(`settings_text_overrides_defaults`).
-/

namespace CodeSift.Settings

/-! ## What an object gives -/

/-- The document is a processor mode. -/
inductive ModeOf : Json → CpuMode → Prop where
  | bits16 : ModeOf (.string "bits16") .bits16
  | bits32 : ModeOf (.string "bits32") .bits32
  /-- The mode is the only key of an object. -/
  | key {label : String} {mode : CpuMode} : ModeOf (.string label) mode →
      ModeOf (.object [(label, .null)]) mode

/-- The document is a truth value. -/
def FlagOf (x : Json) (b : Bool) : Prop := x = .bool b

/-- The document is a limit: an integer from zero up to the highest number of 64 bits. -/
def LimitOf (x : Json) (n : UInt64) : Prop := x = .int n.toNat

/-- The value is that of the member with the key, or the default if there is no such member. -/
def Taken {α : Type} (members : List (String × Json)) (key : String) (Of : Json → α → Prop)
    (value default : α) : Prop :=
  (∃ x, (key, x) ∈ members ∧ Of x value) ∨ (∀ x, (key, x) ∉ members) ∧ value = default

/-- **The settings are the defaults, overridden by the members.** -/
structure Overriding (members : List (String × Json)) (s : Settings) : Prop where
  cpuMode : Taken members "cpu_mode" ModeOf s.cpuMode .bits32
  followImmediatePointers : Taken members "follow_immediate_pointers" FlagOf
    s.followImmediatePointers true
  followJumpTables : Taken members "follow_jump_tables" FlagOf s.followJumpTables true
  maxRecoveries : Taken members "max_recoveries" LimitOf s.maxRecoveries 4096
  eraseHistoryLimit : Taken members "erase_history_limit" LimitOf s.eraseHistoryLimit 64
  maxAttempts : Taken members "max_attempts" LimitOf s.maxAttempts 0
  detectStrings : Taken members "detect_strings" FlagOf s.detectStrings true
  detectAddressTables : Taken members "detect_address_tables" FlagOf s.detectAddressTables true
  validateCode : Taken members "validate_code" FlagOf s.validateCode true

/-- The keys of truth values. -/
def flagKeys : List String :=
  ["follow_immediate_pointers", "follow_jump_tables", "detect_strings", "detect_address_tables",
    "validate_code"]

/-- The keys of limits. -/
def limitKeys : List String := ["max_recoveries", "erase_history_limit", "max_attempts"]

/-- **The members are valid**: every field is given at most once, and with a value that it can
have. -/
structure Valid (members : List (String × Json)) : Prop where
  once : ∀ key ∈ "cpu_mode" :: (flagKeys ++ limitKeys),
    (members.filter fun m => m.1 == key).length ≤ 1
  mode : ∀ x, ("cpu_mode", x) ∈ members → ∃ mode, ModeOf x mode
  flags : ∀ key ∈ flagKeys, ∀ x, (key, x) ∈ members → ∃ b, FlagOf x b
  limits : ∀ key ∈ limitKeys, ∀ x, (key, x) ∈ members → ∃ n, LimitOf x n

/-! ## The same, field by field -/

namespace Field

/-- The document is a way to write the field of the settings. -/
def Gives (f : Field) (x : Json) (s : Settings) : Prop :=
  match f with
  | .cpuMode => ModeOf x s.cpuMode
  | .followImmediatePointers => FlagOf x s.followImmediatePointers
  | .followJumpTables => FlagOf x s.followJumpTables
  | .maxRecoveries => LimitOf x s.maxRecoveries
  | .eraseHistoryLimit => LimitOf x s.eraseHistoryLimit
  | .maxAttempts => LimitOf x s.maxAttempts
  | .detectStrings => FlagOf x s.detectStrings
  | .detectAddressTables => FlagOf x s.detectAddressTables
  | .validateCode => FlagOf x s.validateCode

/-- The field is the same in both settings. -/
def Same (f : Field) (s t : Settings) : Prop :=
  match f with
  | .cpuMode => s.cpuMode = t.cpuMode
  | .followImmediatePointers => s.followImmediatePointers = t.followImmediatePointers
  | .followJumpTables => s.followJumpTables = t.followJumpTables
  | .maxRecoveries => s.maxRecoveries = t.maxRecoveries
  | .eraseHistoryLimit => s.eraseHistoryLimit = t.eraseHistoryLimit
  | .maxAttempts => s.maxAttempts = t.maxAttempts
  | .detectStrings => s.detectStrings = t.detectStrings
  | .detectAddressTables => s.detectAddressTables = t.detectAddressTables
  | .validateCode => s.validateCode = t.validateCode

/-- The field is as the members give it, or else as it was before. -/
def IsTaken (f : Field) (members : List (String × Json)) (before after : Settings) : Prop :=
  (∃ x, (f.key, x) ∈ members ∧ f.Gives x after) ∨ (∀ x, (f.key, x) ∉ members) ∧ f.Same after before

end Field

/-- **The settings are the defaults, overridden by the members, in every field.** -/
lemma overriding_iff {members : List (String × Json)} {s : Settings} :
    Overriding members s ↔ ∀ f : Field, f.IsTaken members {} s := by
  constructor
  · intro h f
    cases f
    exacts [h.cpuMode, h.followImmediatePointers, h.followJumpTables, h.maxRecoveries,
      h.eraseHistoryLimit, h.maxAttempts, h.detectStrings, h.detectAddressTables, h.validateCode]
  · intro h
    exact ⟨h .cpuMode, h .followImmediatePointers, h .followJumpTables, h .maxRecoveries,
      h .eraseHistoryLimit, h .maxAttempts, h .detectStrings, h .detectAddressTables,
      h .validateCode⟩

/-- Settings that are the same in every field are the same. -/
lemma eq_of_same {s t : Settings} (h : ∀ f : Field, f.Same s t) : s = t := by
  have hmode := h .cpuMode
  have hpointers := h .followImmediatePointers
  have htables := h .followJumpTables
  have hrecoveries := h .maxRecoveries
  have hhistory := h .eraseHistoryLimit
  have hattempts := h .maxAttempts
  have hstrings := h .detectStrings
  have haddresses := h .detectAddressTables
  have hvalidate := h .validateCode
  cases s
  cases t
  simp_all [Field.Same]

/-! ## Reading values -/

lemma cpuMode?_eq_some_iff {x : Json} {mode : CpuMode} :
    cpuMode? x = some mode ↔ ModeOf x mode := by
  have hlabel (label : String) : CpuMode.ofLabel? label = some mode ↔
      ModeOf (.string label) mode := by
    constructor
    · intro h
      unfold CpuMode.ofLabel? at h
      split at h <;> cases h
      · exact .bits16
      · exact .bits32
    · intro h
      cases h <;> rfl
  constructor
  · intro h
    unfold cpuMode? at h
    split at h
    · exact (hlabel _).mp h
    · exact .key ((hlabel _).mp h)
    · cases h
  · intro h
    cases h with
    | key hkey => exact (hlabel _).mpr hkey
    | _ => rfl

lemma bool?_eq_some_iff {x : Json} {b : Bool} : bool? x = some b ↔ FlagOf x b := by
  cases x <;> simp [bool?, FlagOf]

lemma limit?_eq_some_iff {x : Json} {n : UInt64} : limit? x = some n ↔ LimitOf x n := by
  unfold limit? LimitOf
  split
  · next m =>
    have hsize := n.toNat_lt_size
    constructor
    · intro h
      split at h
      · next hm =>
        obtain rfl : UInt64.ofNat m.toNat = n := by simpa using h
        rw [UInt64.toNat_ofNat_of_lt' hm.2, Int.toNat_of_nonneg hm.1]
      · cases h
    · intro h
      obtain rfl : m = n.toNat := by simpa using h
      simpa using hsize
  · next hint => simpa using hint _

namespace Field

lemma Gives.of_same {f : Field} {x : Json} {s t : Settings} (hs : f.Gives x s) (h : f.Same t s) :
    f.Gives x t := by
  cases f <;> simp_all [Gives, Same]

lemma Gives.same {f : Field} {x : Json} {s t : Settings} (hs : f.Gives x s) (ht : f.Gives x t) :
    f.Same s t := by
  cases f <;>
    simp_all [Gives, Same, ← cpuMode?_eq_some_iff, ← bool?_eq_some_iff, ← limit?_eq_some_iff]

lemma Same.trans {f : Field} {s t u : Settings} (hst : f.Same s t) (htu : f.Same t u) :
    f.Same s u := by
  cases f <;> exact Eq.trans hst htu

lemma Same.symm {f : Field} {s t : Settings} (h : f.Same s t) : f.Same t s := by
  cases f <;> exact Eq.symm h

lemma same_refl (f : Field) (s : Settings) : f.Same s s := by
  cases f <;> rfl

/-- **A value that the field can have is taken over**, and no other field changes. -/
lemma Gives.exists_setField? {f : Field} {x : Json} {target : Settings} (h : f.Gives x target)
    (s : Settings) : ∃ t, s.setField? f x = some t ∧ f.Gives x t ∧ ∀ g, g ≠ f → g.Same t s := by
  cases f <;>
    simp only [Gives, ← cpuMode?_eq_some_iff, ← bool?_eq_some_iff, ← limit?_eq_some_iff] at h <;>
    simp only [setField?, h, Option.map_some, Option.some.injEq, exists_eq_left', Gives,
      ← cpuMode?_eq_some_iff, ← bool?_eq_some_iff, ← limit?_eq_some_iff, true_and] <;>
    intro g hg <;>
    cases g <;>
    simp_all [Same]

lemma mem_all (f : Field) : f ∈ all := by
  cases f <;> decide

lemma key_injective {f g : Field} (h : f.key = g.key) : f = g := by
  have hall : ∀ f ∈ all, ∀ g ∈ all, f.key = g.key → f = g := by decide
  exact hall f f.mem_all g g.mem_all h

lemma ofKey?_eq_some_iff {key : String} {f : Field} : ofKey? key = some f ↔ f.key = key := by
  constructor
  · intro h
    simpa using List.find?_some h
  · rintro rfl
    cases f <;> rfl

lemma ofKey?_eq_none_iff {key : String} : ofKey? key = none ↔ ∀ f : Field, f.key ≠ key := by
  simp [Option.eq_none_iff_forall_ne_some, ofKey?_eq_some_iff]

end Field

/-! ## Reading members -/

/-- No key of a field is repeated. -/
def Once (members : List (String × Json)) : Prop :=
  ∀ f : Field, (members.filter fun m => m.1 == f.key).length ≤ 1

lemma Once.eq {members : List (String × Json)} (h : Once members) {f : Field} {x y : Json}
    (hx : (f.key, x) ∈ members) (hy : (f.key, y) ∈ members) : x = y := by
  have hone := h f
  have hx : (f.key, x) ∈ members.filter fun m => m.1 == f.key := by simpa using hx
  have hy : (f.key, y) ∈ members.filter fun m => m.1 == f.key := by simpa using hy
  generalize members.filter (fun m => m.1 == f.key) = given at hone hx hy
  match given, hone with
  | [m], _ =>
    exact (Prod.mk.inj ((List.mem_singleton.mp hx).trans (List.mem_singleton.mp hy).symm)).2

lemma Once.tail {m : String × Json} {members : List (String × Json)} (h : Once (m :: members)) :
    Once members := by
  intro f
  exact le_trans ((List.sublist_cons_self m members).filter _).length_le (h f)

lemma Once.not_mem_tail {f : Field} {x : Json} {members : List (String × Json)}
    (h : Once ((f.key, x) :: members)) (y : Json) : (f.key, y) ∉ members := by
  intro hy
  have hgiven : 0 < (members.filter fun m => m.1 == f.key).length :=
    List.length_pos_of_mem (List.mem_filter.mpr ⟨hy, by simp⟩)
  have hone := h f
  simp only [List.filter_cons, beq_self_eq_true, if_true, List.length_cons] at hone
  omega

-- The induction is on the members.  A field that was seen is not given again, so it keeps the value
-- it has taken.
lemma exists_setMembers? {members : List (String × Json)} {seen : List Field} (honce : Once members)
    (hseen : ∀ f ∈ seen, ∀ x, (f.key, x) ∉ members)
    (hgiven : ∀ (f : Field) (x : Json), (f.key, x) ∈ members → ∃ target, f.Gives x target)
    (s : Settings) :
    ∃ t, setMembers? s seen members = some t ∧ ∀ f : Field, f.IsTaken members s t := by
  induction members generalizing seen s with
  | nil => exact ⟨s, rfl, fun f => .inr ⟨by simp, f.same_refl s⟩⟩
  | cons m rest ih =>
    obtain ⟨key, x⟩ := m
    have hrest (f : Field) (y : Json) (hy : (f.key, y) ∈ rest) : ∃ target, f.Gives y target :=
      hgiven f y (List.mem_cons_of_mem _ hy)
    cases hkey : Field.ofKey? key with
    | none =>
      have hother := Field.ofKey?_eq_none_iff.mp hkey
      obtain ⟨t, ht, htaken⟩ :=
        ih honce.tail (fun f hf y hy => hseen f hf y (List.mem_cons_of_mem _ hy)) hrest s
      refine ⟨t, by simpa [setMembers?, hkey] using ht, fun f => ?_⟩
      simpa [Field.IsTaken, hother f] using htaken f
    | some f =>
      obtain rfl := Field.ofKey?_eq_some_iff.mp hkey
      have hnew : f ∉ seen := fun hf => hseen f hf x List.mem_cons_self
      obtain ⟨target, htarget⟩ := hgiven f x List.mem_cons_self
      obtain ⟨changed, hset, hgives, hsame⟩ := htarget.exists_setField? s
      have hlast := honce.not_mem_tail
      have hseenNow : ∀ g ∈ f :: seen, ∀ y, (g.key, y) ∉ rest :=
        List.forall_mem_cons.mpr ⟨hlast, fun g hg y hy => hseen g hg y (List.mem_cons_of_mem _ hy)⟩
      obtain ⟨t, ht, htaken⟩ := ih honce.tail hseenNow hrest changed
      refine ⟨t, by simpa [setMembers?, hkey, hnew, hset] using ht, fun g => ?_⟩
      by_cases hg : g = f
      · subst hg
        obtain ⟨y, hy, -⟩ | ⟨-, hkept⟩ := htaken g
        · exact absurd hy (hlast y)
        · exact .inl ⟨x, List.mem_cons_self, hgives.of_same hkept⟩
      · obtain ⟨y, hy, hyt⟩ | ⟨hnone, hkept⟩ := htaken g
        · exact .inl ⟨y, List.mem_cons_of_mem _ hy, hyt⟩
        · refine .inr ⟨fun y hy => ?_, hkept.trans (hsame g hg)⟩
          rcases List.mem_cons.mp hy with heq | hmem
          · exact hg (Field.key_injective (Prod.mk.inj heq).1)
          · exact hnone y hmem

/-- Members give one settings only. -/
lemma Overriding.unique {members : List (String × Json)} (honce : Once members) {s t : Settings}
    (hs : Overriding members s) (ht : Overriding members t) : s = t := by
  refine eq_of_same fun f => ?_
  obtain ⟨x, hx, hxs⟩ | ⟨hnone, hsame⟩ := overriding_iff.mp hs f
  · obtain ⟨y, hy, hyt⟩ | ⟨hnone, -⟩ := overriding_iff.mp ht f
    · obtain rfl := honce.eq hx hy
      exact hxs.same hyt
    · exact absurd hx (hnone x)
  · obtain ⟨y, hy, -⟩ | ⟨-, hsame'⟩ := overriding_iff.mp ht f
    · exact absurd hy (hnone y)
    · exact hsame.trans hsame'.symm

/-- **Members give the defaults, overridden by them**, if no field is repeated and all values are
ones that the fields can have. -/
lemma exists_overriding {members : List (String × Json)} (honce : Once members)
    (hgiven : ∀ (f : Field) (x : Json), (f.key, x) ∈ members → ∃ target, f.Gives x target) :
    ∃ s, setMembers? {} [] members = some s ∧ ∀ t, Overriding members t ↔ t = s := by
  have hseen : ∀ f ∈ ([] : List Field), ∀ x, (f.key, x) ∉ members := by simp
  obtain ⟨s, hs, htaken⟩ := exists_setMembers? honce hseen hgiven {}
  have hoverriding : Overriding members s := overriding_iff.mpr htaken
  refine ⟨s, hs, fun t => ⟨fun ht => ht.unique honce hoverriding, ?_⟩⟩
  rintro rfl
  exact hoverriding

/-- A valid value is the value of some settings. -/
lemma Valid.exists_gives {members : List (String × Json)} (h : Valid members) {f : Field} {x : Json}
    (hx : (f.key, x) ∈ members) : ∃ target, f.Gives x target := by
  cases f with
  | cpuMode => exact (h.mode x hx).imp' (fun v => { cpuMode := v }) fun _ hv => hv
  | followImmediatePointers =>
    exact (h.flags _ (by decide) x hx).imp' (fun v => { followImmediatePointers := v })
      fun _ hv => hv
  | followJumpTables =>
    exact (h.flags _ (by decide) x hx).imp' (fun v => { followJumpTables := v }) fun _ hv => hv
  | maxRecoveries =>
    exact (h.limits _ (by decide) x hx).imp' (fun v => { maxRecoveries := v }) fun _ hv => hv
  | eraseHistoryLimit =>
    exact (h.limits _ (by decide) x hx).imp' (fun v => { eraseHistoryLimit := v }) fun _ hv => hv
  | maxAttempts =>
    exact (h.limits _ (by decide) x hx).imp' (fun v => { maxAttempts := v }) fun _ hv => hv
  | detectStrings =>
    exact (h.flags _ (by decide) x hx).imp' (fun v => { detectStrings := v }) fun _ hv => hv
  | detectAddressTables =>
    exact (h.flags _ (by decide) x hx).imp' (fun v => { detectAddressTables := v }) fun _ hv => hv
  | validateCode =>
    exact (h.flags _ (by decide) x hx).imp' (fun v => { validateCode := v }) fun _ hv => hv

lemma Valid.once_fields {members : List (String × Json)} (h : Valid members) : Once members := by
  intro f
  cases f <;> exact h.once _ (by decide)

/-! ## Texts -/

/-- **The text of an object is read as its members.** -/
lemma parse?_of_objectText {halves : Prop} {text : String} {members : List (String × Json)}
    (h : Json.ObjectText halves text.toList (members.map fun m => (.ofText m.1, m.2))) :
    parse? text = setMembers? {} [] members := by
  have hall : members.mapM some = some members := by
    simpa using List.mapM_pure (m := Option) (l := members) (f := id)
  simp [parse?, Json.parseTopLevel?_of_objectText h, Function.comp_def, hall]

lemma mapM_eq_none_of_mem {α β : Type} {f : α → Option β} {l : List α} {a : α} (ha : a ∈ l)
    (hnone : f a = none) : l.mapM f = none := by
  induction l with
  | nil => simp at ha
  | cons b rest ih =>
    rcases List.mem_cons.mp ha with rfl | hrest
    · simp [hnone]
    · simp [ih hrest]

/-- **An object with a key that is no text is refused.** -/
lemma parse?_of_half_key {text : String} {members : List (Json.StringLiteral × Json)}
    (h : Json.ObjectText True text.toList members) {m : Json.StringLiteral × Json}
    (hm : m ∈ members) (hhalf : none ∈ m.1.characters) : parse? text = none := by
  have htext : m.1.text? = none := by
    rw [Json.StringLiteral.text?, mapM_eq_none_of_mem hhalf rfl]
    rfl
  have hmembers := mapM_eq_none_of_mem (f := fun m => m.1.text?.map fun key => (key, m.2)) hm
    (by simp [htext])
  simp [parse?, Json.parseTopLevel?_of_objectText h, hmembers]

/-- The members that are written for settings. -/
lemma objectText_render (s : Settings) : Json.ObjectText True s.render.toList
    ((Field.all.map fun f => (f.key, s.value f)).map fun m => (.ofText m.1, m.2)) := by
  apply Json.objectText_pretty
  intro m hm
  obtain ⟨f, -, rfl⟩ := List.mem_map.mp hm
  cases f <;> simp [value]

lemma once_written (s : Settings) : Once (Field.all.map fun f => (f.key, s.value f)) := by
  have hkeys : ∀ f ∈ Field.all, (Field.all.filter fun g => g.key == f.key).length ≤ 1 := by decide
  intro f
  rw [List.filter_map, List.length_map]
  exact hkeys f f.mem_all

lemma gives_value (s : Settings) (f : Field) : f.Gives (s.value f) s := by
  cases f with
  | cpuMode =>
    rw [Field.Gives, value]
    cases s.cpuMode with
    | bits16 => exact .bits16
    | bits32 => exact .bits32
  | _ => rfl

lemma gives_of_mem_written {s : Settings} {f : Field} {x : Json}
    (hx : (f.key, x) ∈ Field.all.map fun f => (f.key, s.value f)) : f.Gives x s := by
  obtain ⟨g, -, heq⟩ := List.mem_map.mp hx
  obtain ⟨hkey, rfl⟩ := Prod.mk.inj heq
  obtain rfl := Field.key_injective hkey
  exact gives_value s g

lemma overriding_written (s : Settings) :
    Overriding (Field.all.map fun f => (f.key, s.value f)) s := by
  rw [overriding_iff]
  exact fun f => .inl ⟨s.value f, List.mem_map.mpr ⟨f, f.mem_all, rfl⟩, gives_value s f⟩

/-- **What is written for settings gives the same settings.** -/
lemma parse?_render (s : Settings) : parse? s.render = some s := by
  obtain ⟨t, ht, hunique⟩ := exists_overriding (once_written s) fun f x hx =>
    ⟨s, gives_of_mem_written hx⟩
  rw [parse?_of_objectText (objectText_render s), ht, (hunique s).mp (overriding_written s)]

/-- **The text of an object gives the defaults, overridden by its members.**  Settings read back
from what is written for them.  Every text of an object whose members are valid, in any order and
layout, with any values under other keys, gives one settings, the defaults overridden by the
members.  A key that spells half a surrogate pair is no text, and an object with such a key is
refused. -/
theorem settings_text_overrides_defaults :
    (∀ s : Settings, parse? s.render = some s) ∧
    (∀ (text : String) (members : List (String × Json)),
      Json.ObjectText True text.toList (members.map fun m => (.ofText m.1, m.2)) → Valid members →
      ∃ s, parse? text = some s ∧ ∀ t, Overriding members t ↔ t = s) ∧
    ∀ (text : String) (members : List (Json.StringLiteral × Json)),
    Json.ObjectText True text.toList members →
      (∃ m ∈ members, none ∈ m.1.characters) → parse? text = none := by
  refine ⟨parse?_render, fun text members htext hvalid => ?_, fun text members htext hhalf => ?_⟩
  · rw [parse?_of_objectText htext]
    exact exists_overriding hvalid.once_fields fun f x => hvalid.exists_gives
  · obtain ⟨m, hm, hhalf⟩ := hhalf
    exact parse?_of_half_key htext hm hhalf

/-- A key that is none of a field, repeated, with values of any kind, and the highest limit between
them. -/
theorem settings_text_overrides_defaults_highest :
    let text :=
      "\x7b\n  \"x\": [\n    \"\\u0000\"\n  ],\n  \"max_attempts\": 18446744073709551615,\n  \"x\": 0\n\x7d"
    let members : List (String × Json) :=
      [("x", .array [.string "\x00"]), ("max_attempts", .nat 18446744073709551615), ("x", .int 0)]
    Json.ObjectText True text.toList (members.map fun m => (.ofText m.1, m.2)) ∧ Valid members ∧
      parse? text = some { maxAttempts := 18446744073709551615 } := by
  intro text members
  have hpretty : text = (Json.object members).pretty := by decide +kernel
  have htext : Json.ObjectText True text.toList (members.map fun m => (.ofText m.1, m.2)) := by
    rw [hpretty]
    exact Json.objectText_pretty (by simp [members])
  have hlimit : LimitOf (.nat 18446744073709551615) 18446744073709551615 := rfl
  have hvalid : Valid members := by
    constructor
    · decide
    · simp [members]
    · simp [members, flagKeys]
    · simpa [members, limitKeys] using ⟨_, hlimit⟩
  refine ⟨htext, hvalid, ?_⟩
  obtain ⟨s, hs, hunique⟩ := settings_text_overrides_defaults.2.1 text members htext hvalid
  rw [hs, ← (hunique _).mp]
  constructor <;> simp [Taken, members, hlimit]

end CodeSift.Settings
