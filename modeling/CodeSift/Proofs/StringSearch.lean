import CodeSift.Proofs.DataSearches

/-!
# The search for strings

`Spells` is the grammar of the three shapes of a string: which bytes are one, and in front of which
other bytes.  What is found at the front of some bytes is spelled there (`fronts_of_match?`), and
what is spelled there is found, unless a long string is found in its place (`match?_of_spells`): a
count that is printable counts more than eight bytes.

A search looks at one byte after the other, and goes on behind a string that it takes.  What it
takes depends on the map as it is by then, since a short string is refused next to the address of
possible code, and what has become data is no possible code any more.  `Searched` describes the
search that has come to some address by the looks it has made, each with the map of that moment.

A string is refused where it begins, and the search goes on with its second character.  From there
the word in front is another one, so that the rest of a refused string may be found.
-/

namespace CodeSift

variable {image : Image} {m : ByteMap}

/-- The bytes stand in the span, in order.  A byte that the image does not have counts as zero. -/
def Image.Holds (image : Image) (s : Span) (w : List UInt8) : Prop :=
  w.length = s.size ∧ ∀ a ∈ s, w[(a - s.start).toNat]? = some ((image.byte? a).getD 0)

namespace Strings

variable {bytes w rest : List UInt8} {found : Match} {scan : Scan} {b : UInt8} {n k : Nat}
  {cls : DataClass}

/-! ## The three shapes -/

/-- The end of a string, and the bytes behind it: a zero, or a line end with a zero if there is
one. -/
inductive Ends : List UInt8 → List UInt8 → Prop
  | zero {rest : List UInt8} : Ends [0] rest
  | line {rest : List UInt8} : rest.head? ≠ some 0 → Ends [0x0d, 0x0a] rest
  | lineAndZero {rest : List UInt8} : Ends [0x0d, 0x0a, 0] rest

/-- **The bytes spell a string** of a class with a number of characters, at least four, in front of
the bytes given last. -/
inductive Spells : DataClass → Nat → List UInt8 → List UInt8 → Prop
  /-- A count and as many printable bytes. -/
  | pascal {count : UInt8} {body rest : List UInt8} : 4 ≤ count.toNat → body.length = count.toNat →
      (∀ b ∈ body, isPrintable b = true) → Spells .pascalString count.toNat (count :: body) rest
  /-- Printable bytes, each with a zero behind it, and two zeros. -/
  | wide {chars rest : List UInt8} : 4 ≤ chars.length → (∀ b ∈ chars, isPrintable b = true) →
      Spells .wideString chars.length (chars.flatMap (fun b => [b, 0]) ++ [0, 0]) rest
  /-- Printable bytes and the end of a string. -/
  | ascii {chars stop rest : List UInt8} : 4 ≤ chars.length → (∀ b ∈ chars, isPrintable b = true) →
      Ends stop rest → Spells .asciiString chars.length (chars ++ stop) rest

/-- The bytes begin with the string that was found, of its size, class and number of characters. -/
def Match.Fronts (found : Match) (bytes : List UInt8) : Prop :=
  ∃ w rest, bytes = w ++ rest ∧ w.length = found.size ∧ Spells found.cls found.characters w rest

lemma isPrintable_iff : isPrintable b = true ↔ 0x20 ≤ b.toNat ∧ b.toNat ≤ 0x7e ∨ b.toNat = 9 := by
  unfold isPrintable
  rw [Bool.or_eq_true, Bool.and_eq_true, decide_eq_true_eq, decide_eq_true_eq, beq_iff_eq,
    UInt8.le_iff_toNat_le, UInt8.le_iff_toNat_le, ← UInt8.toNat_inj]
  exact Iff.rfl

lemma ne_zero_of_isPrintable (h : isPrintable b = true) : b ≠ 0 := by
  rintro rfl
  cases h

/-- A count that is printable is the count of a long string. -/
lemma shortLength_le_of_isPrintable (h : isPrintable b = true) : shortLength ≤ b.toNat := by
  rw [isPrintable_iff] at h
  unfold shortLength
  omega

lemma Spells.length_pos (h : Spells cls n w rest) : 0 < w.length := by
  cases h <;> simp only [List.length_append, List.length_cons] <;> omega

lemma Spells.cls_ne_none (h : Spells cls n w rest) : cls ≠ .none := by
  cases h <;> decide

/-! ### A count and a body -/

lemma fronts_of_pascal? (h : pascal? bytes = some found) : found.Fronts bytes := by
  unfold pascal? at h
  split at h
  · cases h
  · next count tail =>
    dsimp only at h
    split at h
    · next hbody =>
      cases h
      obtain ⟨hmin, hlength, hprintable⟩ := hbody
      refine ⟨count :: tail.take count.toNat, tail.drop count.toNat, ?_, ?_, ?_⟩
      · rw [List.cons_append, List.take_append_drop]
      · rw [List.length_cons, hlength, Nat.add_comm]
      · exact .pascal hmin hlength (List.all_eq_true.mp hprintable)
    · cases h

lemma characters_of_pascal? (h : pascal? (b :: bytes) = some found) :
    found.characters = b.toNat := by
  unfold pascal? at h
  dsimp only at h
  split at h
  · cases h
    rfl
  · cases h

lemma pascal?_of_spells (h : Spells .pascalString n w rest) :
    pascal? (w ++ rest) = some ⟨w.length, .pascalString, n⟩ := by
  cases h with
  | @pascal count body _ hmin hlength hprintable =>
    have htake : (body ++ rest).take count.toNat = body := by rw [← hlength, List.take_left]
    unfold pascal?
    dsimp only [List.cons_append]
    rw [htake, if_pos ⟨hmin, hlength, List.all_eq_true.mpr hprintable⟩, List.length_cons,
      hlength, Nat.add_comm]

/-! ### Printable bytes with zeros between them -/

lemma spells_of_wideLength? (h : wideLength? bytes = some n) :
    ∃ chars rest : List UInt8, bytes = chars.flatMap (fun b => [b, 0]) ++ [0, 0] ++ rest ∧
      chars.length = n ∧
      ∀ b ∈ chars, isPrintable b = true := by
  fun_induction wideLength? bytes generalizing n with
  | case1 low high tail hend =>
    obtain ⟨rfl, rfl⟩ := hend
    cases h
    exact ⟨[], tail, rfl, rfl, fun _ hb => absurd hb List.not_mem_nil⟩
  | case2 low high tail hend hprintable ih =>
    obtain ⟨hlow, rfl⟩ := hprintable
    obtain ⟨k, hk, rfl⟩ := Option.map_eq_some_iff.mp h
    obtain ⟨chars, rest, rfl, rfl, hchars⟩ := ih hk
    exact ⟨low :: chars, rest, rfl, rfl, List.forall_mem_cons.mpr ⟨hlow, hchars⟩⟩
  | case3 low high tail hend hprintable => cases h
  | case4 tail hshort => cases h

lemma fronts_of_wide? (h : wide? bytes = some found) : found.Fronts bytes := by
  unfold wide? at h
  split at h
  · cases h
  · next n hn =>
    split at h
    · next hmin =>
      cases h
      obtain ⟨chars, rest, hbytes, hlength, hprintable⟩ := spells_of_wideLength? hn
      refine ⟨_, rest, hbytes, ?_, ?_⟩
      · simp [List.length_flatMap, hlength, Nat.mul_comm]
      · subst hlength
        exact .wide hmin hprintable
    · cases h

lemma wideLength?_of_printable {chars : List UInt8} (h : ∀ b ∈ chars, isPrintable b = true) :
    wideLength? (chars.flatMap (fun b => [b, 0]) ++ [0, 0] ++ rest) = some chars.length := by
  induction chars with
  | nil => rfl
  | cons c chars ih =>
    rw [List.forall_mem_cons] at h
    have hne := ne_zero_of_isPrintable h.1
    simp only [List.flatMap_cons, List.cons_append, List.nil_append, wideLength?]
    rw [if_neg fun hzero => hne hzero.1, if_pos ⟨h.1, trivial⟩, ih h.2]
    rfl

lemma wide?_of_spells (h : Spells .wideString n w rest) :
    wide? (w ++ rest) = some ⟨w.length, .wideString, n⟩ := by
  cases h with
  | @wide chars _ hmin hprintable =>
    unfold wide?
    rw [wideLength?_of_printable hprintable]
    dsimp only
    rw [if_pos (show minLength ≤ _ from hmin)]
    simp [List.length_flatMap, Nat.mul_comm]

/-- Two printable bytes do not begin a string with zeros between its characters. -/
lemma wide?_of_isPrintable {c : UInt8} (hb : isPrintable b = true) (hc : isPrintable c = true) :
    wide? (b :: c :: bytes) = none := by
  have hb := ne_zero_of_isPrintable hb
  have hc := ne_zero_of_isPrintable hc
  simp [wide?, wideLength?, hb, hc]

/-! ### Printable bytes up to an end -/

lemma ends_of_terminator? (h : terminator? bytes = some k) :
    ∃ stop rest, bytes = stop ++ rest ∧ stop.length = k ∧ Ends stop rest := by
  unfold terminator? at h
  split at h
  · next tail =>
    cases h
    exact ⟨[0], tail, rfl, rfl, .zero⟩
  · next tail =>
    cases h
    exact ⟨[0x0d, 0x0a, 0], tail, rfl, rfl, .lineAndZero⟩
  · next tail hnot =>
    cases h
    refine ⟨[0x0d, 0x0a], tail, rfl, rfl, .line fun hhead => ?_⟩
    obtain ⟨tail, rfl⟩ := List.head?_eq_some_iff.mp hhead
    exact hnot tail rfl
  · cases h

lemma terminator?_of_ends {stop : List UInt8} (h : Ends stop rest) :
    terminator? (stop ++ rest) = some stop.length := by
  cases h with
  | zero => rfl
  | lineAndZero => rfl
  | line hhead =>
    cases rest with
    | nil => rfl
    | cons c rest =>
      have hc : c ≠ 0 := fun hzero => hhead (by rw [hzero]; rfl)
      simp [terminator?, hc]

/-- A string ends with a byte that is not printable. -/
lemma takeWhile_of_ends {chars stop : List UInt8} (hchars : ∀ b ∈ chars, isPrintable b = true)
    (h : Ends stop rest) : (chars ++ stop ++ rest).takeWhile isPrintable = chars := by
  have hnone : (stop ++ rest).takeWhile isPrintable = [] := by cases h <;> rfl
  rw [List.append_assoc, List.takeWhile_append_of_pos hchars, hnone, List.append_nil]

lemma Spells.length_takeWhile (h : Spells .asciiString n w rest) :
    ((w ++ rest).takeWhile isPrintable).length = n := by
  cases h with
  | ascii _ hprintable hends => rw [takeWhile_of_ends hprintable hends]

lemma fronts_of_ascii? (h : ascii? bytes = some found) : found.Fronts bytes := by
  unfold ascii? at h
  dsimp only at h
  split at h
  · cases h
  · next hmin =>
    obtain ⟨k, hk, rfl⟩ := Option.map_eq_some_iff.mp h
    obtain ⟨stop, rest, hdrop, rfl, hends⟩ := ends_of_terminator? hk
    have hprintable := List.all_eq_true.mp (List.all_takeWhile (l := bytes) (p := isPrintable))
    have htake := List.prefix_iff_eq_take.mp (List.takeWhile_prefix isPrintable (l := bytes))
    have hsplit : bytes = bytes.takeWhile isPrintable ++ stop ++ rest := by
      rw [List.append_assoc, ← hdrop]
      exact (List.take_append_drop _ bytes).symm.trans (congrArg (· ++ _) htake.symm)
    exact ⟨_, rest, hsplit, List.length_append, .ascii (Nat.not_lt.mp hmin) hprintable hends⟩

lemma ascii?_of_spells (h : Spells .asciiString n w rest) :
    ascii? (w ++ rest) = some ⟨w.length, .asciiString, n⟩ := by
  cases h with
  | @ascii chars stop _ hmin hprintable hends =>
    unfold ascii?
    rw [takeWhile_of_ends hprintable hends]
    dsimp only
    rw [if_neg (show ¬_ < minLength from Nat.not_lt.mpr hmin), List.append_assoc, List.drop_left,
      terminator?_of_ends hends, List.length_append]
    rfl

/-! ### What is found at the front of some bytes -/

/-- **What is found spells its class.** -/
lemma fronts_of_match? (h : match? bytes = some found) : found.Fronts bytes := by
  rcases Option.or_eq_some_iff.mp h with hpascal | ⟨-, h⟩
  · exact fronts_of_pascal? hpascal
  · rcases Option.or_eq_some_iff.mp h with hwide | ⟨-, hascii⟩
    · exact fronts_of_wide? hwide
    · exact fronts_of_ascii? hascii

lemma size_le_of_match? (h : match? bytes = some found) : found.size ≤ bytes.length := by
  obtain ⟨w, rest, rfl, hsize, -⟩ := fronts_of_match? h
  rw [← hsize, List.length_append]
  exact Nat.le_add_right _ _

lemma size_pos_of_match? (h : match? bytes = some found) : 0 < found.size := by
  obtain ⟨w, rest, -, hsize, hspells⟩ := fronts_of_match? h
  rw [← hsize]
  exact hspells.length_pos

/-- Where printable bytes begin, a count and a body found there are a long string. -/
lemma or_pascal?_of_isPrintable {other : Option Match} (hb : isPrintable b = true)
    (hother : other = some found) :
    (pascal? (b :: bytes)).or other = some found ∨
      ∃ long, (pascal? (b :: bytes)).or other = some long ∧ shortLength ≤ long.characters := by
  cases hpascal : pascal? (b :: bytes) with
  | none => exact Or.inl hother
  | some long =>
    refine Or.inr ⟨long, rfl, ?_⟩
    rw [characters_of_pascal? hpascal]
    exact shortLength_le_of_isPrintable hb

/-- **A string that is spelled is found**, unless a long one is found in its place. -/
lemma match?_of_spells (h : Spells cls n w rest) :
    match? (w ++ rest) = some ⟨w.length, cls, n⟩ ∨
      ∃ long, match? (w ++ rest) = some long ∧ shortLength ≤ long.characters := by
  unfold match?
  cases h with
  | pascal hmin hlength hprintable =>
    left
    rw [pascal?_of_spells (.pascal hmin hlength hprintable)]
    rfl
  | @wide chars _ hmin hprintable =>
    have hwide := @wide?_of_spells _ rest _ (.wide hmin hprintable)
    cases chars with
    | nil => cases hmin
    | cons b chars =>
      refine or_pascal?_of_isPrintable (hprintable b List.mem_cons_self) ?_
      exact Option.or_eq_some_iff.mpr (Or.inl hwide)
  | @ascii chars stop _ hmin hprintable hends =>
    have hascii := ascii?_of_spells (.ascii hmin hprintable hends)
    cases chars with
    | nil => cases hmin
    | cons b chars =>
      cases chars with
      | nil => simp at hmin
      | cons c chars =>
        rw [List.forall_mem_cons, List.forall_mem_cons] at hprintable
        refine or_pascal?_of_isPrintable hprintable.1
          (Option.or_eq_some_iff.mpr (Or.inr ⟨?_, hascii⟩))
        exact wide?_of_isPrintable hprintable.1 hprintable.2.1

/-- A printable byte in front of printable bytes up to an end. -/
lemma Spells.cons_ascii (h : Spells .asciiString n w rest) (hb : isPrintable b = true) :
    Spells .asciiString (n + 1) (b :: w) rest := by
  cases h with
  | @ascii chars _ _ hmin hprintable hends =>
    have hlonger : 4 ≤ (b :: chars).length := Nat.le_succ_of_le hmin
    exact .ascii hlonger (List.forall_mem_cons.mpr ⟨hb, hprintable⟩) hends

/-! ## The bytes of a run -/

section Bytes

variable {a c limit : Address}

@[simp] lemma length_bytesOf (image : Image) (s : Span) : (bytesOf image s).length = s.size := by
  unfold bytesOf
  rw [List.length_map, Span.length_addresses]

lemma bytesOf_append (hac : a.toNat ≤ c.toNat) (hlimit : c.toNat ≤ limit.toNat) :
    bytesOf image ⟨a, limit⟩ = bytesOf image ⟨a, c⟩ ++ bytesOf image ⟨c, limit⟩ := by
  unfold bytesOf
  rw [Span.addresses_append hac hlimit, List.map_append]

lemma bytesOf_cons (h : a.toNat < limit.toNat) :
    bytesOf image ⟨a, limit⟩ = (image.byte? a).getD 0 :: bytesOf image ⟨a + 1, limit⟩ := by
  have hsucc := Span.toNat_succ_of_mem (Span.mem_mk.mpr ⟨Nat.le_refl _, h⟩)
  rw [bytesOf_append (c := a + 1) (by omega) (by omega)]
  have hone : (⟨a, a + 1⟩ : Span).size = 1 := by
    rw [Span.size_mk]
    omega
  unfold bytesOf Span.addresses Address.consecutive
  rw [hone]
  simp

lemma bytesOf_of_le (h : limit.toNat ≤ a.toNat) : bytesOf image ⟨a, limit⟩ = [] := by
  rw [← List.length_eq_zero_iff, length_bytesOf, Span.size_mk]
  omega

/-- The bytes that the search reads in a span are the bytes that stand there. -/
lemma holds_iff {s : Span} : image.Holds s w ↔ bytesOf image s = w := by
  have hread : ∀ a ∈ s, (bytesOf image s)[(a - s.start).toNat]? =
      some ((image.byte? a).getD 0) := by
    intro a ha
    rw [bytesOf, List.getElem?_map, Coverage.getElem?_span_addresses ha, Option.map_some]
  constructor
  · rintro ⟨hlength, hw⟩
    refine List.ext_getElem? fun k => ?_
    rcases Nat.lt_or_ge k s.size with hk | hk
    · have hstop := s.stop.toNat_lt
      have hplace : (s.start + UInt32.ofNat k).toNat = s.start.toNat + k :=
        Address.toNat_add_ofNat (by unfold Span.size at hk; omega)
      have ha : s.start + UInt32.ofNat k ∈ s := by
        rw [Span.mem_iff]
        unfold Span.size at hk
        omega
      have hoffset : (s.start + UInt32.ofNat k - s.start).toNat = k := by
        rw [Address.toNat_sub_of_le (by omega)]
        omega
      have hbyte := (hread _ ha).trans (hw _ ha).symm
      rwa [hoffset] at hbyte
    · rw [List.getElem?_eq_none (by rw [length_bytesOf]; exact hk),
        List.getElem?_eq_none (hlength ▸ hk)]
  · rintro rfl
    exact ⟨length_bytesOf image s, hread⟩

end Bytes

/-! ## A look at a byte -/

/-- The span of a string found at `a`. -/
def Match.span (found : Match) (a : Address) : Span := ⟨a, a + UInt32.ofNat found.size⟩

/-- The string that the search takes at `a`, in a run that ends at `limit`: the one found there,
unless it is short and stands next to an address. -/
def look? (image : Image) (m : ByteMap) (limit a : Address) : Option Match :=
  (match? (bytesOf image ⟨a, limit⟩)).filter fun found =>
    !(found.characters < shortLength && isNextToAddress image m (found.span a))

/-- The search with one more string. -/
def Scan.note (scan : Scan) (s : Span) (cls : DataClass) : Scan :=
  ⟨scan.map.markData s cls, scan.strings ++ [(s, cls)]⟩

section Look

variable {a limit : Address}

lemma look?_eq_some : look? image m limit a = some found ↔
    match? (bytesOf image ⟨a, limit⟩) = some found ∧
      ¬(found.characters < shortLength ∧ isNextToAddress image m (found.span a) = true) := by
  unfold look?
  rw [Option.filter_eq_some_iff, Bool.not_eq_true', ← Bool.not_eq_true, Bool.and_eq_true,
    decide_eq_true_eq]

/-- What is found and not taken is short and stands next to an address. -/
lemma refused_of_look?_eq_none (h : look? image m limit a = none)
    (hfound : match? (bytesOf image ⟨a, limit⟩) = some found) :
    found.characters < shortLength ∧ isNextToAddress image m (found.span a) = true := by
  by_contra hnot
  rw [look?_eq_some.mpr ⟨hfound, hnot⟩] at h
  cases h

/-- A string that is found ends in the run. -/
lemma toNat_stop_span (hfound : match? (bytesOf image ⟨a, limit⟩) = some found) :
    (found.span a).stop.toNat = a.toNat + found.size ∧ (found.span a).stop.toNat ≤ limit.toNat := by
  have hle := size_le_of_match? hfound
  have hpos := size_pos_of_match? hfound
  have hbound := limit.toNat_lt
  rw [length_bytesOf, Span.size_mk] at hle
  have hstop : (a + UInt32.ofNat found.size).toNat = a.toNat + found.size :=
    Address.toNat_add_ofNat (by omega)
  exact ⟨hstop, by rw [Match.span, hstop]; omega⟩

lemma length_bytesOf_span (hfound : match? (bytesOf image ⟨a, limit⟩) = some found) :
    (bytesOf image (found.span a)).length = found.size := by
  have hend : (a + UInt32.ofNat found.size).toNat = a.toNat + found.size :=
    (toNat_stop_span hfound).1
  rw [length_bytesOf, Match.span, Span.size_mk, hend]
  omega

/-- **What is found is spelled by the bytes of its span**, in front of the rest of the run. -/
lemma spells_span (hfound : match? (bytesOf image ⟨a, limit⟩) = some found) :
    Spells found.cls found.characters (bytesOf image (found.span a))
      (bytesOf image ⟨(found.span a).stop, limit⟩) := by
  obtain ⟨hstop, hlimit⟩ := toNat_stop_span hfound
  obtain ⟨w, rest, hbytes, hsize, hspells⟩ := fronts_of_match? hfound
  rw [bytesOf_append (c := (found.span a).stop) (by omega) hlimit] at hbytes
  obtain ⟨hw, hrest⟩ := List.append_inj hbytes ((length_bytesOf_span hfound).trans hsize.symm)
  rw [← hw, ← hrest] at hspells
  exact hspells

lemma exists_holds_span (hfound : match? (bytesOf image ⟨a, limit⟩) = some found) :
    ∃ w rest, image.Holds (found.span a) w ∧ image.Holds ⟨a, limit⟩ (w ++ rest) ∧
      Spells found.cls found.characters w rest := by
  obtain ⟨hstop, hlimit⟩ := toNat_stop_span hfound
  have hwhole := @bytesOf_append image a (found.span a).stop limit (by omega) hlimit
  exact ⟨_, _, holds_iff.mpr rfl, holds_iff.mpr hwhole, spells_span hfound⟩

lemma searchFrom_of_look?_eq_none {fuel : Nat} (ha : a.toNat < limit.toNat)
    (h : look? image scan.map limit a = none) :
    searchFrom image (fuel + 1) a (bytesOf image ⟨a, limit⟩) scan =
      searchFrom image fuel (a + 1) (bytesOf image ⟨a + 1, limit⟩) scan := by
  have hrefused : ∀ found, match? (bytesOf image ⟨a, limit⟩) = some found →
      found.characters < shortLength ∧ isNextToAddress image scan.map (found.span a) = true :=
    fun _ => refused_of_look?_eq_none h
  rw [bytesOf_cons ha] at hrefused ⊢
  rw [searchFrom]
  split
  · rfl
  · next found hfound =>
    obtain ⟨hshort, hnext⟩ := hrefused found hfound
    exact if_pos (Bool.and_eq_true_iff.mpr ⟨decide_eq_true hshort, hnext⟩)

lemma searchFrom_of_look?_eq_some {fuel : Nat} (ha : a.toNat < limit.toNat)
    (h : look? image scan.map limit a = some found) :
    searchFrom image (fuel + 1) a (bytesOf image ⟨a, limit⟩) scan =
      searchFrom image fuel (found.span a).stop (bytesOf image ⟨(found.span a).stop, limit⟩)
        (scan.note (found.span a) found.cls) := by
  obtain ⟨hfound, hkeep⟩ := look?_eq_some.mp h
  obtain ⟨hstop, hlimit⟩ := toNat_stop_span hfound
  have hdrop : (bytesOf image ⟨a, limit⟩).drop found.size =
      bytesOf image ⟨(found.span a).stop, limit⟩ := by
    rw [bytesOf_append (c := (found.span a).stop) (by omega) hlimit]
    exact List.drop_left' (length_bytesOf_span hfound)
  rw [← hdrop]
  rw [bytesOf_cons ha] at hfound ⊢
  rw [searchFrom, hfound]
  refine if_neg fun hrefused => hkeep ?_
  obtain ⟨hshort, hnext⟩ := Bool.and_eq_true_iff.mp hrefused
  exact ⟨of_decide_eq_true hshort, hnext⟩

end Look

/-! ## The search as a sweep -/

section Sweep

variable {P : Address → Scan → Prop} {run : Span}
  (hpass : ∀ {a : Address} {scan : Scan}, a ∈ run → P a scan →
    look? image scan.map run.stop a = none →
    P (a + 1) scan)
  (hnote : ∀ {a : Address} {scan : Scan} {found : Match}, a ∈ run → P a scan →
    look? image scan.map run.stop a = some found →
      P (found.span a).stop (scan.note (found.span a) found.cls))
include hpass hnote

/-- The rest of a run, with a look for each byte that is left. -/
lemma sweep_searchFrom {fuel : Nat} {a : Address} (hstart : run.start.toNat ≤ a.toNat)
    (hstop : a.toNat ≤ run.stop.toNat) (hfuel : run.stop.toNat - a.toNat ≤ fuel) (h : P a scan) :
    P run.stop (searchFrom image fuel a (bytesOf image ⟨a, run.stop⟩) scan) := by
  induction fuel generalizing a scan with
  | zero =>
    obtain rfl : a = run.stop := UInt32.toNat_inj.mp (by omega)
    exact h
  | succ fuel ih =>
    by_cases ha : a.toNat < run.stop.toNat
    · have hmem : a ∈ run := Span.mem_iff.mpr ⟨hstart, ha⟩
      cases hlook : look? image scan.map run.stop a with
      | none =>
        have hsucc := Span.toNat_succ_of_mem hmem
        rw [searchFrom_of_look?_eq_none ha hlook]
        exact ih (by omega) (by omega) (by omega) (hpass hmem h hlook)
      | some found =>
        have hfound := (look?_eq_some.mp hlook).1
        have hpos := size_pos_of_match? hfound
        obtain ⟨hend, hlimit⟩ := toNat_stop_span hfound
        rw [searchFrom_of_look?_eq_some ha hlook]
        exact ih (by omega) hlimit (by omega) (hnote hmem h hlook)
    · obtain rfl : a = run.stop := UInt32.toNat_inj.mp (by omega)
      rw [bytesOf_of_le (Nat.le_refl _), searchFrom]
      exact h

/-- **One run.**  A property of the search and of how far it has come is kept through a run, if it
is kept where nothing is taken and where a string is taken. -/
lemma sweep_searchRun (hrun : run.start.toNat ≤ run.stop.toNat) (h : P run.start scan) :
    P run.stop (searchRun image scan run) := by
  exact sweep_searchFrom hpass hnote (Nat.le_refl _) hrun (Nat.le_refl _) h

end Sweep

/-! ## What the search has done

At each byte the search looks with the map as it is by then: the map it was given, with the strings
marked that stand before this byte. -/

/-- The strings that start before `a`. -/
def before (strings : List (Span × DataClass)) (a : Address) : List (Span × DataClass) :=
  strings.filter fun p => decide (p.1.start < a)

section Before

variable {strings : List (Span × DataClass)} {s : Span} {a : Address}

lemma mem_before {p : Span × DataClass} : p ∈ before strings a ↔ p ∈ strings ∧ p.1.start < a := by
  unfold before
  rw [List.mem_filter, decide_eq_true_eq]

lemma before_eq_self (h : ∀ p ∈ strings, p.1.start < a) : before strings a = strings :=
  List.filter_eq_self.mpr fun p hp => decide_eq_true (h p hp)

lemma before_append_singleton (h : ¬s.start < a) :
    before (strings ++ [(s, cls)]) a = before strings a := by
  unfold before
  rw [List.filter_append, List.filter_singleton, decide_eq_false h]
  exact List.append_nil _

end Before

/-- **The search that has come to `a`.**  The strings stand in order and behind it, each was taken
by a look at its first byte, and a look at each byte of a run that lies in no string took
nothing. -/
structure Searched (image : Image) (m : ByteMap) (a : Address) (scan : Scan) : Prop where
  map : scan.map = m.markAll scan.strings
  ascending : scan.strings.Pairwise fun p q => p.1.stop.toNat ≤ q.1.start.toNat
  behind {p : Span × DataClass} : p ∈ scan.strings →
    p.1.start.toNat < p.1.stop.toNat ∧ p.1.stop.toNat ≤ a.toNat
  taken {p : Span × DataClass} : p ∈ scan.strings → ∃ run ∈ m.unprocessedRuns, p.1.start ∈ run ∧
    ∃ found,
      look? image (m.markAll (before scan.strings p.1.start)) run.stop p.1.start = some found ∧
      p = (found.span p.1.start, found.cls)
  passed {run : Span} {x : Address} : run ∈ m.unprocessedRuns → x ∈ run → x.toNat < a.toNat →
    (∀ p ∈ scan.strings, x ∉ p.1) →
      look? image (m.markAll (before scan.strings x)) run.stop x = none

namespace Searched

variable {a c : Address} {run : Span}

lemma initial : Searched image m 0 { map := m } := by
  refine ⟨rfl, .nil, fun hp => absurd hp List.not_mem_nil, fun hp => absurd hp List.not_mem_nil, ?_⟩
  intro run x _ _ hx
  cases hx

/-- The map of the search is the one its next look is made with. -/
lemma map_before (h : Searched image m a scan) : m.markAll (before scan.strings a) = scan.map := by
  rw [before_eq_self, h.map]
  intro p hp
  obtain ⟨hlt, hle⟩ := h.behind hp
  exact UInt32.lt_iff_toNat_lt.mpr (by omega)

/-- A look behind a byte that lies in no string sees what a look at that byte does. -/
lemma before_of_not_mem (h : Searched image m a scan) {x : Address}
    (hsucc : (x + 1).toNat = x.toNat + 1) (hx : ∀ p ∈ scan.strings, x ∉ p.1) :
    before scan.strings (x + 1) = before scan.strings x := by
  refine List.filter_congr fun p hp => decide_eq_decide.mpr ?_
  have hlt := (h.behind hp).1
  have hout := hx p hp
  rw [Span.mem_iff] at hout
  rw [UInt32.lt_iff_toNat_lt, UInt32.lt_iff_toNat_lt]
  omega

/-- Over decided bytes. -/
lemma skip (h : Searched image m a scan) (hac : a.toNat ≤ c.toNat)
    (hdecided : ∀ x ∈ (⟨a, c⟩ : Span), m.kind x ≠ .unprocessed) : Searched image m c scan := by
  refine ⟨h.map, h.ascending,
    fun hp => ⟨(h.behind hp).1, Nat.le_trans (h.behind hp).2 hac⟩, h.taken, ?_⟩
  intro run x hrun hx hlt hnone
  refine h.passed hrun hx ?_ hnone
  by_contra hge
  exact hdecided x (Span.mem_mk.mpr ⟨Nat.not_lt.mp hge, hlt⟩)
    (ByteMap.unprocessed_of_mem_run hrun hx)

/-- Past a byte where nothing is taken. -/
lemma pass (h : Searched image m a scan) (hrun : run ∈ m.unprocessedRuns) (ha : a ∈ run)
    (hlook : look? image scan.map run.stop a = none) : Searched image m (a + 1) scan := by
  have hsucc := Span.toNat_succ_of_mem ha
  refine ⟨h.map, h.ascending, fun hp => ?_, h.taken, fun {q x} hq hx hlt hnone => ?_⟩
  · obtain ⟨hlt, hle⟩ := h.behind hp
    exact ⟨hlt, by omega⟩
  · rcases Nat.lt_or_ge x.toNat a.toNat with hbefore | hhere
    · exact h.passed hq hx hbefore hnone
    · obtain rfl : x = a := UInt32.toNat_inj.mp (by omega)
      rw [ByteMap.eq_of_mem_unprocessedRuns hq hrun hx ha, h.map_before]
      exact hlook

/-- Past a string that is taken. -/
lemma note (h : Searched image m a scan) (hrun : run ∈ m.unprocessedRuns) (ha : a ∈ run)
    (hlook : look? image scan.map run.stop a = some found) :
    Searched image m (found.span a).stop (scan.note (found.span a) found.cls) := by
  have hfound := (look?_eq_some.mp hlook).1
  have hpos := size_pos_of_match? hfound
  obtain ⟨hend, hlimit⟩ := toNat_stop_span hfound
  -- a look at `a` or before it does not see the new string
  have hunseen : ∀ x : Address, x.toNat ≤ a.toNat →
      before (scan.strings ++ [(found.span a, found.cls)]) x = before scan.strings x := by
    intro x hx
    refine before_append_singleton fun hlt => ?_
    exact absurd (UInt32.lt_iff_toNat_lt.mp hlt) (Nat.not_lt.mpr hx)
  refine ⟨?_, ?_, fun hp => ?_, fun hp => ?_, fun {q x} hq hx hlt hnone => ?_⟩
  · rw [Scan.note, h.map, ByteMap.markAll_append_singleton]
  · refine List.pairwise_append.mpr ⟨h.ascending, List.pairwise_singleton .., fun p hp q hq => ?_⟩
    rw [List.mem_singleton.mp hq]
    exact (h.behind hp).2
  · rcases List.mem_append.mp hp with hp | hp
    · obtain ⟨hlt, hle⟩ := h.behind hp
      exact ⟨hlt, by omega⟩
    · rw [List.mem_singleton.mp hp]
      exact ⟨show a.toNat < (found.span a).stop.toNat by omega, Nat.le_refl _⟩
  · rcases List.mem_append.mp hp with hp | hp
    · have hbehind := h.behind hp
      rw [Scan.note, hunseen _ (by omega)]
      exact h.taken hp
    · rw [List.mem_singleton.mp hp]
      refine ⟨run, hrun, ha, found, ?_, rfl⟩
      rw [← h.map_before, ← hunseen a (Nat.le_refl _)] at hlook
      exact hlook
  · have hbefore : x.toNat < a.toNat := by
      by_contra hge
      refine hnone (found.span a, found.cls) (List.mem_append_right _ List.mem_cons_self) ?_
      exact Span.mem_iff.mpr ⟨Nat.not_lt.mp hge, hlt⟩
    rw [Scan.note, hunseen x (Nat.le_of_lt hbefore)]
    exact h.passed hq hx hbefore fun p hp => hnone p (List.mem_append_left _ hp)

end Searched

/-- **The whole search**, a sweep over the undecided runs. -/
lemma searched_detect (image : Image) (m : ByteMap) :
    Searched image m Address.last (detect image m) := by
  unfold detect
  refine @ByteMap.sweep_unprocessedRuns m Scan (Searched image m) _ _ Searched.skip ?_ .initial
  intro scan run hrun h
  have hnonempty := ByteMap.start_lt_stop_of_mem_unprocessedRuns hrun
  exact sweep_searchRun (fun ha h hlook => h.pass hrun ha hlook)
    (fun ha h hlook => h.note hrun ha hlook) (Nat.le_of_lt hnonempty) h

section Detect

variable {p : Span × DataClass} {a : Address}

/-- A string that is found lies in a run and is spelled by its bytes, in front of the rest of the
run. -/
lemma Searched.spelled (h : Searched image m a scan) (hp : p ∈ scan.strings) :
    ∃ run ∈ m.unprocessedRuns, (∀ x ∈ p.1, x ∈ run) ∧
      ∃ n w rest, image.Holds p.1 w ∧ image.Holds ⟨p.1.start, run.stop⟩ (w ++ rest) ∧
        Spells p.2 n w rest ∧
        (p.2 = .asciiString → ((w ++ rest).takeWhile isPrintable).length = n) := by
  obtain ⟨run, hrun, hstart, found, hlook, hspan⟩ := h.taken hp
  have hfound := (look?_eq_some.mp hlook).1
  obtain ⟨-, hlimit⟩ := toNat_stop_span hfound
  obtain ⟨w, rest, hw, hwhole, hspells⟩ := exists_holds_span hfound
  generalize p.1.start = start at *
  subst hspan
  refine ⟨run, hrun, fun x hx => ?_, found.characters, w, rest, hw, hwhole, hspells,
    fun hascii => ?_⟩
  · rw [Span.mem_iff] at hx hstart ⊢
    exact ⟨Nat.le_trans hstart.1 hx.1, Nat.lt_of_lt_of_le hx.2 hlimit⟩
  · exact Spells.length_takeWhile (hascii ▸ hspells)

lemma Searched.undecided (h : Searched image m a scan) (hp : p ∈ scan.strings) {x : Address}
    (hx : x ∈ p.1) : m.kind x = .unprocessed := by
  obtain ⟨run, hrun, hinside, -⟩ := h.spelled hp
  exact ByteMap.unprocessed_of_mem_run hrun (hinside x hx)

lemma Searched.marked (h : Searched image m a scan) : m.Marked scan.strings scan.map := by
  rw [h.map]
  refine ByteMap.marked_markAll (h.ascending.imp fun {p q} hpq x hx hx' => ?_) fun p hp x hx =>
    h.undecided hp hx
  rw [Span.mem_iff] at hx hx'
  omega

/-- **The search for strings fills the map.** -/
lemma fills_detect (image : Image) (m : ByteMap) : m.Fills (detect image m).map := by
  have h := searched_detect image m
  refine h.marked.fills (fun p hp => ?_) fun p hp x hx => h.undecided hp hx
  obtain ⟨run, -, -, n, w, rest, -, -, hspells, -⟩ := h.spelled hp
  exact hspells.cls_ne_none

/-- A long string is not passed by. -/
lemma Searched.exists_mem_of_long (h : Searched image m a scan) {run : Span} {x : Address}
    (hrun : run ∈ m.unprocessedRuns) (hx : x ∈ run) (hbefore : x.toNat < a.toNat)
    (hspells : Spells cls n w rest) (hlong : shortLength ≤ n)
    (hbytes : bytesOf image ⟨x, run.stop⟩ = w ++ rest) :
    ∃ p ∈ scan.strings, x ∈ p.1 := by
  by_contra hnone
  have hlook := h.passed hrun hx hbefore fun p hp hmem => hnone ⟨p, hp, hmem⟩
  have hfound := match?_of_spells hspells
  rw [← hbytes] at hfound
  rcases hfound with hfound | ⟨long, hfound, hlength⟩
  · exact absurd (refused_of_look?_eq_none hlook hfound).1 (Nat.not_lt.mpr hlong)
  · exact absurd (refused_of_look?_eq_none hlook hfound).1 (Nat.not_lt.mpr hlength)

/-- **The search finds strings and touches nothing else.**  For every image and every map: the
strings found stand in ascending order and have no byte in common; each lies in an undecided run,
and its bytes spell its class in front of the rest of that run, with all the printable bytes that
follow each other if it is one of printable bytes up to an end; the map is changed by making their
bytes data of their classes.  Wherever a string of eight characters or more is spelled in an
undecided run, it begins in a string that is found. -/
theorem strings_spell_their_class (image : Image) (m : ByteMap) :
    (detect image m).strings.Pairwise (fun p q => p.1.stop.toNat ≤ q.1.start.toNat) ∧
    (∀ p ∈ (detect image m).strings, (∀ a ∈ p.1, m.kind a = .unprocessed) ∧
      ∃ run ∈ m.unprocessedRuns, (∀ a ∈ p.1, a ∈ run) ∧
        ∃ n w rest, image.Holds p.1 w ∧ image.Holds ⟨p.1.start, run.stop⟩ (w ++ rest) ∧
          Spells p.2 n w rest ∧
            (p.2 = .asciiString → ((w ++ rest).takeWhile isPrintable).length = n)) ∧
    m.Marked (detect image m).strings (detect image m).map ∧
    ∀ run ∈ m.unprocessedRuns, ∀ a ∈ run, ∀ cls n w rest, Spells cls n w rest → 8 ≤ n →
      image.Holds ⟨a, run.stop⟩ (w ++ rest) → ∃ p ∈ (detect image m).strings, a ∈ p.1 := by
  have h := searched_detect image m
  refine ⟨h.ascending, fun p hp => ⟨fun a ha => h.undecided hp ha, h.spelled hp⟩, h.marked, ?_⟩
  intro run hrun a ha cls n w rest hspells hlong hbytes
  have hbound := run.stop.toNat_lt
  have hstop := (Span.mem_iff.mp ha).2
  exact h.exists_mem_of_long hrun ha (show a.toNat < 2 ^ 32 - 1 by omega) hspells hlong
    (holds_iff.mp hbytes)

/-! ## Short strings next to an address -/

lemma isNextToAddress_iff {s : Span} : isNextToAddress image m s = true ↔
    ∃ target, m.admitsCode image target = true ∧
      ((∃ x : Address, x.toNat + 4 = s.start.toNat ∧ image.word? x = some target) ∨
        image.word? s.stop = some target) := by
  unfold isNextToAddress
  simp only [Bool.or_eq_true, Option.any_eq_true, Option.bind_eq_some_iff,
    Address.subChecked?_eq_some]
  constructor
  · rintro (⟨target, hword, hadmits⟩ | ⟨target, hword, hadmits⟩)
    · exact ⟨target, hadmits, Or.inl hword⟩
    · exact ⟨target, hadmits, Or.inr hword⟩
  · rintro ⟨target, hadmits, hword | hword⟩
    · exact Or.inl ⟨target, hword, hadmits⟩
    · exact Or.inr ⟨target, hword, hadmits⟩

/-- **Why a first character was refused.**  Where a string is taken from its second character on and
not as a whole, the word right before the whole is the address of possible code. -/
lemma exists_word_of_refused {limit x : Address} (hx : x.toNat < limit.toNat)
    (hprintable : isPrintable ((image.byte? x).getD 0) = true)
    (hwhole : look? image m limit x = none) (htail : look? image m limit (x + 1) = some found)
    (hascii : found.cls = .asciiString) :
    found.characters + 1 < shortLength ∧ ∃ word target, word.toNat + 4 = x.toNat ∧
      image.word? word = some target ∧ m.admitsCode image target = true := by
  obtain ⟨hfound, hkeep⟩ := look?_eq_some.mp htail
  obtain ⟨hend, hlimit⟩ := toNat_stop_span hfound
  have hsucc := Span.toNat_succ_of_mem (Span.mem_mk.mpr ⟨Nat.le_refl _, hx⟩)
  have hspells := spells_span hfound
  rw [hascii] at hspells
  have hbytes : bytesOf image ⟨x, limit⟩ =
    ((image.byte? x).getD 0 :: bytesOf image (found.span (x + 1))) ++
      bytesOf image ⟨(found.span (x + 1)).stop, limit⟩ := by
    rw [bytesOf_cons hx, bytesOf_append (c := (found.span (x + 1)).stop) (by omega) hlimit]
    rfl
  have hmatch := match?_of_spells (hspells.cons_ascii hprintable)
  rw [← hbytes, List.length_cons, length_bytesOf_span hfound] at hmatch
  rcases hmatch with hmatch | ⟨long, hmatch, hlong⟩
  · obtain ⟨hshort, hnext⟩ := refused_of_look?_eq_none hwhole hmatch
    -- the whole ends where its tail does, and the tail has no address behind it
    have hsame : (Match.span ⟨found.size + 1, .asciiString, found.characters + 1⟩ x).stop =
        (found.span (x + 1)).stop := by
      rw [← UInt32.toNat_inj, (toNat_stop_span hmatch).1, hend, hsucc, Nat.add_assoc,
        Nat.add_comm 1]
    obtain ⟨target, hadmits, ⟨word, hplace, hword⟩ | hword⟩ := isNextToAddress_iff.mp hnext
    · exact ⟨hshort, word, target, hplace, hword, hadmits⟩
    · rw [hsame] at hword
      exact absurd ⟨Nat.lt_of_succ_lt hshort,
        isNextToAddress_iff.mpr ⟨target, hadmits, Or.inr hword⟩⟩ hkeep
  · exact absurd (refused_of_look?_eq_none hwhole hmatch).1 (Nat.not_lt.mpr hlong)

/-- **What is left of a refused string.**  A string of printable bytes up to an end that is found
stands at the start of its run, or behind a byte that is not printable, or behind another string, or
else behind the first character of a short string that was refused: the word right before that
character is the address of possible code. -/
theorem tail_stands_behind_refused_head (image : Image) (m : ByteMap) {s : Span}
    (hs : (s, DataClass.asciiString) ∈ (detect image m).strings) :
    ∃ run ∈ m.unprocessedRuns, s.start ∈ run ∧
      (s.start = run.start ∨
        isPrintable ((image.byte? (s.start - 1)).getD 0) = false ∨
        (∃ p ∈ (detect image m).strings, s.start - 1 ∈ p.1) ∨
        ∃ n w rest word target, image.Holds s w ∧ image.Holds ⟨s.start, run.stop⟩ (w ++ rest) ∧
          Spells .asciiString n w rest ∧ n + 1 < 8 ∧
          word.toNat + 5 = s.start.toNat ∧ image.word? word = some target ∧
            m.admitsCode image target = true ∧
          ∀ p ∈ (detect image m).strings, p.1.start < s.start → target ∉ p.1) := by
  have h := searched_detect image m
  generalize (detect image m) = scan at h hs
  obtain ⟨run, hrun, hstart, found, hlook, hspan⟩ := h.taken hs
  obtain ⟨hspan, hcls⟩ := Prod.mk.inj hspan
  dsimp only at hstart hlook hspan
  refine ⟨run, hrun, hstart, or_iff_not_imp_left.mpr fun hfirst =>
    or_iff_not_imp_left.mpr fun hprintable => or_iff_not_imp_left.mpr fun hnone => ?_⟩
  obtain ⟨w, rest, hw, hwhole, hspells⟩ := exists_holds_span (look?_eq_some.mp hlook).1
  rw [← hspan] at hw
  rw [← hcls] at hspells
  -- the byte before the string lies in the run too, and was passed with the same map
  obtain ⟨hfrom, hto⟩ := Span.mem_iff.mp hstart
  have hne : run.start.toNat ≠ s.start.toNat := fun heq => hfirst (UInt32.toNat_inj.mp heq.symm)
  have hone : (1 : Address).toNat = 1 := rfl
  have hprev : (s.start - 1).toNat = s.start.toNat - 1 := Address.toNat_sub_of_le (by omega)
  have hbound := s.start.toNat_lt
  have hpassed := h.passed hrun (Span.mem_iff.mpr ⟨by omega, by omega⟩)
    (show (s.start - 1).toNat < 2 ^ 32 - 1 by omega) fun p hp hmem => hnone ⟨p, hp, hmem⟩
  have hpred : s.start - 1 + 1 = s.start := UInt32.sub_add_cancel ..
  rw [← h.before_of_not_mem (by rw [hpred]; omega) fun p hp hmem => hnone ⟨p, hp, hmem⟩] at hpassed
  rw [← hpred] at hlook
  obtain ⟨hshort, word, target, hplace, hword, hadmits⟩ :=
    exists_word_of_refused (by omega) (Bool.of_not_eq_false hprintable) hpassed hlook hcls.symm
  obtain ⟨hadmits, hfree⟩ := ByteMap.admitsCode_markAll.mp hadmits
  rw [hpred] at hfree
  exact ⟨found.characters, w, rest, word, target, hw, hwhole, hspells, hshort, by omega,
    hword, hadmits, fun p hp hlt => hfree p (mem_before.mpr ⟨hp, hlt⟩)⟩

/-- Four instructions, the address of the first of them, and `abcde` with a zero. -/
def refusedHead : Array UInt8 :=
  #[0xc3, 0xc3, 0xc3, 0xc3, 0, 0x10, 0x40, 0, 0x61, 0x62, 0x63, 0x64, 0x65, 0]

/-- A short string that is refused may be found without its first character. -/
theorem tail_of_refused_string :
    ∃ image, Image.load refusedHead (.flat 0x400000 0x1000 14) = .ok image ∧
      (detect image (.ofImage image)).strings = [(⟨0x401009, 0x40100e⟩, .asciiString)] ∧
      (ByteMap.ofImage image).unprocessedRuns = [⟨0x401000, 0x40100e⟩] ∧
        image.byte? 0x401008 = some 0x61 ∧
      isPrintable 0x61 = true := by
  exact ⟨_, rfl, by decide +kernel, by decide +kernel, by decide +kernel, rfl⟩

/-- The word before the first character of that string is the address of the first byte. -/
theorem tail_stands_behind_refused_head_first :
    ∃ image, Image.load refusedHead (.flat 0x400000 0x1000 14) = .ok image ∧
      (⟨0x401009, 0x40100e⟩, DataClass.asciiString) ∈ (detect image (.ofImage image)).strings ∧
      ∃ word target, word.toNat + 5 = (0x401009 : Address).toNat ∧ image.word? word = some target ∧
        (ByteMap.ofImage image).admitsCode image target = true := by
  have hfound : ∃ image, Image.load refusedHead (.flat 0x400000 0x1000 14) = .ok image ∧
      (detect image (.ofImage image)).strings = [(⟨0x401009, 0x40100e⟩, .asciiString)] ∧
      (ByteMap.ofImage image).unprocessedRuns = [⟨0x401000, 0x40100e⟩] ∧
      isPrintable ((image.byte? 0x401008).getD 0) = true :=
    ⟨_, rfl, by decide +kernel, by decide +kernel, by decide +kernel⟩
  obtain ⟨image, hload, hstrings, hruns, hprintable⟩ := hfound
  have hs : (⟨0x401009, 0x40100e⟩, DataClass.asciiString) ∈
      (detect image (.ofImage image)).strings := by
    rw [hstrings]
    exact List.mem_singleton_self _
  refine ⟨image, hload, hs, ?_⟩
  obtain ⟨run, hrun, -, hcases⟩ := tail_stands_behind_refused_head image (.ofImage image) hs
  rw [hruns, List.mem_singleton] at hrun
  subst hrun
  rw [hstrings] at hcases
  rcases hcases with hstart | hbyte | ⟨p, hp, hmem⟩ |
    ⟨n, w, rest, word, target, -, -, -, -, hplace, hword, hadmits, -⟩
  · exact absurd hstart (by decide)
  · exact absurd hbyte (by rw [Bool.not_eq_false]; exact hprintable)
  · rw [List.mem_singleton] at hp
    subst hp
    exact absurd hmem (by decide)
  · exact ⟨word, target, hplace, hword, hadmits⟩

end Detect

end Strings

end CodeSift
