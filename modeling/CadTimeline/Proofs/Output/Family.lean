import CadTimeline.Proofs.Action.Sketch
import CadTimeline.Proofs.Output.Clash
import CadTimeline.Proofs.Output.Containment

/-!
# Names in a family of sketches

The sketches of a family are told apart by their planes, which stand in front of the name of the
file. Such a file name is that of one axis, one absolute offset and one name, unless an offset
goes on with the digits that another name starts with.
-/

namespace CadTimeline

namespace Axis

theorem underscore_notMem_word (axis : Axis) : '_' ∉ axis.word.toList := by
  cases axis <;> decide

end Axis

namespace FileName

/-- The second offset is the first one with a point and digits behind it, and the first name is
the second one with these digits and `_` in front of it. -/
def Overlaps (p q : Float × String) : Prop :=
  ∃ digits, GoesOn p.1 q.1 digits ∧ p.2.toList = digits ++ '_' :: q.2.toList

/-- Two sketches normal to one axis, each with its offset and its name, have one file name. -/
inductive OneName (p q : Float × String) : Prop
  | same (habs : p.1.abs = q.1.abs) (hname : p.2 = q.2)
  | left (h : Overlaps p q)
  | right (h : Overlaps q p)

/-- The name starts with digits and `_`, as an offset with decimal places goes on. -/
def StartsWithPlaces (name : String) : Prop :=
  ∃ digits rest, IsDigits digits ∧ name.toList = digits ++ '_' :: rest

theorem startsWithPlaces_iff {name : String} :
    StartsWithPlaces name ↔ name.toList.takeWhile Char.isDigit ≠ [] ∧
      (name.toList.dropWhile Char.isDigit).head? = some '_' := by
  constructor
  · rintro ⟨digits, rest, ⟨hne, hdigits⟩, hname⟩
    have hend : ∀ c ∈ ('_' :: rest).head?, c.isDigit = false := by
      rintro _ ⟨⟩
      rfl
    obtain ⟨htake, hdrop⟩ := Numeral.takeWhile_digits hdigits hend
    rw [hname, htake, hdrop]
    exact ⟨hne, rfl⟩
  · rintro ⟨hne, hhead⟩
    obtain ⟨rest, hrest⟩ := List.head?_eq_some_iff.mp hhead
    refine ⟨_, rest, ⟨hne, fun c hc => List.mem_takeWhile_imp hc⟩, ?_⟩
    rw [← hrest, List.takeWhile_append_dropWhile]

instance (name : String) : Decidable (StartsWithPlaces name) :=
  decidable_of_iff _ startsWithPlaces_iff.symm

theorem Overlaps.startsWithPlaces {p q : Float × String} (h : Overlaps p q) :
    StartsWithPlaces p.2 := by
  obtain ⟨digits, ⟨hdigits, -⟩, hname⟩ := h
  exact ⟨digits, _, hdigits, hname⟩

theorem OneName.eq {p q : Float × String} (h : OneName p q) (hp : ¬StartsWithPlaces p.2)
    (hq : ¬StartsWithPlaces q.2) : p.1.abs = q.1.abs ∧ p.2 = q.2 := by
  cases h with
  | same habs hname => exact ⟨habs, hname⟩
  | left h => exact absurd h.startsWithPlaces hp
  | right h => exact absurd h.startsWithPlaces hq

theorem toList_sketch (axis : Axis) (p : Float × String) :
    (sketch axis.word p.1 p.2).toList =
      axis.word.toList ++ '_' :: ((offset p.1).toList ++ '_' :: (p.2.toList ++ ".csv".toList)) := by
  simp [sketch_eq, sketchFront]

/-- In front of a common ending, the digits and the name are known. -/
theorem append_ending_eq_iff {digits : List Char} {m n : String} (ending : List Char) :
    m.toList ++ ending = digits ++ '_' :: (n.toList ++ ending) ↔
      m.toList = digits ++ '_' :: n.toList := by
  rw [← List.cons_append, ← List.append_assoc, List.append_left_inj]

/-- The file name of a sketch shows the axis, and the absolute offset and the name but for an
overlap. -/
theorem sketch_eq_iff {a b : Axis} {p q : Float × String} (hp : p.1.isFinite = true)
    (hq : q.1.isFinite = true) :
    sketch a.word p.1 p.2 = sketch b.word q.1 q.2 ↔ a = b ∧ OneName p q := by
  have hcut : sketch a.word p.1 p.2 = sketch b.word q.1 q.2 ↔ a = b ∧
      (offset p.1).toList ++ '_' :: (p.2.toList ++ ".csv".toList) =
        (offset q.1).toList ++ '_' :: (q.2.toList ++ ".csv".toList) := by
    rw [← String.toList_inj, toList_sketch, toList_sketch]
    constructor
    · intro h
      obtain ⟨haxis, hrest⟩ :=
        append_cons_cancel a.underscore_notMem_word b.underscore_notMem_word h
      exact ⟨Axis.word_injective (String.toList_inj.mp haxis), hrest⟩
    · rintro ⟨rfl, hrest⟩
      rw [hrest]
  rw [hcut, offset_append_eq_iff hp hq]
  simp only [append_ending_eq_iff, List.append_left_inj, String.toList_inj]
  refine and_congr_right fun _ => ⟨?_, ?_⟩
  · rintro (⟨habs, hname⟩ | hleft | hright)
    · exact .same habs hname
    · exact .left hleft
    · exact .right hright
  · rintro (⟨habs, hname⟩ | hleft | hright)
    · exact .inl ⟨habs, hname⟩
    · exact .inr (.inl hleft)
    · exact .inr (.inr hright)

end FileName

open FileName

/-- In one directory, files are the same when their names are. -/
theorem Path.same_join_iff {directory other : Path} (h : directory.same other = true)
    {name file : String} (hname : IsOrdinary name) (hfile : IsOrdinary file) :
    (directory.join name).same (other.join file) = true ↔ name = file := by
  rw [same, beq_iff_eq] at h
  rw [same, beq_iff_eq, hname.components_join, hfile.components_join, h,
    List.append_cancel_left_eq, List.cons.injEq, Component.name.injEq, String.toList_inj,
    and_iff_left rfl]

namespace Analysis

/-- Two sketches that belong to families in one directory. -/
structure InFamilies (analysis : Analysis) (root : Path) (p q : Action) : Prop where
  left : 1 < analysis.familySize root p
  right : 1 < analysis.familySize root q
  directory : (p.destination.directory root).same (q.destination.directory root) = true

variable {analysis : Analysis} {root : Path}

theorem fileName_of_family {action : Action} {axis : Axis} {offset : Float}
    (hplane : action.plane? = some (axis, offset)) (hsize : 1 < analysis.familySize root action) :
    analysis.fileName root action =
      FileName.sketch axis.word offset action.destination.name := by
  rw [fileName, hplane]
  exact if_pos hsize

variable {file source : String} {unit : LengthUnit}

/-- Two sketches of families in one directory have one file exactly when they have one axis and
one name. -/
theorem InFamilies.exists_planes (h : ofSource file source unit = .ok analysis) {p q : Action}
    (hp : p ∈ analysis.sketches) (hq : q ∈ analysis.sketches) (hin : analysis.InFamilies root p q) :
    ∃ a x b y, p.plane? = some (a, x) ∧ q.plane? = some (b, y) ∧
      ((analysis.actionOutput root p).path.same (analysis.actionOutput root q).path = true ↔
        a = b ∧ OneName (x, p.destination.name) (y, q.destination.name)) := by
  obtain ⟨hpkind, _, _, hpblock⟩ := exists_fromBlock_of_mem_sketches h hp
  obtain ⟨hqkind, _, _, hqblock⟩ := exists_fromBlock_of_mem_sketches h hq
  obtain ⟨a, x, _, hpof, hpplane, -, -⟩ := hpblock.exists_plane hpkind
  obtain ⟨b, y, _, hqof, hqplane, -, -⟩ := hqblock.exists_plane hqkind
  refine ⟨a, x, b, y, hpplane, hqplane, ?_⟩
  have hpname : Path.IsOrdinary (analysis.fileName root p) :=
    isOrdinary_fileName (Destination.isPlaced_of_ofHeader hpblock.destination)
  have hqname : Path.IsOrdinary (analysis.fileName root q) :=
    isOrdinary_fileName (Destination.isPlaced_of_ofHeader hqblock.destination)
  rw [actionOutput, actionOutput, Path.same_join_iff hin.directory hpname hqname,
    fileName_of_family hpplane hin.left, fileName_of_family hqplane hin.right]
  exact @FileName.sketch_eq_iff a b (x, _) (y, _) hpof.finite hqof.finite

/-- The file name of a sketch in a family shows its axis, and its absolute offset and its name
but for an overlap of the two. So two sketches of families in one directory have one file only
then, and never if their names are different and do not start with digits and `_`. -/
theorem family_files_exact (h : ofSource file source unit = .ok analysis) (root : Path) :
    (∀ (a b : Axis) (p q : Float × String), p.1.isFinite = true → q.1.isFinite = true →
      (FileName.sketch a.word p.1 p.2 = FileName.sketch b.word q.1 q.2 ↔ a = b ∧ OneName p q) ∧
      (¬StartsWithPlaces p.2 → ¬StartsWithPlaces q.2 →
        FileName.sketch a.word p.1 p.2 = FileName.sketch b.word q.1 q.2 →
          a = b ∧ p.1.abs = q.1.abs ∧ p.2 = q.2)) ∧
    ∀ p ∈ analysis.sketches, ∀ q ∈ analysis.sketches, analysis.InFamilies root p q →
      (∃ a x b y, p.plane? = some (a, x) ∧ q.plane? = some (b, y) ∧
        ((analysis.actionOutput root p).path.same (analysis.actionOutput root q).path = true ↔
          a = b ∧ OneName (x, p.destination.name) (y, q.destination.name))) ∧
      (p.destination.name ≠ q.destination.name → ¬StartsWithPlaces p.destination.name →
        ¬StartsWithPlaces q.destination.name →
          (analysis.actionOutput root p).path.same (analysis.actionOutput root q).path = false) := by
  constructor
  · intro a b p q hp hq
    refine ⟨FileName.sketch_eq_iff hp hq, fun hpname hqname hsame => ?_⟩
    obtain ⟨haxis, hone⟩ := (FileName.sketch_eq_iff hp hq).mp hsame
    exact ⟨haxis, hone.eq hpname hqname⟩
  · intro p hp q hq hin
    obtain ⟨a, x, b, y, hpplane, hqplane, hiff⟩ := hin.exists_planes h hp hq
    refine ⟨⟨a, x, b, y, hpplane, hqplane, hiff⟩, fun hne hpname hqname => ?_⟩
    refine Bool.eq_false_iff.mpr fun hsame => hne ?_
    exact ((hiff.mp hsame).2.eq hpname hqname).2

/-- Two families of sketches in one directory, the second one of this name. -/
def twoFamilies (name : String) : String :=
  let sketch (name offset : String) : List String :=
    ["sketch, wing, ", name, "\noffset_plane, z, ", offset, "\npoint\n0, 0\n"]
  String.join (sketch "rib" "1.5" ++ sketch "rib" "2" ++ sketch name "1" ++ sketch name "-3")

theorem exists_twoFamilies {name : String} {same : Bool}
    (h : (name, same) ∈ [("spar", false), ("5_rib", true)]) :
    ∃ analysis p q, ofSource "t.txt" (twoFamilies name) .mm = .ok analysis ∧
      p ∈ analysis.sketches ∧ q ∈ analysis.sketches ∧ analysis.InFamilies ⟨"out"⟩ p q ∧
      p.destination.name = "rib" ∧ q.destination.name = name ∧
      (analysis.actionOutput ⟨"out"⟩ p).path.same (analysis.actionOutput ⟨"out"⟩ q).path =
        same := by
  have hfacts : ∀ entry ∈ [("spar", false), ("5_rib", true)],
      ((ofSource "t.txt" (twoFamilies entry.1) .mm).toOption.any fun analysis =>
        analysis.sketches.any fun p => analysis.sketches.any fun q =>
          p.destination.name == "rib" && (q.destination.name == entry.1 &&
            (decide (1 < analysis.familySize ⟨"out"⟩ p) &&
              (decide (1 < analysis.familySize ⟨"out"⟩ q) &&
                ((p.destination.directory ⟨"out"⟩).same (q.destination.directory ⟨"out"⟩) &&
                  (analysis.actionOutput ⟨"out"⟩ p).path.same
                    (analysis.actionOutput ⟨"out"⟩ q).path == entry.2))))) = true := by
    simp only [twoFamilies, ofSource_eq, String.toList_join]
    decide +kernel
  obtain ⟨analysis, hread, hany⟩ := exists_of_toOption_any (hfacts _ h)
  obtain ⟨p, hp, hany⟩ := List.any_eq_true.mp hany
  obtain ⟨q, hq, hall⟩ := List.any_eq_true.mp hany
  simp only [Bool.and_eq_true, decide_eq_true_eq, beq_iff_eq] at hall
  obtain ⟨hpname, hqname, hleft, hright, hdirectory, hsame⟩ := hall
  exact ⟨analysis, p, q, hread, hp, hq, ⟨hleft, hright, hdirectory⟩, hpname, hqname, hsame⟩

theorem exists_family_files : ∃ analysis p q,
    ofSource "t.txt" (twoFamilies "spar") .mm = .ok analysis ∧ p ∈ analysis.sketches ∧
      q ∈ analysis.sketches ∧ p.destination.name = "rib" ∧ q.destination.name = "spar" ∧
      (analysis.actionOutput ⟨"out"⟩ p).path.same (analysis.actionOutput ⟨"out"⟩ q).path = false ∧
      OneName (1.5, "rib") (1, "5_rib") := by
  obtain ⟨analysis, p, q, hread, hp, hq, hin, hpname, hqname, -⟩ :=
    @exists_twoFamilies "spar" false (by decide)
  obtain ⟨hnames, hfiles⟩ := family_files_exact hread ⟨"out"⟩
  have hone := (hnames .z .z (1.5, "rib") (1, "5_rib") (by decide +kernel) (by decide +kernel)).1.mp
    (by decide +kernel)
  refine ⟨analysis, p, q, hread, hp, hq, hpname, hqname, (hfiles p hp q hq hin).2 ?_ ?_ ?_, hone.2⟩
  · rw [hpname, hqname]
    decide
  · rw [hpname]
    decide
  · rw [hqname]
    decide

/-- A family at `1.5` has a file of a family at `1` whose name starts with `5_`. -/
theorem exists_family_overlap :
    (FileName.sketch Axis.z.word 1.5 "rib" = FileName.sketch Axis.z.word 1 "5_rib" ∧
      (1.5 : Float).isFinite = true ∧ (1 : Float).isFinite = true ∧
      (1.5 : Float).abs ≠ (1 : Float).abs) ∧
    ∃ analysis p q, ofSource "t.txt" (twoFamilies "5_rib") .mm = .ok analysis ∧
      p ∈ analysis.sketches ∧ q ∈ analysis.sketches ∧ analysis.InFamilies ⟨"out"⟩ p q ∧
      p.destination.name ≠ q.destination.name ∧
      (analysis.actionOutput ⟨"out"⟩ p).path.same (analysis.actionOutput ⟨"out"⟩ q).path =
        true := by
  refine ⟨by decide +kernel, ?_⟩
  obtain ⟨analysis, p, q, hread, hp, hq, hin, hpname, hqname, hsame⟩ :=
    @exists_twoFamilies "5_rib" true (by decide)
  refine ⟨analysis, p, q, hread, hp, hq, hin, ?_, hsame⟩
  rw [hpname, hqname]
  decide

end Analysis

end CadTimeline
