import CadTimeline.Proofs.Binary64.Equality
import CadTimeline.Proofs.Rails.Units

/-!
# The points of a cross rail

The rows of all segments of all sketches, in the order of the file, give points of space. The
points of a rail are those that the rows give first: each row whose point is not the same as one
that was given before gives one of them, in this order.
-/

namespace CadTimeline

/-! ## Points that are the same -/

namespace Point

theorem same_trans {p q r : Point} (hpq : p.same q = true) (hqr : q.same r = true) :
    p.same r = true := by
  simp only [same, Bool.and_eq_true] at *
  obtain ⟨⟨hpx, hpy⟩, hpz⟩ := hpq
  obtain ⟨⟨hqx, hqy⟩, hqz⟩ := hqr
  exact ⟨⟨Binary64.beq_trans hpx hqx, Binary64.beq_trans hpy hqy⟩, Binary64.beq_trans hpz hqz⟩

/-- A point is known by its place along the normal of a plane and by its two coordinates in the
plane. -/
theorem lift_eq_iff {normal : Axis} {offset a b : Float} {point : Point} :
    lift normal offset a b = point ↔
      point.along normal = offset ∧ point.project normal = (a, b) := by
  constructor
  · rintro rfl
    exact ⟨along_lift normal offset a b, project_lift normal offset a b⟩
  · rintro ⟨rfl, hproject⟩
    cases normal with
    | x => cases hproject; rfl
    | y => cases hproject; rfl
    | z => cases hproject; rfl

end Point

namespace CrossRails

theorem distinct_append_singleton (points : List Point) (p : Point) :
    distinct (points ++ [p]) =
      if (distinct points).any (Point.same · p) then distinct points
      else distinct points ++ [p] := by
  rw [distinct, List.foldl_append]
  rfl

/-- What is the same as one of all points is the same as one that is kept. -/
theorem any_same_distinct (points : List Point) (p : Point) :
    (distinct points).any (Point.same · p) = points.any (Point.same · p) := by
  induction points using List.reverseRecOn generalizing p with
  | nil => rfl
  | append_singleton points q ih =>
      rw [distinct_append_singleton, List.any_append, ← ih p]
      split
      · rename_i hkept
        obtain ⟨k, hk, hkq⟩ := List.any_eq_true.mp hkept
        refine (Bool.or_eq_left_iff_imp.mpr fun hqp => ?_).symm
        have hqp : q.same p = true := by simpa using hqp
        exact List.any_eq_true.mpr ⟨k, hk, Point.same_trans hkq hqp⟩
      · exact List.any_append

theorem pairwise_distinct (points : List Point) :
    (distinct points).Pairwise fun p q => p.same q = false := by
  induction points using List.reverseRecOn with
  | nil => exact .nil
  | append_singleton points p ih =>
      rw [distinct_append_singleton]
      split
      · exact ih
      · rename_i hnew
        refine List.pairwise_append.mpr ⟨ih, List.pairwise_singleton _ _, fun q hq r hr => ?_⟩
        rw [List.mem_singleton.mp hr]
        exact Bool.eq_false_iff.mpr fun hsame => hnew (List.any_eq_true.mpr ⟨q, hq, hsame⟩)

/-- A point that is left out is the same as one that is kept. -/
theorem mem_distinct_or {points : List Point} {p : Point} (h : p ∈ points) :
    p ∈ distinct points ∨ ∃ kept ∈ distinct points, kept.same p = true := by
  induction points using List.reverseRecOn with
  | nil => exact absurd h List.not_mem_nil
  | append_singleton points q ih =>
      rw [distinct_append_singleton]
      rcases List.mem_append.mp h with hold | hlast
      · split
        · exact ih hold
        · refine (ih hold).imp (List.mem_append_left _) fun ⟨kept, hkept, hsame⟩ => ?_
          exact ⟨kept, List.mem_append_left _ hkept, hsame⟩
      · obtain rfl := List.mem_singleton.mp hlast
        split
        · rename_i hkept
          exact .inr (List.any_eq_true.mp hkept)
        · exact .inl (List.mem_append_right _ (List.mem_singleton_self p))

/-! ## Points that are given first -/

section

variable {α : Type} {gives : α → Point → Prop} {xs : List α} {x : α} {place : Nat}
  {places : List Nat} {point : Point} {points : List Point}

/-- No element gives a point that is the same as this one. -/
def IsNew (gives : α → Point → Prop) (xs : List α) (point : Point) : Prop :=
  ∀ x ∈ xs, ∀ other, gives x other → other.same point = false

/-- The element at this place gives the point, and none before it gives the same one. -/
structure IsFirst (gives : α → Point → Prop) (xs : List α) (place : Nat) (point : Point) :
    Prop where
  given : ∃ x, xs[place]? = some x ∧ gives x point
  first : IsNew gives (xs.take place) point

/-- The points are those that are given first, in the order of their places. -/
structure AreFirst (gives : α → Point → Prop) (xs : List α) (places : List Nat)
    (points : List Point) : Prop where
  sorted : places.Pairwise (· < ·)
  mem_iff : ∀ place, place ∈ places ↔ ∃ point, IsFirst gives xs place point
  points : List.Forall₂ (IsFirst gives xs) places points

theorem IsFirst.lt_length (h : IsFirst gives xs place point) : place < xs.length := by
  obtain ⟨x, hx, -⟩ := h.given
  exact (List.getElem?_eq_some_iff.mp hx).1

/-- One more element gives a point first at its own place or not at all. -/
theorem isFirst_append_singleton : IsFirst gives (xs ++ [x]) place point ↔
    IsFirst gives xs place point ∨ place = xs.length ∧ gives x point ∧ IsNew gives xs point := by
  constructor
  · intro h
    have hlt := h.lt_length
    rw [List.length_append, List.length_singleton] at hlt
    obtain ⟨⟨y, hy, hgives⟩, hnew⟩ := h
    rw [List.take_append_of_le_length (Nat.le_of_lt_succ hlt)] at hnew
    rcases Nat.lt_succ_iff_lt_or_eq.mp hlt with hold | rfl
    · rw [List.getElem?_append_left hold] at hy
      exact .inl ⟨⟨y, hy, hgives⟩, hnew⟩
    · rw [List.getElem?_concat_length, Option.some_inj] at hy
      rw [List.take_length] at hnew
      exact .inr ⟨rfl, hy ▸ hgives, hnew⟩
  · rintro (h | ⟨rfl, hgives, hnew⟩)
    · have hold := h.lt_length
      obtain ⟨⟨y, hy, hgives⟩, hnew⟩ := h
      refine ⟨⟨y, (List.getElem?_append_left hold).trans hy, hgives⟩, ?_⟩
      rwa [List.take_append_of_le_length (Nat.le_of_lt hold)]
    · refine ⟨⟨x, List.getElem?_concat_length, hgives⟩, ?_⟩
      rwa [List.take_left]

theorem AreFirst.skip (h : AreFirst gives xs places points)
    (hold : ∀ point, gives x point → ¬IsNew gives xs point) :
    AreFirst gives (xs ++ [x]) places points := by
  have hsame : ∀ place point, IsFirst gives (xs ++ [x]) place point ↔
      IsFirst gives xs place point := by
    intro place point
    rw [isFirst_append_singleton]
    exact or_iff_left fun ⟨_, hgives, hnew⟩ => hold point hgives hnew
  refine ⟨h.sorted, fun place => ?_, h.points.imp fun place point => (hsame place point).mpr⟩
  simp only [h.mem_iff, hsame]

theorem AreFirst.add (h : AreFirst gives xs places points) (hgives : gives x point)
    (hnew : IsNew gives xs point) :
    AreFirst gives (xs ++ [x]) (places ++ [xs.length]) (points ++ [point]) := by
  have hplace : IsFirst gives (xs ++ [x]) xs.length point :=
    isFirst_append_singleton.mpr (.inr ⟨rfl, hgives, hnew⟩)
  refine ⟨?_, fun place => ?_, ?_⟩
  · refine List.pairwise_append.mpr ⟨h.sorted, List.pairwise_singleton _ _, ?_⟩
    intro place hmem last hlast
    obtain ⟨other, hfirst⟩ := (h.mem_iff place).mp hmem
    rw [List.mem_singleton.mp hlast]
    exact hfirst.lt_length
  · rw [List.mem_append, h.mem_iff, List.mem_singleton]
    simp only [isFirst_append_singleton, exists_or]
    refine or_congr_right ⟨?_, ?_⟩
    · rintro rfl
      exact ⟨point, rfl, hgives, hnew⟩
    · rintro ⟨_, rfl, -⟩
      rfl
  · refine List.rel_append ?_ (.cons hplace .nil)
    exact h.points.imp fun place point hfirst => isFirst_append_singleton.mpr (.inl hfirst)

/-- Without repetition, the points that the elements give are those given first. -/
theorem exists_areFirst {point? : α → Option Point}
    (hgives : ∀ x point, point? x = some point ↔ gives x point) (xs : List α) :
    ∃ places, AreFirst gives xs places (distinct (xs.filterMap point?)) := by
  induction xs using List.reverseRecOn with
  | nil =>
      refine ⟨[], .nil, fun place => iff_of_false List.not_mem_nil ?_, .nil⟩
      rintro ⟨point, h⟩
      exact absurd h.lt_length (Nat.not_lt_zero place)
  | append_singleton xs x ih =>
      obtain ⟨places, ih⟩ := ih
      rw [List.filterMap_append]
      cases hx : point? x with
      | none =>
          rw [List.filterMap_cons_none hx, List.filterMap_nil, List.append_nil]
          refine ⟨places, ih.skip fun point h => ?_⟩
          rw [(hgives x point).mpr h] at hx
          contradiction
      | some p =>
          have hp := (hgives x p).mp hx
          have hnew : (distinct (xs.filterMap point?)).any (Point.same · p) = false ↔
              IsNew gives xs p := by
            rw [any_same_distinct, List.any_eq_false]
            simp only [List.mem_filterMap, hgives, IsNew, Bool.not_eq_true]
            exact ⟨fun h y hy q hq => h q ⟨y, hy, hq⟩, fun h q ⟨y, hy, hq⟩ => h y hy q hq⟩
          rw [List.filterMap_cons_some hx, List.filterMap_nil, distinct_append_singleton]
          split
          · rename_i hkept
            refine ⟨places, ih.skip fun point h => ?_⟩
            rw [← hgives, hx, Option.some_inj] at h
            rw [← h, ← hnew, hkept]
            exact nofun
          · rename_i hkept
            exact ⟨_, ih.add hp (hnew.mp (Bool.not_eq_true _ ▸ hkept))⟩

end

/-! ## Rows of sketches -/

/-- A row of a segment of a sketch. -/
structure Site where
  profile : Action
  segment : Record
  row : List Value

/-- The rows of all segments, in the order of the sketches, their segments and their rows. -/
def sites (profiles : List Action) : List Site :=
  profiles.flatMap fun profile => profile.segments.flatMap fun segment =>
    segment.rows.map fun row => ⟨profile, segment, row⟩

/-- The row gives a point of the rail: its segment is tagged with the rail, the plane of its
sketch has the normal of the profiles and lies at the place of the point along it, the row begins
with the coordinates of the point in this plane, and the point lies in the plane of the rail. -/
structure Gives (rails : CrossRails) (rail : String) (offset : Float) (site : Site)
    (point : Point) : Prop where
  tag : ∃ names, .crossRails names ∈ site.segment.tags ∧ rail ∈ names
  plane : site.profile.plane? = some (rails.profileNormal, point.along rails.profileNormal)
  coordinates : coordinates? site.row = some (point.project rails.profileNormal)
  near : (point.along rails.railNormal - offset).abs < 1e-9

/-- The point of the rail that a row gives, if it gives one. -/
def pointAt? (rails : CrossRails) (rail : String) (offset : Float) (site : Site) : Option Point :=
  match site.profile.plane? with
  | none => none
  | some (axis, profileOffset) =>
    if axis = rails.profileNormal ∧ site.segment.isOnCrossRail rail then do
      let (a, b) ← coordinates? site.row
      pointInPlane? axis profileOffset rails.railNormal offset a b
    else none

variable {rails : CrossRails} {rail : String} {offset : Float}

theorem pointAt?_eq_some (hnormals : rails.profileNormal ≠ rails.railNormal) {site : Site}
    {point : Point} :
    rails.pointAt? rail offset site = some point ↔ rails.Gives rail offset site point := by
  unfold pointAt?
  constructor
  · intro h
    split at h
    · contradiction
    · rename_i axis profileOffset hplane
      split at h
      · rename_i haxis
        obtain ⟨rfl, htag⟩ := haxis
        obtain ⟨⟨a, b⟩, hcoordinates, hin⟩ := Option.bind_eq_some_iff.mp h
        obtain ⟨-, hnear, hlift⟩ := pointInPlane?_eq_some.mp hin
        obtain ⟨rfl, hproject⟩ := Point.lift_eq_iff.mp hlift
        rw [hlift] at hnear
        exact ⟨Record.isOnCrossRail_iff.mp htag, hplane, hproject ▸ hcoordinates, hnear⟩
      · contradiction
  · rintro ⟨htag, hplane, hcoordinates, hnear⟩
    have hlift : Point.lift rails.profileNormal (point.along rails.profileNormal)
        (point.project rails.profileNormal).1 (point.project rails.profileNormal).2 = point :=
      Point.lift_eq_iff.mpr ⟨rfl, rfl⟩
    rw [hplane]
    dsimp only
    rw [if_pos ⟨rfl, Record.isOnCrossRail_iff.mpr htag⟩, hcoordinates]
    exact pointInPlane?_eq_some.mpr ⟨hnormals, hlift.symm ▸ hnear, hlift⟩

theorem flatMap_filter {α β : Type} (p : α → Bool) (f : α → List β) (xs : List α) :
    (xs.filter p).flatMap f = xs.flatMap fun x => if p x then f x else [] := by
  induction xs with
  | nil => rfl
  | cons x xs ih =>
      rw [List.filter_cons, List.flatMap_cons, ← ih]
      split
      · exact List.flatMap_cons
      · rfl

theorem profilePoints_eq (rails : CrossRails) (rail : String) (offset : Float)
    (profile : Action) : rails.profilePoints rail offset profile =
      profile.segments.flatMap fun segment =>
        segment.rows.filterMap fun row => rails.pointAt? rail offset ⟨profile, segment, row⟩ := by
  unfold profilePoints pointAt?
  dsimp only
  cases profile.plane? with
  | none => simp
  | some plane =>
      obtain ⟨axis, profileOffset⟩ := plane
      dsimp only
      by_cases haxis : axis = rails.profileNormal
      · rw [if_pos haxis, flatMap_filter]
        refine List.flatMap_congr fun segment _ => ?_
        by_cases htag : segment.isOnCrossRail rail = true
        · simp only [haxis, htag, and_self, if_true]
        · simp [htag]
      · simp [haxis]

theorem points_eq (rails : CrossRails) (profiles : List Action) (rail : String) (offset : Float) :
    rails.points profiles rail offset =
      distinct ((sites profiles).filterMap (rails.pointAt? rail offset)) := by
  rw [points, sites, List.filterMap_flatMap]
  refine congrArg distinct (List.flatMap_congr fun profile _ => ?_)
  rw [profilePoints_eq, List.filterMap_flatMap]
  refine List.flatMap_congr fun segment _ => ?_
  rw [List.filterMap_map]
  rfl

/-- The points of a rail are those that the rows of the sketches give first, in the order of the
file. No two of them are the same, a row gives each of them, and what a row gives is one of them
or the same as one. -/
theorem points_exact (hnormals : rails.profileNormal ≠ rails.railNormal) (profiles : List Action)
    (rail : String) (offset : Float) :
    (∃ places, AreFirst (rails.Gives rail offset) (sites profiles) places
      (rails.points profiles rail offset)) ∧
    ((rails.points profiles rail offset).Pairwise fun p q => p.same q = false) ∧
    (∀ point ∈ rails.points profiles rail offset,
      ∃ site ∈ sites profiles, rails.Gives rail offset site point) ∧
    ∀ site ∈ sites profiles, ∀ point, rails.Gives rail offset site point →
      point ∈ rails.points profiles rail offset ∨
        ∃ kept ∈ rails.points profiles rail offset, kept.same point = true := by
  have hgives : ∀ site point, rails.pointAt? rail offset site = some point ↔
      rails.Gives rail offset site point := fun _ _ => pointAt?_eq_some hnormals
  rw [points_eq]
  refine ⟨exists_areFirst hgives _, pairwise_distinct _, fun point hpoint => ?_,
    fun site hsite point h => mem_distinct_or ?_⟩
  · obtain ⟨site, hsite, hsome⟩ := List.mem_filterMap.mp (mem_of_mem_distinct hpoint)
    exact ⟨site, hsite, (hgives site point).mp hsome⟩
  · exact List.mem_filterMap.mpr ⟨site, hsite, (hgives site point).mpr h⟩

/-- A sketch normal to the third axis, with one segment on a rail and three beside it: one
without tags, one on another rail, and one that is a rail of the same name itself. -/
def rib (offset : Float) (points : List (Float × Float)) : Action where
  kind := .sketch
  destination := ⟨["wing"], "rib", []⟩
  unit := .mm
  line := 1
  records :=
    [⟨["offset_plane"], [.text "z", .number offset], [], [], true, 2⟩,
      ⟨["spline"], [], points.map fun (a, b) => [.number a, .number b], [.crossRails ["lead"]],
        true, 3⟩,
      ⟨["line"], [], [[.number 1, .number 0], [.number 2, .number 0]], [], true, 7⟩,
      ⟨["line"], [], [[.number 3, .number 0], [.number 4, .number 0]], [.crossRails ["trail"]],
        true, 10⟩,
      ⟨["line"], [], [[.number 5, .number 0], [.number 6, .number 0]], [.coRail "lead"],
        true, 13⟩]

/-- Two ribs. A row of the first one repeats an earlier row, and another one lies beside the plane
of the rail. -/
def ribs : List Action :=
  [rib 0 [(0, 0), (100, 0), (0, 5), (0, 0)], rib 50 [(0, 0), (50, 0)]]

def ribRails : CrossRails where
  folder := ["wing", "rails"]
  namePrefix := none
  railNames := ["lead"]
  profileNormal := .z
  railNormal := .y
  offsets := [0]
  segmentWord := "spline"
  line := 16

theorem points_exact_ribs :
    ribRails.profileNormal ≠ ribRails.railNormal ∧
    ((ribRails.points ribs "lead" 0).map fun p => (p.x, p.y, p.z)) =
      [(0, 0, 0), (100, 0, 0), (0, 0, 50), (50, 0, 50)] ∧
    (∃ places, AreFirst (ribRails.Gives "lead" 0) (sites ribs) places
      (ribRails.points ribs "lead" 0)) ∧
    ((ribRails.points ribs "lead" 0).Pairwise fun p q => p.same q = false) ∧
    (∀ point ∈ ribRails.points ribs "lead" 0,
      ∃ site ∈ sites ribs, ribRails.Gives "lead" 0 site point) ∧
    ∀ site ∈ sites ribs, ∀ point, ribRails.Gives "lead" 0 site point →
      point ∈ ribRails.points ribs "lead" 0 ∨
        ∃ kept ∈ ribRails.points ribs "lead" 0, kept.same point = true :=
  ⟨by decide, by decide +kernel, points_exact (by decide) ribs "lead" 0⟩

end CrossRails

end CadTimeline
