import CadTimeline.Proofs.Output.FileName
import CadTimeline.Proofs.Parameter.Substitution

/-!
# Segments of a path

The segments that a folder or a component path is split into, and the path that is put
together of them again. It is split into the same segments, unless it looks absolute.
-/

namespace CadTimeline.Segments

open Text Substitution

/-- A checked segment of a path. -/
structure IsSegment (name : String) : Prop where
  ordinary : Path.IsOrdinary name
  backslash : '\\' ∉ name.toList
  trimmed : trim name.toList = name.toList

variable {what path : String} {names : List String}

theorem mem_split (h : split what path = .ok names) {name : String} (hname : name ∈ names) :
    ∃ segment ∈ path.toList.splitOn '/', name = String.ofList (trim segment) ∧
      checkSegment what path (trim segment) = .ok (some name) := by
  unfold split at h
  split at h
  · contradiction
  · simp only [bind_eq_ok, pure_eq_ok] at h
    obtain ⟨checked, hchecked, rfl⟩ := h
    obtain ⟨entry, hentry, hid⟩ := List.mem_filterMap.mp hname
    rw [id_eq] at hid
    obtain ⟨segment, hsegment, hcheck⟩ := exists_of_mem_mapM hchecked hentry
    rw [hid] at hcheck
    exact ⟨segment, hsegment, eq_of_checkSegment hcheck, hcheck⟩

/-- What a path is split into are checked segments. -/
theorem isSegment_of_mem_split (h : split what path = .ok names) :
    ∀ name ∈ names, IsSegment name := by
  intro name hname
  obtain ⟨segment, -, heq, hcheck⟩ := mem_split h hname
  refine ⟨isOrdinary_of_mem_split h name hname, ?_, ?_⟩
  · rw [heq, String.toList_ofList]
    unfold checkSegment at hcheck
    split at hcheck
    · cases hcheck
    · split at hcheck
      · contradiction
      · split at hcheck
        · contradiction
        · rename_i hbackslash
          exact fun hmem => hbackslash (List.contains_iff_mem.mpr hmem)
  · rw [heq, String.toList_ofList, trim_trim]

/-- The segments of a path are parts of it. -/
theorem isInfix_of_mem_split (h : split what path = .ok names) :
    ∀ name ∈ names, name.toList <:+: path.toList := by
  intro name hname
  obtain ⟨segment, hsegment, heq, -⟩ := mem_split h hname
  rw [heq, String.toList_ofList]
  exact (trim_isInfix segment).trans (isInfix_of_mem_splitOn hsegment)

/-! ## The path of segments -/

/-- The path with these segments. -/
def joined (names : List String) : String :=
  String.intercalate "/" names

theorem toList_joined (names : List String) :
    (joined names).toList = ['/'].intercalate (names.map String.toList) := by
  rw [joined, String.toList_intercalate]
  rfl

theorem splitOn_joined (hne : names ≠ []) (h : ∀ name ∈ names, '/' ∉ name.toList) :
    (joined names).toList.splitOn '/' = names.map String.toList := by
  rw [toList_joined, List.splitOn_intercalate]
  · rw [List.forall_mem_map]
    exact h
  · exact mt List.map_eq_nil_iff.mp hne

/-- What a segment of a path that is put together contributes. -/
def kept (name : String) : Option String :=
  if name = "." then none else some name

theorem filterMap_kept (h : ∀ name ∈ names, IsSegment name) : names.filterMap kept = names := by
  have hkept : ∀ name ∈ names, kept name = some name :=
    fun name hname => if_neg (h name hname).ordinary.here
  rw [List.filterMap_congr hkept, List.filterMap_some]

theorem checkSegment_toList {name : String} (h : name = "." ∨ IsSegment name) :
    checkSegment what path (trim name.toList) = .ok (kept name) := by
  rcases h with rfl | h
  · rfl
  · have hhere : name.toList ≠ ['.'] := fun hn => h.ordinary.here (String.toList_inj.mp hn)
    have hempty : ¬(name.toList = [] ∨ name.toList = ['.', '.']) := by
      rintro (hn | hn)
      · exact h.ordinary.empty (String.toList_inj.mp hn)
      · exact h.ordinary.up (String.toList_inj.mp hn)
    have hbackslash : ¬name.toList.contains '\\' = true :=
      fun hn => h.backslash (List.contains_iff_mem.mp hn)
    rw [h.trimmed, checkSegment, if_neg hhere, if_neg hempty, if_neg hbackslash, kept,
      if_neg h.ordinary.here, String.ofList_toList]

/-- A path of checked segments is split into them, but for those that are `.`, exactly when it
does not look absolute. -/
theorem split_joined_eq_ok_iff (hne : names ≠ []) (h : ∀ name ∈ names, name = "." ∨ IsSegment name)
    {others : List String} :
    split what (joined names) = .ok others ↔
      looksAbsolute (joined names).toList = false ∧ others = names.filterMap kept := by
  have hslash : ∀ name ∈ names, '/' ∉ name.toList := by
    intro name hname
    rcases h name hname with rfl | hsegment
    · decide
    · exact hsegment.ordinary.slash
  have hchecked : ((joined names).toList.splitOn '/').mapM
      (fun segment => checkSegment what (joined names) (trim segment)) = .ok (names.map kept) := by
    rw [splitOn_joined hne hslash, mapM_eq_ok, List.forall₂_map_left_iff,
      List.forall₂_map_right_iff, List.forall₂_same]
    exact fun name hname => checkSegment_toList (h name hname)
  have hfilter : (names.map kept).filterMap id = names.filterMap kept := List.filterMap_map
  rw [split]
  cases habsolute : looksAbsolute (joined names).toList with
  | true => simp [throw, throwThe, MonadExceptOf.throw, bind, Except.bind]
  | false =>
      simp only [Bool.false_eq_true, if_false, bind_eq_ok, pure_eq_ok, true_and, hchecked]
      simp only [Except.ok.injEq, exists_eq_left', hfilter]
      exact eq_comm

theorem hasNoReference_joined (h : ∀ name ∈ names, HasNoReference name.toList) :
    HasNoReference (joined names).toList := by
  rw [toList_joined]
  induction names with
  | nil => exact hasNoReference_nil
  | cons name names ih =>
      rw [List.forall_mem_cons] at h
      cases names with
      | nil =>
          rw [List.map_singleton, List.intercalate_singleton]
          exact h.1
      | cons next names =>
          rw [List.map_cons, List.map_cons, List.intercalate_cons_cons, List.append_assoc]
          exact h.1.append_cons (by decide) (by decide) (ih h.2)

theorem mem_joined {c : Char} (h : c ∈ (joined names).toList) :
    c = '/' ∨ ∃ name ∈ names, c ∈ name.toList := by
  rw [toList_joined] at h
  induction names with
  | nil => exact absurd h List.not_mem_nil
  | cons name names ih =>
      cases names with
      | nil =>
          rw [List.map_singleton, List.intercalate_singleton] at h
          exact .inr ⟨name, List.mem_cons_self, h⟩
      | cons next names =>
          rw [List.map_cons, List.map_cons, List.intercalate_cons_cons, List.append_assoc,
            List.mem_append, List.mem_append, List.mem_singleton] at h
          rcases h with h | h | h
          · exact .inr ⟨name, List.mem_cons_self, h⟩
          · exact .inl h
          · obtain hslash | ⟨other, hother, hmem⟩ := ih h
            · exact .inl hslash
            · exact .inr ⟨other, List.mem_cons_of_mem _ hother, hmem⟩

/-! ## Splitting once more -/

/-- The text starts like a path with a drive. -/
def HasDrive (text : List Char) : Prop :=
  text[1]? = some ':'

instance (text : List Char) : Decidable (HasDrive text) :=
  inferInstanceAs (Decidable (_ = _))

theorem looksAbsolute_eq_false_iff {text : List Char} :
    looksAbsolute text = false ↔
      text.head? ≠ some '/' ∧ text.head? ≠ some '\\' ∧ ¬HasDrive text := by
  unfold looksAbsolute HasDrive
  split
  · simp
  · simp
  · simp
  · rename_i hslash hbackslash hdrive
    refine iff_of_true rfl ⟨fun h => ?_, fun h => ?_, fun h => ?_⟩
    · obtain ⟨rest, htext⟩ := List.head?_eq_some_iff.mp h
      exact hslash rest htext
    · obtain ⟨rest, htext⟩ := List.head?_eq_some_iff.mp h
      exact hbackslash rest htext
    · rcases text with _ | ⟨c, _ | ⟨d, rest⟩⟩
      · contradiction
      · contradiction
      · exact hdrive c rest (by rw [Option.some.inj h])

/-- A path of segments starts with the first of them and ends there or goes on with `/`. -/
theorem exists_toList_joined_cons (name : String) (names : List String) :
    ∃ rest, (joined (name :: names)).toList = name.toList ++ rest ∧ ∀ c ∈ rest.head?, c = '/' := by
  rw [toList_joined]
  cases names with
  | nil => exact ⟨[], by simp, nofun⟩
  | cons next names =>
      rw [List.map_cons, List.map_cons, List.intercalate_cons_cons, List.append_assoc]
      exact ⟨_, rfl, fun c hc => (Option.some.inj hc).symm⟩

/-- A path of checked segments never starts with a separator, and its second character is that of
the first segment, or a `/`. -/
theorem IsSegment.start_joined {first : String} (h : IsSegment first) (later : List String) :
    (joined (first :: later)).toList.head? ≠ some '/' ∧
      (joined (first :: later)).toList.head? ≠ some '\\' ∧
      (HasDrive (joined (first :: later)).toList ↔ HasDrive first.toList) := by
  obtain ⟨rest, hjoined, hrest⟩ := exists_toList_joined_cons first later
  obtain ⟨c, cs, hfirst⟩ :=
    List.exists_cons_of_ne_nil (mt String.toList_eq_nil_iff.mp h.ordinary.empty)
  have hslash := h.ordinary.slash
  have hbackslash := h.backslash
  rw [hfirst, List.mem_cons, not_or] at hslash hbackslash
  rw [hjoined, hfirst, List.cons_append, List.head?_cons, ne_eq, ne_eq, Option.some_inj,
    Option.some_inj]
  refine ⟨hslash.1 ∘ Eq.symm, hbackslash.1 ∘ Eq.symm, ?_⟩
  unfold HasDrive
  cases cs with
  | cons d cs => rfl
  | nil =>
      cases rest with
      | nil => rfl
      | cons d rest =>
          have hd : d = '/' := hrest d rfl
          simp [hd]

theorem looksAbsolute_of_split (h : split what path = .ok names) :
    looksAbsolute path.toList = false := by
  unfold split at h
  split at h
  · contradiction
  · rename_i hrelative
    exact Bool.eq_false_iff.mpr hrelative

/-- What a path is split into are checked segments. Put together they make a path without a
separator at its start, and that path is split into them again exactly when the first segment has
no drive; it has none when nothing in front of it was dropped. -/
theorem split_joined_iff (h : split what path = .ok names) (hne : names ≠ []) (role : String) :
    (∀ name ∈ names, IsSegment name) ∧
      (joined names).toList.head? ≠ some '/' ∧ (joined names).toList.head? ≠ some '\\' ∧
      (looksAbsolute (joined names).toList = false ↔
        ∀ first ∈ names.head?, ¬HasDrive first.toList) ∧
      (split role (joined names) = .ok names ↔ ∀ first ∈ names.head?, ¬HasDrive first.toList) ∧
      ((∀ first ∈ names.head?, first.toList <+: path.toList) →
        split role (joined names) = .ok names) := by
  have hsegments := isSegment_of_mem_split h
  have hsplit : split role (joined names) = .ok names ↔
      looksAbsolute (joined names).toList = false := by
    rw [split_joined_eq_ok_iff hne fun name hname => .inr (hsegments name hname),
      filterMap_kept hsegments, and_iff_left rfl]
  rw [hsplit, looksAbsolute_eq_false_iff]
  obtain ⟨first, later, rfl⟩ := List.exists_cons_of_ne_nil hne
  obtain ⟨hslash, hbackslash, hdrive⟩ :=
    (hsegments first List.mem_cons_self).start_joined later
  simp only [List.head?_cons, Option.mem_some_iff, forall_eq', hdrive, ne_eq, hslash, hbackslash,
    not_false_iff, true_and]
  refine ⟨hsegments, fun hprefix hcolon => ?_⟩
  -- Then the path itself has a drive, and is refused.
  obtain ⟨hlong, hsecond⟩ := List.getElem?_eq_some_iff.mp hcolon
  have hpath : HasDrive path.toList :=
    (List.prefix_iff_getElem?.mp hprefix 1 hlong).trans (congrArg some hsecond)
  exact (looksAbsolute_eq_false_iff.mp (looksAbsolute_of_split h)).2.2 hpath

/-- A colon that is the second character of a later segment does not matter. -/
theorem split_joined_wing : ∃ names, split "folder" " wing /./b:c/." = .ok names ∧ names ≠ [] ∧
    split "folder" (joined names) = .ok names := by
  have hsplit : split "folder" " wing /./b:c/." = .ok ["wing", "b:c"] := by rfl
  refine ⟨_, hsplit, List.cons_ne_nil _ _, ?_⟩
  refine (split_joined_iff hsplit (List.cons_ne_nil _ _) "folder").2.2.2.2.1.mpr ?_
  rintro _ ⟨⟩
  decide

/-- A drive behind a `.` is let through, and the path of what is left is refused. -/
theorem exists_joined_refused : ∃ names, split "folder" "./c:d" = .ok names ∧ names ≠ [] ∧
    looksAbsolute (joined names).toList = true ∧ ∀ role, split role (joined names) ≠ .ok names := by
  have hsplit : split "folder" "./c:d" = .ok ["c:d"] := by rfl
  refine ⟨_, hsplit, List.cons_ne_nil _ _, by decide, fun role hrole => ?_⟩
  have hrelative := looksAbsolute_of_split hrole
  contradiction

end CadTimeline.Segments
