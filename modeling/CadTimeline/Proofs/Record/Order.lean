import CadTimeline.Proofs.Record.ReadBack

/-!
# The order of the lines of a body

Which slot the line of a record filled, and in which order the slots of an ordered schema
are filled.
-/

namespace CadTimeline.Body

variable {schema : Schema} {scope : Scope} {progress later : Progress} {line : Line}

/-! ## Slots of records -/

/-- The record comes from a line of this slot. -/
def FromSlot (schema : Schema) (scope : Scope) (record : Record) (index : Nat) : Prop :=
  ∃ slot kind line first, (slot, index) ∈ schema.slots.zipIdx ∧ kind ∈ slot.kinds ∧
    Record.OfLine kind scope line first ∧ record.key = first.key ∧
    record.values = first.values ∧ record.keyShown = first.keyShown

theorem FromSlot.exists_kind {record : Record} {index : Nat}
    (h : FromSlot schema scope record index) :
    ∃ slot kind, (slot, index) ∈ schema.slots.zipIdx ∧ kind ∈ slot.kinds ∧
      record.key = kind.key ∧ record.keyShown = kind.keyShown := by
  obtain ⟨slot, kind, line, first, hslot, hkind, hof, hkey, -, hshown⟩ := h
  refine ⟨slot, kind, hslot, hkind, ?_, ?_⟩
  · rw [hkey]
    cases hof <;> rfl
  · rw [hshown]
    cases hof <;> rfl

/-- The records of lines, each from the slot that its line filled, and before them at most
the record without a key. -/
def FromSlots (schema : Schema) (scope : Scope) (progress : Progress) : Prop :=
  ∃ owners keyless, progress.owners = owners ++ keyless ∧
    List.Forall₂ (fun owner => FromSlot schema scope owner.record) owners progress.filled ∧
    (∀ owner ∈ keyless, owner.record.head = []) ∧ (schema.leadingRows = none → keyless = [])

theorem fromSlots_start (schema : Schema) (scope : Scope) (header : Nat) :
    FromSlots schema scope (start schema header) := by
  refine ⟨[], (start schema header).owners, rfl, ?_, ?_, ?_⟩
  · unfold start
    split
    · exact .nil
    · exact .nil
  · unfold start
    split
    · exact List.forall_mem_nil _
    · exact List.forall_mem_singleton.mpr rfl
  · intro hnone
    simp only [start, hnone]

theorem Step.fromSlots (hreadable : schema.IsReadable)
    (h : Step schema scope progress line later) (hslots : FromSlots schema scope progress) :
    FromSlots schema scope later := by
  obtain ⟨owners, keyless, howners, hfrom, hkeyless, hnone⟩ := hslots
  cases h with
  | @opened found record hfound hlast hslot hrecord =>
      have hkind := Schema.kind_mem_of_recognise? hfound
      have hof := Record.ofLine_eq_ok (hreadable.tags _ hkind) hrecord
      obtain ⟨hmem, hfind⟩ := Schema.slot_of_recognise? hfound
      refine ⟨⟨record, found.kind.rows⟩ :: owners, keyless, ?_, .cons ?_ hfrom, hkeyless, hnone⟩
      · rw [howners, List.cons_append]
      · exact ⟨found.slot, found.kind, line, record, hmem, List.mem_of_find?_eq_some hfind, hof,
          rfl, rfl, rfl⟩
  | @row record rows earlier row _ hlast _ =>
      rw [howners] at hlast
      cases owners with
      | nil =>
          rw [List.nil_append] at hlast
          subst hlast
          rw [List.forall_mem_cons] at hkeyless
          refine ⟨[], ⟨record.addRow row, some rows⟩ :: earlier, rfl, hfrom, ?_, ?_⟩
          · exact List.forall_mem_cons.mpr hkeyless
          · intro hleading
            exact absurd (hnone hleading) (List.cons_ne_nil _ _)
      | cons owner owners =>
          cases hlast
          obtain ⟨index, filled, hfirst, hrest, hfilled⟩ := List.forall₂_cons_left_iff.mp hfrom
          refine ⟨⟨record.addRow row, some rows⟩ :: owners, keyless, rfl, ?_, hkeyless, hnone⟩
          rw [hfilled]
          exact .cons hfirst hrest

/-- A slot is filled when it may be filled once more, and none after it has been filled. -/
theorem checkSlot_eq_ok {filled : List Nat} {found : Schema.Recognised} :
    checkSlot schema filled found = .ok () ↔
      (found.index ∈ filled → found.slot.occurs.repeatable = true) ∧
        (schema.ordered = true → ∀ last ∈ filled.head?, last ≤ found.index) := by
  unfold checkSlot
  split
  · rename_i hfull
    simp only [Bool.and_eq_true, List.contains_iff_mem, Bool.not_eq_true'] at hfull
    simp [hfull.1, hfull.2]
  · rename_i hfree
    have hrepeat : found.index ∈ filled → found.slot.occurs.repeatable = true := by
      simpa using hfree
    split
    · split
      · rename_i hmisplaced
        simp only [Bool.and_eq_true, decide_eq_true_eq] at hmisplaced
        simp [hmisplaced.1, hmisplaced.2]
      · rename_i hplaced
        simp only [Bool.and_eq_true, decide_eq_true_eq, not_and, Nat.not_lt] at hplaced
        simpa using And.intro hrepeat hplaced
    · simp

/-- Where indices never decrease, the last one is the one to compare with. -/
theorem pairwise_cons_iff {index : Nat} {filled : List Nat} :
    (index :: filled).Pairwise (fun a b => b ≤ a) ↔
      (∀ last ∈ filled.head?, last ≤ index) ∧ filled.Pairwise fun a b => b ≤ a := by
  rw [List.pairwise_cons]
  refine and_congr_left fun hpairwise => ?_
  cases filled with
  | nil => simp
  | cons last before =>
      rw [List.pairwise_cons] at hpairwise
      simp only [List.mem_cons, forall_eq_or_imp, List.head?_cons, Option.mem_some_iff,
        forall_eq', and_iff_left_iff_imp]
      intro hlast other hother
      exact (hpairwise.1 other hother).trans hlast

theorem pairwise_filled (hordered : schema.ordered = true) {start : Progress}
    (hstart : start.filled.Pairwise fun a b => b ≤ a) {lines : List Line}
    (h : lines.foldlM (step schema scope) start = .ok later) :
    later.filled.Pairwise fun a b => b ≤ a := by
  refine invariant_of_foldlM (motive := fun later => later.filled.Pairwise fun a b => b ≤ a)
    hstart ?_ h
  intro progress line later hone hpairwise
  cases hone with
  | @opened found record hfound hlast hslot hrecord =>
      exact pairwise_cons_iff.mpr ⟨(checkSlot_eq_ok.mp hslot).2 hordered, hpairwise⟩
  | row => exact hpairwise

/-! ## The first slot -/

theorem eq_append_zero {indices : List Nat} (h : indices.Pairwise fun a b => b ≤ a)
    (hcount : indices.count 0 = 1) : ∃ before, indices = before ++ [0] ∧ 0 ∉ before := by
  rcases indices.eq_nil_or_concat with rfl | ⟨before, last, rfl⟩
  · contradiction
  · rw [List.concat_eq_append] at h hcount ⊢
    rw [List.pairwise_append] at h
    rw [List.count_append, List.count_singleton] at hcount
    by_cases hlast : last = 0
    · subst hlast
      rw [beq_self_eq_true, if_pos rfl] at hcount
      exact ⟨before, rfl, List.count_eq_zero.mp (Nat.succ.inj hcount)⟩
    · have hzero : before.count 0 = 0 := by
        refine List.count_eq_zero.mpr fun hmem => hlast ?_
        exact Nat.le_zero.mp (h.2.2 0 hmem last List.mem_cons_self)
      rw [hzero, if_neg (by simpa using hlast)] at hcount
      omega

theorem checkSlots_eq_ok {filled : List Nat} : checkSlots schema filled = .ok () ↔
    ∀ entry ∈ schema.slots.zipIdx, entry.1.occurs.allows (filled.count entry.2) = true := by
  unfold checkSlots
  split
  · rename_i slot index hfind
    have hnot := List.find?_some hfind
    have hmem := List.mem_of_find?_eq_some hfind
    constructor
    · intro h
      contradiction
    · intro h
      have hallows := h _ hmem
      simp only [Bool.not_eq_true'] at hnot hallows
      rw [hnot] at hallows
      contradiction
  · rename_i hnone
    simpa using List.find?_eq_none.mp hnone

theorem fromSlots_of_foldlM (hreadable : schema.IsReadable) {header : Nat} {lines : List Line}
    (h : lines.foldlM (step schema scope) (start schema header) = .ok later) :
    FromSlots schema scope later :=
  invariant_of_foldlM (fromSlots_start schema scope header)
    (fun hone hslots => hone.fromSlots hreadable hslots) h

/-- Where the first slot must be filled once and the slots come in order, the first record
is the one of the first slot. -/
theorem exists_first (hreadable : schema.IsReadable) (hordered : schema.ordered = true)
    (hleading : schema.leadingRows = none) {slot : Slot}
    (hslot : (slot, 0) ∈ schema.slots.zipIdx) (honce : slot.occurs = .once) {block : Block}
    {records : List Record} (h : read schema scope block = .ok records) :
    ∃ first rest, records = first :: rest ∧ FromSlot schema scope first 0 ∧
      ∀ record ∈ rest, ∃ index, index ≠ 0 ∧ FromSlot schema scope record index := by
  simp only [read, bind_eq_ok, mapError_eq_ok, pure_eq_ok] at h
  obtain ⟨progress, hprogress, _, -, _, hslots, rfl⟩ := h
  obtain ⟨owners, keyless, howners, hfrom, -, hnone⟩ := fromSlots_of_foldlM hreadable hprogress
  rw [hnone hleading, List.append_nil] at howners
  have hallows := checkSlots_eq_ok.mp hslots _ hslot
  rw [honce, Occurs.allows, beq_iff_eq] at hallows
  have hstart : (start schema block.number).filled.Pairwise fun a b => b ≤ a := by
    rw [start, hleading]
    exact .nil
  obtain ⟨before, hfilled, hbefore⟩ :=
    eq_append_zero (pairwise_filled hordered hstart hprogress) hallows
  rw [hfilled, ← List.forall₂_reverse_iff, List.reverse_append, List.reverse_singleton,
    List.singleton_append, List.forall₂_cons_right_iff] at hfrom
  obtain ⟨first, rest, hfirst, hrest, hreverse⟩ := hfrom
  refine ⟨first.record, rest.map Owner.record, ?_, hfirst, ?_⟩
  · rw [howners, ← List.map_reverse, hreverse, List.map_cons]
  · intro record hrecord
    obtain ⟨owner, howner, rfl⟩ := List.mem_map.mp hrecord
    obtain ⟨index, hindex, hfromSlot⟩ := exists_of_mem_forall₂ hrest howner
    refine ⟨index, ?_, hfromSlot⟩
    rintro rfl
    exact hbefore (List.mem_reverse.mp hindex)

/-- Every record has no line, or it is from a slot. -/
theorem fromSlot_of_mem (hreadable : schema.IsReadable) {block : Block} {records : List Record}
    (h : read schema scope block = .ok records) {record : Record} (hrecord : record ∈ records) :
    record.head = [] ∨ ∃ index, FromSlot schema scope record index := by
  obtain ⟨progress, hprogress, rfl⟩ := read_eq_ok h
  obtain ⟨owners, keyless, howners, hfrom, hkeyless, -⟩ := fromSlots_of_foldlM hreadable hprogress
  rw [Progress.records, List.mem_reverse, List.mem_map] at hrecord
  obtain ⟨owner, howner, rfl⟩ := hrecord
  rcases List.mem_append.mp (howners ▸ howner) with howner | howner
  · obtain ⟨index, -, hfromSlot⟩ := exists_of_mem_forall₂ hfrom howner
    exact .inr ⟨index, hfromSlot⟩
  · exact .inl (hkeyless owner howner)

end CadTimeline.Body
