import CadTimeline.Proofs.Record.Value
import CadTimeline.Record.Basic

/-!
# Records as texts

The rows of texts that a record stands for: its own line, the key with the values, and
its data rows.
-/

namespace CadTimeline

namespace Record

/-- The texts of the line of a record; a record without a key has no line. -/
def head (record : Record) : List String :=
  record.key ++ record.values.map Value.display

def rowTexts (record : Record) : List (List String) :=
  record.rows.map fun row => row.map Value.display

/-- The lines of a record, whether its key is shown or not. -/
def texts (record : Record) : List (List String) :=
  if record.head.isEmpty then record.rowTexts else record.head :: record.rowTexts

theorem rowTexts_subset (record : Record) : record.rowTexts ⊆ record.texts := by
  unfold texts
  split
  · exact List.Subset.refl _
  · exact List.subset_cons_self _ _

theorem rowTexts_addRow (record : Record) (row : List Value) :
    (record.addRow row).rowTexts = record.rowTexts ++ [row.map Value.display] :=
  List.map_append

theorem texts_addRow (record : Record) (row : List Value) :
    (record.addRow row).texts = record.texts ++ [row.map Value.display] := by
  have hhead : (record.addRow row).head = record.head := rfl
  unfold texts
  rw [hhead, rowTexts_addRow]
  split
  · rfl
  · rfl

/-- Two records have the same key, values and rows. -/
structure Agrees (record other : Record) : Prop where
  key : record.key = other.key
  keyShown : record.keyShown = other.keyShown
  values : List.Forall₂ Value.Agrees record.values other.values
  rows : List.Forall₂ (List.Forall₂ Value.Agrees) record.rows other.rows

variable {record other : Record}

theorem map_eq_of_forall₂ {α β γ : Type} {R : α → β → Prop} {f : α → γ} {g : β → γ}
    (hR : ∀ x y, R x y → f x = g y) {xs : List α} {ys : List β} (h : List.Forall₂ R xs ys) :
    xs.map f = ys.map g := by
  induction h with
  | nil => rfl
  | cons hxy _ ih => rw [List.map_cons, List.map_cons, hR _ _ hxy, ih]

theorem map_display_eq {values later : List Value} (h : List.Forall₂ Value.Agrees values later) :
    values.map Value.display = later.map Value.display :=
  map_eq_of_forall₂ (R := Value.Agrees) (fun _ _ hv => hv.display_eq) h

namespace Agrees

theorem head_eq (h : record.Agrees other) : record.head = other.head := by
  rw [head, head, h.key, map_display_eq h.values]

theorem rowTexts_eq (h : record.Agrees other) : record.rowTexts = other.rowTexts :=
  map_eq_of_forall₂ (R := List.Forall₂ Value.Agrees) (fun _ _ hrow => map_display_eq hrow) h.rows

/-- Records that agree stand for the same lines. -/
theorem texts_eq (h : record.Agrees other) : record.texts = other.texts := by
  rw [texts, texts, h.head_eq, h.rowTexts_eq]

theorem addRow (h : record.Agrees other) {row later : List Value}
    (hrow : List.Forall₂ Value.Agrees row later) :
    (record.addRow row).Agrees (other.addRow later) where
  key := h.key
  keyShown := h.keyShown
  values := h.values
  rows := List.rel_append h.rows (.cons hrow .nil)

end Agrees

end Record

end CadTimeline
