import CadTimeline.Proofs.Expr.Grammar
import Mathlib.Data.List.Basic

/-!
# Grouping by binding powers

The tree that binding powers give a sequence of signs, operands and operators is the
one of the grammar in levels: sums of terms of signed factors of powers.
-/

namespace CadTimeline

namespace BinaryOp

theorem rightBound_of_lt {op : BinaryOp} (h : op.bindingPower < 50) :
    op.rightBound = op.bindingPower := by
  cases op with
  | pow => exact absurd h (by decide)
  | _ => rfl

theorem bindingPower_cases (op : BinaryOp) :
    op.bindingPower = 20 ∨ op.bindingPower = 30 ∨ op = .pow := by
  cases op <;> simp [bindingPower]

end BinaryOp

namespace Part

/-- The trees of a sequence of parts, level by level. -/
inductive Grouped : Phrase → List Part → Expr → Prop
  | sum {op : BinaryOp} (hop : op.bindingPower = 20) {left right : List Part} {a b : Expr}
      (ha : Grouped .sum left a) (hb : Grouped .term right b) :
      Grouped .sum (left ++ .operator op :: right) (.binary op a b)
  | term {parts : List Part} {e : Expr} (h : Grouped .term parts e) : Grouped .sum parts e
  | product {op : BinaryOp} (hop : op.bindingPower = 30) {left right : List Part} {a b : Expr}
      (ha : Grouped .term left a) (hb : Grouped .unary right b) :
      Grouped .term (left ++ .operator op :: right) (.binary op a b)
  | unary {parts : List Part} {e : Expr} (h : Grouped .unary parts e) : Grouped .term parts e
  | sign {negative : Bool} {parts : List Part} {e : Expr} (h : Grouped .unary parts e) :
      Grouped .unary (.sign negative :: parts) (signed negative e)
  | power {parts : List Part} {e : Expr} (h : Grouped .power parts e) : Grouped .unary parts e
  | exponent {base : Expr} {parts : List Part} {e : Expr} (h : Grouped .unary parts e) :
      Grouped .power (.operand base :: .operator .pow :: parts) (.binary .pow base e)
  | primary {parts : List Part} {e : Expr} (h : Grouped .primary parts e) : Grouped .power parts e
  | operand {value : Expr} : Grouped .primary [.operand value] value

/-! ## Runs without a depth -/

/-- What one of the functions that group parts is asked for. -/
inductive Task where
  | climb (bound : Nat) (parts : List Part)
  | start (parts : List Part)
  | extend (bound : Nat) (left : Expr) (parts : List Part)

namespace Task

def parts : Task → List Part
  | climb _ parts => parts
  | start parts => parts
  | extend _ _ parts => parts

def result (depth : Nat) : Task → Option (Expr × List Part)
  | climb bound parts => Part.climb depth bound parts
  | start parts => Part.start depth parts
  | extend bound left parts => Part.extend depth bound left parts

/-- A depth that is enough. -/
def depth : Task → Nat
  | climb _ parts => 2 * parts.length + 2
  | start parts => 2 * parts.length + 1
  | extend _ _ parts => 2 * parts.length + 1

end Task

/-- No operator that exceeds the bound comes next. -/
def Calm (bound : Nat) (parts : List Part) : Prop :=
  ∀ op rest, parts = .operator op :: rest → op.bindingPower ≤ bound

/-- A task ends with this tree, and with these parts left over. -/
inductive Runs : Task → Expr → List Part → Prop
  | climb {bound : Nat} {parts rest rest' : List Part} {left e : Expr}
      (hstart : Runs (.start parts) left rest) (hextend : Runs (.extend bound left rest) e rest') :
      Runs (.climb bound parts) e rest'
  | sign {negative : Bool} {parts rest : List Part} {inner : Expr}
      (h : Runs (.climb signBound parts) inner rest) :
      Runs (.start (.sign negative :: parts)) (signed negative inner) rest
  | operand {value : Expr} {parts : List Part} : Runs (.start (.operand value :: parts)) value parts
  | stop {bound : Nat} {left : Expr} {parts : List Part} (h : Calm bound parts) :
      Runs (.extend bound left parts) left parts
  | operator {bound : Nat} {op : BinaryOp} {left right e : Expr} {parts rest rest' : List Part}
      (hop : bound < op.bindingPower) (hright : Runs (.climb op.rightBound parts) right rest)
      (hextend : Runs (.extend bound (.binary op left right) rest) e rest') :
      Runs (.extend bound left (.operator op :: parts)) e rest'

theorem runs_of_result {depth : Nat} {task : Task} {e : Expr} {rest : List Part}
    (h : task.result depth = some (e, rest)) : Runs task e rest := by
  induction depth generalizing task e rest with
  | zero => cases task <;> simp [Task.result, Part.climb, Part.start, Part.extend] at h
  | succ depth ih =>
      cases task with
      | climb bound parts =>
          simp only [Task.result, Part.climb, Option.bind_eq_bind, Option.bind_eq_some_iff] at h
          obtain ⟨⟨left, middle⟩, hstart, hextend⟩ := h
          exact .climb (@ih (.start _) _ _ hstart) (@ih (.extend _ _ _) _ _ hextend)
      | start parts =>
          simp only [Task.result] at h
          cases parts with
          | nil => simp [Part.start] at h
          | cons part parts =>
              cases part with
              | sign negative =>
                  simp only [Part.start, Option.bind_eq_bind, Option.bind_eq_some_iff,
                    Option.some.injEq, Prod.mk.injEq] at h
                  obtain ⟨⟨inner, middle⟩, hclimb, rfl, rfl⟩ := h
                  exact .sign (@ih (.climb _ _) _ _ hclimb)
              | operand value =>
                  simp only [Part.start, Option.some.injEq, Prod.mk.injEq] at h
                  obtain ⟨rfl, rfl⟩ := h
                  exact .operand
              | operator op => simp [Part.start] at h
      | extend bound left parts =>
          simp only [Task.result] at h
          unfold Part.extend at h
          split at h
          · contradiction
          · rename_i op parts hdepth
            cases hdepth
            split at h
            · rename_i hop
              simp only [Option.bind_eq_bind, Option.bind_eq_some_iff] at h
              obtain ⟨⟨right, middle⟩, hclimb, hextend⟩ := h
              exact .operator hop (@ih (.climb _ _) _ _ hclimb) (@ih (.extend _ _ _) _ _ hextend)
            · rename_i hop
              cases h
              refine .stop fun op more heq => ?_
              cases heq
              exact Nat.not_lt.mp hop
          · rename_i hne
            cases h
            exact .stop fun op more heq => absurd heq (hne op more)

theorem Runs.length_le {task : Task} {e : Expr} {rest : List Part} (h : Runs task e rest) :
    rest.length ≤ task.parts.length := by
  induction h with
  | climb _ _ hs he => exact Nat.le_trans he hs
  | sign _ ih => exact Nat.le_succ_of_le ih
  | operand => exact Nat.le_succ _
  | stop => exact Nat.le_refl _
  | operator _ _ _ hr he => exact Nat.le_succ_of_le (Nat.le_trans he hr)

/-- Enough depth finds the tree of a run. -/
theorem Runs.result {task : Task} {e : Expr} {rest : List Part} (h : Runs task e rest) {depth : Nat}
    (hd : task.depth ≤ depth) : task.result depth = some (e, rest) := by
  induction h generalizing depth with
  | climb hstart _ hs he =>
      simp only [Task.depth] at hd hs he
      obtain ⟨depth, rfl⟩ : ∃ d, depth = d + 1 := ⟨depth - 1, by omega⟩
      have hlength := hstart.length_le
      simp only [Task.parts] at hlength
      simp only [Task.result, Part.climb] at hs he ⊢
      rw [hs (by omega)]
      exact he (by omega)
  | sign _ ih =>
      simp only [Task.depth, List.length_cons] at hd ih
      obtain ⟨depth, rfl⟩ : ∃ d, depth = d + 1 := ⟨depth - 1, by omega⟩
      simp only [Task.result, Part.start] at ih ⊢
      rw [ih (by omega)]
      rfl
  | operand =>
      simp only [Task.depth, List.length_cons] at hd
      obtain ⟨depth, rfl⟩ : ∃ d, depth = d + 1 := ⟨depth - 1, by omega⟩
      rfl
  | @stop bound left parts hcalm =>
      simp only [Task.depth] at hd
      obtain ⟨depth, rfl⟩ : ∃ d, depth = d + 1 := ⟨depth - 1, by omega⟩
      simp only [Task.result]
      unfold Part.extend
      split
      · contradiction
      · rename_i op parts hdepth
        rw [if_neg (Nat.not_lt.mpr (hcalm op parts rfl))]
      · rfl
  | operator hop hright _ hr he =>
      simp only [Task.depth, List.length_cons] at hd hr he
      obtain ⟨depth, rfl⟩ : ∃ d, depth = d + 1 := ⟨depth - 1, by omega⟩
      have hlength := hright.length_le
      simp only [Task.parts] at hlength
      simp only [Task.result, Part.extend, if_pos hop] at hr he ⊢
      rw [hr (by omega)]
      exact he (by omega)

/-! ## Trees of runs -/

/-- The binding power up to which an operator may follow a phrase without being taken into
it. -/
def reach : Phrase → Nat
  | .sum => 20
  | .term => 30
  | .unary => 39
  | .power => 39
  | .primary => 50

/-- The phrase that climbing above a bound reads. -/
def phraseOf (bound : Nat) : Phrase :=
  if bound < 20 then .sum else if bound < 30 then .term else .unary

theorem level_phraseOf_le (bound : Nat) : (phraseOf bound).level ≤ Phrase.unary.level := by
  unfold phraseOf
  split
  · decide
  · split <;> decide

theorem level_phraseOf_le_term {bound : Nat} (h : bound < 30) :
    (phraseOf bound).level ≤ Phrase.term.level := by
  rw [phraseOf, if_pos h]
  split <;> decide

theorem Calm.mono {bound bound' : Nat} {parts : List Part} (h : Calm bound parts)
    (hle : bound ≤ bound') : Calm bound' parts :=
  fun op rest heq => Nat.le_trans (h op rest heq) hle

theorem calm_operator {bound : Nat} {op : BinaryOp} (parts : List Part)
    (h : op.bindingPower ≤ bound) : Calm bound (.operator op :: parts) := by
  intro op' rest heq
  cases heq
  exact h

/-- A grouped sequence is climbed over as a whole, with what follows it. -/
theorem Grouped.climbs {phrase : Phrase} {parts : List Part} {e : Expr}
    (h : Grouped phrase parts e) {bound : Nat} {rest rest' : List Part} {e' : Expr}
    (hlow : bound < if phrase = .sum then 20 else if phrase = .term then 30 else 50)
    (hcalm : Calm (reach phrase) rest) (hextend : Runs (.extend bound e rest) e' rest') :
    Runs (.climb bound (parts ++ rest)) e' rest' := by
  induction h generalizing bound rest e' rest' with
  | @sum op hop left right a b _ _ iha ihb =>
      simp only [if_true, reach] at hlow hcalm
      rw [List.append_assoc, List.cons_append]
      have hbound := BinaryOp.rightBound_of_lt (show op.bindingPower < 50 by omega)
      refine iha (by simpa using hlow) (calm_operator _ (by simp [reach, hop])) ?_
      refine .operator (by omega) ?_ hextend
      rw [hbound, hop]
      exact ihb (by simp) (hcalm.mono (by simp [reach])) (.stop hcalm)
  | term _ ih =>
      simp only [if_true, reach] at hlow hcalm
      exact ih (by simp; omega) (hcalm.mono (by simp [reach])) hextend
  | @product op hop left right a b _ _ iha ihb =>
      simp only [reduceCtorEq, if_false, if_true, reach] at hlow hcalm
      rw [List.append_assoc, List.cons_append]
      have hbound := BinaryOp.rightBound_of_lt (show op.bindingPower < 50 by omega)
      refine iha (by simpa using hlow) (calm_operator _ (by simp [reach, hop])) ?_
      refine .operator (by omega) ?_ hextend
      rw [hbound, hop]
      exact ihb (by simp) (hcalm.mono (by simp [reach])) (.stop hcalm)
  | unary _ ih =>
      simp only [reduceCtorEq, if_false, if_true, reach] at hlow hcalm
      exact ih (by simp; omega) (hcalm.mono (by simp [reach])) hextend
  | sign _ ih =>
      simp only [reach] at hcalm
      exact .climb (.sign (ih (by simp [signBound]) hcalm (.stop hcalm))) hextend
  | power _ ih => exact ih hlow hcalm hextend
  | exponent _ ih =>
      simp only [reduceCtorEq, if_false, reach] at hlow hcalm
      refine .climb .operand (.operator hlow ?_ hextend)
      exact ih (by simp [BinaryOp.rightBound]) hcalm (.stop (hcalm.mono (by simp [BinaryOp.rightBound])))
  | primary _ ih =>
      exact ih hlow (fun op _ _ => by cases op <;> simp [BinaryOp.bindingPower, reach]) hextend
  | operand => exact .climb .operand hextend

theorem regroup?_of_grouped {parts : List Part} {e : Expr} (h : Grouped .sum parts e) :
    regroup? parts = some e := by
  have hnil : ∀ bound, Calm bound [] := fun _ _ _ heq => by cases heq
  have hruns := h.climbs (by simp) (hnil _) (.stop (hnil 0))
  rw [List.append_nil] at hruns
  have hresult := hruns.result (Nat.le_refl _)
  simp only [Task.result, Task.depth] at hresult
  rw [regroup?, hresult]
  rfl

/-- A tree is also one of every looser phrase. -/
theorem Grouped.loosen {place own : Phrase} {parts : List Part} {e : Expr}
    (h : Grouped own parts e) (hle : place.level ≤ own.level) : Grouped place parts e :=
  Phrase.loosen (P := fun phrase => Grouped phrase parts e) .term .unary .power .primary hle h

/-- What a run has read: a phrase that fits the task, up to parts that cannot belong to
it. -/
def Task.Reads (rest : List Part) (e : Expr) : Task → Prop
  | .climb bound parts => ∃ taken, parts = taken ++ rest ∧
      Grouped (phraseOf bound) taken e ∧ Calm bound rest
  | .start parts => ∃ taken phrase, parts = taken ++ rest ∧ Grouped phrase taken e ∧
      2 ≤ phrase.level ∧ Calm (reach phrase) rest
  | .extend bound left parts => ∀ front phrase, Grouped phrase front left →
      (phraseOf bound).level ≤ phrase.level → Calm (reach phrase) parts →
      ∃ taken, parts = taken ++ rest ∧ Grouped (phraseOf bound) (front ++ taken) e ∧
        Calm bound rest

/-- Above a bound of 30 no operator but `**` can exceed it. -/
theorem Calm.of_no_power {bound : Nat} {parts : List Part} (h : Calm bound parts)
    (hlt : bound < 50) {bound' : Nat} (hle : 30 ≤ bound') : Calm bound' parts := by
  intro op rest heq
  have hop := h op rest heq
  rcases op.bindingPower_cases with h20 | h30 | rfl
  · omega
  · omega
  · simp only [BinaryOp.bindingPower] at hop
    omega

theorem Runs.reads {task : Task} {e : Expr} {rest : List Part} (h : Runs task e rest) :
    task.Reads rest e := by
  induction h with
  | @climb bound parts middle rest left e _ _ ihs ihe =>
      obtain ⟨taken, phrase, rfl, hgrouped, hlevel, hcalm⟩ := ihs
      have hphrase := Nat.le_trans (level_phraseOf_le bound) hlevel
      obtain ⟨more, rfl, htree, hrest⟩ := ihe taken phrase hgrouped hphrase hcalm
      exact ⟨taken ++ more, (List.append_assoc ..).symm, htree, hrest⟩
  | sign _ ih =>
      obtain ⟨taken, rfl, hgrouped, hcalm⟩ := ih
      exact ⟨_ :: taken, .unary, rfl, .sign hgrouped, Nat.le_refl _, hcalm⟩
  | @operand value parts =>
      refine ⟨[.operand value], .primary, rfl, .operand, by decide, fun op _ _ => ?_⟩
      cases op <;> simp [BinaryOp.bindingPower, reach]
  | stop hcalm =>
      intro front phrase hgrouped hlevel _
      refine ⟨[], rfl, ?_, hcalm⟩
      rw [List.append_nil]
      exact hgrouped.loosen hlevel
  | @operator bound op left right e parts middle rest hop _ _ ihr ihe =>
      intro front phrase hgrouped hlevel hcalm
      have hreach := hcalm op parts rfl
      obtain ⟨taken, rfl, hright, hmiddle⟩ := ihr
      have hnext : ∀ next, Grouped next (front ++ .operator op :: taken) (.binary op left right) →
          (phraseOf bound).level ≤ next.level → Calm (reach next) middle →
          ∃ more, .operator op :: (taken ++ middle) = more ++ rest ∧
            Grouped (phraseOf bound) (front ++ more) e ∧ Calm bound rest := by
        intro next hgroup hle hquiet
        obtain ⟨more, rfl, htree, hrest⟩ := ihe _ next hgroup hle hquiet
        exact ⟨.operator op :: (taken ++ more), by simp, by simpa using htree, hrest⟩
      -- The operator decides which phrase the new tree is, and so which one the left
      -- operand must have been.
      rcases op.bindingPower_cases with hpower | hpower | rfl
      · rw [BinaryOp.rightBound_of_lt (by omega), hpower] at hright hmiddle
        have hbound : phraseOf bound = .sum := if_pos (by omega)
        have hleft : Grouped .sum front left := hgrouped.loosen (by cases phrase <;> decide)
        exact hnext .sum (.sum hpower hleft hright) (by simp [hbound]) hmiddle
      · rw [BinaryOp.rightBound_of_lt (by omega), hpower] at hright hmiddle
        have hbound : (phraseOf bound).level ≤ Phrase.term.level :=
          level_phraseOf_le_term (by omega)
        have hleft : Grouped .term front left := by
          apply hgrouped.loosen
          cases phrase with
          | sum => exact absurd (hpower ▸ hreach) (by decide)
          | _ => decide
        exact hnext .term (.product hpower hleft hright) hbound hmiddle
      · have hprimary : phrase = .primary := by
          cases phrase with
          | primary => rfl
          | _ => simp [reach, BinaryOp.bindingPower] at hreach
        subst hprimary
        cases hgrouped
        have hbound : (phraseOf bound).level ≤ Phrase.power.level :=
          Nat.le_trans (level_phraseOf_le bound) (by decide)
        exact hnext .power (.exponent hright) hbound (hmiddle.of_no_power (by decide) (by decide))

/-! ## Sequences that can be grouped -/

/-- A sequence as it is read: signs and an operand, then operators with signs and an
operand each. `true` when an operand is still to come. -/
inductive Shaped : Bool → List Part → Prop
  | done : Shaped false []
  | operator {op : BinaryOp} {parts : List Part} (h : Shaped true parts) :
      Shaped false (.operator op :: parts)
  | sign {negative : Bool} {parts : List Part} (h : Shaped true parts) :
      Shaped true (.sign negative :: parts)
  | operand {value : Expr} {parts : List Part} (h : Shaped false parts) :
      Shaped true (.operand value :: parts)

def Task.awaits : Task → Bool
  | .climb _ _ => true
  | .start _ => true
  | .extend _ _ _ => false

theorem Runs.shaped {task : Task} {e : Expr} {rest : List Part} (h : Runs task e rest)
    (hs : Shaped task.awaits task.parts) : Shaped false rest := by
  induction h with
  | climb _ _ ihs ihe => exact ihe (ihs hs)
  | sign _ ih =>
      cases hs with
      | sign hs => exact ih hs
  | operand =>
      cases hs with
      | operand hs => exact hs
  | stop _ => exact hs
  | operator _ _ _ ihr ihe =>
      cases hs with
      | operator hs => exact ihe (ihr hs)

/-- What grouping makes of a sequence is a sum of all its parts. -/
theorem grouped_of_regroup? {parts : List Part} {e : Expr} (h : regroup? parts = some e)
    (hs : Shaped true parts) : Grouped .sum parts e := by
  obtain ⟨⟨tree, rest⟩, hclimb, rfl⟩ := Option.map_eq_some_iff.mp h
  have hruns : Runs (.climb 0 parts) tree rest :=
    @runs_of_result (2 * parts.length + 2) (.climb 0 parts) tree rest hclimb
  obtain ⟨taken, htaken, hgrouped, hcalm⟩ := hruns.reads
  have hrest : rest = [] := by
    cases hruns.shaped hs with
    | done => rfl
    | @operator op more _ =>
        have hop := hcalm op more rfl
        cases op <;> simp [BinaryOp.bindingPower] at hop
  rw [hrest, List.append_nil] at htaken
  subst htaken
  exact hgrouped

/-- A grouped sequence is shaped, and so it stays with more behind it. -/
theorem Grouped.shaped {phrase : Phrase} {parts : List Part} {e : Expr}
    (h : Grouped phrase parts e) {rest : List Part} (hrest : Shaped false rest) :
    Shaped true (parts ++ rest) := by
  induction h generalizing rest with
  | sum _ _ _ iha ihb =>
      rw [List.append_assoc, List.cons_append]
      exact iha (.operator (ihb hrest))
  | product _ _ _ iha ihb =>
      rw [List.append_assoc, List.cons_append]
      exact iha (.operator (ihb hrest))
  | term _ ih => exact ih hrest
  | unary _ ih => exact ih hrest
  | sign _ ih => exact .sign (ih hrest)
  | power _ ih => exact ih hrest
  | exponent _ ih => exact .operand (.operator (ih hrest))
  | primary _ ih => exact ih hrest
  | operand => exact .operand hrest

end Part

end CadTimeline
