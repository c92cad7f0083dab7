import CadTimeline.Decimal.Numeral
import Mathlib.Data.List.TakeWhile

/-!
# The spelling of numerals

    numeral ::= (digit+ [. digit*] | . digit+) [(e|E) [+|-] digit+]

A numeral is read off a text exactly when it is spelled at its start and what follows
could not go on with it.
-/

namespace CadTimeline.Numeral

/-! ## The grammar -/

/-- The point with the digits after it, or neither. -/
inductive SpelledFraction : List Char → List Char → Prop
  | absent : SpelledFraction [] []
  | point {digits : List Char} (h : ∀ c ∈ digits, c.isDigit = true) :
      SpelledFraction digits ('.' :: digits)

/-- The sign of an exponent. -/
inductive SpelledSign : (Nat → Int) → List Char → Prop
  | absent : SpelledSign Int.ofNat []
  | plus : SpelledSign Int.ofNat ['+']
  | minus : SpelledSign (fun n => -(n : Int)) ['-']

inductive SpelledExponent : Int → List Char → Prop
  | absent : SpelledExponent 0 []
  | power {marker : Char} (hmarker : marker = 'e' ∨ marker = 'E') {sign : Nat → Int}
      {signText digits : List Char} (hsign : SpelledSign sign signText)
      (hdigits : ∀ c ∈ digits, c.isDigit = true) (hne : digits ≠ []) :
      SpelledExponent (sign (ofDigits digits)) (marker :: (signText ++ digits))

/-- The text is a numeral. -/
inductive Spelled : Numeral → List Char → Prop
  | mk {whole fraction point power : List Char} {exponent : Int}
      (hwhole : ∀ c ∈ whole, c.isDigit = true) (hfraction : SpelledFraction fraction point)
      (hexponent : SpelledExponent exponent power) (hne : whole ≠ [] ∨ fraction ≠ []) :
      Spelled ⟨whole, fraction, exponent⟩ (whole ++ (point ++ power))

/-- No numeral goes on with this text. -/
def Ends (rest : List Char) : Prop :=
  ∀ c ∈ rest.head?, c.isDigit = false ∧ c ≠ '.' ∧ c ≠ 'e' ∧ c ≠ 'E'

/-! ## Reading digits -/

theorem isDigit_of_mem_takeWhile {cs : List Char} :
    ∀ c ∈ cs.takeWhile Char.isDigit, c.isDigit = true :=
  fun _ h => List.mem_takeWhile_imp h

theorem takeWhile_digits {digits rest : List Char} (hdigits : ∀ c ∈ digits, c.isDigit = true)
    (hrest : ∀ c ∈ rest.head?, c.isDigit = false) :
    (digits ++ rest).takeWhile Char.isDigit = digits ∧
      (digits ++ rest).dropWhile Char.isDigit = rest := by
  rw [List.takeWhile_append_of_pos hdigits, List.dropWhile_append_of_pos hdigits]
  cases rest with
  | nil => simp
  | cons c rest => simp [hrest c rfl]

/-! ## What is read is spelled -/

theorem spelledFraction_takeFraction (whole cs : List Char) :
    ∃ point, SpelledFraction (takeFraction whole cs).1 point ∧
      cs = point ++ (takeFraction whole cs).2 := by
  unfold takeFraction
  split
  · rename_i cs
    dsimp only
    split
    · exact ⟨[], .absent, rfl⟩
    · refine ⟨_, .point isDigit_of_mem_takeWhile, ?_⟩
      rw [List.cons_append, List.takeWhile_append_dropWhile]
  · exact ⟨[], .absent, rfl⟩

theorem digitsOf_eq_some {cs rest : List Char} {sign : Nat → Int} {n : Int}
    (h : takePower.digitsOf cs sign = some (n, rest)) :
    ∃ digits, (∀ c ∈ digits, c.isDigit = true) ∧ digits ≠ [] ∧ n = sign (ofDigits digits) ∧
      cs = digits ++ rest := by
  simp only [takePower.digitsOf] at h
  split at h
  · contradiction
  · rename_i hne
    cases h
    refine ⟨_, isDigit_of_mem_takeWhile, ?_, rfl, List.takeWhile_append_dropWhile.symm⟩
    simpa using hne

theorem takePower_eq_some {cs rest : List Char} {n : Int} (h : takePower cs = some (n, rest)) :
    ∃ sign signText digits, SpelledSign sign signText ∧ (∀ c ∈ digits, c.isDigit = true) ∧
      digits ≠ [] ∧ n = sign (ofDigits digits) ∧ cs = signText ++ digits ++ rest := by
  unfold takePower at h
  split at h
  · obtain ⟨digits, hdigits, hne, rfl, rfl⟩ := digitsOf_eq_some h
    exact ⟨_, _, digits, .minus, hdigits, hne, rfl, rfl⟩
  · obtain ⟨digits, hdigits, hne, rfl, rfl⟩ := digitsOf_eq_some h
    exact ⟨_, _, digits, .plus, hdigits, hne, rfl, rfl⟩
  · obtain ⟨digits, hdigits, hne, rfl, rfl⟩ := digitsOf_eq_some h
    exact ⟨_, _, digits, .absent, hdigits, hne, rfl, rfl⟩

theorem spelledExponent_takeExponent (cs : List Char) :
    ∃ power, SpelledExponent (takeExponent cs).1 power ∧ cs = power ++ (takeExponent cs).2 := by
  unfold takeExponent
  split
  · rename_i c rest
    split
    · rename_i hmarker
      rw [Bool.or_eq_true, beq_iff_eq, beq_iff_eq] at hmarker
      cases hpower : takePower rest with
      | none => exact ⟨[], .absent, rfl⟩
      | some read =>
          obtain ⟨sign, signText, digits, hsign, hdigits, hne, hn, rfl⟩ := takePower_eq_some hpower
          refine ⟨c :: (signText ++ digits), ?_, rfl⟩
          rw [Option.getD_some, hn]
          exact .power hmarker hsign hdigits hne
    · exact ⟨[], .absent, rfl⟩
  · exact ⟨[], .absent, rfl⟩

theorem spelled_of_scan {cs rest : List Char} {n : Numeral} (h : scan cs = some (n, rest)) :
    ∃ spelling, Spelled n spelling ∧ cs = spelling ++ rest := by
  unfold scan at h
  dsimp only at h
  split at h
  · contradiction
  · rename_i hne
    obtain ⟨point, hfraction, hpoint⟩ :=
      spelledFraction_takeFraction (cs.takeWhile Char.isDigit) (cs.dropWhile Char.isDigit)
    generalize takeFraction (cs.takeWhile Char.isDigit) (cs.dropWhile Char.isDigit) = read at *
    obtain ⟨power, hexponent, hpower⟩ := spelledExponent_takeExponent read.2
    cases h
    refine ⟨_, .mk isDigit_of_mem_takeWhile hfraction hexponent ?_, ?_⟩
    · simp only [Bool.and_eq_true, List.isEmpty_iff, Classical.not_and_iff_not_or_not] at hne
      exact hne
    · rw [List.append_assoc, List.append_assoc, ← hpower, ← hpoint,
        List.takeWhile_append_dropWhile]

/-! ## What is spelled is read -/

theorem takeFraction_of_spelled {whole fraction point rest : List Char}
    (h : SpelledFraction fraction point) (hne : whole ≠ [] ∨ fraction ≠ [])
    (hrest : ∀ c ∈ rest.head?, c.isDigit = false ∧ c ≠ '.') :
    takeFraction whole (point ++ rest) = (fraction, rest) := by
  cases h with
  | absent =>
      rw [List.nil_append]
      unfold takeFraction
      split
      · exact absurd rfl (hrest '.' rfl).2
      · rfl
  | point hdigits =>
      obtain ⟨htake, hdrop⟩ := takeWhile_digits hdigits fun c hc => (hrest c hc).1
      simp only [List.cons_append, takeFraction, htake, hdrop]
      rw [if_neg]
      simpa only [Bool.and_eq_true, List.isEmpty_iff, Classical.not_and_iff_not_or_not] using hne

theorem digitsOf_of_digits {digits rest : List Char} (hdigits : ∀ c ∈ digits, c.isDigit = true)
    (hne : digits ≠ []) (hrest : ∀ c ∈ rest.head?, c.isDigit = false) (sign : Nat → Int) :
    takePower.digitsOf (digits ++ rest) sign = some (sign (ofDigits digits), rest) := by
  obtain ⟨htake, hdrop⟩ := takeWhile_digits hdigits hrest
  simp only [takePower.digitsOf, htake, hdrop, List.isEmpty_iff, hne, if_false]

theorem takePower_of_spelled {sign : Nat → Int} {signText digits rest : List Char}
    (hsign : SpelledSign sign signText) (hdigits : ∀ c ∈ digits, c.isDigit = true)
    (hne : digits ≠ []) (hrest : ∀ c ∈ rest.head?, c.isDigit = false) :
    takePower (signText ++ digits ++ rest) = some (sign (ofDigits digits), rest) := by
  have hread := digitsOf_of_digits hdigits hne hrest
  cases hsign with
  | absent =>
      obtain ⟨c, digits, rfl⟩ := List.exists_cons_of_ne_nil hne
      have hc := hdigits c List.mem_cons_self
      rw [List.nil_append, ← hread]
      unfold takePower
      split
      · rename_i heq
        cases heq
        cases hc
      · rename_i heq
        cases heq
        cases hc
      · rfl
  | plus => exact hread Int.ofNat
  | minus => exact hread fun n => -(n : Int)

theorem takeExponent_of_spelled {exponent : Int} {power rest : List Char}
    (h : SpelledExponent exponent power) (hrest : Ends rest) :
    takeExponent (power ++ rest) = (exponent, rest) := by
  cases h with
  | absent =>
      rw [List.nil_append]
      cases rest with
      | nil => rfl
      | cons c rest =>
          obtain ⟨-, -, he, hE⟩ := hrest c rfl
          simp [takeExponent, he, hE]
  | power hmarker hsign hdigits hne =>
      have hread := takePower_of_spelled hsign hdigits hne fun c hc => (hrest c hc).1
      rw [List.cons_append]
      unfold takeExponent
      dsimp only
      rw [if_pos (by simpa using hmarker), hread, Option.getD_some]

theorem scan_of_spelled {n : Numeral} {spelling rest : List Char} (h : Spelled n spelling)
    (hrest : Ends rest) : scan (spelling ++ rest) = some (n, rest) := by
  cases h with
  | @mk whole fraction point power exponent hwhole hfraction hexponent hne =>
      have hpower : ∀ c ∈ (power ++ rest).head?, c.isDigit = false ∧ c ≠ '.' := by
        cases hexponent with
        | absent => exact fun c hc => ⟨(hrest c hc).1, (hrest c hc).2.1⟩
        | power hmarker =>
            intro c hc
            cases hc
            rcases hmarker with rfl | rfl <;> decide
      have hpoint : ∀ c ∈ (point ++ (power ++ rest)).head?, c.isDigit = false := by
        cases hfraction with
        | absent => exact fun c hc => (hpower c hc).1
        | point =>
            intro c hc
            cases hc
            rfl
      obtain ⟨htake, hdrop⟩ := takeWhile_digits hwhole hpoint
      rw [List.append_assoc, List.append_assoc]
      simp only [scan, htake, hdrop, takeFraction_of_spelled hfraction hne hpower,
        takeExponent_of_spelled hexponent hrest]
      rw [if_neg]
      simpa only [Bool.and_eq_true, List.isEmpty_iff, Classical.not_and_iff_not_or_not] using hne

end CadTimeline.Numeral
