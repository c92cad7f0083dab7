import CadTimeline.Proofs.Decimal.Equality

/-!
# Decimal places

A number is never written with a single decimal place that is zero: one digit less reads back as
the same number, and is tried before. Nor is the text of an absolute value ever that of another
one.
-/

namespace CadTimeline

namespace Binary64

theorem roundHalfEven_scale (num den : Nat) {k : Nat} (hk : 0 < k) :
    roundHalfEven (num * k) (den * k) = roundHalfEven num den := by
  have hlt : ∀ a b : Nat, a * k < b * k ↔ a < b := fun a b => Nat.mul_lt_mul_right hk
  simp only [roundHalfEven, Nat.mul_div_mul_right _ _ hk, Nat.mul_mod_mul_right, ← Nat.mul_assoc,
    hlt]

theorem nearest_scale (num den : Nat) {k : Nat} (hk : 0 < k) :
    nearest (num * k) (den * k) = nearest num den := by
  have hnum : num * k * one = num * one * k := Nat.mul_right_comm _ _ _
  have hden : ∀ shift, den * k * Nat.pow 2 shift = den * Nat.pow 2 shift * k :=
    fun shift => Nat.mul_right_comm _ _ _
  simp only [nearest, hnum, Nat.mul_div_mul_right _ _ hk, hden, roundHalfEven_scale _ _ hk]

end Binary64

open Binary64

namespace Decimal

/-- A zero in the only place may be left out. -/
theorem rank_tenths (n : Nat) : rank ⟨n * 10, -1⟩ = rank ⟨n, 0⟩ := by
  by_cases hzero : n = 0
  · have hrank : ∀ exponent, rank ⟨0, exponent⟩ = 0 := fun _ => if_pos rfl
    rw [hzero, Nat.zero_mul, hrank, hrank]
  · have hplaces : (-(-1 : Int)).toNat = 1 := rfl
    have hzeros : (-1 : Int).toNat = 0 := rfl
    rw [rank_whole]
    unfold rank
    dsimp only
    rw [if_neg (Nat.mul_ne_zero hzero (by decide)), if_neg (by decide), if_neg (by omega), hplaces,
      hzeros, Nat.pow_eq, Nat.pow_eq, Nat.pow_zero, Nat.mul_one, Nat.pow_one, ← Nat.one_mul 10,
      nearest_scale n 1 (by decide)]

/-! ## The search for the shortest decimal -/

variable {tie : Tie} {d : Decimal} {count : Nat}

/-- What is cut off for `count` digits to be left. -/
def cut (d : Decimal) (count : Nat) : Nat :=
  digitCount d.digits - count

theorem mem_neighbours {other : Decimal} : other ∈ neighbours tie d count ↔
    other = ⟨d.digits / 10 ^ cut d count, d.exponent + cut d count⟩ ∨
      d.digits % 10 ^ cut d count ≠ 0 ∧
        other = above (d.digits / 10 ^ cut d count) count (d.exponent + cut d count) := by
  unfold neighbours
  simp only [Nat.pow_eq]
  change other ∈ (if 2 * (d.digits % 10 ^ cut d count) = 0 then _ else _) ↔ _
  by_cases hexact : d.digits % 10 ^ cut d count = 0
  · rw [if_pos (by omega), List.mem_singleton]
    exact ⟨.inl, fun h => h.resolve_right fun habove => habove.1 hexact⟩
  · rw [if_neg (by omega)]
    split
    · rw [List.mem_pair]
      exact or_congr_right (and_iff_right hexact).symm
    · rw [List.mem_pair, or_comm]
      exact or_congr_right (and_iff_right hexact).symm

/-- The shortest decimal is all places, or it is found with some number of digits and with no
number less. -/
theorem shortest_cases (tie : Tie) (r : Nat) : shortest tie r = exact r ∨
    ∃ n, shortest tie r ∈ neighbours tie (exact r) (n + 1) ∧ (shortest tie r).rank = r ∧
      ∀ m < n, ∀ other ∈ neighbours tie (exact r) (m + 1), other.rank ≠ r := by
  unfold shortest
  dsimp only
  rw [List.find?_flatMap]
  cases hfind : (List.range 17).findSome? fun n =>
      (neighbours tie (exact r) (n + 1)).find? fun d => d.rank == r with
  | none =>
      rw [Option.getD_none]
      exact .inl rfl
  | some found =>
      rw [Option.getD_some]
      obtain ⟨before, n, after, hrange, hfound, hnone⟩ := List.findSome?_eq_some_iff.mp hfind
      have hrank := List.find?_some hfound
      refine .inr ⟨n, List.mem_of_find?_eq_some hfound, eq_of_beq hrank, ?_⟩
      intro m hm other hother
      have hsorted := List.pairwise_lt_range (n := 17)
      rw [hrange, List.pairwise_append, List.pairwise_cons] at hsorted
      have hmem : m ∈ List.range 17 := by
        have hn : n ∈ List.range 17 := hrange ▸ List.mem_append_right _ List.mem_cons_self
        exact List.mem_range.mpr (hm.trans (List.mem_range.mp hn))
      have hbefore : m ∈ before := by
        rw [hrange] at hmem
        rcases List.mem_append.mp hmem with hmem | hmem
        · exact hmem
        · rcases List.mem_cons.mp hmem with rfl | hmem
          · exact absurd hm (Nat.lt_irrefl m)
          · exact absurd hm (Nat.lt_asymm (hsorted.2.1.1 m hmem))
      have hother := List.find?_eq_none.mp (hnone m hbefore) other hother
      exact fun heq => hother (beq_iff_eq.mpr heq)

theorem two_pow_le_ten_pow {m n : Nat} (h : 28 * m ≤ 93 * n) : 2 ^ m ≤ 10 ^ n := by
  refine (Nat.pow_le_pow_iff_left (by decide : 93 ≠ 0)).mp ?_
  calc (2 ^ m) ^ 93 = (2 ^ 93) ^ m := by rw [← Nat.pow_mul, ← Nat.pow_mul, Nat.mul_comm]
    _ ≤ (10 ^ 28) ^ m := Nat.pow_le_pow_left (by decide) m
    _ = 10 ^ (28 * m) := (Nat.pow_mul 10 28 m).symm
    _ ≤ 10 ^ (93 * n) := Nat.pow_le_pow_right (by decide) h
    _ = (10 ^ n) ^ 93 := by rw [← Nat.pow_mul, Nat.mul_comm]

/-- The digits are enough, as long as the quotient that they are counted with is one of the
logarithms. -/
theorem lt_pow_digitCount {n : Nat} (h : digitCount n ≤ 4000) : n < 10 ^ digitCount n := by
  unfold digitCount at h ⊢
  simp only [Nat.pow_eq] at h ⊢
  split
  · assumption
  · split
    · assumption
    · rename_i hone htwo
      rw [if_neg hone, if_neg htwo] at h
      have hlog := Nat.lt_log2_self (n := n)
      exact Nat.lt_of_lt_of_le hlog (two_pow_le_ten_pow (by omega))

/-- A multiple of ten is not what a carry leaves. -/
theorem of_tens_mem_neighbours {digits : Nat} {places : Int}
    (h : ⟨digits * 10, places⟩ ∈ neighbours tie d count) :
    places = d.exponent + cut d count ∧
      (digits * 10 = d.digits / 10 ^ cut d count ∨
        d.digits % 10 ^ cut d count ≠ 0 ∧ d.digits / 10 ^ cut d count + 1 ≠ 10 ^ count ∧
          digits * 10 = d.digits / 10 ^ cut d count + 1) := by
  rcases mem_neighbours.mp h with h | ⟨hinexact, h⟩
  · obtain ⟨hdigits, hplaces⟩ := (Decimal.mk.injEq _ _ _ _).mp h
    exact ⟨hplaces, .inl hdigits⟩
  · unfold above at h
    split at h
    · have hdigits := ((Decimal.mk.injEq _ _ _ _).mp h).1
      omega
    · rename_i hcarry
      obtain ⟨hdigits, hplaces⟩ := (Decimal.mk.injEq _ _ _ _).mp h
      exact ⟨hplaces, .inr ⟨hinexact, hcarry, hdigits⟩⟩

/-- With a zero in the only place, a number has a neighbour with one digit less that is equal. -/
theorem whole_mem_neighbours {r n digits : Nat}
    (h : ⟨digits * 10, -1⟩ ∈ neighbours tie (exact r) (n + 1)) (hne : digits ≠ 0) :
    ∃ m < n, ⟨digits, 0⟩ ∈ neighbours tie (exact r) (m + 1) := by
  have hexponent : (exact r).exponent = -1074 := rfl
  generalize exact r = whole at h hexponent ⊢
  obtain ⟨hcut, h⟩ := of_tens_mem_neighbours h
  have hcount : digitCount whole.digits = n + 1 + cut whole (n + 1) := by
    unfold cut at hcut ⊢
    omega
  generalize hplaces : cut whole (n + 1) = places at h hcut hcount
  cases n with
  | zero =>
      -- A number with one digit is not a multiple of ten.
      have hlt := lt_pow_digitCount (n := whole.digits) (by omega)
      rw [hcount, Nat.zero_add, Nat.add_comm, Nat.pow_succ] at hlt
      have hlow : whole.digits / 10 ^ places < 10 := Nat.div_lt_of_lt_mul hlt
      rcases h with h | ⟨-, hcarry, h⟩
      · omega
      · rw [Nat.zero_add, Nat.pow_one] at hcarry
        omega
  | succ n =>
      refine ⟨n, Nat.lt_succ_self n, ?_⟩
      have hshorter : cut whole (n + 1) = places + 1 := by
        unfold cut
        omega
      have hnone : (0 : Int) = -1074 + (places + 1 : Nat) := by omega
      rw [mem_neighbours, hshorter, hexponent, ← hnone, Nat.pow_succ, ← Nat.div_div_eq_div_mul]
      rcases h with hdigits | ⟨hinexact, hcarry, hdigits⟩
      · exact .inl (congrArg (Decimal.mk · 0) (by omega))
      · have hlow : whole.digits / 10 ^ places / 10 + 1 = digits := by omega
        refine .inr ⟨fun hexact => hinexact ?_, ?_⟩
        · exact Nat.mod_eq_zero_of_dvd (Nat.dvd_trans (Nat.dvd_mul_right _ 10)
            (Nat.dvd_of_mod_eq_zero hexact))
        · rw [above, hlow, if_neg]
          intro htop
          apply hcarry
          rw [← hdigits, htop, Nat.pow_eq, ← Nat.pow_succ]

/-- The shortest decimal has no zero in the only place. -/
theorem shortest_tenths {r digits : Nat} (hpos : 0 < r) (hr : r < infinityRank)
    (h : shortest tie r = ⟨digits, -1⟩) : digits % 10 ≠ 0 := by
  intro hzero
  obtain ⟨n, rfl⟩ : ∃ n, digits = n * 10 := ⟨digits / 10, by omega⟩
  have hrank := rank_shortest tie hpos hr
  rw [h, rank_tenths] at hrank
  rcases shortest_cases tie r with hall | ⟨count, hmem, -, hnone⟩
  · rw [h] at hall
    have hplaces : (-1 : Int) = -1074 := congrArg exponent hall
    omega
  · rw [h] at hmem
    have hne : n ≠ 0 := by
      rintro rfl
      rw [rank_whole] at hrank
      have hnearest : nearest 0 1 = 0 := by decide +kernel
      omega
    obtain ⟨m, hm, hless⟩ := whole_mem_neighbours hmem hne
    exact hnone m hm _ hless hrank

/-! ## Places of the text -/

theorem point_notMem {digits : List Char} (h : IsDigits digits) : '.' ∉ digits := by
  intro hmem
  have hdigit := h.2 '.' hmem
  contradiction

/-- A text with a single place that is zero is that of digits with a zero at the end. -/
theorem getLast?_of_withPoint {digits whole : List Char} {places : Nat} (h : IsDigits digits)
    (heq : withPoint digits places = whole ++ '.' :: ['0']) :
    places = 1 ∧ digits.getLast? = some '0' := by
  have hpoint := point_notMem h
  unfold withPoint at heq
  dsimp only at heq
  by_cases hplaces : places = 0
  · rw [if_pos hplaces] at heq
    exact absurd (heq ▸ List.mem_append_right _ List.mem_cons_self) hpoint
  · rw [if_neg hplaces] at heq
    have hpos := List.length_pos_iff.mpr h.1
    by_cases hfew : digits.length - places = 0
    · have hrest : '.' ∉ List.replicate (places - digits.length) '0' ++ digits := by
        simpa using hpoint
      rw [if_pos hfew] at heq
      have hzero : '.' ∉ ['0'] := by decide
      obtain ⟨-, -, hplace⟩ := (List.append_cons_inj_of_notMem hzero hrest).mp heq
      have hlength := congrArg List.length hplace
      simp only [List.length_append, List.length_replicate, List.length_singleton] at hlength
      have hnone : places - digits.length = 0 := by omega
      rw [hnone, List.replicate_zero, List.nil_append] at hplace
      exact ⟨by omega, by rw [hplace]; rfl⟩
    · rw [if_neg hfew] at heq
      obtain ⟨-, -, hplace⟩ := (List.append_cons_inj_of_notMem
        (fun hmem => hpoint (List.mem_of_mem_take hmem))
        (fun hmem => hpoint (List.mem_of_mem_drop hmem))).mp heq
      have hlength := congrArg List.length hplace
      rw [List.length_drop, List.length_singleton] at hlength
      refine ⟨by omega, ?_⟩
      rw [← List.take_append_drop (digits.length - places) digits, hplace, List.getLast?_concat]

theorem mod_ten_of_getLast? {n : Nat} (h : (Nat.toDigits 10 n).getLast? = some '0') :
    n % 10 = 0 := by
  obtain ⟨before, hbefore⟩ := List.getLast?_eq_some_iff.mp h
  have hvalue := Nat.ofDigitChars_ten_toDigits (n := n)
  rw [hbefore, Nat.ofDigitChars_append] at hvalue
  have hzero : ∀ n, Nat.ofDigitChars 10 ['0'] n = 10 * n := by
    intro n
    simp [Nat.ofDigitChars]
  rw [hzero] at hvalue
  omega

end Decimal

/-- Digits, perhaps with a point between them, but not with a single zero behind it. -/
inductive IsShortDecimal : List Char → Prop
  | whole {digits : List Char} (h : IsDigits digits) : IsShortDecimal digits
  | point {digits fraction : List Char} (h : IsDigits digits) (hfraction : IsDigits fraction)
      (hzero : fraction ≠ ['0']) : IsShortDecimal (digits ++ '.' :: fraction)

theorem Decimal.isShortDecimal_plain {d : Decimal} (h : ∀ n, d = ⟨n, -1⟩ → n % 10 ≠ 0) :
    IsShortDecimal d.plain := by
  have hunsigned := isUnsignedDecimal_plain d
  generalize hplain : d.plain = text at hunsigned
  cases hunsigned with
  | whole hdigits => exact .whole hdigits
  | @point digits fraction hdigits hfraction =>
      refine .point hdigits hfraction ?_
      rintro rfl
      obtain ⟨hne, hall⟩ := isDigits_toDigits d.digits
      have hshown : IsDigits (Nat.toDigits 10 d.digits ++ List.replicate d.exponent.toNat '0') :=
        ⟨List.append_ne_nil_of_left_ne_nil hne _,
          List.forall_mem_append.mpr ⟨hall, isDigit_of_mem_zeros⟩⟩
      obtain ⟨hplaces, hlast⟩ := getLast?_of_withPoint hshown hplain
      have hzeros : d.exponent.toNat = 0 := by omega
      rw [hzeros, List.replicate_zero, List.append_nil] at hlast
      have hexponent : d.exponent = -1 := by omega
      exact h d.digits (congrArg (Decimal.mk d.digits) hexponent) (mod_ten_of_getLast? hlast)

/-! ## Absolute values -/

theorem Binary64.abs_ofRank {negative : Bool} {rank : Nat} (h : rank < infinityRank) :
    (ofRank negative rank).abs = ofRank false rank := by
  apply eq_of_toBits
  apply UInt64.toBitVec_inj.mp
  have habs : (unpacked negative rank).abs = unpacked false rank := by
    rcases Nat.eq_zero_or_pos rank with rfl | hpos
    · rw [unpacked_zero, unpacked_zero]
      rfl
    · obtain ⟨m, e, hm, hunpacked⟩ := exists_unpacked hpos
      rw [hunpacked, hunpacked]
      rfl
  have hbits : (ofRank negative rank).abs.toBits.toBitVec =
      Float.Model.UnpackedFloat.pack Float.Model.Format.binary64
        (ofRank negative rank).toModel.unpack.abs := rfl
  rw [hbits, unpack_ofRank h, habs, pack_unpacked h, toBits_ofRank h]

theorem Binary64.abs_eq {x : Float} (h : x.isFinite = true) : x.abs = ofRank false (rank x) := by
  have habs := @abs_ofRank (isNegative x) (rank x) (isFinite_iff.mp h)
  rwa [ofRank_rank h] at habs

namespace Number

theorem isShortDecimal_magnitudeText {r : Nat} (hr : r < infinityRank) :
    IsShortDecimal (magnitudeText r) := by
  by_cases hzero : r = 0
  · rw [magnitudeText, if_pos hzero]
    exact .whole ⟨by simp, by simp⟩
  · rw [magnitudeText, if_neg hzero]
    exact Decimal.isShortDecimal_plain fun _ =>
      Decimal.shortest_tenths (Nat.pos_of_ne_zero hzero) hr

variable {x y : Float}

theorem isFinite_abs (h : x.isFinite = true) : x.abs.isFinite = true := by
  have hr := isFinite_iff.mp h
  rw [abs_eq h, isFinite_iff, rank_ofRank hr]
  exact hr

theorem isShortDecimal_plain_abs (h : x.isFinite = true) :
    IsShortDecimal (plain x.abs).toList := by
  have hr := isFinite_iff.mp h
  rw [plain_of_finite (isFinite_abs h), abs_eq h, isNegative_ofRank hr, Bool.false_and,
    if_neg Bool.false_ne_true, rank_ofRank hr, String.toList_ofList]
  exact isShortDecimal_magnitudeText hr

/-- Absolute values are written alike only if they are one number. -/
theorem plain_abs_eq_iff (hx : x.isFinite = true) (hy : y.isFinite = true) :
    plain x.abs = plain y.abs ↔ x.abs = y.abs := by
  refine ⟨fun h => ?_, congrArg plain⟩
  rcases plain_eq_iff.mp h with heq | ⟨hxzero, hyzero⟩
  · exact heq
  · rw [beq_zero_iff (isFinite_abs hx), abs_eq hx, rank_ofRank (isFinite_iff.mp hx)] at hxzero
    rw [beq_zero_iff (isFinite_abs hy), abs_eq hy, rank_ofRank (isFinite_iff.mp hy)] at hyzero
    rw [abs_eq hx, abs_eq hy, hxzero, hyzero]

end Number

end CadTimeline
