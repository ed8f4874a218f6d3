import LiveProgress.Number.Basic
import Mathlib.Algebra.Order.Field.Basic
import Mathlib.Algebra.Order.Field.Power
import Mathlib.Tactic.Linarith
import Mathlib.Tactic.Ring

/-!
# Rounding

What a rational is rounded to, as long as that is not beyond the greatest number: the nearest
multiple of its last place. The last place is the one exponent that leaves between 52 and 53 bits
in front of it, or the least exponent of all. From this it follows that numbers are not rounded,
that rounding keeps the order, and that it treats both signs alike.
-/

namespace LiveProgress.Number

/-! ### Powers of two -/

theorem significandBound_eq : significandBound = 2 ^ 53 := by decide

theorem two_zpow_natCast (k : Nat) : (2 : Rat) ^ (k : Int) = ((2 ^ k : Nat) : Rat) := by
  rw [Rat.zpow_natCast, Rat.natCast_pow]
  rfl

theorem two_zpow_pos (k : Int) : 0 < (2 : Rat) ^ k := Rat.zpow_pos (by decide)

theorem intCast_mul_two_zpow (m : Int) (k : Nat) :
    (m : Rat) * 2 ^ (k : Int) = ((m * (2 ^ k : Nat) : Int) : Rat) := by
  rw [two_zpow_natCast, Rat.intCast_mul, Rat.intCast_natCast]

theorem two_zpow_le {a b : Int} (h : a ≤ b) : (2 : Rat) ^ a ≤ 2 ^ b :=
  zpow_le_zpow_right₀ (by norm_num) h

theorem two_zpow_lt_iff {a b : Int} : (2 : Rat) ^ a < 2 ^ b ↔ a < b :=
  zpow_lt_zpow_iff_right₀ (by norm_num)

theorem two_zpow_add (a b : Int) : (2 : Rat) ^ (a + b) = 2 ^ a * 2 ^ b :=
  zpow_add₀ (by norm_num) a b

/-! ### The nearest integer -/

theorem nearestEven_intCast (k : Int) : nearestEven k = k := by
  have hzero : 2 * ((k : Rat) - k) = 0 := by grind
  rw [nearestEven, Rat.floor_intCast, hzero, if_neg]
  rintro (h | ⟨h, _⟩)
  · exact absurd h (by decide)
  · exact absurd h (by decide)

theorem le_nearestEven {t : Rat} {k : Int} (h : (k : Rat) ≤ t) : k ≤ nearestEven t := by
  have hfloor : k ≤ t.floor := Rat.le_floor_iff.mpr h
  unfold nearestEven
  split
  · omega
  · exact hfloor

/-- An integer at most a half away, and even if it is just a half. -/
structure IsNearest (t : Rat) (k : Int) : Prop where
  ge : t - 1 / 2 ≤ k
  le : (k : Rat) ≤ t + 1 / 2
  even : (k : Rat) = t - 1 / 2 ∨ (k : Rat) = t + 1 / 2 → k % 2 = 0

theorem isNearest_nearestEven (t : Rat) : IsNearest t (nearestEven t) := by
  have hle : (t.floor : Rat) ≤ t := Rat.floor_le t
  have hlt : t - 1 < t.floor := Rat.lt_floor
  unfold nearestEven
  split
  · rename_i hup
    have hhalf : 1 ≤ 2 * (t - t.floor) := hup.elim le_of_lt fun htie => htie.1.ge
    refine ⟨?_, ?_, fun htie => ?_⟩
    · push_cast
      linarith
    · push_cast
      linarith
    · push_cast at htie
      rcases hup with hmore | ⟨_, hodd⟩
      · rcases htie with htie | htie <;> linarith
      · omega
  · rename_i hdown
    obtain ⟨hhalf, hodd⟩ := not_or.mp hdown
    refine ⟨by linarith, by linarith, fun htie => ?_⟩
    have hsame : 2 * (t - t.floor) = 1 := by
      rcases htie with htie | htie <;> linarith
    have heven : ¬ t.floor % 2 = 1 := fun h => hodd ⟨hsame, h⟩
    omega

/-- Of two neighbours that are both a half away only one is even. -/
theorem IsNearest.not_succ {t : Rat} {k : Int} (h : IsNearest t k) : ¬ IsNearest t (k + 1) := by
  intro hnext
  have hle := hnext.le
  push_cast at hle
  have hbelow : (k : Rat) = t - 1 / 2 := le_antisymm (by linarith) h.ge
  have habove : ((k + 1 : Int) : Rat) = t + 1 / 2 := by
    push_cast
    linarith
  have := h.even (.inl hbelow)
  have := hnext.even (.inr habove)
  omega

theorem IsNearest.unique {t : Rat} {k l : Int} (hk : IsNearest t k) (hl : IsNearest t l) :
    k = l := by
  have hkl : (k : Rat) ≤ l + 1 := by linarith [hk.le, hl.ge]
  have hlk : (l : Rat) ≤ k + 1 := by linarith [hl.le, hk.ge]
  have hup : k ≤ l + 1 := by exact_mod_cast hkl
  have hdown : l ≤ k + 1 := by exact_mod_cast hlk
  by_contra hne
  rcases (by omega : k = l + 1 ∨ l = k + 1) with rfl | rfl
  · exact hl.not_succ hk
  · exact hk.not_succ hl

theorem nearestEven_neg (t : Rat) : nearestEven (-t) = -nearestEven t := by
  have h := isNearest_nearestEven t
  apply (isNearest_nearestEven (-t)).unique
  refine ⟨?_, ?_, fun htie => ?_⟩
  · push_cast
    linarith [h.le]
  · push_cast
    linarith [h.ge]
  · push_cast at htie
    have := h.even (htie.symm.imp (fun _ => by linarith) fun _ => by linarith)
    omega

theorem nearestEven_mono {s t : Rat} (h : s ≤ t) : nearestEven s ≤ nearestEven t := by
  have hs := isNearest_nearestEven s
  have ht := isNearest_nearestEven t
  by_contra hlt
  have hnext : nearestEven t + 1 ≤ nearestEven s := by omega
  have hcast : (nearestEven t : Rat) + 1 ≤ nearestEven s := by exact_mod_cast hnext
  have hsame : s = t := le_antisymm h (by linarith [hs.le, ht.ge])
  rw [hsame] at hlt
  exact hlt le_rfl

/-- No integer is passed over. -/
theorem nearestEven_le {t : Rat} {k : Int} (h : t ≤ k) : nearestEven t ≤ k := by
  have hmono := nearestEven_mono h
  rwa [nearestEven_intCast] at hmono

theorem natAbs_nearestEven_le {t : Rat} {n : Nat} (h : |t| ≤ n) : (nearestEven t).natAbs ≤ n := by
  obtain ⟨hlow, hhigh⟩ := abs_le.mp h
  have hge : -(n : Int) ≤ nearestEven t := le_nearestEven (by push_cast; exact hlow)
  have hle : nearestEven t ≤ n := nearestEven_le (by push_cast; exact hhigh)
  omega

theorem le_natAbs_nearestEven {t : Rat} {n : Nat} (h : (n : Rat) ≤ |t|) :
    n ≤ (nearestEven t).natAbs := by
  rcases le_abs.mp h with hpos | hneg
  · have hge : (n : Int) ≤ nearestEven t := le_nearestEven (by push_cast; exact hpos)
    omega
  · have hle : nearestEven t ≤ -(n : Int) := nearestEven_le (by push_cast; linarith)
    omega

/-! ### The last place -/

theorem rat_abs_eq (q : Rat) : q.abs = |q| := by
  rcases le_total 0 q with h | h
  · rw [Rat.abs_of_nonneg h, abs_of_nonneg h]
  · rw [← Rat.abs_neg, Rat.abs_of_nonneg (by linarith), abs_of_nonpos h]

/-- The exponent of a quotient is the difference of the exponents of its parts, or one less. -/
theorem exponent_spec {base q : Rat} (hbase : 1 < base) (h : 0 < q) {i j : Int}
    (hnum_ge : base ^ i ≤ q.num.natAbs) (hnum_lt : q.num.natAbs < base ^ (i + 1))
    (hden_ge : base ^ j ≤ q.den) (hden_lt : q.den < base ^ (j + 1)) :
    let k := if base ^ (i - j) ≤ q then i - j else i - j - 1
    base ^ k ≤ q ∧ q < base ^ (k + 1) := by
  have hpow (k : Int) : 0 < base ^ k := zpow_pos (by linarith) k
  have hadd (k l : Int) : base ^ (k + l) = base ^ k * base ^ l := zpow_add₀ (by linarith) k l
  have hquotient : q * q.den = q.num.natAbs := by
    rw [Rat.mul_den_eq_num, ← Int.cast_natCast, Int.natAbs_of_nonneg (Rat.num_pos.mpr h).le]
  have hpos : (0 : Rat) < q.den := by exact_mod_cast q.den_pos
  have hhigh : q < base ^ (i - j + 1) := by
    apply lt_of_mul_lt_mul_right _ hpos.le
    calc q * q.den < base ^ (i + 1) := by rw [hquotient]; exact hnum_lt
      _ = base ^ (i - j + 1) * base ^ j := by
        rw [← hadd]
        congr 1
        omega
      _ ≤ base ^ (i - j + 1) * q.den := mul_le_mul_of_nonneg_left hden_ge (hpow _).le
  have hlow : base ^ (i - j - 1) ≤ q := by
    apply le_of_mul_le_mul_right _ hpos
    calc base ^ (i - j - 1) * q.den ≤ base ^ (i - j - 1) * base ^ (j + 1) :=
          mul_le_mul_of_nonneg_left hden_lt.le (hpow _).le
      _ = base ^ i := by
        rw [← hadd]
        congr 1
        omega
      _ ≤ q * q.den := by rw [hquotient]; exact hnum_ge
  dsimp only
  split
  · rename_i hle
    exact ⟨hle, hhigh⟩
  · rename_i hlt
    refine ⟨hlow, ?_⟩
    rw [sub_add_cancel]
    exact not_le.mp hlt

theorem floorLog2_spec {q : Rat} (h : 0 < q) :
    (2 : Rat) ^ floorLog2 q ≤ q ∧ q < 2 ^ (floorLog2 q + 1) := by
  have hge {n : Nat} (hn : n ≠ 0) : (2 : Rat) ^ (n.log2 : Int) ≤ n := by
    rw [two_zpow_natCast]
    exact_mod_cast Nat.log2_self_le hn
  have hlt (n : Nat) : (n : Rat) < 2 ^ ((n.log2 : Int) + 1) := by
    rw [← Nat.cast_succ, two_zpow_natCast]
    exact_mod_cast Nat.lt_log2_self
  have hnum : q.num.natAbs ≠ 0 := Int.natAbs_ne_zero.mpr (Rat.num_pos.mpr h).ne'
  exact exponent_spec (by norm_num) h (hge hnum) (hlt _) (hge q.den_nz) (hlt _)

/-- The exponent that leaves 53 bits in front of it, or the least one. -/
structure IsLastPlace (q : Rat) (e : Int) : Prop where
  least : -1074 ≤ e
  lt : |q| < 2 ^ (e + 53)
  ge : e = -1074 ∨ (2 : Rat) ^ (e + 52) ≤ |q|

theorem isLastPlace_lastPlace (q : Rat) : IsLastPlace q (lastPlace q) := by
  by_cases hzero : q = 0
  · rw [hzero, lastPlace, if_pos rfl]
    exact ⟨le_rfl, by rw [abs_zero]; exact two_zpow_pos _, .inl rfl⟩
  · obtain ⟨hle, hlt⟩ := floorLog2_spec (abs_pos.mpr hzero)
    rw [lastPlace, if_neg hzero, rat_abs_eq]
    refine ⟨by omega, hlt.trans_le (two_zpow_le (by omega)), ?_⟩
    by_cases hleast : floorLog2 |q| - 52 ≤ -1074
    · exact .inl (by omega)
    · exact .inr ((two_zpow_le (by omega)).trans hle)

theorem IsLastPlace.mono {a b : Rat} {e f : Int} (ha : IsLastPlace a e) (hb : IsLastPlace b f)
    (h : |a| ≤ |b|) : e ≤ f := by
  rcases ha.ge with hleast | hge
  · have := hb.least
    omega
  · have hpow := (hge.trans h).trans_lt hb.lt
    have := two_zpow_lt_iff.mp hpow
    omega

theorem IsLastPlace.unique {q : Rat} {e f : Int} (he : IsLastPlace q e) (hf : IsLastPlace q f) :
    e = f :=
  le_antisymm (he.mono hf le_rfl) (hf.mono he le_rfl)

theorem IsLastPlace.neg {q : Rat} {e : Int} (h : IsLastPlace q e) : IsLastPlace (-q) e :=
  ⟨h.least, by rw [abs_neg]; exact h.lt, by rw [abs_neg]; exact h.ge⟩

theorem lastPlace_neg (q : Rat) : lastPlace (-q) = lastPlace q :=
  (isLastPlace_lastPlace (-q)).unique (isLastPlace_lastPlace q).neg

theorem lastPlace_mono {a b : Rat} (h : |a| ≤ |b|) : lastPlace a ≤ lastPlace b :=
  (isLastPlace_lastPlace a).mono (isLastPlace_lastPlace b) h

/-! ### Rounded values -/

/-- What `q` is rounded to, if there were no greatest number. -/
def rounded (q : Rat) : Rat := nearestEven (q / 2 ^ lastPlace q) * 2 ^ lastPlace q

theorem rounded_neg (q : Rat) : rounded (-q) = -rounded q := by
  rw [rounded, rounded, lastPlace_neg, neg_div, nearestEven_neg]
  push_cast
  ring

/-- A multiple of a power of two that is not below the last place is not passed over. -/
theorem rounded_le {q : Rat} {m e : Int} (he : lastPlace q ≤ e) (h : q ≤ m * 2 ^ e) :
    rounded q ≤ m * 2 ^ e := by
  obtain ⟨k, hk⟩ := Int.eq_ofNat_of_zero_le (sub_nonneg.mpr he)
  have hsplit : (m : Rat) * 2 ^ e = ((m * (2 ^ k : Nat) : Int) : Rat) * 2 ^ lastPlace q := by
    rw [← intCast_mul_two_zpow, mul_assoc, ← two_zpow_add]
    congr 2
    omega
  rw [hsplit] at h ⊢
  refine mul_le_mul_of_nonneg_right ?_ (two_zpow_pos _).le
  have hnear := nearestEven_le ((div_le_iff₀ (two_zpow_pos _)).mpr h)
  exact_mod_cast hnear

theorem le_rounded {q : Rat} {m e : Int} (he : lastPlace q ≤ e) (h : m * 2 ^ e ≤ q) :
    m * 2 ^ e ≤ rounded q := by
  have hneg := rounded_le (q := -q) (m := -m) (e := e) (by rwa [lastPlace_neg])
    (by push_cast; linarith)
  rw [rounded_neg] at hneg
  push_cast at hneg
  linarith

theorem rounded_nonneg {q : Rat} (h : 0 ≤ q) : 0 ≤ rounded q := by
  have hle := le_rounded (m := 0) (le_refl (lastPlace q)) (by simpa using h)
  simpa using hle

theorem rounded_mono_of_nonneg {a b : Rat} (ha : 0 ≤ a) (h : a ≤ b) : rounded a ≤ rounded b := by
  have hlast : lastPlace a ≤ lastPlace b := by
    apply lastPlace_mono
    rwa [abs_of_nonneg ha, abs_of_nonneg (ha.trans h)]
  rcases hlast.eq_or_lt with hsame | hless
  · -- with one last place the nearest multiples are in order
    rw [rounded, rounded, hsame]
    apply mul_le_mul_of_nonneg_right _ (two_zpow_pos _).le
    exact_mod_cast nearestEven_mono (div_le_div_of_nonneg_right h (two_zpow_pos _).le)
  · -- else there is a power of two between them, which neither passes over
    have hleast := (isLastPlace_lastPlace a).least
    have hbelow : rounded a ≤ (1 : Int) * 2 ^ (lastPlace b + 52) := by
      apply rounded_le (by omega)
      have hlt := (isLastPlace_lastPlace a).lt
      rw [abs_of_nonneg ha] at hlt
      push_cast
      rw [one_mul]
      exact hlt.le.trans (two_zpow_le (by omega))
    have habove : (1 : Int) * 2 ^ (lastPlace b + 52) ≤ rounded b := by
      apply le_rounded (by omega)
      have hge := (isLastPlace_lastPlace b).ge.resolve_left (by omega)
      rw [abs_of_nonneg (ha.trans h)] at hge
      push_cast
      rwa [one_mul]
    exact hbelow.trans habove

theorem rounded_mono {a b : Rat} (h : a ≤ b) : rounded a ≤ rounded b := by
  rcases le_total 0 a with ha | ha
  · exact rounded_mono_of_nonneg ha h
  · rcases le_total 0 b with hb | hb
    · have hleft := rounded_nonneg (q := -a) (by linarith)
      have hright := rounded_nonneg hb
      rw [rounded_neg] at hleft
      linarith
    · have hneg := rounded_mono_of_nonneg (a := -b) (b := -a) (by linarith) (by linarith)
      rw [rounded_neg, rounded_neg] at hneg
      linarith

theorem abs_rounded (q : Rat) : |rounded q| = rounded |q| := by
  rcases le_total 0 q with h | h
  · rw [abs_of_nonneg h, abs_of_nonneg (rounded_nonneg h)]
  · have hneg := rounded_nonneg (q := -q) (by linarith)
    rw [abs_of_nonpos h, rounded_neg]
    rw [rounded_neg] at hneg
    exact abs_of_nonpos (by linarith)

/-! ### Numbers -/

theorem significandBound_cast : (significandBound : Rat) = 2 ^ (53 : Int) := by
  rw [significandBound_eq]
  exact (two_zpow_natCast 53).symm

theorem abs_intCast_mul_two_zpow (m e : Int) :
    |(m : Rat) * 2 ^ e| = (m.natAbs : Rat) * 2 ^ e := by
  rw [abs_mul, abs_of_pos (two_zpow_pos e), Nat.cast_natAbs, Int.cast_abs]

theorem lastPlace_le_of_natAbs_lt {m e : Int} (hm : m.natAbs < significandBound)
    (he : -1074 ≤ e) : lastPlace (m * 2 ^ e) ≤ e := by
  rcases (isLastPlace_lastPlace (m * 2 ^ e)).ge with hleast | hge
  · omega
  · have hlt : |(m : Rat) * 2 ^ e| < 2 ^ (53 + e) := by
      rw [abs_intCast_mul_two_zpow, two_zpow_add, ← significandBound_cast]
      exact mul_lt_mul_of_pos_right (by exact_mod_cast hm) (two_zpow_pos e)
    have := two_zpow_lt_iff.mp (hge.trans_lt hlt)
    omega

theorem rounded_of_natAbs_lt {m e : Int} (hm : m.natAbs < significandBound) (he : -1074 ≤ e) :
    rounded (m * 2 ^ e) = m * 2 ^ e := by
  have hlast := lastPlace_le_of_natAbs_lt hm he
  exact le_antisymm (rounded_le hlast le_rfl) (le_rounded hlast le_rfl)

theorem rounded_of_representable {q : Rat} (h : Representable q) : rounded q = q := by
  obtain ⟨m, e, rfl, hm, he, _⟩ := h
  exact rounded_of_natAbs_lt hm he

/-- An integer is rounded to an integer. -/
theorem exists_intCast_rounded (z : Int) : ∃ k : Int, rounded z = k := by
  by_cases hsmall : z.natAbs < significandBound
  · have hexact := rounded_of_natAbs_lt hsmall (e := 0) (by decide)
    rw [zpow_zero, mul_one] at hexact
    exact ⟨z, hexact⟩
  · -- its last place is in front of the point
    have hlarge : (2 : Rat) ^ (53 : Int) ≤ |(z : Rat)| := by
      rw [← significandBound_cast, ← Int.cast_abs, Int.abs_eq_natAbs]
      exact_mod_cast Nat.le_of_not_lt hsmall
    have hplace := two_zpow_lt_iff.mp (hlarge.trans_lt (isLastPlace_lastPlace z).lt)
    obtain ⟨k, hk⟩ := Int.eq_ofNat_of_zero_le (a := lastPlace z) (by omega)
    rw [rounded, hk, intCast_mul_two_zpow]
    exact ⟨_, rfl⟩

/-- One more than the exponents of numbers reach. -/
def magnitudeBound : Rat := 2 ^ (1024 : Int)

theorem abs_lt_of_representable {q : Rat} (h : Representable q) : |q| < magnitudeBound := by
  obtain ⟨m, e, rfl, hm, _, he⟩ := h
  have hsmall : (m.natAbs : Rat) < 2 ^ (53 : Int) := by
    rw [← significandBound_cast]
    exact_mod_cast hm
  calc |(m : Rat) * 2 ^ e| = (m.natAbs : Rat) * 2 ^ e := abs_intCast_mul_two_zpow m e
    _ < 2 ^ (53 : Int) * 2 ^ e := mul_lt_mul_of_pos_right hsmall (two_zpow_pos e)
    _ = 2 ^ (53 + e) := (two_zpow_add 53 e).symm
    _ ≤ magnitudeBound := two_zpow_le (by omega)

/-- The significand has at most 53 bits, or is the least of 54. -/
theorem natAbs_significand_le (q : Rat) :
    (nearestEven (q / 2 ^ lastPlace q)).natAbs ≤ significandBound := by
  apply natAbs_nearestEven_le
  rw [abs_div, abs_of_pos (two_zpow_pos _), div_le_iff₀ (two_zpow_pos _), significandBound_cast,
    ← two_zpow_add, add_comm]
  exact (isLastPlace_lastPlace q).lt.le

theorem le_natAbs_significand {q : Rat} (h : -1074 < lastPlace q) :
    2 ^ 52 ≤ (nearestEven (q / 2 ^ lastPlace q)).natAbs := by
  apply le_natAbs_nearestEven
  have hge := (isLastPlace_lastPlace q).ge.resolve_left (by omega)
  rw [abs_div, abs_of_pos (two_zpow_pos _), le_div_iff₀ (two_zpow_pos _), ← two_zpow_natCast,
    ← two_zpow_add, add_comm]
  exact hge

/-- The carry does not change what is rounded to. -/
theorem roundedParts_value (q : Rat) :
    ((roundedParts q).1 : Rat) * 2 ^ (roundedParts q).2 = rounded q := by
  simp only [roundedParts, rounded]
  split
  · rename_i hcarry
    have hbound := significandBound_eq
    have heven : nearestEven (q / 2 ^ lastPlace q) =
        nearestEven (q / 2 ^ lastPlace q) / 2 * 2 := by omega
    have hcast : (nearestEven (q / 2 ^ lastPlace q) : Rat) =
        (nearestEven (q / 2 ^ lastPlace q) / 2 : Int) * 2 := by exact_mod_cast heven
    rw [hcast, two_zpow_add, zpow_one]
    ring
  · rfl

theorem roundedParts_le (q : Rat) :
    (roundedParts q).1.natAbs < significandBound ∧ -1074 ≤ (roundedParts q).2 := by
  have hle := natAbs_significand_le q
  have hleast := (isLastPlace_lastPlace q).least
  have hbound := significandBound_eq
  simp only [roundedParts]
  split
  · exact ⟨by omega, by omega⟩
  · exact ⟨by omega, hleast⟩

theorem exponent_le_iff (q : Rat) : (roundedParts q).2 ≤ 971 ↔ |rounded q| < magnitudeBound := by
  obtain ⟨hsmall, hleast⟩ := roundedParts_le q
  constructor
  · intro he
    exact abs_lt_of_representable ⟨_, _, (roundedParts_value q).symm, hsmall, hleast, he⟩
  · intro hlt
    by_contra he
    have hlarge : 2 ^ 52 ≤ (roundedParts q).1.natAbs := by
      have hbound := significandBound_eq
      have hplace : (roundedParts q).2 ≤ lastPlace q + 1 := by
        simp only [roundedParts]
        split <;> simp
      have hsignificand := le_natAbs_significand (q := q) (by omega)
      simp only [roundedParts]
      split
      · simp only
        omega
      · exact hsignificand
    have hge : (2 : Rat) ^ ((52 : Nat) : Int) ≤ (roundedParts q).1.natAbs := by
      rw [two_zpow_natCast]
      exact_mod_cast hlarge
    have hbeyond : magnitudeBound ≤ |rounded q| := by
      rw [← roundedParts_value, abs_intCast_mul_two_zpow]
      calc magnitudeBound ≤ 2 ^ (((52 : Nat) : Int) + (roundedParts q).2) :=
            two_zpow_le (by push_cast; omega)
        _ = 2 ^ ((52 : Nat) : Int) * 2 ^ (roundedParts q).2 := two_zpow_add _ _
        _ ≤ _ := mul_le_mul_of_nonneg_right hge (two_zpow_pos _).le
    exact absurd hlt (not_lt.mpr hbeyond)

/-- A rational is rounded to a finite number exactly if this is not too great. -/
theorem ofRat_eq_finite {q : Rat} (h : |rounded q| < magnitudeBound) :
    ∃ hr, ofRat q = .finite (rounded q) hr := by
  obtain ⟨hsmall, hleast⟩ := roundedParts_le q
  have he := (exponent_le_iff q).mpr h
  have hvalue := roundedParts_value q
  refine ⟨⟨_, _, hvalue.symm, hsmall, hleast, he⟩, ?_⟩
  rw [ofRat]
  simp only [hvalue]
  exact dif_pos ⟨hsmall, hleast, he⟩

theorem ofRat_eq_infinite {q : Rat} (h : magnitudeBound ≤ |rounded q|) :
    ofRat q = .infinite (decide (q < 0)) := by
  rw [ofRat]
  exact dif_neg fun hparts => absurd ((exponent_le_iff q).mp hparts.2.2) (not_lt.mpr h)

/-- A number is not rounded. -/
theorem ofRat_of_representable {q : Rat} (h : Representable q) : ofRat q = .finite q h := by
  have hvalue := rounded_of_representable h
  have hlt := abs_lt_of_representable h
  rw [← hvalue] at hlt
  obtain ⟨hr, heq⟩ := ofRat_eq_finite hlt
  simp only [heq, hvalue]

/-- Numbers are multiples of their last place. -/
theorem exists_eq_mul_lastPlace {q : Rat} (h : Representable q) :
    ∃ m : Int, q = m * 2 ^ lastPlace q :=
  ⟨_, (rounded_of_representable h).symm⟩

/-- Numbers have 53 bits in front of their last place. -/
theorem abs_lt_mul_lastPlace (q : Rat) : |q| < 9007199254740992 * 2 ^ lastPlace q := by
  have hlt := (isLastPlace_lastPlace q).lt
  rw [two_zpow_add] at hlt
  norm_num at hlt
  linarith

/-- Numbers with the same last place are apart by it. -/
theorem le_mul_of_lastPlace_eq {a b : Rat} (ha : Representable a) (hb : Representable b)
    (hpos : 0 < b) (h : a < b) (hsame : lastPlace a = lastPlace b) :
    a ≤ b * (1 - 1 / 9007199254740992) := by
  obtain ⟨k, hk⟩ := exists_eq_mul_lastPlace ha
  obtain ⟨m, hm⟩ := exists_eq_mul_lastPlace hb
  have hplace := two_zpow_pos (lastPlace a)
  have hkm : k < m := by
    rw [hk, hm, hsame] at h
    exact_mod_cast lt_of_mul_lt_mul_right h (two_zpow_pos _).le
  have hstep : (k : Rat) + 1 ≤ m := by exact_mod_cast hkm
  have hapart : a + 2 ^ lastPlace a ≤ b := by
    calc a + 2 ^ lastPlace a = (k + 1) * 2 ^ lastPlace a := by rw [add_mul, ← hk, one_mul]
      _ ≤ m * 2 ^ lastPlace a := mul_le_mul_of_nonneg_right hstep hplace.le
      _ = b := by rw [hsame, ← hm]
  have hbits := abs_lt_mul_lastPlace b
  rw [abs_of_pos hpos, ← hsame] at hbits
  linarith

/-- The power of two below which a number is by its last place is not beyond those with a greater
last place. -/
theorem le_mul_of_lastPlace_lt {a b : Rat} (ha : Representable a) (hpos : 0 < b)
    (hless : lastPlace a < lastPlace b) : a ≤ b * (1 - 1 / 9007199254740992) := by
  obtain ⟨k, hk⟩ := exists_eq_mul_lastPlace ha
  have hplace := two_zpow_pos (lastPlace a)
  have hbits : k < 9007199254740992 := by
    have hscaled : (k : Rat) * 2 ^ lastPlace a < 9007199254740992 * 2 ^ lastPlace a := by
      rw [← hk]
      exact (le_abs_self a).trans_lt (abs_lt_mul_lastPlace a)
    exact_mod_cast lt_of_mul_lt_mul_right hscaled hplace.le
  have hstep : (k : Rat) ≤ 9007199254740992 - 1 := by
    have hle : k ≤ 9007199254740992 - 1 := by omega
    exact_mod_cast hle
  have hscaled := mul_le_mul_of_nonneg_right hstep hplace.le
  have hge := (isLastPlace_lastPlace b).ge.resolve_left
    (by have := (isLastPlace_lastPlace a).least; omega)
  have hshift : (2 : Rat) ^ (lastPlace a + 53) ≤ 2 ^ (lastPlace b + 52) := two_zpow_le (by omega)
  rw [abs_of_pos hpos] at hge
  rw [two_zpow_add] at hshift
  rw [← hk] at hscaled
  norm_num at hshift hge
  linarith

/-- Two numbers are at least a part in 2⁵³ of the greater one apart. -/
theorem le_mul_of_lt {a b : Rat} (ha : Representable a) (hb : Representable b) (hpos : 0 < b)
    (h : a < b) : a ≤ b * (1 - 1 / 9007199254740992) := by
  rcases le_total a 0 with hneg | hnonneg
  · exact hneg.trans (mul_nonneg hpos.le (by norm_num))
  · have hlast : lastPlace a ≤ lastPlace b := by
      apply lastPlace_mono
      rw [abs_of_nonneg hnonneg, abs_of_pos hpos]
      exact h.le
    rcases hlast.eq_or_lt with hsame | hless
    · exact le_mul_of_lastPlace_eq ha hb hpos h hsame
    · exact le_mul_of_lastPlace_lt ha hpos hless

end LiveProgress.Number
