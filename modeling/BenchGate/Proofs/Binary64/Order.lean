import BenchGate.Proofs.Binary64.Rounding

/-!
# The order of computed numbers

Numbers are compared by their `key`, a signed count of units. The key of a computed number is the
`roundedKey` of the exact result, and that function is monotone and leaves grid points alone. So
whatever holds of the exact result up to a grid point holds of the computed one.

`Binary64.op_le_op` is the form in which this is used: an operation that rounds a monotone exact
result, and keeps the infinities, keeps the order. Subtracting a finite number, and multiplying
with or dividing by a positive one, are of that kind.
-/

namespace BenchGate

theorem unitsInOne_pos : 0 < unitsInOne := by
  unfold unitsInOne
  apply Nat.two_pow_pos

theorem unitsAtTop_pos : 0 < unitsAtTop := by
  unfold unitsAtTop
  apply Nat.two_pow_pos

/-! ## Rounding signed counts -/

/-- A quotient of units after rounding, where what is past the top counts as the top. -/
def roundedUnits (n d : Nat) : Nat := min (toGrid n d) unitsAtTop

/-- The same of a signed quotient. -/
def roundedKey (n : Int) (d : Nat) : Int :=
  if n < 0 then -(roundedUnits n.natAbs d : Int) else roundedUnits n.natAbs d

theorem roundedUnits_mono {n d n' d' : Nat} (hd : 0 < d) (hd' : 0 < d') (h : n * d' ≤ n' * d) :
    roundedUnits n d ≤ roundedUnits n' d' := by
  have := toGrid_mono hd hd' h
  unfold roundedUnits
  omega

theorem roundedUnits_zero (d : Nat) : roundedUnits 0 d = 0 := by
  unfold roundedUnits
  rw [toGrid_zero, Nat.zero_min]

theorem roundedUnits_mul {u : Nat} (hu : IsGridPoint u) (htop : u ≤ unitsAtTop) {d : Nat}
    (hd : 0 < d) : roundedUnits (u * d) d = u := by
  unfold roundedUnits
  rw [toGrid_mul hu hd]
  exact Nat.min_eq_left htop

theorem roundedKey_natCast (n d : Nat) : roundedKey n d = roundedUnits n d := by
  unfold roundedKey
  rw [if_neg (by omega), Int.natAbs_natCast]

theorem roundedKey_neg (n : Int) (d : Nat) : roundedKey (-n) d = -roundedKey n d := by
  unfold roundedKey
  rw [Int.natAbs_neg]
  rcases Int.lt_trichotomy n 0 with h | h | h
  · rw [if_neg (by omega), if_pos h, Int.neg_neg]
  · rw [h]
    simp [roundedUnits_zero]
  · rw [if_pos (by omega), if_neg (by omega)]

/-- **Rounding signed counts is monotone**, whatever the two denominators are. -/
theorem roundedKey_mono_mul {a b : Int} {d d' : Nat} (hd : 0 < d) (hd' : 0 < d')
    (h : a * d' ≤ b * d) : roundedKey a d ≤ roundedKey b d' := by
  have hd0 : (0 : Int) < d := Int.ofNat_lt.mpr hd
  have hd0' : (0 : Int) < d' := Int.ofNat_lt.mpr hd'
  unfold roundedKey
  split
  · rename_i ha
    split
    · -- below zero the order of the magnitudes is the other one
      rename_i hb
      refine Int.neg_le_neg (Int.ofNat_le.mpr (roundedUnits_mono hd' hd (Int.ofNat_le.mp ?_)))
      rw [Int.natCast_mul, Int.natCast_mul, Int.ofNat_natAbs_of_nonpos (Int.le_of_lt ha),
        Int.ofNat_natAbs_of_nonpos (Int.le_of_lt hb), Int.neg_mul, Int.neg_mul]
      exact Int.neg_le_neg h
    · omega
  · rename_i ha
    have ha0 : 0 ≤ a * d' := Int.mul_nonneg (Int.not_lt.mp ha) (Int.le_of_lt hd0')
    have hb : ¬ b < 0 := fun hb => by
      have := Int.mul_neg_of_neg_of_pos hb hd0
      omega
    rw [if_neg hb]
    refine Int.ofNat_le.mpr (roundedUnits_mono hd hd' (Int.ofNat_le.mp ?_))
    rwa [Int.natCast_mul, Int.natCast_mul, Int.natAbs_of_nonneg (Int.not_lt.mp ha),
      Int.natAbs_of_nonneg (Int.not_lt.mp hb)]

theorem roundedKey_mono {a b : Int} {d : Nat} (hd : 0 < d) (h : a ≤ b) :
    roundedKey a d ≤ roundedKey b d :=
  roundedKey_mono_mul hd hd (Int.mul_le_mul_of_nonneg_right h (Int.natCast_nonneg d))

/-- Grid points are not rounded. -/
theorem roundedKey_mul {u : Int} (hu : IsGridPoint u.natAbs) (htop : u.natAbs ≤ unitsAtTop)
    {d : Nat} (hd : 0 < d) : roundedKey (u * d) d = u := by
  rcases Int.le_total 0 u with h | h
  · obtain ⟨k, rfl⟩ := Int.eq_ofNat_of_zero_le h
    rw [Int.natAbs_natCast] at hu htop
    rw [← Int.natCast_mul, roundedKey_natCast, roundedUnits_mul hu htop hd]
  · obtain ⟨k, hk⟩ := Int.eq_ofNat_of_zero_le (Int.neg_nonneg_of_nonpos h)
    obtain rfl : u = -(k : Int) := by omega
    rw [Int.natAbs_neg, Int.natAbs_natCast] at hu htop
    rw [Int.neg_mul, roundedKey_neg, ← Int.natCast_mul, roundedKey_natCast,
      roundedUnits_mul hu htop hd]

/-- A quotient up to a grid point is not rounded past it. -/
theorem roundedKey_le {n u : Int} (hu : IsGridPoint u.natAbs) (htop : u.natAbs ≤ unitsAtTop)
    {d : Nat} (hd : 0 < d) (h : n ≤ u * d) : roundedKey n d ≤ u := by
  have := roundedKey_mono hd h
  rwa [roundedKey_mul hu htop hd] at this

theorem le_roundedKey {n u : Int} (hu : IsGridPoint u.natAbs) (htop : u.natAbs ≤ unitsAtTop)
    {d : Nat} (hd : 0 < d) (h : u * d ≤ n) : u ≤ roundedKey n d := by
  have := roundedKey_mono hd h
  rwa [roundedKey_mul hu htop hd] at this

theorem roundedKey_nonneg {n : Int} {d : Nat} (h : 0 ≤ n) : 0 ≤ roundedKey n d := by
  unfold roundedKey
  rw [if_neg (by omega)]
  exact Int.natCast_nonneg _

namespace Binary64

/-! ## Keys -/

theorem le_iff {x y : Binary64} : x ≤ y ↔ x ≠ nan ∧ y ≠ nan ∧ x.key ≤ y.key := Iff.rfl

theorem lt_iff {x y : Binary64} : x < y ↔ x ≠ nan ∧ y ≠ nan ∧ x.key < y.key := Iff.rfl

theorem le_refl {x : Binary64} (h : x ≠ nan) : x ≤ x := ⟨h, h, Int.le_refl _⟩

theorem le_of_below {x y : Binary64} (h : x < y) : x ≤ y := ⟨h.1, h.2.1, Int.le_of_lt h.2.2⟩

theorem le_trans {x y z : Binary64} (hxy : x ≤ y) (hyz : y ≤ z) : x ≤ z :=
  ⟨hxy.1, hyz.2.1, Int.le_trans hxy.2.2 hyz.2.2⟩

/-- Among numbers, one is not above another exactly when it is at most the other. -/
theorem not_lt_iff {x y : Binary64} (hx : x ≠ nan) (hy : y ≠ nan) : ¬ x < y ↔ y ≤ x := by
  rw [le_iff, lt_iff]
  constructor
  · intro h
    exact ⟨hy, hx, Int.not_lt.mp fun hk => h ⟨hx, hy, hk⟩⟩
  · intro h hk
    exact Int.not_lt.mpr h.2.2 hk.2.2

theorem isFinite_iff {x : Binary64} :
    x.isFinite = true ↔ ∃ s m, x = finite s m := by
  cases x with
  | nan => simp [isFinite]
  | infinity s => simp [isFinite]
  | finite s m => simp [isFinite]

theorem ne_nan_of_isFinite {x : Binary64} (h : x.isFinite = true) : x ≠ nan := by
  rintro rfl
  exact Bool.noConfusion h

theorem key_infinity (s : Bool) :
    (infinity s).key = if s then -(unitsAtTop : Int) else unitsAtTop := rfl

theorem key_finite (s : Bool) (m : Magnitude) :
    (finite s m).key = if s then -(m.units : Int) else m.units := rfl

theorem abs_key_infinity (s : Bool) : (infinity s).key.natAbs = unitsAtTop := by
  rw [key_infinity]
  split <;> omega

theorem abs_key_finite (s : Bool) (m : Magnitude) : (finite s m).key.natAbs = m.units := by
  rw [key_finite]
  split <;> omega

theorem abs_key_finite_lt (s : Bool) (m : Magnitude) : (finite s m).key.natAbs < unitsAtTop := by
  rw [abs_key_finite]
  exact m.onGrid.1

theorem abs_key_le_top (x : Binary64) : x.key.natAbs ≤ unitsAtTop := by
  cases x with
  | nan => exact Nat.zero_le _
  | infinity s => exact Nat.le_of_eq (abs_key_infinity s)
  | finite s m => exact Nat.le_of_lt (abs_key_finite_lt s m)

theorem abs_key_lt_top {x : Binary64} (h : x.isFinite = true) : x.key.natAbs < unitsAtTop := by
  obtain ⟨s, m, rfl⟩ := isFinite_iff.mp h
  exact abs_key_finite_lt s m

theorem isFinite_of_abs_key_lt {x : Binary64} (hx : x ≠ nan) (h : x.key.natAbs < unitsAtTop) :
    x.isFinite = true := by
  cases x with
  | nan => exact absurd rfl hx
  | infinity s => exact absurd (abs_key_infinity s) (Nat.ne_of_lt h)
  | finite s m => rfl

/-- The keys of finite numbers are grid points. -/
theorem isGridPoint_key {x : Binary64} (h : x.isFinite = true) : IsGridPoint x.key.natAbs := by
  obtain ⟨s, m, rfl⟩ := isFinite_iff.mp h
  rw [abs_key_finite]
  exact m.onGrid.isGridPoint

/-- Numbers apart from zero are told apart by their keys. -/
theorem eq_of_key_eq {x y : Binary64} (hx : x ≠ nan) (hy : y ≠ nan) (h : x.key = y.key)
    (h0 : x.key ≠ 0) : x = y := by
  have htop := unitsAtTop_pos
  cases x with
  | nan => exact absurd rfl hx
  | infinity s =>
      -- no finite key is as far out as that of an infinity
      cases y with
      | nan => exact absurd rfl hy
      | infinity t =>
          rw [key_infinity, key_infinity] at h
          cases s <;> cases t
          · rfl
          · simp only [if_true, Bool.false_eq_true, if_false] at h
            omega
          · simp only [if_true, Bool.false_eq_true, if_false] at h
            omega
          · rfl
      | finite t m =>
          have hlt := abs_key_finite_lt t m
          rw [← h, abs_key_infinity] at hlt
          exact absurd hlt (Nat.lt_irrefl _)
  | finite s m =>
      cases y with
      | nan => exact absurd rfl hy
      | infinity t =>
          have hlt := abs_key_finite_lt s m
          rw [h, abs_key_infinity] at hlt
          exact absurd hlt (Nat.lt_irrefl _)
      | finite t m' =>
          rw [key_finite] at h0
          rw [key_finite, key_finite] at h
          obtain ⟨u, hu⟩ := m
          obtain ⟨u', hu'⟩ := m'
          -- signs that differ put keys on the two sides of zero
          have hs : s = t := by cases s <;> cases t <;> simp at h h0 ⊢ <;> omega
          have hu : u = u' := by cases s <;> cases t <;> simp at h h0 <;> omega
          subst hs hu
          rfl

/-- Being at the top of the order is being the positive infinity. -/
theorem eq_infinity_of_top_le {x : Binary64} (h : (unitsAtTop : Int) ≤ x.key) :
    x = infinity false := by
  have htop := unitsAtTop_pos
  cases x with
  | nan =>
      have hzero : (unitsAtTop : Int) ≤ 0 := h
      omega
  | infinity s =>
      cases s with
      | false => rfl
      | true =>
          have hneg : (unitsAtTop : Int) ≤ -(unitsAtTop : Int) := h
          omega
  | finite s m =>
      have hlt := abs_key_finite_lt s m
      omega

/-! ## Rounded results -/

theorem ofUnits_ne_nan (s : Bool) (n d : Nat) : ofUnits s n d ≠ nan := by
  unfold ofUnits
  split <;> simp

theorem key_ofUnits (s : Bool) (n d : Nat) :
    (ofUnits s n d).key = if s then -(roundedUnits n d : Int) else roundedUnits n d := by
  unfold ofUnits roundedUnits
  split
  · rename_i h
    rw [Nat.min_eq_left (Nat.le_of_lt h)]
    rfl
  · rename_i h
    rw [Nat.min_eq_right (Nat.not_lt.mp h)]
    rfl

/-- The key of a rounded result is the rounded key of the exact one. -/
theorem key_ofUnits_signed (s : Bool) (n d : Nat) :
    (ofUnits s n d).key = roundedKey (if s then -(n : Int) else n) d := by
  rw [key_ofUnits]
  cases s with
  | false => simp [roundedKey_natCast]
  | true => simp [roundedKey_neg, roundedKey_natCast]

/-- Results that round to one grid point are the same number. -/
theorem ofUnits_congr {s : Bool} {n d n' d' : Nat} (h : toGrid n d = toGrid n' d') :
    ofUnits s n d = ofUnits s n' d' := by
  unfold ofUnits
  by_cases ht : toGrid n d < unitsAtTop
  · rw [dif_pos ht, dif_pos (h ▸ ht)]
    simp [h]
  · rw [dif_neg ht, dif_neg (h ▸ ht)]

theorem key_zero (s : Bool) : (zero s).key = 0 := by
  cases s <;> rfl

theorem neg_ne_nan {x : Binary64} (h : x ≠ nan) : -x ≠ nan := by
  cases x with
  | nan => exact absurd rfl h
  | infinity s => exact Binary64.noConfusion
  | finite s m => exact Binary64.noConfusion

theorem isFinite_neg {x : Binary64} (h : x.isFinite = true) : (-x).isFinite = true := by
  obtain ⟨s, m, rfl⟩ := isFinite_iff.mp h
  rfl

theorem key_neg (x : Binary64) : (-x).key = -x.key := by
  change (neg x).key = -x.key
  cases x with
  | nan => rfl
  | infinity s =>
      cases s with
      | false => rfl
      | true => exact (Int.neg_neg _).symm
  | finite s m =>
      cases s with
      | false => rfl
      | true => exact (Int.neg_neg _).symm

theorem add_finite {x y : Binary64} (hx : x.isFinite = true) (hy : y.isFinite = true) :
    x + y ≠ nan ∧ (x + y).key = roundedKey (x.key + y.key) 1 := by
  obtain ⟨s, m, rfl⟩ := isFinite_iff.mp hx
  obtain ⟨t, m', rfl⟩ := isFinite_iff.mp hy
  change add (finite s m) (finite t m') ≠ nan ∧ (add (finite s m) (finite t m')).key
    = roundedKey (signedUnits s m + signedUnits t m') 1
  unfold add
  dsimp only
  split
  · -- a sum of zero has a sign of its own, but its key is zero
    rename_i h
    rw [h, key_zero]
    refine ⟨Binary64.noConfusion, ?_⟩
    simp [roundedKey, roundedUnits_zero]
  · refine ⟨ofUnits_ne_nan _ _ _, ?_⟩
    rw [key_ofUnits_signed]
    congr 1
    split <;> rename_i h <;> simp only [decide_eq_true_eq] at h <;> omega

theorem sub_finite {x y : Binary64} (hx : x.isFinite = true) (hy : y.isFinite = true) :
    x - y ≠ nan ∧ (x - y).key = roundedKey (x.key - y.key) 1 := by
  have := add_finite hx (isFinite_neg hy)
  rw [key_neg] at this
  exact this

theorem mul_finite {x y : Binary64} (hx : x.isFinite = true) (hy : y.isFinite = true) :
    x * y ≠ nan ∧ (x * y).key = roundedKey (x.key * y.key) unitsInOne := by
  obtain ⟨s, m, rfl⟩ := isFinite_iff.mp hx
  obtain ⟨t, m', rfl⟩ := isFinite_iff.mp hy
  have hmul : (finite s m * finite t m' : Binary64)
      = ofUnits (s != t) (m.units * m'.units) unitsInOne := by
    change mul (finite s m) (finite t m') = _
    rw [mul]
  have hkey : (if s != t then -((m.units * m'.units : Nat) : Int) else (m.units * m'.units : Nat))
      = (finite s m).key * (finite t m').key := by
    rw [key_finite, key_finite]
    cases s <;> cases t
    · simp only [bne_self_eq_false, Bool.false_eq_true, if_false, Int.natCast_mul]
    · simp only [Bool.bne_true, Bool.not_false, Bool.false_eq_true, if_true, if_false,
        Int.natCast_mul, Int.mul_neg]
    · simp only [Bool.bne_false, Bool.false_eq_true, if_true, if_false, Int.natCast_mul,
        Int.neg_mul]
    · simp only [bne_self_eq_false, Bool.false_eq_true, if_true, if_false, Int.natCast_mul,
        Int.neg_mul_neg]
  rw [hmul, key_ofUnits_signed, hkey]
  exact ⟨ofUnits_ne_nan _ _ _, rfl⟩

/-- A finite number above zero is a magnitude without a sign. -/
theorem exists_magnitude {x : Binary64} (hx : x.isFinite = true) (h0 : 0 < x.key) :
    ∃ m : Magnitude, x = finite false m ∧ 0 < m.units ∧ x.key = m.units := by
  obtain ⟨s, m, rfl⟩ := isFinite_iff.mp hx
  cases s with
  | false => exact ⟨m, rfl, by simpa [key, signedUnits] using h0, rfl⟩
  | true =>
      exfalso
      rw [key_finite, if_pos rfl] at h0
      omega

/-- A quotient by a magnitude without a sign rounds the quotient of the units. -/
theorem finite_div_finite (s : Bool) (m : Magnitude) {m' : Magnitude} (h0 : 0 < m'.units) :
    (finite s m / finite false m' : Binary64) = ofUnits s (m.units * unitsInOne) m'.units := by
  change div (finite s m) (finite false m') = _
  unfold div
  dsimp only
  rw [if_neg (Nat.ne_of_gt h0), Bool.bne_false]

theorem div_finite {x y : Binary64} (hx : x.isFinite = true) (hy : y.isFinite = true)
    (h0 : 0 < y.key) :
    x / y ≠ nan ∧ (x / y).key = roundedKey (x.key * unitsInOne) y.key.natAbs := by
  obtain ⟨s, m, rfl⟩ := isFinite_iff.mp hx
  obtain ⟨m', rfl, hpos, hkey⟩ := exists_magnitude hy h0
  rw [finite_div_finite s m hpos, key_ofUnits_signed, hkey, Int.natAbs_natCast]
  refine ⟨ofUnits_ne_nan _ _ _, ?_⟩
  congr 1
  cases s with
  | false => rw [if_neg (by decide)]; rfl
  | true => rw [if_pos rfl, Int.natCast_mul, ← Int.neg_mul]; rfl

/-! ## Operations that keep the order -/

/-- **An operation that rounds a monotone result and keeps the infinities keeps the order.** -/
theorem op_le_op (op : Binary64 → Binary64) (exact : Int → Int) {d : Nat} (hd : 0 < d)
    (hexact : ∀ a b, a ≤ b → exact a ≤ exact b)
    (hfin : ∀ x, x.isFinite = true → op x ≠ nan ∧ (op x).key = roundedKey (exact x.key) d)
    (hinf : ∀ s, op (infinity s) = infinity s) {x y : Binary64} (h : x ≤ y) : op x ≤ op y := by
  have ne_nan : ∀ z, z ≠ nan → op z ≠ nan := by
    intro z hz
    cases z with
    | nan => exact absurd rfl hz
    | infinity s => rw [hinf]; exact Binary64.noConfusion
    | finite s m => exact (hfin _ rfl).1
  have below : ∀ z : Binary64, -(unitsAtTop : Int) ≤ z.key ∧ z.key ≤ unitsAtTop := by
    intro z
    have := abs_key_le_top z
    omega
  refine ⟨ne_nan x h.1, ne_nan y h.2.1, ?_⟩
  cases x with
  | nan => exact absurd rfl h.1
  | infinity s =>
      cases s with
      | true => rw [hinf]; exact (below _).1
      | false =>
          -- nothing else is above the positive infinity
          obtain rfl := eq_infinity_of_top_le (x := y) h.2.2
          exact Int.le_refl _
  | finite s m =>
      cases y with
      | nan => exact absurd rfl h.2.1
      | infinity t =>
          cases t with
          | true =>
              exfalso
              have hlt := abs_key_finite_lt s m
              have hle : (finite s m).key ≤ -(unitsAtTop : Int) := h.2.2
              omega
          | false => rw [hinf]; exact (below _).2
      | finite t m' =>
          rw [(hfin _ rfl).2, (hfin _ rfl).2]
          exact roundedKey_mono hd (hexact _ _ h.2.2)

theorem sub_le_sub_right {x y b : Binary64} (h : x ≤ y) (hb : b.isFinite = true) :
    x - b ≤ y - b := by
  refine op_le_op (· - b) (· - b.key) Nat.one_pos
    (fun _ _ hab => Int.sub_le_sub_right hab _) (fun x hx => sub_finite hx hb) (fun s => ?_) h
  obtain ⟨t, m, rfl⟩ := isFinite_iff.mp hb
  rfl

theorem div_le_div_right {x y b : Binary64} (h : x ≤ y) (hb : b.isFinite = true)
    (h0 : 0 < b.key) : x / b ≤ y / b := by
  refine op_le_op (· / b) (· * unitsInOne) (d := b.key.natAbs) (by omega)
    (fun _ _ hab => Int.mul_le_mul_of_nonneg_right hab (Int.natCast_nonneg _))
    (fun x hx => div_finite hx hb h0) (fun s => ?_) h
  obtain ⟨m, rfl, -, -⟩ := exists_magnitude hb h0
  cases s <;> rfl

theorem mul_le_mul_right {x y b : Binary64} (h : x ≤ y) (hb : b.isFinite = true)
    (h0 : 0 < b.key) : x * b ≤ y * b := by
  refine op_le_op (· * b) (· * b.key) unitsInOne_pos
    (fun _ _ hab => Int.mul_le_mul_of_nonneg_right hab (Int.le_of_lt h0))
    (fun x hx => mul_finite hx hb) (fun s => ?_) h
  obtain ⟨m, rfl, hpos, -⟩ := exists_magnitude hb h0
  change mul (infinity s) (finite false m) = _
  unfold mul
  dsimp only
  rw [if_neg (by omega)]
  cases s <;> rfl

end Binary64

end BenchGate
