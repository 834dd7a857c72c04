import DerivedSeries.Interpolation
import DerivedSeries.Proofs.Binary64.Arithmetic

/-!
# The line between two doubles

The estimate between two doubles takes four operations, each of which rounds. Over a span of at most `2 ^ 52`
seconds the errors never carry it beyond a neighbour (`Steps.inside`): one step short of the whole span makes
up for two of the roundings (`offset_margin`), and where the rise was rounded up, nothing representable lies
between it and the exact one (`Steps.distance_le`). What may go wrong is that a step overflows although both
neighbours are finite, and then the estimate is an infinity (`lerp_doubles`, `lerp_outside`).
-/

namespace DerivedSeries.Interpolation

open Binary64

/-! ## Rounded steps -/

/-- The way from `y₀` along the line to `y₁`, with each step rounded: `r` is the rise over the whole span,
`a` its product with the offset, `d` the distance at the offset. -/
structure Steps (y₀ y₁ : ℚ) (offset span : ℤ) (r a d : ℚ) : Prop where
  rise : Nearest (y₁ - y₀) r
  area : Nearest (r * offset) a
  distance : Nearest (a / span) d

section
variable {y₀ y₁ r a d x : ℚ} {offset span : ℤ}

theorem Steps.neg (h : Steps y₀ y₁ offset span r a d) :
    Steps (-y₀) (-y₁) offset span (-r) (-a) (-d) where
  rise := by
    have hrise := h.rise.neg
    rwa [neg_sub, ← neg_sub_neg] at hrise
  area := by
    rw [neg_mul]
    exact h.area.neg
  distance := by
    rw [neg_div]
    exact h.distance.neg

/-- A step short of the whole span makes up for two roundings, if the span is not too long. -/
theorem offset_margin (hspan : offset < span) (hlong : span ≤ 2 ^ 52) :
    (offset * (1 + 1 / 2 ^ 53) * (1 + 1 / 2 ^ 53) : ℚ) < span := by
  have hspan : (offset + 1 : ℚ) ≤ span := by exact_mod_cast hspan
  have hlong : (span : ℚ) ≤ 2 ^ 52 := by exact_mod_cast hlong
  norm_num at hlong ⊢
  linarith

/-- Rounded twice, the distance is still a part of the rise. -/
theorem Steps.exists_ratio (h : Steps y₀ y₁ offset span r a d) (hr : 0 ≤ r) (hoffset : 0 < offset)
    (hspan : offset < span) (hlong : span ≤ 2 ^ 52) :
    0 ≤ a / span ∧ ∃ ratio < 1, a / span * (1 + 1 / 2 ^ 53) ≤ r * ratio := by
  have hoffset' : (0 : ℚ) < offset := Int.cast_pos.2 hoffset
  have hspan' : (0 : ℚ) < span := Int.cast_pos.2 (hoffset.trans hspan)
  have hexact : 0 ≤ r * offset := mul_nonneg hr hoffset'.le
  have herror := (abs_le.1 (h.area.error_of_onGrid (h.rise.representable.onGrid.mul_int offset))).2
  rw [abs_of_nonneg hexact] at herror
  refine ⟨div_nonneg (h.area.nonneg hexact) hspan'.le, offset * (1 + 1 / 2 ^ 53) * (1 + 1 / 2 ^ 53) / span,
    (div_lt_one hspan').2 (offset_margin hspan hlong), ?_⟩
  calc a / span * (1 + 1 / 2 ^ 53)
      ≤ r * offset * (1 + 1 / 2 ^ 53) / span * (1 + 1 / 2 ^ 53) :=
        mul_le_mul_of_nonneg_right (div_le_div_of_nonneg_right (by linarith) hspan'.le) (by norm_num)
    _ = r * (offset * (1 + 1 / 2 ^ 53) * (1 + 1 / 2 ^ 53) / span) := by ring

/-- On a line that rises, the distance is at most the rise, both rounded and exact. -/
theorem Steps.distance_le (h : Steps y₀ y₁ offset span r a d) (h₀ : Representable y₀)
    (h₁ : Representable y₁) (hy : y₀ ≤ y₁) (hoffset : 0 < offset) (hspan : offset < span)
    (hlong : span ≤ 2 ^ 52) : 0 ≤ d ∧ d ≤ r ∧ d ≤ y₁ - y₀ := by
  have hr : 0 ≤ r := h.rise.nonneg (sub_nonneg.2 hy)
  obtain ⟨hquot, ratio, hratio, hpart⟩ := h.exists_ratio hr hoffset hspan hlong
  have hd : d ≤ r := by
    have hmul := mul_le_mul_of_nonneg_left hratio.le hr
    exact h.distance.le_of_le h.rise.representable (by linarith)
  refine ⟨h.distance.nonneg hquot, hd, ?_⟩
  rcases le_or_gt r (y₁ - y₀) with hdown | hup
  · exact hd.trans hdown
  -- the rise was rounded up, so it is not tiny, and nothing representable is between it and the exact one
  have hlarge : 2 ^ (-1022 : ℤ) < y₁ - y₀ := by
    by_contra htiny
    have hsmall := (h₁.onGrid.sub h₀.onGrid).representable (by rw [abs_of_nonneg] <;> linarith)
    exact hup.ne' (h.rise.eq hsmall)
  rcases le_or_gt (a / span) (2 ^ (-1022 : ℤ)) with htiny | hnormal
  · exact (h.distance.le_of_le (representable_two_zpow (by norm_num)) htiny).trans hlarge.le
  · have herror := (abs_le.1 (h.distance.error (by rw [abs_of_nonneg hquot]; exact hnormal.le))).2
    rw [abs_of_nonneg hquot] at herror
    have hless : r * ratio < r * 1 := mul_lt_mul_of_pos_left hratio (by linarith)
    have hlt : d < r := by linarith
    by_contra hbeyond
    have hnear := h.rise.near d h.distance.representable
    rw [abs_of_nonneg (by linarith), abs_of_nonneg (by linarith)] at hnear
    linarith

/-- The sum of the first neighbour and the distance, rounded once more, is not beyond the second one. -/
theorem Steps.inside_of_le (h : Steps y₀ y₁ offset span r a d) (h₀ : Representable y₀)
    (h₁ : Representable y₁) (hx : Nearest (y₀ + d) x) (hy : y₀ ≤ y₁) (hoffset : 0 < offset)
    (hspan : offset < span) (hlong : span ≤ 2 ^ 52) : y₀ ≤ x ∧ x ≤ y₁ := by
  obtain ⟨hd, -, hle⟩ := h.distance_le h₀ h₁ hy hoffset hspan hlong
  exact ⟨hx.ge_of_ge h₀ (by linarith), hx.le_of_le h₁ (by linarith)⟩

theorem Steps.abs_distance_le (h : Steps y₀ y₁ offset span r a d) (h₀ : Representable y₀)
    (h₁ : Representable y₁) (hoffset : 0 < offset) (hspan : offset < span) (hlong : span ≤ 2 ^ 52) :
    |d| ≤ |r| := by
  rcases le_total y₀ y₁ with hy | hy
  · obtain ⟨hd, hle, -⟩ := h.distance_le h₀ h₁ hy hoffset hspan hlong
    exact abs_le_abs_of_nonneg hd hle
  · obtain ⟨hd, hle, -⟩ := h.neg.distance_le h₀.neg h₁.neg (neg_le_neg hy) hoffset hspan hlong
    rw [← abs_neg d, ← abs_neg r]
    exact abs_le_abs_of_nonneg hd hle

theorem Steps.inside (h : Steps y₀ y₁ offset span r a d) (h₀ : Representable y₀)
    (h₁ : Representable y₁) (hx : Nearest (y₀ + d) x) (hoffset : 0 < offset) (hspan : offset < span)
    (hlong : span ≤ 2 ^ 52) : y₀ ≤ x ∧ x ≤ y₁ ∨ y₁ ≤ x ∧ x ≤ y₀ := by
  rcases le_total y₀ y₁ with hy | hy
  · exact .inl (h.inside_of_le h₀ h₁ hx hy hoffset hspan hlong)
  · -- a line that falls is the opposite of one that rises
    have hx : Nearest (-y₀ + -d) (-x) := by
      rw [← neg_add]
      exact hx.neg
    have hneg := h.neg.inside_of_le h₀.neg h₁.neg hx (neg_le_neg hy) hoffset hspan hlong
    rw [neg_le_neg_iff, neg_le_neg_iff] at hneg
    exact .inr hneg.symm

end

/-! ## Between two points -/

/-- A finite double that is not outside the two. -/
structure Inside (y₀ y₁ x : Float) : Prop where
  finite : x.isFinite = true
  between : y₀ ≤ x ∧ x ≤ y₁ ∨ y₁ ≤ x ∧ x ≤ y₀

instance (y₀ y₁ x : Float) : Decidable (Inside y₀ y₁ x) :=
  decidable_of_iff (x.isFinite = true ∧ (y₀ ≤ x ∧ x ≤ y₁ ∨ y₁ ≤ x ∧ x ≤ y₀))
    ⟨fun h => ⟨h.1, h.2⟩, fun h => ⟨h.finite, h.between⟩⟩

/-- What is divided by the span on the way to the estimate is beyond the greatest double. -/
def Overflows (y₀ y₁ : Float) (offset : ℤ) : Prop :=
  ((y₁ - y₀) * ofInt offset).isInf = true

instance (y₀ y₁ : Float) (offset : ℤ) : Decidable (Overflows y₀ y₁ offset) :=
  inferInstanceAs (Decidable (_ = true))

section
variable {y₀ y₁ : Float} {q₀ q₁ : ℚ} {offset span : ℤ}

/-- An overflow carries on to the estimate. Without one, the estimate is made by rounded steps. -/
theorem lerpFloat_cases (h₀ : value? y₀ = some q₀) (h₁ : value? y₁ = some q₁) (hoffset : 0 < offset)
    (hspan : offset < span) (hlong : span ≤ 2 ^ 52) :
    Overflows y₀ y₁ offset ∧ (lerpFloat y₀ y₁ (ofInt offset) (ofInt span)).isInf = true ∨
      ¬ Overflows y₀ y₁ offset ∧ Inside y₀ y₁ (lerpFloat y₀ y₁ (ofInt offset) (ofInt span)) := by
  have ho := value?_ofInt_of_natAbs_lt (show offset.natAbs < 2 ^ 53 by omega)
  have hs := value?_ofInt_of_natAbs_lt (show span.natAbs < 2 ^ 53 by omega)
  have ho0 : (offset : ℚ) ≠ 0 := Int.cast_ne_zero.2 hoffset.ne'
  have hs0 : (span : ℚ) ≠ 0 := Int.cast_ne_zero.2 (hoffset.trans hspan).ne'
  have hinf (h : Overflows y₀ y₁ offset) : (lerpFloat y₀ y₁ (ofInt offset) (ofInt span)).isInf = true :=
    isInf_add h₀ (isInf_div h hs)
  obtain ⟨r, hr, ⟨hrlt, hrise⟩ | ⟨-, hrise⟩⟩ := yields_sub h₁ h₀
  · obtain ⟨a, ha, ⟨-, harea⟩ | ⟨-, harea⟩⟩ := yields_mul hrise ho
    · right
      refine ⟨fun h => not_isFinite_of_isInf h (isFinite_of_value? harea), ?_⟩
      have hy₀ := representable_of_value? h₀
      have hy₁ := representable_of_value? h₁
      obtain ⟨d, hd, hdistance⟩ := (yields_div harea hs hs0).value? fun d hd =>
        (Steps.abs_distance_le ⟨hr, ha, hd⟩ hy₀ hy₁ hoffset hspan hlong).trans_lt hrlt
      have hinside {x : ℚ} (hx : Nearest (q₀ + d) x) :=
        Steps.inside ⟨hr, ha, hd⟩ hy₀ hy₁ hx hoffset hspan hlong
      obtain ⟨x, hx, hestimate⟩ := (yields_add h₀ hdistance).value? fun x hx => by
        have hlt₀ := abs_lt.1 (abs_lt_of_value? h₀)
        have hlt₁ := abs_lt.1 (abs_lt_of_value? h₁)
        rw [abs_lt]
        rcases hinside hx with ⟨hlo, hhi⟩ | ⟨hlo, hhi⟩
        · exact ⟨hlt₀.1.trans_le hlo, hhi.trans_lt hlt₁.2⟩
        · exact ⟨hlt₁.1.trans_le hlo, hhi.trans_lt hlt₀.2⟩
      exact ⟨isFinite_of_value? hestimate, (hinside hx).imp
        (.imp (le_of_value?_le h₀ hestimate) (le_of_value?_le hestimate h₁))
        (.imp (le_of_value?_le h₁ hestimate) (le_of_value?_le hestimate h₀))⟩
    · exact .inl ⟨harea, hinf harea⟩
  · have harea := isInf_mul hrise ho ho0
    exact .inl ⟨harea, hinf harea⟩

/-- Two roundings do not carry a product of at most `2 ^ 1023` beyond the greatest double. -/
theorem not_overflows (h₀ : value? y₀ = some q₀) (h₁ : value? y₁ = some q₁) (hoffset : 0 < offset)
    (hshort : offset ≤ 2 ^ 52) (h : |q₁ - q₀| * offset ≤ 2 ^ (1023 : ℤ)) :
    ¬ Overflows y₀ y₁ offset := by
  have ho := value?_ofInt_of_natAbs_lt (show offset.natAbs < 2 ^ 53 by omega)
  have hone : (1 : ℚ) ≤ offset := by exact_mod_cast hoffset
  have hdouble : (2 : ℚ) ^ (1024 : ℤ) = 2 ^ (1023 : ℤ) * 2 := zpow_add_one₀ two_ne_zero 1023
  have hhalf : (0 : ℚ) < 2 ^ (1023 : ℤ) := by positivity
  generalize (2 : ℚ) ^ (1023 : ℤ) = half at *
  have hgrid := (representable_of_value? h₁).onGrid.sub (representable_of_value? h₀).onGrid
  have hrise {r : ℚ} (hr : Nearest (q₁ - q₀) r) : |r| ≤ |q₁ - q₀| * (1 + 1 / 2 ^ 53) := by
    have herror := hr.error_of_onGrid hgrid
    have htriangle := abs_sub_abs_le_abs_sub r (q₁ - q₀)
    linarith
  obtain ⟨r, hr, hvalue⟩ := (yields_sub h₁ h₀).value? fun r hr => by
    have hr := hrise hr
    have hle := le_mul_of_one_le_right (abs_nonneg (q₁ - q₀)) hone
    rw [hdouble]
    linarith only [hr, hle, h, hhalf]
  obtain ⟨a, ha, hvalue⟩ := (yields_mul hvalue ho).value? fun a ha => by
    have herror := ha.error_of_onGrid (hr.representable.onGrid.mul_int offset)
    have htriangle := abs_sub_abs_le_abs_sub a (r * offset)
    have hmul := mul_le_mul_of_nonneg_right (hrise hr) (zero_le_one.trans hone)
    rw [abs_mul, abs_of_pos (zero_lt_one.trans_le hone)] at herror htriangle
    rw [hdouble]
    linarith only [herror, htriangle, hmul, h, hhalf]
  exact fun h => not_isFinite_of_isInf h (isFinite_of_value? hvalue)

end

theorem between_lerp_float {a b : Point} {t : Timestamp} (hkind : ¬ (a.value.isInt ∧ b.value.isInt))
    (hspan : b.timestamp.toInt - a.timestamp.toInt ≠ 0) :
    lerp.between a b t = .float (lerpFloat a.value.toFloat b.value.toFloat
      (ofInt (t.toInt - a.timestamp.toInt)) (ofInt (b.timestamp.toInt - a.timestamp.toInt))) := by
  obtain ⟨ta, va⟩ := a
  obtain ⟨tb, vb⟩ := b
  unfold between lerpBetween
  cases va with
  | float u => exact if_neg hspan
  | int u =>
    cases vb with
    | float v => exact if_neg hspan
    | int v => exact absurd ⟨rfl, rfl⟩ hkind

/-- Between two finite samples that are not both integers, over a span of at most `2 ^ 52` seconds, the line
gives a finite double inside the two, just if no step overflows; else it gives an infinity. There is no
overflow while the exact difference of the two, times the offset, is at most `2 ^ 1023`. -/
theorem lerp_doubles {a b : Point} {t : Timestamp} {q₀ q₁ : ℚ} (hat : a.timestamp < t)
    (htb : t < b.timestamp) (hkind : ¬ (a.value.isInt ∧ b.value.isInt))
    (h₀ : value? a.value.toFloat = some q₀) (h₁ : value? b.value.toFloat = some q₁)
    (hlong : b.timestamp.toInt - a.timestamp.toInt ≤ 2 ^ 52) :
    ∃ x, lerp.between a b t = .float x ∧
      (Inside a.value.toFloat b.value.toFloat x ↔
        ¬ Overflows a.value.toFloat b.value.toFloat (t.toInt - a.timestamp.toInt)) ∧
      (Overflows a.value.toFloat b.value.toFloat (t.toInt - a.timestamp.toInt) → x.isInf = true) ∧
      (|q₁ - q₀| * (t.toInt - a.timestamp.toInt : ℤ) ≤ 2 ^ (1023 : ℤ) →
        Inside a.value.toFloat b.value.toFloat x) := by
  have hlt := Int64.lt_iff_toInt_lt.1 hat
  have hgt := Int64.lt_iff_toInt_lt.1 htb
  have hcases := lerpFloat_cases h₀ h₁ (show 0 < t.toInt - a.timestamp.toInt by omega)
    (show _ < b.timestamp.toInt - a.timestamp.toInt by omega) hlong
  refine ⟨_, between_lerp_float hkind (by omega), ?_, ?_, ?_⟩
  · rcases hcases with ⟨hover, hinf⟩ | ⟨hsafe, hinside⟩
    · exact ⟨fun h => absurd h.finite (not_isFinite_of_isInf hinf), fun h => absurd hover h⟩
    · exact ⟨fun _ => hsafe, fun _ => hinside⟩
  · rcases hcases with ⟨-, hinf⟩ | ⟨hsafe, -⟩
    · exact fun _ => hinf
    · exact fun h => absurd h hsafe
  · intro hproduct
    have hsafe := not_overflows h₀ h₁ (by omega) (by omega) hproduct
    exact (hcases.resolve_left fun h => hsafe h.1).2

/-- From the least integer up to a double near the greatest one. -/
theorem lerp_doubles_steep :
    value? (Sample.int Int64.minValue).toFloat = some ((-4503599627370496 : ℤ) * 2 ^ (11 : ℤ) : ℚ) ∧
      value? (.ofBits 0x7fd0000000000000) = some ((4503599627370496 : ℤ) * 2 ^ (970 : ℤ) : ℚ) ∧
      ∃ x, lerp.between ⟨-3, .int Int64.minValue⟩ ⟨4, .float (.ofBits 0x7fd0000000000000)⟩ (-2) = .float x ∧
        Inside (Sample.int Int64.minValue).toFloat (.ofBits 0x7fd0000000000000) x := by
  have h₀ : value? (Sample.int Int64.minValue).toFloat =
    some ((-4503599627370496 : ℤ) * 2 ^ (11 : ℤ) : ℚ) := rfl
  have h₁ : value? (.ofBits 0x7fd0000000000000) =
    some ((4503599627370496 : ℤ) * 2 ^ (970 : ℤ) : ℚ) := rfl
  obtain ⟨x, hx, hinside, -⟩ := lerp_doubles (a := ⟨-3, .int Int64.minValue⟩)
    (b := ⟨4, .float (.ofBits 0x7fd0000000000000)⟩) (t := -2) (by decide) (by decide) (by decide) h₀ h₁
    (by decide)
  exact ⟨h₀, h₁, x, hx, hinside.2 (by decide +kernel)⟩

/-- Halfway from the least double to the greatest, the rise is infinite, and so is the estimate. And a step
before the end of a span of `2 ^ 54` seconds, the offset is rounded up to the span, and the estimate to a zero
beyond the second neighbour. -/
theorem lerp_outside :
    (least.isFinite = true ∧ greatest.isFinite = true ∧
      ∃ x, lerp.between ⟨0, .float least⟩ ⟨2, .float greatest⟩ 1 = .float x ∧ ¬ Inside least greatest x) ∧
    (Float.isFinite (.ofBits 0x3c30000000000000) = true ∧
      ∃ x, lerp.between ⟨0, .int 1⟩ ⟨18014398509481984, .float (.ofBits 0x3c30000000000000)⟩
          18014398509481983 = .float x ∧
        ¬ Inside (Sample.int 1).toFloat (.ofBits 0x3c30000000000000) x) := by
  exact ⟨⟨by decide, by decide, infinity, by decide, by decide⟩, by decide, 0, by decide, by decide⟩

end DerivedSeries.Interpolation
