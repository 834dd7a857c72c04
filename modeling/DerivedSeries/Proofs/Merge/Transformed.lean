import DerivedSeries.Proofs.Interpolation
import DerivedSeries.Proofs.Merge.Contribution
import DerivedSeries.Proofs.Windowed

/-!
# Views of changed samples

A view that changes samples shows them at the same times, and so contributes the changed sample
wherever its estimates change along (`View.contribution?_map`). Negation is such a change for views
of integers under an odd policy (`View.Negatable.contribution?_neg`): it makes no difference whether
samples are negated before or after what lies between them is estimated.
-/

namespace DerivedSeries

namespace View

/-- The view that changes every sample of a view. -/
def map (f : Sample → Sample) (v : View) : View where
  points := v.points.map fun p => ⟨p.timestamp, f p.value⟩
  ascending := by rw [List.pairwise_map]; exact v.ascending

section
variable (f : Sample → Sample) (v : View) (t : Timestamp)

@[simp] theorem points_map :
    (v.map f).points = v.points.map fun p => ⟨p.timestamp, f p.value⟩ := rfl

theorem times_map : (v.map f).times = v.times :=
  List.map_map

theorem sampleAt?_map : (v.map f).sampleAt? t = (v.sampleAt? t).map f := by
  unfold sampleAt? map
  rw [List.find?_map, Option.map_map, Option.map_map]
  rfl

theorem before?_map :
    (v.map f).before? t = (v.before? t).map fun p => ⟨p.timestamp, f p.value⟩ := by
  unfold before? map
  rw [List.filter_map, List.getLast?_map]
  rfl

theorem after?_map :
    (v.map f).after? t = (v.after? t).map fun p => ⟨p.timestamp, f p.value⟩ := by
  unfold after? map
  rw [List.find?_map]
  rfl

end

section
variable {fill : Option Interpolation} {v : View} {t : Timestamp}

theorem contribution?_map (f : Sample → Sample)
    (h : ∀ policy ∈ fill, ∀ a ∈ v.points, ∀ b ∈ v.points, a.timestamp < t → t < b.timestamp →
      policy.between ⟨a.timestamp, f a.value⟩ ⟨b.timestamp, f b.value⟩ t =
        f (policy.between a b t)) :
    (v.map f).contribution? fill t = (v.contribution? fill t).map f := by
  unfold contribution?
  rw [sampleAt?_map, before?_map, after?_map]
  cases v.sampleAt? t with
  | some s => rfl
  | none =>
    cases hfill : fill with
    | none => rfl
    | some policy =>
      cases ha : v.before? t with
      | none => rfl
      | some a =>
        cases hb : v.after? t with
        | none => rfl
        | some b =>
          obtain ⟨ha, hat⟩ := mem_of_before? ha
          obtain ⟨hb, htb⟩ := mem_of_after? hb
          exact congrArg some (h policy hfill a ha b hb hat htb)

/-! ## Integers -/

/-- Every sample of the view is an integer. -/
def Integral (v : View) : Prop := ∀ p ∈ v.points, p.value.isInt = true

/-- Integers contribute integers. -/
theorem Integral.contribution? (hv : v.Integral) {s : Sample}
    (h : v.contribution? fill t = some s) : ∃ n, s = .int n := by
  cases offers_of_contribution? h with
  | own hp => exact Sample.isInt_iff.1 (hv _ hp)
  | @estimate policy a b _ ha hb hat htb =>
    obtain ⟨m, hm⟩ := Sample.isInt_iff.1 (hv a ha)
    obtain ⟨n, hn⟩ := Sample.isInt_iff.1 (hv b hb)
    exact policy.between_int hm hn hat htb

/-- Every sample of the view is an integer that has an opposite. -/
def Negatable (v : View) : Prop := ∀ p ∈ v.points, ∃ n, n ≠ Int64.minValue ∧ p.value = .int n

theorem Negatable.contribution? (hv : v.Negatable) (hodd : ∀ policy ∈ fill, policy.Odd) {s : Sample}
    (h : v.contribution? fill t = some s) : ∃ n, n ≠ Int64.minValue ∧ s = .int n := by
  cases offers_of_contribution? h with
  | own hp => exact hv _ hp
  | estimate hpolicy ha hb hat htb =>
    obtain ⟨m, hm, ha⟩ := hv _ ha
    obtain ⟨n, hn, hb⟩ := hv _ hb
    obtain ⟨k, hk, hne⟩ :=
      Interpolation.between_ne_minValue (hodd _ hpolicy) ha hb hm hn hat htb
    exact ⟨k, hne, hk⟩

theorem Negatable.contribution?_neg (hv : v.Negatable) (hodd : ∀ policy ∈ fill, policy.Odd) :
    (v.map Sample.neg).contribution? fill t = (v.contribution? fill t).map Sample.neg := by
  apply contribution?_map
  intro policy hpolicy a ha b hb hat htb
  obtain ⟨m, hm, ha⟩ := hv a ha
  obtain ⟨n, hn, hb⟩ := hv b hb
  exact Interpolation.between_neg (hodd policy hpolicy) ha hb hm hn hat htb

end
end View

namespace Series

variable (w : Window) (s : Series)

/-- Every sample of the series in the window is an integer. -/
def IntegralIn : Prop := ∀ p ∈ s.within w, p.value.isInt = true

instance : Decidable (s.IntegralIn w) :=
  inferInstanceAs (Decidable (∀ p ∈ s.within w, p.value.isInt = true))

theorem view_eq_map (t : Transform) : s.view w t = (s.view w .identity).map t.apply := by
  unfold view View.ofMap View.map
  simp only [List.map_map]
  rfl

theorem times_view (t : Transform) : (s.view w t).times = (s.within w).map Point.timestamp := by
  rw [view_eq_map, View.times_map, View.times, points_view]

variable {w s}

theorem contains_of_mem_times {transform : Transform} {t : Timestamp}
    (h : t ∈ (s.view w transform).times) : w.contains t = true := by
  rw [times_view] at h
  obtain ⟨p, hp, rfl⟩ := List.mem_map.1 h
  exact (List.mem_filter.1 hp).2

theorem IntegralIn.view (h : s.IntegralIn w) : (s.view w .identity).Integral := by
  unfold View.Integral
  rw [points_view]
  exact h

theorem IntegralIn.negatable (h : s.IntegralIn w)
    (hmin : ∀ p ∈ s.within w, p.value ≠ .int Int64.minValue) :
    (s.view w .identity).Negatable := by
  unfold View.Negatable
  rw [points_view]
  intro p hp
  obtain ⟨n, hn⟩ := Sample.isInt_iff.1 (h p hp)
  exact ⟨n, fun he => hmin p hp (he ▸ hn), hn⟩

end Series
end DerivedSeries
