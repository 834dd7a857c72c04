import DerivedSeries.Proofs.Acceptance
import DerivedSeries.Proofs.Merge.Transformed

/-!
# Inverted windows

Whether a window is refused is decided in whole seconds. A window whose start second is after its end second
is refused by every view, so by every function that looks at a series through one (`Function.rejects_evaluate`).
An inverted window whose bounds are cut to the same second passes for one without times
(`Window.refused_iff`).
-/

namespace DerivedSeries

/-- A result is the refusal of an invalid argument. -/
def Rejects {α : Type} (result : Except Error α) : Prop :=
  ∃ e, result = .error e ∧ e.kind = .invalidArgument

/-- With these arguments, the function looks at a series through a window. -/
def Function.LooksAt (f : Function) (input : Input) (params : List String) : Prop :=
  match f with
  | sum | multiply => 0 < input.size
  | movingAverage => 0 < input.size ∧ ∃ span, Span.ofParams params = .ok span
  | difference | divide => ∃ x y, Combine.operands input = .ok (x, y)
  | highest _ => ∃ k, Select.count params = .ok k ∧ k < input.size
  | absolute | scale => False

namespace Window

/-- Whatever looks through the window is refused. -/
structure Refused (w : Window) : Prop where
  view : ∀ (transform : Transform) (s : Series), Rejects (View.ofSeries w transform s)
  function : ∀ (f : Function) (c : Config) (input : Input) (params : List String),
    f.LooksAt input params → Rejects (f.evaluate c w input params).result

/-- Whatever looks through the window sees nothing there, and is content. -/
structure Vacant (w : Window) : Prop where
  view : ∀ (transform : Transform) (s : Series),
    ∃ v, View.ofSeries w transform s = .ok v ∧ v.points = []
  function : ∀ (f : Function) (c : Config) (input : Input) (params : List String),
    f.LooksAt input params → ∃ out, (f.evaluate c w input params).result = .ok out

end Window

variable {w : Window} {input : Input} {params : List String}

namespace Combine

theorem rejects_all {σ : Type} (a : Aggregator σ) (c : Config) (h : w.stop < w.start)
    (hpos : 0 < input.size) : Rejects (all a c w input).result := by
  obtain ⟨s, ss, hs⟩ := List.exists_cons_of_length_pos hpos
  exact ⟨_, result_all_of_lt a h hs, rfl⟩

theorem rejects_smooth {span : Span} (c : Config) (hspan : Span.ofParams params = .ok span)
    (h : w.stop < w.start) (hpos : 0 < input.size) : Rejects (smooth c w input params).result := by
  obtain ⟨s, ss, hs⟩ := List.exists_cons_of_length_pos hpos
  exact ⟨_, result_smooth_of_lt hspan h hs, rfl⟩

theorem rejects_pair {σ : Type} {x y : Series} (a : Aggregator σ) (transform : Transform)
    (c : Config) (hops : operands input = .ok (x, y)) (h : w.stop < w.start) :
    Rejects (pair a transform c w input).result :=
  ⟨_, result_pair_inverted a transform hops h, rfl⟩

end Combine

namespace Function

/-- Every function that looks through a window refuses one whose seconds are out of order. -/
theorem rejects_evaluate (h : w.stop < w.start) {f : Function} (c : Config)
    (hlooks : f.LooksAt input params) : Rejects (f.evaluate c w input params).result := by
  cases f with
  | movingAverage =>
    obtain ⟨hpos, span, hspan⟩ := hlooks
    exact Combine.rejects_smooth c hspan h hpos
  | highest criterion =>
    obtain ⟨k, hk, hlt⟩ := hlooks
    exact Select.highest_of_lt hk hlt c h
  | sum => exact Combine.rejects_all .sum c h hlooks
  | multiply => exact Combine.rejects_all .multiply c h hlooks
  | difference =>
    obtain ⟨x, y, hops⟩ := hlooks
    exact Combine.rejects_pair .sum .negate c hops h
  | divide =>
    obtain ⟨x, y, hops⟩ := hlooks
    exact Combine.rejects_pair .multiply .reciprocal c hops h
  | absolute => exact hlooks.elim
  | scale => exact hlooks.elim

theorem LooksAt.accepts {f : Function} (h : f.LooksAt input params) : f.Accepts input params := by
  have hne (hpos : 0 < input.size) : input ≠ [] := by
    rintro rfl
    cases hpos
  cases f with
  | movingAverage =>
    obtain ⟨-, span, hspan⟩ := h
    exact .inr ⟨span, Span.ofParams_eq_ok_iff.1 hspan⟩
  | highest criterion =>
    obtain ⟨k, hk, hlt⟩ := h
    exact ⟨Nat.zero_lt_of_lt hlt, k, Select.count_eq_ok_iff.1 hk⟩
  | sum => exact hne h
  | multiply => exact hne h
  | difference =>
    obtain ⟨x, y, hops⟩ := h
    exact ⟨x, y, Combine.operands_eq_ok_iff.1 hops⟩
  | divide =>
    obtain ⟨x, y, hops⟩ := h
    exact ⟨x, y, Combine.operands_eq_ok_iff.1 hops⟩
  | absolute => exact h.elim
  | scale => exact h.elim

end Function

namespace Window

theorem refused_of_lt (h : w.stop < w.start) : w.Refused where
  view transform s := ⟨_, View.ofSeries_of_lt h transform s, rfl⟩
  function _ c _ _ hlooks := Function.rejects_evaluate h c hlooks

theorem vacant_of_eq (h : w.start = w.stop) : w.Vacant where
  view transform s := by
    refine ⟨_, View.ofSeries_of_le (Int64.le_of_eq h) transform s, ?_⟩
    refine List.eq_nil_iff_forall_not_mem.2 fun p hp => ?_
    have hcontains : w.contains p.timestamp = true :=
      Series.contains_of_mem_times (View.mem_times.2 ⟨p, hp, rfl⟩)
    obtain ⟨hstart, hstop⟩ := contains_iff.1 hcontains
    exact Int64.lt_irrefl (Int64.lt_of_le_of_lt hstart (h ▸ hstop))
  function f c input params hlooks :=
    (f.outcome_evaluate c (Int64.le_of_eq h) input params).total.2.1.2 hlooks.accepts

theorem Vacant.not_refused (h : w.Vacant) : ¬ w.Refused := by
  intro hrefused
  obtain ⟨e, he, -⟩ := hrefused.view .identity {}
  obtain ⟨v, hv, -⟩ := h.view .identity {}
  cases he.symm.trans hv

/-- An inverted window is refused just if its bounds lie in different seconds, both counted toward zero.
Otherwise it passes for a window without times. -/
theorem refused_iff (h : w.endMs < w.startMs) :
    (w.Refused ↔ w.start ≠ w.stop) ∧ (w.start = w.stop → w.Vacant) := by
  refine ⟨⟨fun hrefused heq => (vacant_of_eq heq).not_refused hrefused, fun hne => ?_⟩, vacant_of_eq⟩
  have hle : w.stop ≤ w.start := seconds_le (Int64.le_of_lt h)
  exact refused_of_lt (Int64.lt_of_le_of_ne hle hne.symm)

/-- A second and two milliseconds across zero. -/
theorem refused_across_zero : (-1001 : Int64) < 1 ∧ Refused ⟨1, -1001⟩ :=
  ⟨by decide, (refused_iff (by decide)).1.2 (by decide)⟩

theorem not_refused_within_second : (1400 : Int64) < 1500 ∧ ¬ Refused ⟨1500, 1400⟩ :=
  ⟨by decide, (vacant_of_eq (by decide)).not_refused⟩

end Window
end DerivedSeries
