import DerivedSeries.Proofs.Merge.Merged
import DerivedSeries.Proofs.Merge.Transformed
import DerivedSeries.Proofs.Ranking.Value

/-!
# Ranking by a scan and by a merge

Series are ranked by a scan of each alone. A merge on lines of all of them would show the same: what
a view of integers contributes to it (`Merge.contributed`) never leaves the range of the view's own
samples and ends at its last one, whichever times the other views add (`scanAgrees_contributed`).
-/

namespace DerivedSeries

/-! ## What a view contributes to a merge -/

namespace Merge

/-- The stops that a merge of views makes. -/
def stops (fill : Option Interpolation) (views : List View) : List Visit :=
  visits fill (views.map fun v => { rest := v.points })

/-- A merge hands its aggregator what the views contribute at its stops, in turn. -/
theorem drain_start_eq_run {σ : Type} (a : Aggregator σ) (fill : Option Interpolation)
    (views : List View) : drain a fill (start a views) = a.run ((stops fill views).map Visit.row) :=
  drain_eq_run a fill _ a.initial

/-- The points that the view at a position contributes at the stops of a merge. -/
def contributed (fill : Option Interpolation) (views : List View) (i : Nat) : List Point :=
  (stops fill views).filterMap fun e => e.answers[i]?.join.map (Point.mk e.timestamp)

section
variable {fill : Option Interpolation} {views : List View} {i : Nat} {v : View}

theorem contributed_eq (h : views[i]? = some v) :
    contributed fill views i =
      (timeline views).filterMap fun t => (v.contribution? fill t).map (Point.mk t) := by
  unfold contributed stops
  rw [visits_start, List.filterMap_map]
  refine List.filterMap_congr fun t _ => ?_
  simp only [Function.comp_apply, visitAt, List.getElem?_map, h, Option.map_some, Option.join_some]

theorem pairwise_contributed (h : views[i]? = some v) :
    (contributed fill views i).Pairwise fun p q => p.timestamp < q.timestamp := by
  rw [contributed_eq h]
  refine (pairwise_timeline views).filterMap _ fun s t hst p hp q hq => ?_
  obtain ⟨_, -, rfl⟩ := Option.map_eq_some_iff.1 hp
  obtain ⟨_, -, rfl⟩ := Option.map_eq_some_iff.1 hq
  exact hst

/-- A view contributes its own points. -/
theorem mem_contributed_of_mem (h : views[i]? = some v) {p : Point} (hp : p ∈ v.points) :
    p ∈ contributed fill views i := by
  rw [contributed_eq h, Point.mem_filterMap]
  refine ⟨mem_timeline.2 ⟨v, List.mem_of_getElem? h, ?_⟩, View.contribution?_of_mem fill hp⟩
  exact View.mem_times.2 ⟨p, hp, rfl⟩

theorem offers_of_mem_contributed (h : views[i]? = some v) {p : Point}
    (hp : p ∈ contributed fill views i) : v.Offers fill p.timestamp p.value := by
  rw [contributed_eq h, Point.mem_filterMap] at hp
  exact View.offers_of_contribution? hp.2

end

/-- No contribution on lines is greater than every sample of the view. -/
theorem exists_ge_of_mem_contributed {views : List View} {i : Nat} {v : View}
    (h : views[i]? = some v) (hv : v.Integral) {p : Point}
    (hp : p ∈ contributed (some .lerp) views i) :
    ∃ n, p.value = .int n ∧ ∃ q ∈ v.points, ∃ m, q.value = .int m ∧ n ≤ m := by
  generalize hs : p.value = s
  cases hs ▸ offers_of_mem_contributed h hp with
  | own hown =>
    obtain ⟨n, rfl⟩ := Sample.isInt_iff.1 (hv _ hown)
    exact ⟨n, rfl, _, hown, n, rfl, Int64.le_refl n⟩
  | @estimate policy a b hfill ha hb hat htb =>
    cases hfill
    obtain ⟨k, hk⟩ := Sample.isInt_iff.1 (hv a ha)
    obtain ⟨m, hm⟩ := Sample.isInt_iff.1 (hv b hb)
    obtain ⟨n, hn, -, -, hle⟩ := Interpolation.between_lerp hk hm hat htb
    refine ⟨n, hn, ?_⟩
    rcases Int.le_total k.toInt m.toInt with hkm | hmk
    · exact ⟨b, hb, m, hm, Int64.le_iff_toInt_le.2 (by omega)⟩
    · exact ⟨a, ha, k, hk, Int64.le_iff_toInt_le.2 (by omega)⟩

/-- No contribution is later than every sample of the view. -/
theorem exists_later_of_mem_contributed {fill : Option Interpolation} {views : List View} {i : Nat}
    {v : View} (h : views[i]? = some v) {p : Point} (hp : p ∈ contributed fill views i) :
    ∃ q ∈ v.points, p.timestamp ≤ q.timestamp := by
  generalize hs : p.value = s
  cases hs ▸ offers_of_mem_contributed h hp with
  | own hown => exact ⟨_, hown, Int64.le_refl _⟩
  | @estimate policy a b hfill ha hb hat htb => exact ⟨b, hb, Int64.le_of_lt htb⟩

end Merge

/-! ## Points of integers -/

namespace Point

variable {ps : List Point}

theorem exists_ints (h : ∀ p ∈ ps, p.value.isInt = true) :
    ∃ ns : List Int64, ps.map value = ns.map .int :=
  Sample.exists_map_int fun s hs => by
    obtain ⟨p, hp, rfl⟩ := List.mem_map.1 hs
    exact h p hp

theorem mem_ints {ns : List Int64} (h : ps.map value = ns.map .int) {n : Int64} :
    n ∈ ns ↔ ∃ p ∈ ps, p.value = .int n := by
  rw [← List.mem_map_of_injective fun _ _ => Sample.int.inj, ← h, List.mem_map]

end Point

/-! ## Greatest and latest -/

/-- More values have the same greatest one, if each of them is bounded by one of the first. -/
theorem Greatest.extend {α : Type} [LE α] {xs ys : List α} {m : Option α} (h : Greatest xs m)
    (hsub : ∀ x ∈ xs, x ∈ ys) (hle : ∀ y ∈ ys, ∃ x ∈ xs, y ≤ x)
    (htrans : ∀ x y z : α, x ≤ y → y ≤ z → x ≤ z) : Greatest ys m := by
  cases m with
  | none =>
    cases h
    refine List.eq_nil_iff_forall_not_mem.2 fun y hy => ?_
    obtain ⟨x, hx, -⟩ := hle y hy
    cases hx
  | some m =>
    refine ⟨hsub m h.1, fun y hy => ?_⟩
    obtain ⟨x, hx, hyx⟩ := hle y hy
    exact htrans y x m hyx (h.2 x hx)

theorem Latest.extend {ps qs : List Point} {p : Option Point} (h : Latest ps p)
    (hsub : ∀ q ∈ ps, q ∈ qs) (hle : ∀ q ∈ qs, ∃ p ∈ ps, q.timestamp ≤ p.timestamp) :
    Latest qs p := by
  cases p with
  | none =>
    cases h
    refine List.eq_nil_iff_forall_not_mem.2 fun q hq => ?_
    obtain ⟨p, hp, -⟩ := hle q hq
    cases hp
  | some p =>
    refine ⟨hsub p h.1, fun q hq => ?_⟩
    obtain ⟨r, hr, hqr⟩ := hle q hq
    exact Int64.le_trans hqr (h.2 r hr)

/-! ## The scan of integers -/

namespace Criterion

theorem scan_of_ints {c : Criterion} {v : View} {ns : List Int64} (h : c.samples v = ns.map .int) :
    Greatest ns (c.scan v).intMax ∧ (c.scan v).floatMax = none := by
  have hcover : (c.scan v).Cover (c.samples v) := Maxima.cover_foldl _
  have hnumbers : (ns.map Sample.int).filterMap Sample.number? = [] := by
    rw [List.filterMap_map, List.filterMap_eq_nil_iff]
    exact fun n _ => rfl
  obtain ⟨hi, hf⟩ := hcover
  rw [h, Sample.filterMap_int?_map_int] at hi
  rw [h, hnumbers] at hf
  refine ⟨hi, ?_⟩
  cases hx : (c.scan v).floatMax with
  | none => rfl
  | some x =>
    rw [hx] at hf
    exact absurd hf.1 List.not_mem_nil

theorem exists_of_mem_samples {c : Criterion} {v : View} {s : Sample} (h : s ∈ c.samples v) :
    ∃ p ∈ v.points, p.value = s := by
  cases c with
  | max => exact List.mem_map.1 h
  | current =>
    obtain ⟨p, hp, rfl⟩ := Option.map_eq_some_iff.1 (Option.mem_toList.1 h)
    exact ⟨p, List.mem_of_getLast? hp, rfl⟩

theorem samples_eq_nil_iff (c : Criterion) (v : View) : c.samples v = [] ↔ v.points = [] := by
  cases c <;> simp [samples]

/-- A scan of integers observes nothing only where there is nothing. -/
theorem scan_eq_empty_iff (c : Criterion) {v : View} (hv : v.Integral) :
    c.scan v = {} ↔ v.points = [] := by
  obtain ⟨ns, hns⟩ : ∃ ns : List Int64, c.samples v = ns.map .int := by
    refine Sample.exists_map_int fun s hs => ?_
    obtain ⟨p, hp, rfl⟩ := exists_of_mem_samples hs
    exact hv p hp
  rw [← samples_eq_nil_iff c]
  constructor
  · intro hscan
    have hgreatest := (scan_of_ints hns).1
    rw [hscan] at hgreatest
    rw [hns, (hgreatest : ns = [])]
    rfl
  · intro hnil
    unfold scan
    rw [hnil]
    rfl

end Criterion

/-! ## Agreement -/

/-- Scans of a view find what points in ascending order show of it: nothing just where there are no
points, else their greatest value by the one criterion and their latest by the other. -/
structure ScanAgrees (v : View) (ps : List Point) : Prop where
  ascending : ps.Pairwise fun p q => p.timestamp < q.timestamp
  empty : ∀ c : Criterion, ps = [] ↔ c.scan v = {}
  greatest : ∃ ns, ps.map Point.value = ns.map .int ∧ Greatest ns (Criterion.max.scan v).intMax
  latest : ∃ p, Latest ps p ∧
    p.map Point.value = (Criterion.current.scan v).intMax.map Sample.int

section
variable {views : List View} {i : Nat} {v : View}

theorem greatest_contributed (h : views[i]? = some v) (hv : v.Integral) :
    ∃ ns, (Merge.contributed (some .lerp) views i).map Point.value = ns.map .int ∧
      Greatest ns (Criterion.max.scan v).intMax := by
  obtain ⟨ks, hks⟩ := Point.exists_ints hv
  obtain ⟨ns, hns⟩ := Point.exists_ints fun p hp =>
    let ⟨n, hn, _⟩ := Merge.exists_ge_of_mem_contributed h hv hp
    Sample.isInt_iff.2 ⟨n, hn⟩
  have hscan : Greatest ks (Criterion.max.scan v).intMax :=
    (Criterion.scan_of_ints (show Criterion.max.samples v = _ from hks)).1
  refine ⟨ns, hns, hscan.extend ?_ ?_ fun _ _ _ => Int64.le_trans⟩
  · intro k hk
    obtain ⟨p, hp, hpk⟩ := (Point.mem_ints hks).1 hk
    exact (Point.mem_ints hns).2 ⟨p, Merge.mem_contributed_of_mem h hp, hpk⟩
  · intro n hn
    obtain ⟨p, hp, hpn⟩ := (Point.mem_ints hns).1 hn
    obtain ⟨n', hn', q, hq, m, hm, hle⟩ := Merge.exists_ge_of_mem_contributed h hv hp
    cases hpn.symm.trans hn'
    exact ⟨m, (Point.mem_ints hks).2 ⟨q, hq, hm⟩, hle⟩

theorem latest_contributed (fill : Option Interpolation) (h : views[i]? = some v)
    (hv : v.Integral) : ∃ p, Latest (Merge.contributed fill views i) p ∧
      p.map Point.value = (Criterion.current.scan v).intMax.map Sample.int := by
  have hlatest := latest_getLast? v.pairwise_points
  refine ⟨v.points.getLast?, hlatest.extend (fun p hp => Merge.mem_contributed_of_mem h hp)
    (fun p hp => Merge.exists_later_of_mem_contributed h hp), ?_⟩
  show _ = ((v.points.getLast?.map Point.value).toList.foldl Maxima.observe {}).intMax.map _
  cases hlast : v.points.getLast? with
  | none => rfl
  | some p =>
    obtain ⟨n, hn⟩ := Sample.isInt_iff.1 (hv p (List.mem_of_getLast? hlast))
    rw [Option.map_some, hn]
    rfl

theorem contributed_eq_nil_iff (fill : Option Interpolation) (h : views[i]? = some v) :
    Merge.contributed fill views i = [] ↔ v.points = [] := by
  simp only [List.eq_nil_iff_forall_not_mem]
  constructor
  · intro hnil p hp
    exact hnil p (Merge.mem_contributed_of_mem h hp)
  · intro hnil p hp
    obtain ⟨q, hq, -⟩ := Merge.exists_later_of_mem_contributed h hp
    exact hnil q hq

theorem scanAgrees_contributed (h : views[i]? = some v) (hv : v.Integral) :
    ScanAgrees v (Merge.contributed (some .lerp) views i) where
  ascending := Merge.pairwise_contributed h
  empty c := (contributed_eq_nil_iff _ h).trans (c.scan_eq_empty_iff hv).symm
  greatest := greatest_contributed h hv
  latest := latest_contributed _ h hv

end

/-- Scanning a series of integers by itself finds what a merge on lines of all series shows its
aggregator of it. Both refuse a window that is inverted in seconds. -/
theorem scan_agrees_with_merge (w : Window) (ss : List Series) :
    (w.start ≤ w.stop → ∃ views, View.identities w ss = .ok views ∧
      (∀ {σ : Type} (a : Aggregator σ), Merge.drain a (some .lerp) (Merge.start a views) =
        a.run ((Merge.stops (some .lerp) views).map Merge.Visit.row)) ∧
      ∀ i s, ss[i]? = some s → s.IntegralIn w →
        ∃ v, View.ofSeries w .identity s = .ok v ∧
          ScanAgrees v (Merge.contributed (some .lerp) views i)) ∧
    (w.stop < w.start → ∀ s ∈ ss,
      (∃ e, View.ofSeries w .identity s = .error e ∧ e.kind = .invalidArgument) ∧
        ∃ e, View.identities w ss = .error e ∧ e.kind = .invalidArgument) := by
  constructor
  · intro h
    refine ⟨_, View.identities_of_le h ss, fun a => Merge.drain_start_eq_run a _ _,
      fun i s hs hint => ?_⟩
    refine ⟨_, View.ofSeries_of_le h .identity s, scanAgrees_contributed ?_ hint.view⟩
    rw [List.getElem?_map, hs]
    rfl
  · intro h s hs
    refine ⟨⟨_, View.ofSeries_of_lt h .identity s, rfl⟩, ?_⟩
    obtain ⟨first, rest, rfl⟩ := List.exists_cons_of_ne_nil (List.ne_nil_of_mem hs)
    exact ⟨_, View.identities_of_lt h first rest, rfl⟩

/-- Two series of integers that share no time. -/
def unalignedSeries : List Series :=
  [({ metric := "inner" } : Series).insertAll [⟨2, .int 5⟩, ⟨9, .int (-4)⟩],
    ({ metric := "outer" } : Series).insertAll
      [⟨0, .int 1⟩, ⟨4, .int Int64.minValue⟩, ⟨12, .int 7⟩]]

theorem scan_agrees_with_merge_unaligned :
    ∃ views s v, View.identities ⟨0, 20000⟩ unalignedSeries = .ok views ∧
      unalignedSeries[0]? = some s ∧ s.IntegralIn ⟨0, 20000⟩ ∧
      View.ofSeries ⟨0, 20000⟩ .identity s = .ok v ∧ (Criterion.max.scan v).intMax = some 5 ∧
      Merge.drain .sum (some .lerp) (Merge.start .sum views) =
        Aggregator.sum.run ((Merge.stops (some .lerp) views).map Merge.Visit.row) ∧
      ScanAgrees v (Merge.contributed (some .lerp) views 0) := by
  have hs : unalignedSeries[0]? = some unalignedSeries[0] := rfl
  have hint : unalignedSeries[0].IntegralIn ⟨0, 20000⟩ := by decide
  obtain ⟨views, hviews, hmerge, hagree⟩ :=
    (scan_agrees_with_merge ⟨0, 20000⟩ unalignedSeries).1 (by decide)
  obtain ⟨v, hv, hscan⟩ := hagree 0 _ hs hint
  have hmax : (Criterion.max.scan v).intMax = some 5 := by
    cases hv.symm.trans (View.ofSeries_of_le (by decide) .identity unalignedSeries[0])
    decide
  exact ⟨views, _, v, hviews, hs, hint, hv, hmax, hmerge .sum, hscan⟩

end DerivedSeries
