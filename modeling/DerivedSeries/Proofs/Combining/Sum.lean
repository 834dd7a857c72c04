import DerivedSeries.Proofs.Merge.Merged
import DerivedSeries.Proofs.Merge.Transformed

/-!
# Sums of integers

`Sample.Shows` says which sample shows an integer that has no bounds: the integer itself where it
fits the 64-bit range, a double elsewhere. `CountsFor` gives the integer that a contribution counts
for in a sum, nothing counting for zero. The total of two contributions shows the sum of what they
count for (`Aggregator.exists_total`), and so does a merged sum of two views at each of their times
(`Merge.exists_mem_sum`, `Merge.shows_sum`).
-/

namespace DerivedSeries

/-- A sample shows an integer: it is that integer if the integer fits the 64-bit range, and a double
otherwise. -/
structure Sample.Shows (s : Sample) (n : Int) : Prop where
  exact : ∀ v : Int64, v.toInt = n → s = .int v
  rounded : (∀ v : Int64, v.toInt ≠ n) → ∃ x, s = .float x

theorem Sample.shows_int (v : Int64) : (Sample.int v).Shows v.toInt where
  exact u hu := by rw [Int64.toInt_inj.1 hu]
  rounded h := absurd rfl (h v)

/-! ## What contributions count for -/

/-- The integer that a contribution counts for in a sum. -/
inductive CountsFor : Option Sample → Int → Prop where
  | nothing : CountsFor none 0
  | integer (v : Int64) : CountsFor (some (.int v)) v.toInt

namespace CountsFor

variable {x y : Option Sample} {m n : Int}

theorem exists_of_int (h : ∀ s, x = some s → ∃ v, s = .int v) : ∃ n, CountsFor x n := by
  cases x with
  | none => exact ⟨0, .nothing⟩
  | some s =>
    obtain ⟨v, rfl⟩ := h s rfl
    exact ⟨v.toInt, .integer v⟩

theorem neg (h : CountsFor x n) (hneg : ∀ s, x = some s → ∃ v, v ≠ Int64.minValue ∧ s = .int v) :
    CountsFor (x.map Sample.neg) (-n) := by
  cases h with
  | nothing => exact .nothing
  | integer v =>
    obtain ⟨u, hu, he⟩ := hneg _ rfl
    cases he
    rw [Option.map_some, Sample.neg_int hu, ← toInt_neg_of_ne_minValue hu]
    exact .integer (-v)

end CountsFor

/-- The integer that a series counts for at a time of a merge: its own sample there, or an estimate,
or zero where it contributes nothing. -/
def Series.Amounts (fill : Option Interpolation) (w : Window) (s : Series) (t : Timestamp)
    (n : Int) : Prop :=
  CountsFor ((s.view w .identity).contribution? fill t) n

namespace Series

variable {fill : Option Interpolation} {w : Window} {s : Series}

theorem IntegralIn.exists_amounts (hs : s.IntegralIn w) (t : Timestamp) :
    ∃ n, s.Amounts fill w t n :=
  CountsFor.exists_of_int fun _ h => hs.view.contribution? h

theorem amounts_of_mem {p : Point} {v : Int64} (hp : p ∈ s.within w) (hv : p.value = .int v) :
    s.Amounts fill w p.timestamp v.toInt := by
  rw [← points_view] at hp
  unfold Amounts
  rw [View.contribution?_of_mem fill hp, hv]
  exact .integer v

end Series

/-! ## Totals -/

namespace Aggregator

theorem exists_total_pair (a b : Int64) :
    ∃ s, total [.int a, .int b] = some s ∧ s.Shows (a.toInt + b.toInt) := by
  have htotal : total [.int a, .int b] =
      some ((Sample.ofInt? (a.toInt + b.toInt)).getD
        (.float ((Sample.int a).toFloat + (Sample.int b).toFloat))) := by
    simp only [total, fold, List.foldlM_cons, List.foldlM_nil, bind_pure]
    rfl
  rw [htotal]
  unfold Sample.ofInt?
  cases hfit : int64? (a.toInt + b.toInt) with
  | some v =>
    refine ⟨.int v, rfl, ?_⟩
    rw [← int64?_eq_some_iff.1 hfit]
    exact Sample.shows_int v
  | none =>
    refine ⟨_, rfl, fun v hv => ?_, fun _ => ⟨_, rfl⟩⟩
    rw [int64?_eq_some_iff.2 hv] at hfit
    cases hfit

/-- Where one of two contributions is there, so is their total, and it shows their exact sum. -/
theorem exists_total {x y : Option Sample} {m n : Int} (hx : CountsFor x m) (hy : CountsFor y n)
    (hsome : x.isSome ∨ y.isSome) :
    ∃ s, total (x.toList ++ y.toList) = some s ∧ s.Shows (m + n) := by
  cases hx with
  | nothing =>
    cases hy with
    | nothing => simp at hsome
    | integer b => exact ⟨.int b, rfl, by simpa using Sample.shows_int b⟩
  | integer a =>
    cases hy with
    | nothing => exact ⟨.int a, rfl, by simpa using Sample.shows_int a⟩
    | integer b => exact exists_total_pair a b

end Aggregator

/-! ## Merged sums -/

namespace Merge

variable {fill : Option Interpolation} {u v : View} {t : Timestamp}

theorem contributionsAt_pair (fill : Option Interpolation) (u v : View) (t : Timestamp) :
    contributionsAt fill [u, v] t =
      (u.contribution? fill t).toList ++ (v.contribution? fill t).toList := by
  unfold contributionsAt
  cases hu : u.contribution? fill t <;> cases hv : v.contribution? fill t <;> simp [hu, hv]

theorem isSome_contribution?_of_mem_timeline (fill : Option Interpolation)
    (h : t ∈ timeline [u, v]) :
    (u.contribution? fill t).isSome ∨ (v.contribution? fill t).isSome := by
  have hne : contributionsAt fill [u, v] t ≠ [] := contributionsAt_ne_nil h
  rw [contributionsAt_pair] at hne
  cases hu : u.contribution? fill t with
  | some s => simp
  | none =>
    cases hv : v.contribution? fill t with
    | some s => simp
    | none => simp [hu, hv] at hne

/-- A merged sum has a point at every time of the timeline and at no other. -/
theorem exists_mem_sum (fill : Option Interpolation) {views : List View} :
    (∃ p ∈ points .sum fill views, p.timestamp = t) ↔ t ∈ timeline views := by
  constructor
  · rintro ⟨p, hp, rfl⟩
    exact (mem_points_pure.1 hp).1
  · intro ht
    have hne : contributionsAt fill views t ≠ [] := contributionsAt_ne_nil ht
    obtain ⟨s, ss, hss⟩ := List.exists_cons_of_ne_nil hne
    have htotal : ∃ r, Aggregator.total (contributionsAt fill views t) = some r := by
      rw [hss]
      exact ⟨_, rfl⟩
    obtain ⟨r, hr⟩ := htotal
    exact ⟨⟨t, r⟩, mem_points_pure.2 ⟨ht, hr⟩, rfl⟩

theorem shows_sum {p : Point} {m n : Int} (hp : p ∈ points .sum fill [u, v])
    (hm : CountsFor (u.contribution? fill p.timestamp) m)
    (hn : CountsFor (v.contribution? fill p.timestamp) n) : p.value.Shows (m + n) := by
  obtain ⟨ht, htotal⟩ := mem_points_pure.1 hp
  obtain ⟨s, hs, hshows⟩ :=
    Aggregator.exists_total hm hn (isSome_contribution?_of_mem_timeline fill ht)
  rw [contributionsAt_pair, hs] at htotal
  cases htotal
  exact hshows

/-- Where the sum of what two views count for fits, it is a point of their merged sum. -/
theorem mem_sum {m n : Int} (ht : t ∈ timeline [u, v]) (hm : CountsFor (u.contribution? fill t) m)
    (hn : CountsFor (v.contribution? fill t) n) {k : Int64} (hk : k.toInt = m + n) :
    ⟨t, .int k⟩ ∈ points .sum fill [u, v] := by
  obtain ⟨⟨_, s⟩, hp, rfl⟩ := (exists_mem_sum fill).2 ht
  have hs : s = .int k := (shows_sum hp hm hn).exact k hk
  exact hs ▸ hp

end Merge
end DerivedSeries
