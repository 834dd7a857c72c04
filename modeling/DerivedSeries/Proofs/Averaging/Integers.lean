import DerivedSeries.Proofs.Averaging.Run
import DerivedSeries.Proofs.Combining.Exact
import DerivedSeries.Proofs.Interpolation.Integers

/-!
# Averages of integers

The total of words may be far beyond a word, but words of 128 bits hold it, and the quotient is a word
between the least and the greatest of them (`integerMean`). Whatever its span drops, a moving average
keeps the latest of the sums that it was given (`after_suffix`), and while these are integers its answer
is their mean (`step_integers`), after any calls (`movingAverage_integers`).
-/

namespace DerivedSeries

open DerivedSeries.Interpolation

namespace History

/-! ## Words -/

/-- The total of words from the left, with words of 128 bits and a check after every step. -/
def totalChecked (vs : List Int64) : Option Int :=
  vs.foldlM (fun n v => int128? (n + v.toInt)) 0

/-- The average of words, with words of 128 bits and a check after every step, the last one that
nothing is cut off. -/
def averageChecked (vs : List Int64) : Option Int64 := do
  let total ← totalChecked vs
  let count ← int128? vs.length
  let quotient ← if count = 0 then none else int128? (total.tdiv count)
  int64? quotient

/-- The word `q` is the mean of words, found without a loss, and not outside them. -/
structure IntegerMean (vs : List Int64) (q : Int64) : Prop where
  exact : q.toInt = (exactTotal vs).tdiv vs.length
  checked : averageChecked vs = some q
  inside : ∃ least ∈ vs, ∃ greatest ∈ vs,
    (∀ v ∈ vs, least ≤ v ∧ v ≤ greatest) ∧ least ≤ q ∧ q ≤ greatest

section
variable {vs : List Int64}

/-- Adding a word moves the total by `2 ^ 63` at most, so with room for those to come no step fails. -/
theorem foldlM_total {n : Int} (h : n.natAbs + vs.length * 2 ^ 63 < 2 ^ 127) :
    vs.foldlM (fun n v => int128? (n + v.toInt)) n = some (n + exactTotal vs) := by
  induction vs generalizing n with
  | nil => simp [exactTotal]
  | cons v vs ih =>
    have hv := natAbs_toInt_le v
    rw [List.length_cons, Nat.succ_mul] at h
    have hnext : (n + v.toInt).natAbs + vs.length * 2 ^ 63 < 2 ^ 127 := by omega
    rw [List.foldlM_cons, int128?_of_natAbs_lt (by omega), Option.bind_eq_bind, Option.bind_some,
      ih hnext, exactTotal, Int.add_assoc]

theorem averageChecked_eq {q : Int64} (hne : vs ≠ []) (hlen : vs.length < 2 ^ 63)
    (hq : q.toInt = (exactTotal vs).tdiv vs.length) : averageChecked vs = some q := by
  have htotal : totalChecked vs = some (exactTotal vs) := by
    have hbits : (0 : Int).natAbs + vs.length * 2 ^ 63 < 2 ^ 127 := by omega
    rw [totalChecked, foldlM_total hbits, Int.zero_add]
  have hcount : (vs.length : Int) ≠ 0 := by simpa using hne
  have hle := natAbs_toInt_le q
  unfold averageChecked
  rw [htotal, int128?_of_natAbs_lt (by omega)]
  simp only [Option.bind_eq_bind, Option.bind_some]
  rw [if_neg hcount, ← hq, int128?_of_natAbs_lt (by omega), Option.bind_some, int64?_toInt]

theorem exists_extremes (hne : vs ≠ []) :
    ∃ least ∈ vs, ∃ greatest ∈ vs, ∀ v ∈ vs, least ≤ v ∧ v ≤ greatest := by
  have hmin : vs.argmin Int64.toInt ≠ none := mt List.argmin_eq_none.1 hne
  have hmax : vs.argmax Int64.toInt ≠ none := mt List.argmax_eq_none.1 hne
  obtain ⟨least, hleast⟩ := Option.ne_none_iff_exists'.1 hmin
  obtain ⟨greatest, hgreatest⟩ := Option.ne_none_iff_exists'.1 hmax
  refine ⟨least, List.argmin_mem hleast, greatest, List.argmax_mem hgreatest, fun v hv => ?_⟩
  exact ⟨Int64.le_iff_toInt_le.2 (List.le_of_mem_argmin hv hleast),
    Int64.le_iff_toInt_le.2 (List.le_of_mem_argmax hv hgreatest)⟩

/-- Words have a mean that is a word. Computing it loses nothing, and it is one of the words or stands
between two of them. -/
theorem integerMean (hne : vs ≠ []) (hlen : vs.length < 2 ^ 63) :
    ∃ q, average (vs.map .int) = some (.int q) ∧ IntegerMean vs q := by
  have hq := toInt_quotient hne
  refine ⟨_, average_map_int hne, hq, averageChecked_eq hne hlen hq, ?_⟩
  obtain ⟨least, hleast, greatest, hgreatest, hvs⟩ := exists_extremes hne
  have hbounds : ∀ v ∈ vs, least.toInt ≤ v.toInt ∧ v.toInt ≤ greatest.toInt := fun v hv =>
    ⟨Int64.le_iff_toInt_le.1 (hvs v hv).1, Int64.le_iff_toInt_le.1 (hvs v hv).2⟩
  refine ⟨least, hleast, greatest, hgreatest, hvs, ?_⟩
  rw [Int64.le_iff_toInt_le, Int64.le_iff_toInt_le, hq]
  exact quotient_bounds hne hbounds

end

/-! ## What spans drop -/

theorem retain_suffix (span : Span) (now : Timestamp) (sums : List Point) :
    retain span now sums <:+ sums := by
  cases span with
  | samples count =>
    show (if count < 0 then _ else _) <:+ _
    split
    · exact List.suffix_refl sums
    · exact List.drop_suffix _ sums
  | milliseconds length => exact List.dropWhile_suffix _

end History

namespace Aggregator

/-! ## Calls -/

/-- The state of an aggregator after rows fed to it in order. -/
def after {σ : Type} (a : Aggregator σ) (state : σ) (rows : List Row) : σ :=
  rows.foldl (fun state r => (a.step state r.timestamp r.samples).2) state

theorem after_concat {σ : Type} (a : Aggregator σ) (state : σ) (rows : List Row) (r : Row) :
    a.after state (rows ++ [r]) = (a.step (a.after state rows) r.timestamp r.samples).2 :=
  List.foldl_concat ..

theorem answers_concat {σ : Type} (a : Aggregator σ) (state : σ) (rows : List Row) (r : Row) :
    a.answers state (rows ++ [r]) =
      a.answers state rows ++ [(a.step (a.after state rows) r.timestamp r.samples).1] := by
  induction rows generalizing state with
  | nil => rfl
  | cons q rows ih => exact congrArg _ (ih _)

theorem step_suffix (span : Span) (h : History) (t : Timestamp) (ss : List Sample) :
    ((movingAverage span).step h t ss).2.sums <:+ h.sums ++ ((total ss).map (Point.mk t)).toList := by
  cases hs : total ss with
  | none =>
    rw [step_of_none hs]
    simp
  | some s =>
    rw [step_of_total hs]
    exact History.retain_suffix span t (h.sums ++ [⟨t, s⟩])

/-- However a span drops sums, those that are left are the latest. -/
theorem after_suffix (span : Span) (h : History) (rows : List Row) :
    ((movingAverage span).after h rows).sums <:+ h.sums ++ sum.run rows := by
  induction rows generalizing h with
  | nil => simp [after, run, runFrom]
  | cons r rows ih =>
    refine (ih _).trans ?_
    show _ <:+ h.sums ++ sum.runFrom () (r :: rows)
    rw [runFrom_sum_cons, ← List.append_assoc]
    exact List.suffix_append_self_iff.2 (step_suffix span h r.timestamp r.samples)

section
variable {span : Span} {h : History} {t : Timestamp} {ss : List Sample} {vs : List Int64}

/-- A call that leaves a full span of integers answers with their mean, and with nothing just if there
is nothing to add or nothing is left. -/
theorem step_integers (hfilled : ((movingAverage span).step h t ss).2.filled = true)
    (hvs : ((movingAverage span).step h t ss).2.sums.map Point.value = vs.map .int)
    (hlen : vs.length < 2 ^ 63) :
    (((movingAverage span).step h t ss).1 = none ↔ ss = [] ∨ vs = []) ∧
      ∀ v, ((movingAverage span).step h t ss).1 = some v →
        ∃ q, v = .int q ∧ History.IntegerMean vs q := by
  cases hs : total ss with
  | none =>
    rw [step_of_none hs]
    exact ⟨iff_of_true rfl (.inl (fold_eq_none_iff.1 hs)), nofun⟩
  | some s =>
    have hss : ss ≠ [] := by
      rintro rfl
      cases hs
    rw [step_of_total hs] at hfilled hvs ⊢
    have hanswer : smoothed (h.push span ⟨t, s⟩) s = History.average (vs.map .int) := by
      rw [smoothed, if_pos hfilled, hvs]
    simp only [hanswer]
    rcases eq_or_ne vs [] with rfl | hne
    · exact ⟨iff_of_true rfl (.inr rfl), nofun⟩
    · obtain ⟨q, hq, hmean⟩ := History.integerMean hne hlen
      rw [hq]
      refine ⟨iff_of_false nofun (not_or.2 ⟨hss, hne⟩), ?_⟩
      rintro _ ⟨⟩
      exact ⟨q, rfl, hmean⟩

end

/-- After any calls, and from any history, a moving average remembers the latest of the sums that it was
given. If the span is full then and these are integers, fewer than `2 ^ 63`, the newest answer is their
mean, which words of 128 bits hold on the way to a word between the least and the greatest of them. -/
theorem movingAverage_integers (span : Span) (h : History) (rows : List Row) (r : Row)
    {vs : List Int64} (hfilled : ((movingAverage span).after h (rows ++ [r])).filled = true)
    (hvs : ((movingAverage span).after h (rows ++ [r])).sums.map Point.value = vs.map .int)
    (hlen : vs.length < 2 ^ 63) :
    ((movingAverage span).after h (rows ++ [r])).sums <:+ h.sums ++ sum.run (rows ++ [r]) ∧
      ∃ answer, (movingAverage span).answers h (rows ++ [r]) =
          (movingAverage span).answers h rows ++ [answer] ∧
        (answer = none ↔ r.samples = [] ∨ vs = []) ∧
        ∀ v, answer = some v → ∃ q, v = .int q ∧ History.IntegerMean vs q := by
  refine ⟨after_suffix span h _, _, answers_concat _ h rows r, ?_⟩
  rw [after_concat] at hfilled hvs
  exact step_integers hfilled hvs hlen

/-- The least words, after a double. -/
def lowRows : List Row :=
  [⟨0, [.float 2]⟩, ⟨1, [.int Int64.minValue]⟩, ⟨2, [.int Int64.minValue]⟩]

/-- One more than the least word, in two samples. -/
def nextRow : Row :=
  ⟨7, [.int Int64.minValue, .int 1]⟩

/-- Once the double is out of reach, the total is far below the range of a word, and truncation makes the
mean the greatest of the sums. -/
theorem movingAverage_integers_lowest :
    ((movingAverage (.samples 3)).after {} (lowRows ++ [nextRow])).filled = true ∧
      ((movingAverage (.samples 3)).after {} (lowRows ++ [nextRow])).sums.map Point.value =
        [Int64.minValue, Int64.minValue, Int64.minValue + 1].map .int ∧
      ¬ Fits (exactTotal [Int64.minValue, Int64.minValue, Int64.minValue + 1]) ∧
      ∃ q, (movingAverage (.samples 3)).answers {} (lowRows ++ [nextRow]) =
          (movingAverage (.samples 3)).answers {} lowRows ++ [some (.int q)] ∧
        History.IntegerMean [Int64.minValue, Int64.minValue, Int64.minValue + 1] q ∧
        q = Int64.minValue + 1 := by
  have hfilled : ((movingAverage (.samples 3)).after {} (lowRows ++ [nextRow])).filled = true := by
    decide
  have hvs : ((movingAverage (.samples 3)).after {} (lowRows ++ [nextRow])).sums.map Point.value =
      [Int64.minValue, Int64.minValue, Int64.minValue + 1].map .int := by
    decide
  obtain ⟨-, answer, hanswer, hnone, hmean⟩ :=
    movingAverage_integers (.samples 3) {} lowRows nextRow hfilled hvs (by decide)
  cases answer with
  | none => exact absurd (hnone.1 rfl) (by decide)
  | some v =>
    obtain ⟨q, rfl, hq⟩ := hmean v rfl
    have hvalue : q = Int64.minValue + 1 := Int64.toInt_inj.1 (hq.exact.trans (by decide))
    exact ⟨hfilled, hvs, by decide, q, hanswer, hq, hvalue⟩

end Aggregator
end DerivedSeries
