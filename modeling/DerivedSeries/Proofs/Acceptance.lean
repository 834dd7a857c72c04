import DerivedSeries.Proofs.Decimal.Literal
import DerivedSeries.Proofs.Merge.Merged
import DerivedSeries.Proofs.Ranking.Selection
import DerivedSeries.Proofs.Registry
import DerivedSeries.Proofs.Span

/-!
# What the functions accept

Each function accepts inputs of some shapes and parameters of some grammar (`Function.Accepts`). In a
window whose bounds are in order it succeeds on these and refuses all others for an invalid argument
(`Function.outcome_evaluate`), and how many series it returns is known beforehand (`Function.Returns`).
A registry adds two conditions, that a function goes by the name and that the input is not too large
(`Registry.evaluate_total`).
-/

namespace DerivedSeries

/-! ## Parameters -/

namespace Select

/-- The first parameter asks for `k` series: it is a literal of a positive word. -/
def Asks (params : List String) (k : Nat) : Prop :=
  ∃ text, params.head? = some text ∧ Text.Numeral (Text.trim text).toList k ∧ 0 < k ∧
    (k : Int) ≤ Int64.maxValue.toInt

theorem count_cons_eq_ok_iff {raw : String} {rest : List String} {k : Nat} :
    count (raw :: rest) = .ok k ↔
      ∃ v : Int64, Text.readInt64 (Text.trim raw) = .ok v ∧ 0 < v.toInt ∧ v.toInt = k := by
  unfold count
  by_cases hempty : (Text.trim raw).isEmpty
  · have htext : (Text.trim raw).toList = [] := by simpa using hempty
    simp only [hempty, if_true, Text.readInt64_eq_ok_iff, htext]
    exact iff_of_false nofun fun ⟨_, h, _⟩ => Text.not_numeral_nil h
  · simp only [hempty, Bool.false_eq_true, if_false]
    cases Text.readInt64 (Text.trim raw) with
    | error fault => simp
    | ok v =>
      have hpos : 0 < v.toInt ↔ ¬ v ≤ 0 := by
        rw [Int64.not_le, Int64.lt_iff_toInt_lt]
        rfl
      simp only [Except.ok.injEq, exists_eq_left']
      rw [hpos]
      by_cases hle : v ≤ 0
      · simp [hle]
      · have := hpos.2 hle
        simp only [hle, if_false, Except.ok.injEq, not_false_eq_true, true_and]
        omega

theorem count_eq_ok_iff {params : List String} {k : Nat} :
    count params = .ok k ↔ Asks params k := by
  cases params with
  | nil => exact iff_of_false nofun fun ⟨_, h, _⟩ => nomatch h
  | cons raw rest =>
    rw [count_cons_eq_ok_iff]
    simp only [Text.readInt64_eq_ok_iff]
    constructor
    · rintro ⟨v, hv, hpos, hk⟩
      have hmax := v.toInt_le
      rw [hk] at hv hpos hmax
      exact ⟨raw, rfl, hv, Int.natCast_pos.1 hpos, hmax⟩
    · rintro ⟨_, ⟨⟩, hv, hpos, hmax⟩
      have hmin : Int64.minValue.toInt ≤ (k : Int) := Int.le_trans (by decide) (Int.natCast_nonneg k)
      have hk : (Int64.ofInt k).toInt = k := (Text.ofInt_eq_iff hmin hmax).1 rfl
      refine ⟨Int64.ofInt k, ?_, ?_, hk⟩
      · rw [hk]
        exact hv
      · rw [hk]
        exact Int.natCast_pos.2 hpos

theorem refuses_count (params : List String) : Refuses (count params) := by
  unfold count
  split
  · exact .error rfl
  · dsimp only
    split
    · exact .error rfl
    · split
      · exact .error rfl
      · split
        · exact .error rfl
        · exact .ok _

end Select

namespace Span

/-- The first parameter gives a span, which is positive. -/
def Given (params : List String) (span : Span) : Prop :=
  ∃ text, params.head? = some text ∧ Written (Text.trim text).toList span ∧ 0 < span.size.toInt

theorem ofParams_eq_ok_iff {params : List String} {span : Span} :
    ofParams params = .ok span ↔ Given params span := by
  cases params with
  | nil => exact iff_of_false nofun fun ⟨_, h, _⟩ => nomatch h
  | cons text rest => simp [ofParams, parse_eq_ok_iff, Given]

theorem refuses_ofParams (params : List String) : Refuses (ofParams params) := by
  cases params with
  | nil => exact .error rfl
  | cons text rest => exact refuses_parse text

end Span

namespace Elementwise

/-- A text without its quotes, single or double. -/
def unquoted (text : String) : String :=
  String.ofList (text.toList.filter fun c => c != '\'' && c != '"')

/-- The first parameter gives a factor. -/
def GivesFactor (params : List String) : Prop :=
  ∃ text, params.head? = some text ∧ Decimal.IsLiteral (Text.trim (unquoted text)).toList

theorem exists_factor_iff {params : List String} :
    (∃ x, factor params = .ok x) ↔ GivesFactor params := by
  cases params with
  | nil => exact iff_of_false nofun fun ⟨_, h, _⟩ => nomatch h
  | cons raw rest =>
    have hgives : GivesFactor (raw :: rest) ↔
        Decimal.IsLiteral (Text.trim (unquoted raw)).toList := by
      simp [GivesFactor]
    rw [hgives, ← Decimal.exists_read_iff]
    simp only [factor, mapError_eq_ok_iff]
    rfl

theorem refuses_factor (params : List String) : Refuses (factor params) := by
  unfold factor
  split
  · exact .error rfl
  · exact Refuses.mapError fun _ => rfl

end Elementwise

/-! ## Outcomes -/

namespace Function

/-- The input is of a shape, and the parameters are written, as the function requires. -/
def Accepts (f : Function) (input : Input) (params : List String) : Prop :=
  match f with
  | sum | multiply | absolute => input ≠ []
  | difference | divide => ∃ x y, input = [[x], [y]] ∨ input = [[x, y]]
  | movingAverage => input = [] ∨ ∃ span, Span.Given params span
  | highest _ => 0 < input.size ∧ ∃ k, Select.Asks params k
  | scale => input ≠ [] ∧ Elementwise.GivesFactor params

/-- How many series the function returns, and which of them where it returns its input. -/
def Returns (f : Function) (input : Input) (params : List String) (out : List Series) : Prop :=
  match f with
  | sum | multiply | difference | divide => out.length = 1
  | movingAverage => (input = [] → out = []) ∧ (input ≠ [] → out.length = 1)
  | highest _ => ∃ k, Select.Asks params k ∧ out.length = min k input.size ∧
      (input.size ≤ k → out = input.series)
  | absolute | scale => input.head?.map List.length = some out.length

end Function

/-- What comes of an evaluation: an output as described if the arguments are accepted, and the refusal of
an invalid argument otherwise. -/
inductive Outcome (accepts : Prop) (returns : List Series → Prop) :
    Except Error (List Series) → Prop where
  | success {out : List Series} : accepts → returns out → Outcome accepts returns (.ok out)
  | refusal {e : Error} :
    ¬ accepts → e.kind = .invalidArgument → Outcome accepts returns (.error e)

namespace Outcome

variable {accepts also : Prop} {returns gives : List Series → Prop}
  {result : Except Error (List Series)}

theorem congr (h : Outcome accepts returns result) (haccepts : accepts ↔ also)
    (hreturns : ∀ out, returns out → gives out) : Outcome also gives result := by
  cases h with
  | success hyes hout => exact .success (haccepts.1 hyes) (hreturns _ hout)
  | refusal hno hkind => exact .refusal (fun hyes => hno (haccepts.2 hyes)) hkind

theorem total (h : Outcome accepts returns result) :
    Refuses result ∧ ((∃ out, result = .ok out) ↔ accepts) ∧
      ∀ out, result = .ok out → returns out := by
  cases h with
  | success hyes hout =>
    refine ⟨.ok _, iff_of_true ⟨_, rfl⟩ hyes, ?_⟩
    rintro _ ⟨⟩
    exact hout
  | refusal hno hkind => exact ⟨.error hkind, iff_of_false nofun hno, nofun⟩

end Outcome

variable {c : Config} {w : Window}

namespace Combine

theorem refuses_operands (input : Input) : Refuses (operands input) := by
  unfold operands
  split
  · exact .error rfl
  · exact .ok _
  · exact .ok _
  · exact .error rfl

variable {σ : Type}

theorem outcome_all (a : Aggregator σ) (h : w.start ≤ w.stop) (input : Input) :
    Outcome (input ≠ []) (fun out => out.length = 1) (all a c w input).result := by
  by_cases hne : input = []
  · subst hne
    exact .refusal (fun hne => hne rfl) rfl
  · rw [result_all_of_ne_nil a hne h]
    exact .success hne rfl

theorem outcome_pair (a : Aggregator σ) (transform : Transform) (h : w.start ≤ w.stop)
    (input : Input) :
    Outcome (∃ x y, input = [[x], [y]] ∨ input = [[x, y]]) (fun out => out.length = 1)
      (pair a transform c w input).result := by
  cases hops : operands input with
  | error e =>
    rw [result_pair_of_error a transform hops]
    refine .refusal ?_ (refuses_operands input e hops)
    rintro ⟨x, y, hshape⟩
    cases hops.symm.trans (operands_eq_ok_iff.2 hshape)
  | ok ops =>
    obtain ⟨x, y⟩ := ops
    rw [result_pair a transform hops h]
    exact .success ⟨x, y, operands_eq_ok_iff.1 hops⟩ rfl

theorem outcome_smooth (h : w.start ≤ w.stop) (input : Input) (params : List String) :
    Outcome (Function.movingAverage.Accepts input params)
      (Function.movingAverage.Returns input params) (smooth c w input params).result := by
  by_cases hne : input = []
  · subst hne
    exact .success (.inl rfl) ⟨fun _ => rfl, fun hne => absurd rfl hne⟩
  cases hspan : Span.ofParams params with
  | error e =>
    rw [result_smooth_of_error hne hspan]
    refine .refusal ?_ (Span.refuses_ofParams params e hspan)
    rintro (hnil | ⟨span, hgiven⟩)
    · exact hne hnil
    · cases hspan.symm.trans (Span.ofParams_eq_ok_iff.2 hgiven)
  | ok span =>
    rw [result_smooth_of_ne_nil hne hspan h]
    exact .success (.inr ⟨span, Span.ofParams_eq_ok_iff.1 hspan⟩)
      ⟨fun hnil => absurd hnil hne, fun _ => rfl⟩

end Combine

namespace Select

variable {criterion : Criterion} {input : Input} {params : List String} {k : Nat}

theorem result_highest_of_error {e : Error} (hk : count params = .error e) :
    (highest criterion c w input params).result = .error e := by
  have hcount : (Evaluation.ofExcept (count params)).result = .error e := hk
  rw [highest, Evaluation.result_bind_of_error hcount]

theorem result_highest_of_empty (hk : count params = .ok k) (hempty : input.size = 0) :
    (highest criterion c w input params).result = .error .noInput := by
  have hcount : (Evaluation.ofExcept (count params)).result = .ok k := hk
  have hnil : input.series.isEmpty = true := List.isEmpty_iff.2 (List.eq_nil_of_length_eq_zero hempty)
  rw [highest, Evaluation.result_bind_of_ok hcount]
  simp only [hnil, if_true]
  rfl

/-- Asked for as many series as there are, or more, a selection returns the input. -/
theorem result_highest_of_ge (hk : count params = .ok k) (hpos : 0 < input.size)
    (hge : input.size ≤ k) : (highest criterion c w input params).result = .ok input.series := by
  have hcount : (Evaluation.ofExcept (count params)).result = .ok k := hk
  have hsome : input.series.isEmpty = false := by
    rw [List.isEmpty_eq_false_iff]
    exact List.ne_nil_of_length_pos hpos
  have hge : k ≥ input.series.length := hge
  rw [highest, Evaluation.result_bind_of_ok hcount]
  simp only [hsome, Bool.false_eq_true, if_false, if_pos hge]
  rfl

theorem outcome_highest (h : w.start ≤ w.stop) (input : Input) (params : List String) :
    Outcome ((Function.highest criterion).Accepts input params)
      ((Function.highest criterion).Returns input params)
      (highest criterion c w input params).result := by
  cases hk : count params with
  | error e =>
    rw [result_highest_of_error hk]
    refine .refusal ?_ (refuses_count params e hk)
    rintro ⟨-, k, hasks⟩
    cases hk.symm.trans (count_eq_ok_iff.2 hasks)
  | ok k =>
    have hasks : Asks params k := count_eq_ok_iff.1 hk
    rcases Nat.eq_zero_or_pos input.size with hempty | hpos
    · rw [result_highest_of_empty hk hempty]
      refine .refusal ?_ rfl
      rintro ⟨hpos, -⟩
      omega
    rcases Nat.lt_or_ge k input.size with hlt | hge
    · obtain ⟨out, hresult, hout⟩ := exists_highest criterion hk hlt c h
      rw [hresult]
      have hlength : out.length = min k input.size := by
        rw [← List.length_map (f := some), hout, List.length_map, List.length_take,
          (Ranking.order_perm _ _).length_eq, List.length_range]
      exact .success ⟨hpos, k, hasks⟩ ⟨k, hasks, hlength, fun hge => by omega⟩
    · rw [result_highest_of_ge hk hpos hge]
      exact .success ⟨hpos, k, hasks⟩ ⟨k, hasks, (Nat.min_eq_right hge).symm, fun _ => rfl⟩

end Select

namespace Elementwise

variable {group : List Series} {others : Input}

theorem result_firstGroup : (firstGroup (group :: others)).result = .ok group := by
  cases others <;> rfl

theorem result_absolute :
    (absolute (group :: others)).result = .ok (group.map (Series.mapSamples Sample.abs)) := by
  rw [absolute, Evaluation.result_bind_of_ok result_firstGroup]
  rfl

theorem result_scale {params : List String} {x : Float} (hx : factor params = .ok x) :
    (scale (group :: others) params).result =
      .ok (group.map (Series.mapSamples (Sample.scale x))) := by
  have hfactor : (Evaluation.ofExcept (factor params)).result = .ok x := hx
  rw [scale, Evaluation.result_bind_of_ok hfactor, Evaluation.result_bind_of_ok result_firstGroup]
  rfl

theorem result_scale_of_error {input : Input} {params : List String} {e : Error}
    (hx : factor params = .error e) : (scale input params).result = .error e := by
  have hfactor : (Evaluation.ofExcept (factor params)).result = .error e := hx
  rw [scale, Evaluation.result_bind_of_error hfactor]

theorem outcome_absolute (input : Input) (params : List String) :
    Outcome (Function.absolute.Accepts input params) (Function.absolute.Returns input params)
      (absolute input).result := by
  cases input with
  | nil => exact .refusal (fun hne => hne rfl) rfl
  | cons group others =>
    rw [result_absolute]
    refine .success (List.cons_ne_nil group others) ?_
    show some group.length = some _
    rw [List.length_map]

theorem outcome_scale (input : Input) (params : List String) :
    Outcome (Function.scale.Accepts input params) (Function.scale.Returns input params)
      (scale input params).result := by
  cases hx : factor params with
  | error e =>
    rw [result_scale_of_error hx]
    refine .refusal ?_ (refuses_factor params e hx)
    rintro ⟨-, hgives⟩
    obtain ⟨x, hread⟩ := exists_factor_iff.2 hgives
    cases hx.symm.trans hread
  | ok x =>
    cases input with
    | nil =>
      have hempty : (scale [] params).result = .error .noInput := by
        have hfactor : (Evaluation.ofExcept (factor params)).result = .ok x := hx
        rw [scale, Evaluation.result_bind_of_ok hfactor]
        rfl
      rw [hempty]
      exact .refusal (fun haccepts => haccepts.1 rfl) rfl
    | cons group others =>
      rw [result_scale hx]
      refine .success ⟨List.cons_ne_nil group others, exists_factor_iff.1 ⟨x, hx⟩⟩ ?_
      show some group.length = some _
      rw [List.length_map]

end Elementwise

theorem Function.outcome_evaluate (f : Function) (c : Config) (h : w.start ≤ w.stop)
    (input : Input) (params : List String) :
    Outcome (f.Accepts input params) (f.Returns input params)
      (f.evaluate c w input params).result := by
  cases f with
  | movingAverage => exact Combine.outcome_smooth h input params
  | highest criterion => exact Select.outcome_highest h input params
  | sum => exact Combine.outcome_all .sum h input
  | multiply => exact Combine.outcome_all .multiply h input
  | difference => exact Combine.outcome_pair .sum .negate h input
  | divide => exact Combine.outcome_pair .multiply .reciprocal h input
  | absolute => exact Elementwise.outcome_absolute input params
  | scale => exact Elementwise.outcome_scale input params

namespace Registry

theorem outcome_ofConfig (c : Config) (name : String) (h : w.start ≤ w.stop) (input : Input)
    (params : List String) :
    Outcome (∃ f : Function, f.Named name ∧ c.Admits input.size ∧ f.Accepts input params)
      (fun out => ∀ f : Function, f.Named name → f.Returns input params out)
      ((ofConfig c).evaluate name w input params).result := by
  by_cases hname : ∃ f : Function, f.Named name
  · obtain ⟨f, hname⟩ := hname
    by_cases hadmits : c.Admits input.size
    · rw [result_ofConfig hname hadmits]
      refine (f.outcome_evaluate c h input params).congr ?_ ?_
      · constructor
        · intro haccepts
          exact ⟨f, hname, hadmits, haccepts⟩
        · rintro ⟨g, hg, -, haccepts⟩
          exact Function.named_unique hg hname ▸ haccepts
      · intro out hreturns g hg
        exact Function.named_unique hname hg ▸ hreturns
    · rw [result_ofConfig_of_not_admits hname hadmits]
      refine .refusal ?_ rfl
      rintro ⟨-, -, hsize, -⟩
      exact hadmits hsize
  · have hnone : ∀ f : Function, ¬ f.Named name := fun f hf => hname ⟨f, hf⟩
    rw [result_ofConfig_of_unnamed hnone]
    refine .refusal ?_ rfl
    rintro ⟨f, hf, -⟩
    exact hnone f hf

/-- In a window whose bounds are in order, the evaluation of a name either succeeds or refuses an invalid
argument. It succeeds just if a function goes by the name that accepts the input and the parameters, and
if the input is not too large; how many series come back then depends on the input and the parameters
alone. -/
theorem evaluate_total {startMs endMs : Int64} (hw : Window.between startMs endMs = .ok w)
    (c : Config) (name : String) (input : Input) (params : List String) :
    Refuses ((ofConfig c).evaluate name w input params).result ∧
    ((∃ out, ((ofConfig c).evaluate name w input params).result = .ok out) ↔
      ∃ f : Function, f.Named name ∧ c.Admits input.size ∧ f.Accepts input params) ∧
    ∀ out, ((ofConfig c).evaluate name w input params).result = .ok out →
      ∀ f : Function, f.Named name → f.Returns input params out :=
  (outcome_ofConfig c name (Window.start_le_stop hw) input params).total

theorem evaluate_total_highest :
    Window.between 0 10000 = .ok ⟨0, 10000⟩ ∧
      ∃ out, ((ofConfig {}).evaluate "highestCurrent" ⟨0, 10000⟩ Function.tiedInput
        [" +2 "]).result = .ok out ∧ out.length = 2 := by
  have hw : Window.between 0 10000 = .ok ⟨0, 10000⟩ := rfl
  obtain ⟨-, hsucceeds, hreturns⟩ :=
    evaluate_total hw {} "highestCurrent" Function.tiedInput [" +2 "]
  have hcount : Select.count [" +2 "] = .ok 2 := by decide
  have haccepts : (Function.highest .current).Accepts Function.tiedInput [" +2 "] :=
    ⟨by decide, 2, Select.count_eq_ok_iff.1 hcount⟩
  obtain ⟨out, hout⟩ := hsucceeds.2 ⟨.highest .current, .inl rfl, .inr (by decide), haccepts⟩
  obtain ⟨k, hasks, hlength, -⟩ := hreturns out hout (.highest .current) (.inl rfl)
  cases hcount.symm.trans (Select.count_eq_ok_iff.2 hasks)
  exact ⟨hw, out, hout, hlength⟩

end Registry
end DerivedSeries
