import Mathlib.Data.List.Forall2
import DerivedSeries.Json.Codec
import DerivedSeries.Proofs.Json.Double
import DerivedSeries.Proofs.Json.Tree
import DerivedSeries.Proofs.OrderedMap

/-!
# Reading what is written

Each writer has its reader: from the tree that stands for a value the reader takes the value back, and the
tree has a text (`Restores`). This goes from numbers and strings up through lists, maps and records to the
types that are written (`text_render`).

A numeral in its shortest form denotes a double, but reading rounds in steps and may end at a neighbour of
the double that was written. So the samples that are doubles are assumed to be among those whose digits
give them back (`Rereads`). That an integer stays an integer and a double a double needs no assumption: it
is the form of the numeral that tells.
-/

namespace DerivedSeries.Json

theorem mapM_eq_some_iff {α β : Type} {f : α → Option β} {as : List α} {bs : List β} :
    as.mapM f = some bs ↔ List.Forall₂ (fun a b => f a = some b) as bs := by
  induction as generalizing bs with
  | nil => simp [eq_comm]
  | cons a as ih =>
    simp only [List.mapM_cons, Option.bind_eq_bind, Option.bind_eq_some_iff, Option.pure_def,
      Option.some.injEq, List.forall₂_cons_left_iff, ih]
    grind

/-- A list of pairs, each read in two parts. -/
theorem mapM_pair_eq_some_iff {α β γ : Type} {f : α → Option β} {g : α → Option γ} {as : List α}
    {ps : List (β × γ)} :
    (as.mapM fun a => do return (← f a, ← g a)) = some ps ↔
      List.Forall₂ (fun a p => f a = some p.1 ∧ g a = some p.2) as ps := by
  have hpair (a : α) (p : β × γ) :
      (do return (← f a, ← g a) : Option (β × γ)) = some p ↔ f a = some p.1 ∧ g a = some p.2 := by
    cases f a <;> cases g a <;> simp [Prod.ext_iff]
  simp only [mapM_eq_some_iff, hpair]

namespace Reader

variable {α : Type} {r : Reader α} {t : Tree}

/-- What a list is read from. -/
theorem list_eq_some_iff {as : List α} :
    list r t = some as ↔ ∃ ts, t = .array ts ∧ List.Forall₂ (fun t a => r t = some a) ts as := by
  cases t with
  | array ts => simp [list, mapM_eq_some_iff]
  | _ => simp [list]

/-- What a map is read from. -/
theorem map_eq_some_iff {κ : Type} [Ord κ] [Std.TransOrd κ] {key : Literal → Option κ}
    {m : OrderedMap κ α} :
    map key r t = some m ↔
      ∃ ms es, t = .object ms ∧
        List.Forall₂ (fun (a : Literal × Tree) (e : κ × α) => key a.1 = some e.1 ∧ r a.2 = some e.2)
          ms es ∧ OrderedMap.ofList es = m := by
  cases t with
  | object ms =>
    constructor
    · intro h
      obtain ⟨es, hes, hm⟩ := Option.bind_eq_some_iff.1 h
      exact ⟨ms, es, rfl, mapM_pair_eq_some_iff.1 hes, Option.some.inj hm⟩
    · rintro ⟨_, es, ⟨⟩, hes, rfl⟩
      exact Option.bind_eq_some_iff.2 ⟨es, mapM_pair_eq_some_iff.2 hes, rfl⟩
  | _ => simp [map]

/-- The tree of each field among the members of an object: there is one at most. -/
theorem fields_object_iff {names : List String} {ms : List (Literal × Tree)}
    {ts : List (Option Tree)} :
    fields names (.object ms) = some ts ↔
      ∃ fs : List (String × Tree),
        List.Forall₂ (fun a f => a.1.decode? = some f.1 ∧ a.2 = f.2) ms fs ∧
        List.Forall₂ (fun name t => under name fs = [] ∧ t = none ∨
          ∃ u, under name fs = [u] ∧ t = some u) names ts := by
  have hmembers (fs : List (String × Tree)) :
      (ms.mapM fun (a : Literal × Tree) => do return (← a.1.decode?, a.2)) = some fs ↔
        List.Forall₂ (fun a f => a.1.decode? = some f.1 ∧ some a.2 = some f.2) ms fs :=
    mapM_pair_eq_some_iff (f := fun a : Literal × Tree => a.1.decode?) (g := fun a => some a.2)
  simp only [Option.some.injEq] at hmembers
  constructor
  · intro h
    obtain ⟨fs, hfs, hts⟩ := Option.bind_eq_some_iff.1 h
    refine ⟨fs, (hmembers fs).1 hfs, (mapM_eq_some_iff.1 hts).imp fun name t ht => ?_⟩
    split at ht
    · rename_i hunder
      exact .inl ⟨hunder, (Option.some.inj ht).symm⟩
    · rename_i u hunder
      exact .inr ⟨u, hunder, (Option.some.inj ht).symm⟩
    · cases ht
  · rintro ⟨fs, hfs, hts⟩
    refine Option.bind_eq_some_iff.2 ⟨fs, (hmembers fs).2 hfs, mapM_eq_some_iff.2 ?_⟩
    refine hts.imp fun name t ht => ?_
    rcases ht with ⟨hunder, rfl⟩ | ⟨u, hunder, rfl⟩ <;> simp only [hunder]

end Reader

/-- The reader takes the value back from the tree that stands for it, and the tree has a text. -/
structure Restores {α : Type} (r : Reader α) (t : Tree) (a : α) : Prop where
  valid : t.IsValid
  read : r t = some a

/-- What is restored from a tree is read from its text. -/
theorem Restores.text {α : Type} {r : Reader α} {t : Tree} {a : α} (h : Restores r t a) :
    Reader.text r t.render = .ok a := by
  rw [Reader.text, Tree.parse_render h.valid, Option.bind_some, h.read]

/-! ## Numbers and strings -/

theorem restores_int64 (v : Int64) : Restores Reader.int64 (Writer.int v.toInt) v :=
  ⟨.number (Numeral.isValid_ofInt _), Number.toInt64?_ofInt v⟩

theorem restores_uint64 (u : UInt64) : Restores Reader.uint64 (Writer.int u.toNat) u := by
  refine ⟨.number (Numeral.isValid_ofInt _), ?_⟩
  show (Number.ofNumeral (.ofInt u.toNat)).bind Number.toUInt64? = some u
  rw [Number.ofNumeral_ofInt_natural]
  rfl

theorem restores_bool (b : Bool) : Restores Reader.bool (.bool b) b :=
  ⟨.bool b, rfl⟩

theorem restores_string (s : String) : Restores Reader.string (Writer.string s) s :=
  ⟨.string (Literal.isValid_encode s), Literal.decode?_encode s⟩

theorem restores_interpolation (p : Interpolation) :
    Restores Reader.interpolation (Writer.string p.name) p := by
  refine ⟨.string (Literal.isValid_encode _), ?_⟩
  show (Literal.encode p.name).decode?.bind Interpolation.ofName? = some p
  rw [Literal.decode?_encode]
  exact Interpolation.ofName?_name p

/-! ## Samples -/

/-- The digits of a double denote the double when they are read. -/
def Rereads (x : Float) : Prop :=
  ∀ n, Numeral.ofFloat? x = some n → Number.realOf n = some x

theorem rereads_of_eq {x : Float} {n : Numeral} (hn : Numeral.ofFloat? x = some n)
    (hx : Number.realOf n = some x) : Rereads x := by
  intro m hm
  rw [hn] at hm
  cases hm
  exact hx

/-- A double of the sample is finite, and its digits denote it when they are read. -/
def Lossless (s : Sample) : Prop :=
  ∀ x, s = .float x → x.isFinite = true ∧ Rereads x

theorem restores_sample_int (v : Int64) :
    Restores Reader.sample (Writer.sample (.int v)) (.int v) := by
  obtain ⟨hvalid, hread⟩ := restores_int64 v
  refine ⟨hvalid, ?_⟩
  obtain ⟨n, hn, hv⟩ := Option.bind_eq_some_iff.1 hread
  show (Reader.number (Writer.int v.toInt)).map Number.toSample = some (.int v)
  rw [hn, Option.map_some, Number.toSample, hv]

/-- A finite double is written as a numeral that denotes a double. -/
theorem exists_sample_float {x : Float} (h : x.isFinite = true) :
    ∃ n, Numeral.ofFloat? x = some n ∧ Writer.sample (.float x) = .number n ∧ n.IsValid ∧
      Reader.sample (.number n) = (Number.realOf n).map .float := by
  obtain ⟨n, hn, hreal⟩ := Numeral.exists_ofFloat?_of_isFinite h
  refine ⟨n, hn, ?_, hreal.valid, ?_⟩
  · rw [Writer.sample, hn]
    rfl
  · show (Number.ofNumeral n).map Number.toSample = _
    rw [Number.ofNumeral_of_isReal hreal, Option.map_map]
    rfl

theorem restores_sample_float {x : Float} (h : x.isFinite = true) (hx : Rereads x) :
    Restores Reader.sample (Writer.sample (.float x)) (.float x) := by
  obtain ⟨n, hn, htree, hvalid, hread⟩ := exists_sample_float h
  rw [htree]
  refine ⟨.number hvalid, ?_⟩
  rw [hread, hx n hn]
  rfl

theorem restores_sample {s : Sample} (h : Lossless s) :
    Restores Reader.sample (Writer.sample s) s := by
  cases s with
  | int v => exact restores_sample_int v
  | float x => exact restores_sample_float (h x rfl).1 (h x rfl).2

/-! ## Lists, maps and records -/

theorem restores_list {α : Type} {r : Reader α} {tree : α → Tree} {as : List α}
    (h : ∀ a ∈ as, Restores r (tree a) a) :
    Restores (Reader.list r) (.array (as.map tree)) as := by
  refine ⟨.array ?_, ?_⟩
  · intro t ht
    obtain ⟨a, ha, rfl⟩ := List.mem_map.1 ht
    exact (h a ha).valid
  · refine Reader.list_eq_some_iff.2 ⟨_, rfl, ?_⟩
    rw [List.forall₂_map_left_iff, List.forall₂_same]
    exact fun a ha => (h a ha).read

theorem isValid_record {fs : List (String × Tree)} (h : ∀ f ∈ fs, f.2.IsValid) :
    (Writer.record fs).IsValid := by
  refine .object ?_ ?_
  all_goals
    intro m hm
    obtain ⟨f, hf, rfl⟩ := List.mem_map.1 hm
  · exact Literal.isValid_encode f.1
  · exact h f hf

theorem restores_map {κ α : Type} [Ord κ] [Std.LawfulEqOrd κ] [Std.TransOrd κ]
    {key : Literal → Option κ} {name : κ → String} {r : Reader α} {tree : α → Tree}
    {m : OrderedMap κ α} (hkey : ∀ k, key (.encode (name k)) = some k)
    (h : ∀ e ∈ m.entries, Restores r (tree e.2) e.2) :
    Restores (Reader.map key r)
      (Writer.record (m.entries.map fun e => (name e.1, tree e.2))) m := by
  refine ⟨isValid_record ?_, ?_⟩
  · intro f hf
    obtain ⟨e, he, rfl⟩ := List.mem_map.1 hf
    exact (h e he).valid
  · refine Reader.map_eq_some_iff.2 ⟨_, m.entries, rfl, ?_, OrderedMap.ofList_entries m⟩
    rw [List.map_map, List.forall₂_map_left_iff, List.forall₂_same]
    exact fun e he => ⟨hkey e.1, (h e he).read⟩

theorem under_of_mem {fs : List (String × Tree)} (hfs : (fs.map (·.1)).Nodup)
    {f : String × Tree} (hf : f ∈ fs) : Reader.under f.1 fs = [f.2] := by
  induction fs with
  | nil => cases hf
  | cons g fs ih =>
    rw [List.map_cons, List.nodup_cons] at hfs
    obtain ⟨hg, hfs⟩ := hfs
    rcases List.mem_cons.1 hf with rfl | hf
    · have hrest : fs.filter (fun m => m.1 == f.1) = [] := by
        rw [List.filter_eq_nil_iff]
        intro m hm heq
        exact hg (List.mem_map.2 ⟨m, hm, eq_of_beq heq⟩)
      simp [Reader.under, hrest]
    · have hne : ¬ (g.1 == f.1) = true := by
        intro heq
        rw [eq_of_beq heq] at hg
        exact hg (List.mem_map.2 ⟨f, hf, rfl⟩)
      show ((g :: fs).filter fun m => m.1 == f.1).map (·.2) = [f.2]
      rw [List.filter_cons_of_neg (p := fun m : String × Tree => m.1 == f.1) hne]
      exact ih hfs hf

/-- A record has its own fields, if no two have one name. -/
theorem fields_record (fs : List (String × Tree)) (hfs : (fs.map (·.1)).Nodup) :
    Reader.fields (fs.map (·.1)) (Writer.record fs) = some (fs.map fun f => some f.2) := by
  refine Reader.fields_object_iff.2 ⟨fs, ?_, ?_⟩
  · rw [List.forall₂_map_left_iff, List.forall₂_same]
    exact fun f _ => ⟨Literal.decode?_encode f.1, rfl⟩
  · rw [List.forall₂_map_left_iff, List.forall₂_map_right_iff, List.forall₂_same]
    exact fun f hf => .inr ⟨f.2, under_of_mem hfs hf, rfl⟩

/-! ## Keys that are times -/

theorem write_ofInt (t : Int64) : (Numeral.ofInt t.toInt).write = (toString t).toList := by
  rw [Text.toList_toString, Numeral.write_eq]
  by_cases h : t.toInt < 0 <;> simp [Numeral.ofInt, Numeral.fractionText, Numeral.exponentText, h]

/-- A key is a time just if it is the text of the time without escapes. -/
theorem int64Key_eq_some_iff {l : Literal} {t : Int64} :
    Reader.int64Key l = some t ↔ l.plain? = some (toString t).toList := by
  simp only [Reader.int64Key, Option.bind_eq_bind, Option.bind_eq_some_iff, Prod.exists]
  constructor
  · rintro ⟨cs, hcs, n, rest, hread, h⟩
    split at h
    · rename_i hrest
      obtain ⟨m, hm, hv⟩ := Option.bind_eq_some_iff.1 h
      rw [List.isEmpty_iff.1 hrest] at hread
      rw [hcs, Number.toString_of_read hread hm hv]
    · cases h
  · intro h
    have hread : Numeral.read ((Numeral.ofInt t.toInt).write ++ []) = some (.ofInt t.toInt, []) :=
      Numeral.read_write (Numeral.isValid_ofInt _) nofun
    rw [List.append_nil, write_ofInt] at hread
    exact ⟨_, h, _, _, hread, Number.toInt64?_ofInt t⟩

theorem int64Key_encode (t : Int64) : Reader.int64Key (.encode (toString t)) = some t :=
  int64Key_eq_some_iff.2 (Literal.plain?_encode Text.mem_toString)

/-! ## The types -/

variable {p : Point} {s : Series}

theorem restores_point (h : Lossless p.value) : Restores Reader.point (Writer.point p) p := by
  have htime := restores_int64 p.timestamp
  have hvalue := restores_sample h
  have hfields : Reader.fields ["timestamp", "value"] (Writer.point p) = some [_, _] :=
    fields_record [(_, _), (_, _)] (by simp)
  refine ⟨isValid_record ?_, ?_⟩
  · simp [htime.valid, hvalue.valid]
  · rw [Reader.point, hfields]
    simp [Reader.required, htime.read, hvalue.read]

theorem restores_window (w : Window) : Restores Reader.window (Writer.window w) w := by
  have hstart := restores_int64 w.startMs
  have hstop := restores_int64 w.endMs
  have hfields : Reader.fields ["start_ms", "end_ms"] (Writer.window w) = some [_, _] :=
    fields_record [(_, _), (_, _)] (by simp)
  refine ⟨isValid_record ?_, ?_⟩
  · simp [hstart.valid, hstop.valid]
  · rw [Reader.window, hfields]
    simp [Reader.required, hstart.read, hstop.read]

theorem restores_rateOptions (r : RateOptions) :
    Restores Reader.rateOptions (Writer.rateOptions r) r := by
  have hcounter := restores_bool r.counter
  have hmax := restores_int64 r.counterMax
  have hreset := restores_int64 r.resetValue
  have hfields : Reader.fields ["counter", "counter_max", "reset_value"] (Writer.rateOptions r) =
      some [_, _, _] :=
    fields_record [(_, _), (_, _), (_, _)] (by simp)
  refine ⟨isValid_record ?_, ?_⟩
  · simp [hcounter.valid, hmax.valid, hreset.valid]
  · rw [Reader.rateOptions, hfields]
    simp [Reader.optional, hcounter.read, hmax.read, hreset.read]

theorem restores_config (c : Config) : Restores Reader.config (Writer.config c) c := by
  have hpolicy := restores_interpolation c.interpolation
  have hskip := restores_bool c.skipMissing
  have hlog := restores_bool c.logRankings
  have hlimit := restores_uint64 c.maxInputSeries
  have hfields : Reader.fields ["interpolation", "skip_missing", "log_rankings", "max_input_series"]
      (Writer.config c) = some [_, _, _, _] :=
    fields_record [(_, _), (_, _), (_, _), (_, _)] (by simp)
  refine ⟨isValid_record ?_, ?_⟩
  · simp [hpolicy.valid, hskip.valid, hlog.valid, hlimit.valid]
  · rw [Reader.config, hfields]
    simp [Reader.optional, hpolicy.read, hskip.read, hlog.read, hlimit.read]

theorem restores_series (h : ∀ e ∈ s.samples.entries, Lossless e.2) :
    Restores Reader.series (Writer.series s) s := by
  have hmetric := restores_string s.metric
  have htags : Restores (Reader.map Literal.decode? Reader.string)
      (Writer.record (s.tags.entries.map fun e => (e.1, Writer.string e.2))) s.tags :=
    restores_map Literal.decode?_encode fun e _ => restores_string e.2
  have haggregated : Restores (Reader.list Reader.string)
      (.array (s.aggregatedTags.map Writer.string)) s.aggregatedTags :=
    restores_list fun a _ => restores_string a
  have hsamples := restores_map int64Key_encode fun e he => restores_sample (h e he)
  have hfields : Reader.fields ["metric", "tags", "aggregateTags", "dps"] (Writer.series s) =
      some [_, _, _, _] :=
    fields_record [(_, _), (_, _), (_, _), (_, _)] (by simp)
  refine ⟨isValid_record ?_, ?_⟩
  · simp [hmetric.valid, htags.valid, haggregated.valid, hsamples.valid]
  · rw [Reader.series, hfields]
    simp [Reader.optional, hmetric.read, htags.read, haggregated.read, hsamples.read]

/-! ## Texts -/

/-- Every value is read back from the text that it is written as. Where a sample is a double, its digits
have to denote the double when they are read; that the sample stays a double needs no assumption. -/
theorem text_render :
    (∀ s : Series, (∀ e ∈ s.samples.entries, Lossless e.2) →
      Reader.text Reader.series (Writer.series s).render = .ok s) ∧
    (∀ p : Point, Lossless p.value → Reader.text Reader.point (Writer.point p).render = .ok p) ∧
    (∀ v : Sample, Lossless v → Reader.text Reader.sample (Writer.sample v).render = .ok v) ∧
    (∀ w : Window, Reader.text Reader.window (Writer.window w).render = .ok w) ∧
    (∀ r : RateOptions,
      Reader.text Reader.rateOptions (Writer.rateOptions r).render = .ok r) ∧
    (∀ c : Config, Reader.text Reader.config (Writer.config c).render = .ok c) ∧
    (∀ x : Float, x.isFinite = true → ∀ v,
      Reader.text Reader.sample (Writer.sample (.float x)).render = .ok v → v.isInt = false) := by
  refine ⟨fun s h => (restores_series h).text, fun p h => (restores_point h).text,
    fun v h => (restores_sample h).text, fun w => (restores_window w).text,
    fun r => (restores_rateOptions r).text, fun c => (restores_config c).text, ?_⟩
  intro x hx v hv
  obtain ⟨n, -, htree, hvalid, hread⟩ := exists_sample_float hx
  rw [Reader.text, htree, Tree.parse_render (.number hvalid), Option.bind_some, hread] at hv
  cases hn : Number.realOf n with
  | none => rw [hn] at hv; cases hv
  | some y => rw [hn] at hv; cases hv; rfl

/-- A series with a quote, a line feed and a character beyond ASCII in its strings. -/
def quotedSeries : Series where
  metric := "cpu \"é\"\n"
  tags := .ofList [("host", "a\\b"), ("", "\x01")]
  aggregatedTags := ["dc", ""]
  samples := ⟨[(-3, .int 5), (7, .float 2.5)], by decide⟩

theorem quotedSeries_text :
    (∀ e ∈ quotedSeries.samples.entries, Lossless e.2) ∧
      Reader.text Reader.series (Writer.series quotedSeries).render = .ok quotedSeries := by
  have hlossless : ∀ e ∈ quotedSeries.samples.entries, Lossless e.2 := by
    have hx : Rereads 2.5 :=
      rereads_of_eq (n := ⟨false, ['2'], ['5'], none⟩) (by decide +kernel) (by decide +kernel)
    show ∀ e ∈ ([(-3, .int 5), (7, .float 2.5)] : List (Timestamp × Sample)), _
    rintro e he x hv
    simp only [List.mem_cons, List.not_mem_nil, or_false] at he
    rcases he with rfl | rfl
    · cases hv
    · cases hv
      exact ⟨by decide +kernel, hx⟩
  exact ⟨hlossless, text_render.1 quotedSeries hlossless⟩

-- the digits are divided by a power of ten that is itself rounded, and the quotient is a neighbour
example : ¬ Rereads (1 / 11) := by
  intro h
  have hn : Numeral.ofFloat? (1 / 11) =
      some ⟨false, ['0'], "09090909090909091".toList, none⟩ := by decide +kernel
  exact absurd (h _ hn) (by decide +kernel)

end DerivedSeries.Json
