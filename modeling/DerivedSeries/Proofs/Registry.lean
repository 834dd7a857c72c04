import DerivedSeries.Registry
import DerivedSeries.Proofs.OrderedMap

/-!
# Look-ups in a registry

A registration answers to the name of its operation and to its aliases, and hides what they stood for
before (`get?_register`). So after a run of calls a name stands for the operation of the last call that
gives it (`get?_run`), the built-in functions counting as registered first; nothing is asked of the
operations. No two of the built-in functions share a name (`Function.named_unique`), so the registry of a
configuration finds each of them under all its names (`get?_ofConfig`) and nothing else
(`get?_ofConfig_of_unnamed`). What a registry evaluates is the operation itself, once the input has been
admitted (`result_evaluate_of_admits`).
-/

namespace DerivedSeries

namespace Function

/-- The function goes by a name. -/
def Named (f : Function) (name : String) : Prop :=
  name = f.name ∨ name ∈ f.aliases

instance (f : Function) (name : String) : Decidable (f.Named name) :=
  inferInstanceAs (Decidable (name = f.name ∨ name ∈ f.aliases))

theorem mem_builtIn (f : Function) : f ∈ builtIn := by
  cases f with
  | highest criterion => cases criterion <;> decide
  | _ => decide

/-- No two functions share a name. -/
theorem named_unique {f g : Function} {name : String} (hf : f.Named name) (hg : g.Named name) :
    f = g := by
  have hall : ∀ f ∈ builtIn, ∀ g ∈ builtIn, ∀ n ∈ f.name :: f.aliases, n ∈ g.name :: g.aliases →
      f = g := by decide
  exact hall f (mem_builtIn f) g (mem_builtIn g) name (List.mem_cons.2 hf) (List.mem_cons.2 hg)

end Function

/-- The configuration lets an input of so many series pass. -/
def Config.Admits (c : Config) (count : Nat) : Prop :=
  c.maxInputSeries = 0 ∨ count ≤ c.maxInputSeries.toNat

theorem Config.checkSize_of_admits {c : Config} {count : Nat} (h : c.Admits count) :
    c.checkSize count = .ok () := by
  unfold Config.checkSize
  rw [if_neg]
  rintro ⟨hne, hlt⟩
  rcases h with h | h
  · exact hne h
  · omega

theorem Config.checkSize_of_not_admits {c : Config} {count : Nat} (h : ¬ c.Admits count) :
    c.checkSize count = .error (.tooManySeries count c.maxInputSeries) := by
  unfold Config.Admits at h
  unfold Config.checkSize
  rw [if_pos]
  exact ⟨fun h0 => h (.inl h0), by omega⟩

namespace Registry

/-! ## Registrations -/

theorem get?_insertAll (m : OrderedMap String Registration) (r : Registration)
    (aliases : List String) (name : String) :
    (m.insertAll (aliases.map (·, r))).get? name =
      if name ∈ aliases then some r else m.get? name := by
  unfold OrderedMap.insertAll
  induction aliases generalizing m with
  | nil => rfl
  | cons a aliases ih =>
    rw [List.map_cons, List.foldl_cons, ih]
    by_cases hmem : name ∈ aliases
    · simp [hmem]
    · by_cases ha : name = a
      · subst ha
        simp [hmem, OrderedMap.get?_insert_self]
      · simp [hmem, ha, OrderedMap.get?_insert_of_ne]

theorem get?_register (g : Registry) (r : Registration) (aliases : List String) (name : String) :
    (g.register r aliases).get? name =
      if name = r.function.name ∨ name ∈ aliases then some r else g.get? name := by
  show ((g.entries.insertAll _).insert _ r).get? name = _
  by_cases hname : name = r.function.name
  · subst hname
    simp [OrderedMap.get?_insert_self]
  · rw [OrderedMap.get?_insert_of_ne _ _ _ hname, get?_insertAll]
    simp [hname, get?]

/-! ## Runs -/

/-- An operation to be registered under its own name and aliases. -/
structure Call where
  registration : Registration
  aliases : List String

/-- The names that a call gives to its operation. -/
def Call.Names (call : Call) (name : String) : Prop :=
  name = call.registration.function.name ∨ name ∈ call.aliases

/-- The registry after calls in turn. -/
def run (g : Registry) (calls : List Call) : Registry :=
  calls.foldl (fun g call => g.register call.registration call.aliases) g

/-- The last call that gives the name is for this registration. -/
def LastNamed (calls : List Call) (name : String) (r : Registration) : Prop :=
  ∃ before call after, calls = before ++ call :: after ∧ call.registration = r ∧ call.Names name ∧
    ∀ later ∈ after, ¬ later.Names name

variable {g : Registry} {r : Registration} {name : String} {calls : List Call} {call : Call}

theorem run_nil (g : Registry) : g.run [] = g := rfl

theorem config_run (g : Registry) (calls : List Call) : (g.run calls).config = g.config := by
  induction calls generalizing g with
  | nil => rfl
  | cons call calls ih => exact ih _

theorem lastNamed_cons : LastNamed (call :: calls) name r ↔
    LastNamed calls name r ∨
      (∀ later ∈ calls, ¬ later.Names name) ∧ call.Names name ∧ call.registration = r := by
  constructor
  · rintro ⟨before, d, after, heq, hr, hd, hafter⟩
    cases before with
    | nil =>
      cases heq
      exact .inr ⟨hafter, hd, hr⟩
    | cons b before =>
      cases heq
      exact .inl ⟨before, d, after, rfl, hr, hd, hafter⟩
  · rintro (⟨before, d, after, rfl, h⟩ | ⟨hlater, hcall, hr⟩)
    · exact ⟨call :: before, d, after, rfl, h⟩
    · exact ⟨[], call, calls, rfl, hr, hcall, hlater⟩

theorem exists_lastNamed_iff : (∃ r, LastNamed calls name r) ↔ ∃ call ∈ calls, call.Names name := by
  constructor
  · rintro ⟨r, before, call, after, rfl, -, h, -⟩
    exact ⟨call, by simp, h⟩
  · intro h
    induction calls with
    | nil => simp at h
    | cons call calls ih =>
      by_cases hlater : ∃ later ∈ calls, later.Names name
      · obtain ⟨r, hr⟩ := ih hlater
        exact ⟨r, lastNamed_cons.2 (.inl hr)⟩
      · have hnone : ∀ later ∈ calls, ¬ later.Names name := fun later hl hname =>
          hlater ⟨later, hl, hname⟩
        obtain ⟨d, hd, hname⟩ := h
        rcases List.mem_cons.1 hd with rfl | hd
        · exact ⟨_, lastNamed_cons.2 (.inr ⟨hnone, hname, rfl⟩)⟩
        · exact absurd hname (hnone d hd)

/-- A name stands for the operation of the last call that gives it, or for what it stood for before. -/
theorem get?_run : (g.run calls).get? name = some r ↔
    LastNamed calls name r ∨ (∀ call ∈ calls, ¬ call.Names name) ∧ g.get? name = some r := by
  induction calls generalizing g with
  | nil => simp [run, LastNamed]
  | cons call calls ih =>
    show ((g.register call.registration call.aliases).run calls).get? name = some r ↔ _
    rw [ih, get?_register, lastNamed_cons, List.forall_mem_cons, or_assoc]
    by_cases h : call.Names name
    · have hname : name = call.registration.function.name ∨ name ∈ call.aliases := h
      simp [h, hname]
    · have hname : ¬ (name = call.registration.function.name ∨ name ∈ call.aliases) := h
      simp [h, hname]

/-! ## The built-in functions -/

variable {c : Config}

/-- The calls for the built-in functions, which share the settings. -/
def builtInCalls (c : Config) : List Call :=
  Function.builtIn.map fun (f : Function) => ⟨⟨f, c⟩, f.aliases⟩

theorem ofConfig_eq_run (c : Config) : ofConfig c = run { config := c } (builtInCalls c) := by
  unfold ofConfig run builtInCalls
  exact (List.foldl_map (f := fun (f : Function) => (⟨⟨f, c⟩, f.aliases⟩ : Call))
    (g := fun (g : Registry) call => g.register call.registration call.aliases)).symm

/-- The built-in functions count as registered first. -/
theorem get?_ofConfig_run :
    ((ofConfig c).run calls).get? name = some r ↔ LastNamed (builtInCalls c ++ calls) name r := by
  have hrun : (ofConfig c).run calls = run { config := c } (builtInCalls c ++ calls) := by
    rw [ofConfig_eq_run, run, run, run, List.foldl_append]
  rw [hrun, get?_run]
  exact or_iff_left fun h => nomatch h.2

theorem get?_ofConfig_iff : (ofConfig c).get? name = some r ↔ LastNamed (builtInCalls c) name r := by
  have h : ((ofConfig c).run []).get? name = some r ↔ LastNamed (builtInCalls c ++ []) name r :=
    get?_ofConfig_run
  rwa [run_nil, List.append_nil] at h

theorem named_of_mem_builtInCalls (h : call ∈ builtInCalls c) (hname : call.Names name) :
    ∃ f : Function, f.Named name ∧ call.registration = ⟨f, c⟩ := by
  obtain ⟨f, -, rfl⟩ := List.mem_map.1 h
  exact ⟨f, hname, rfl⟩

theorem lastNamed_builtInCalls {f : Function} (h : f.Named name) (c : Config) :
    LastNamed (builtInCalls c) name ⟨f, c⟩ := by
  have hcall : (⟨⟨f, c⟩, f.aliases⟩ : Call) ∈ builtInCalls c :=
    List.mem_map_of_mem (Function.mem_builtIn f)
  obtain ⟨r, before, call, after, heq, rfl, hname, hafter⟩ := exists_lastNamed_iff.2 ⟨_, hcall, h⟩
  obtain ⟨d, hd, hcall⟩ := named_of_mem_builtInCalls (c := c) (heq ▸ by simp) hname
  cases Function.named_unique h hd
  exact ⟨before, call, after, heq, hcall, hname, hafter⟩

theorem get?_ofConfig {f : Function} (h : f.Named name) (c : Config) :
    (ofConfig c).get? name = some ⟨f, c⟩ := by
  rw [get?_ofConfig_iff]
  exact lastNamed_builtInCalls h c

theorem get?_ofConfig_of_unnamed (h : ∀ f : Function, ¬ f.Named name) (c : Config) :
    (ofConfig c).get? name = none := by
  rw [Option.eq_none_iff_forall_ne_some]
  intro r hr
  obtain ⟨before, call, after, heq, -, hname, -⟩ := get?_ofConfig_iff.1 hr
  obtain ⟨f, hf, -⟩ := named_of_mem_builtInCalls (c := c) (heq ▸ by simp) hname
  exact h f hf

/-! ## Evaluation -/

variable {w : Window} {input : Input} {params : List String}

section
variable {g : Registry} {r : Registration}

theorem result_evaluate_of_unknown (h : g.get? name = none) :
    (g.evaluate name w input params).result = .error (.unknownFunction name) := by
  have hfind : (Evaluation.ofExcept (g.find name)).result = .error (.unknownFunction name) := by
    rw [Evaluation.result_ofExcept, find, h]
  rw [evaluate, Evaluation.result_bind_of_error hfind]

theorem result_evaluate_of_not_admits (h : g.get? name = some r)
    (hadmits : ¬ g.config.Admits input.size) :
    (g.evaluate name w input params).result =
      .error (.tooManySeries input.size g.config.maxInputSeries) := by
  have hfind : (Evaluation.ofExcept (g.find name)).result = .ok r := by
    rw [Evaluation.result_ofExcept, find, h]
  have hsize : (Evaluation.ofExcept (g.config.checkSize input.size)).result =
      .error (.tooManySeries input.size g.config.maxInputSeries) :=
    Config.checkSize_of_not_admits hadmits
  rw [evaluate, Evaluation.result_bind_of_ok hfind,
    Evaluation.result_bind_of_ok (Evaluation.result_report _), Evaluation.result_bind_of_error hsize]

theorem result_evaluate_of_admits (h : g.get? name = some r) (hadmits : g.config.Admits input.size) :
    (g.evaluate name w input params).result = (r.evaluate w input params).result := by
  have hfind : (Evaluation.ofExcept (g.find name)).result = .ok r := by
    rw [Evaluation.result_ofExcept, find, h]
  have hsize : (Evaluation.ofExcept (g.config.checkSize input.size)).result = .ok () :=
    Config.checkSize_of_admits hadmits
  rw [evaluate, Evaluation.result_bind_of_ok hfind,
    Evaluation.result_bind_of_ok (Evaluation.result_report _), Evaluation.result_bind_of_ok hsize]

end

theorem result_ofConfig {f : Function} (h : f.Named name) (hadmits : c.Admits input.size) :
    ((ofConfig c).evaluate name w input params).result = (f.evaluate c w input params).result :=
  result_evaluate_of_admits (get?_ofConfig h c) hadmits

theorem result_ofConfig_of_unnamed (h : ∀ f : Function, ¬ f.Named name) (c : Config) :
    ((ofConfig c).evaluate name w input params).result = .error (.unknownFunction name) :=
  result_evaluate_of_unknown (get?_ofConfig_of_unnamed h c)

theorem result_ofConfig_of_not_admits {f : Function} (h : f.Named name)
    (hadmits : ¬ c.Admits input.size) :
    ((ofConfig c).evaluate name w input params).result =
      .error (.tooManySeries input.size c.maxInputSeries) :=
  result_evaluate_of_not_admits (get?_ofConfig h c) hadmits

/-! ## Dispatch -/

theorem pairwise_names (g : Registry) : g.names.Pairwise (· < ·) :=
  List.pairwise_map.2 (g.entries.ascending.imp compareOfLessAndEq_eq_lt.1)

/-- A registry with the settings `c` sends each name to the operation that some calls gave it to. -/
structure Dispatches (c : Config) (calls : List Call) (g : Registry) : Prop where
  get?_eq_some_iff : ∀ name r, g.get? name = some r ↔ LastNamed calls name r
  get?_eq_none_iff : ∀ name, g.get? name = none ↔ ∀ call ∈ calls, ¬ call.Names name
  ascending_names : g.names.Pairwise (· < ·)
  mem_names_iff : ∀ name, name ∈ g.names ↔ ∃ call ∈ calls, call.Names name
  /-- Whatever the name in the call, the text shows the operation's own. -/
  renders : ∀ name r inner, g.get? name = some r →
    g.render name inner = .ok (r.function.name ++ "(" ++ inner ++ ")")
  refuses_unknown : ∀ name w input params, g.get? name = none →
    ∃ e, (g.evaluate name w input params).result = .error e ∧ e.kind = .invalidArgument
  refuses_oversized : ∀ name w input params r, g.get? name = some r →
    c.maxInputSeries ≠ 0 → c.maxInputSeries.toNat < input.size →
    ∃ e, (g.evaluate name w input params).result = .error e ∧ e.kind = .invalidArgument
  /-- The limit is the registry's, all other settings are those of the operation. -/
  evaluates : ∀ name w input params r, g.get? name = some r →
    c.maxInputSeries = 0 ∨ input.size ≤ c.maxInputSeries.toNat →
    (g.evaluate name w input params).result =
      (r.function.evaluate r.config w input params).result

theorem dispatches_of_get? {g : Registry} {calls : List Call} (hconfig : g.config = c)
    (hget : ∀ name r, g.get? name = some r ↔ LastNamed calls name r) : Dispatches c calls g := by
  subst hconfig
  have hsome (name : String) :
      (∃ r, g.get? name = some r) ↔ ∃ call ∈ calls, call.Names name := by
    simp only [hget, exists_lastNamed_iff]
  refine ⟨hget, fun name => ?_, g.pairwise_names, fun name => ?_, ?_, ?_, ?_, ?_⟩
  · rw [← Option.not_isSome_iff_eq_none, Option.isSome_iff_exists, hsome]
    simp
  · rw [names, OrderedMap.mem_keys]
    exact hsome name
  · intro name r inner h
    rw [render, find, h]
    rfl
  · intro name w input params h
    exact ⟨_, result_evaluate_of_unknown h, rfl⟩
  · intro name w input params r h hne hlt
    have hrefused : ¬ g.config.Admits input.size := by
      rintro (h0 | hle)
      · exact hne h0
      · omega
    exact ⟨_, result_evaluate_of_not_admits h hrefused, rfl⟩
  · intro name w input params r h hadmits
    exact result_evaluate_of_admits h hadmits

/-- Whatever operations are registered in whatever order, each name goes to the one that took it over last,
the built-in functions being there from the start. -/
theorem dispatches_run (c : Config) (calls : List Call) :
    Dispatches c (builtInCalls c ++ calls) ((ofConfig c).run calls) :=
  dispatches_of_get? (by rw [config_run, ofConfig_eq_run, config_run]) fun _ _ => get?_ofConfig_run

/-- A name can be taken from a built-in function, and taken back. -/
example :
    let blank : Registration := ⟨⟨"blank", fun _ _ _ _ => pure []⟩, {}⟩
    let g := (ofConfig {}).run [⟨blank, ["sumSeries", "sum"]⟩, ⟨⟨Function.sum, {}⟩, []⟩]
    ["sum", "sumSeries"].map (fun name => (g.get? name).map fun r => r.function.name) =
      [some "blank", some "sumSeries"] := by
  decide

end Registry
end DerivedSeries
