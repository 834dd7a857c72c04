import DerivedSeries.Proofs.Config.File
import DerivedSeries.Proofs.Text.Numeral

/-!
# Layers of settings

A setting comes from one of three places: a text from outside that spells a value of it, the file, or the
default (`Layered`). What a text spells, and what a value in a file spells, is said without the readers
(`Spelling`), which are then shown to take just that (`Reads`). Loading with overrides composes the settings
this way, one by one, and then accepts the whole unless it skips missing samples and yet chooses a policy for
them (`loadWith_layers`).
-/

namespace DerivedSeries.Config

open Overrides (pick readBool)

/-! ## Spellings -/

/-- Which sources, texts from outside or values in a file, spell which settings. -/
abbrev Spelling (σ α : Type) := σ → α → Prop

/-- A reader takes just the sources that spell a setting, for that setting. -/
def Reads {σ α : Type} (read : σ → Option α) (spells : Spelling σ α) : Prop :=
  ∀ s x, read s = some x ↔ spells s x

/-! ### From outside -/

/-- The name of the policy in any case, with blanks around it or not. -/
def SpellsPolicy : Spelling String Interpolation := fun s p =>
  (Text.trim s).toList.map Char.toLower = p.name.toList

def SpellsBool : Spelling String Bool := fun s b => s = boolText b

/-- Digits, after a plus sign or not, that denote the limit. -/
def SpellsLimit : Spelling String UInt64 := fun s n =>
  Text.Numeral s.toList n.toNat ∧ s.toList.head? ≠ some '-'

theorem ofName?_eq_some_iff {s : String} {p : Interpolation} :
    Interpolation.ofName? s = some p ↔ s = p.name := by
  constructor
  · intro h
    unfold Interpolation.ofName? at h
    split at h <;> cases h <;> rfl
  · rintro rfl
    exact Interpolation.ofName?_name p

theorem toOption_eq_some_iff {ε α : Type} {x : Except ε α} {a : α} :
    x.toOption = some a ↔ x = .ok a := by
  cases x <;> simp [Except.toOption]

theorem reads_policy : Reads (fun s => (Interpolation.parse s).toOption) SpellsPolicy := by
  intro s p
  have hparse : Interpolation.parse s = .ok p ↔
      Interpolation.ofName? (String.ofList ((Text.trim s).toList.map Char.toLower)) = some p := by
    unfold Interpolation.parse
    simp only
    split <;> simp_all
  rw [toOption_eq_some_iff, hparse, ofName?_eq_some_iff, SpellsPolicy, ← String.toList_inj,
    String.toList_ofList]

theorem reads_bool : Reads readBool SpellsBool := by
  intro s b
  constructor
  · intro h
    unfold readBool at h
    split at h <;> cases h <;> rfl
  · rintro rfl
    cases b <;> rfl

theorem reads_limit : Reads (fun s => (Text.readUInt64 s).toOption) SpellsLimit := by
  intro s n
  rw [toOption_eq_some_iff, Text.readUInt64_eq_ok_iff]
  rfl

/-! ### In a file -/

/-- An array or a table of nothing. -/
inductive Hollow : Toml.Value → Prop where
  | array : Hollow (.array [])
  | table (form : Toml.Form) : Hollow (.table form [])

/-- A policy is the text of its name as it is, or a table that has the name for its only key and nothing
under it. -/
inductive StatesPolicy : Toml.Value → Interpolation → Prop where
  | text (p : Interpolation) : StatesPolicy (.string p.name) p
  | key (form : Toml.Form) (p : Interpolation) {v : Toml.Value} : Hollow v →
    StatesPolicy (.table form [(p.name, v)]) p

def StatesBool : Spelling Toml.Value Bool := fun v b => v = .boolean b

/-- A limit is the integer itself, so none is negative. -/
def StatesLimit : Spelling Toml.Value UInt64 := fun v n =>
  ∃ k : Int64, v = .integer k ∧ k.toInt = n.toNat

theorem isHollow_iff {v : Toml.Value} : isHollow v = true ↔ Hollow v := by
  constructor
  · intro h
    unfold isHollow at h
    split at h
    · rename_i vs
      rw [List.isEmpty_iff] at h
      exact h ▸ .array
    · rename_i form es
      rw [List.isEmpty_iff] at h
      exact h ▸ .table form
    · cases h
  · intro h
    cases h <;> rfl

theorem reads_statesPolicy : Reads policyOf? StatesPolicy := by
  intro v p
  constructor
  · intro h
    unfold policyOf? at h
    split at h
    · rw [ofName?_eq_some_iff] at h
      exact h ▸ .text p
    · split at h
      · rename_i hhollow
        rw [ofName?_eq_some_iff] at h
        exact h ▸ .key _ p (isHollow_iff.1 hhollow)
      · cases h
    · cases h
  · intro h
    cases h with
    | text => exact Interpolation.ofName?_name p
    | key form _ hhollow =>
      exact (if_pos (isHollow_iff.2 hhollow)).trans (Interpolation.ofName?_name p)

theorem reads_statesBool : Reads boolOf? StatesBool := by
  intro v b
  cases v <;> simp [boolOf?, StatesBool]

theorem reads_statesLimit : Reads limitOf? StatesLimit := by
  intro v n
  constructor
  · intro h
    unfold limitOf? at h
    split at h
    · rename_i k
      split at h
      · rename_i hk
        cases h
        rw [Int64.le_iff_toInt_le, Int64.toInt_zero] at hk
        have hlt : k.toInt.toNat < UInt64.size := by
          have hmax := k.toInt_lt
          have hsize : UInt64.size = 2 ^ 64 := rfl
          omega
        refine ⟨k, rfl, ?_⟩
        rw [Nat.toUInt64_eq, UInt64.toNat_ofNat_of_lt' hlt, Int.toNat_of_nonneg hk]
      · cases h
    · cases h
  · rintro ⟨k, rfl, hk⟩
    exact limitOf?_integer hk

/-! ## Layers -/

/-- The value of a setting: what the text from outside spells, or else what the file states, or else the
default. -/
inductive Layered {α : Type} (spells : Spelling String α) (text : Option String) (stated : Option α)
    (default : α) : α → Prop where
  | outside {s : String} {x : α} : text = some s → spells s x → Layered spells text stated default x
  | file {x : α} : (∀ s ∈ text, ∀ y, ¬ spells s y) → stated = some x →
    Layered spells text stated default x
  | neither : (∀ s ∈ text, ∀ y, ¬ spells s y) → stated = none →
    Layered spells text stated default default

section
variable {α : Type} {read : String → Option α} {spells : Spelling String α}

theorem pick_of_spells (h : Reads read spells) {s : String} {x : α} (hx : spells s x) (current : α) :
    pick read (some s) current = x := by
  rw [pick, Option.bind_some, (h s x).2 hx, Option.getD_some]

theorem pick_of_not_spells (h : Reads read spells) {text : Option String}
    (hnone : ∀ s ∈ text, ∀ y, ¬ spells s y) (current : α) : pick read text current = current := by
  have hread : text.bind read = none := by
    rw [Option.bind_eq_none_iff]
    intro s hs
    rw [Option.eq_none_iff_forall_ne_some]
    exact fun y hy => hnone s hs y ((h s y).1 hy)
  rw [pick, hread, Option.getD_none]

theorem layered_iff (h : Reads read spells) {text : Option String} {stated : Option α} {default x : α} :
    Layered spells text stated default x ↔ pick read text (stated.getD default) = x := by
  constructor
  · intro hx
    cases hx with
    | outside htext hspells => rw [htext, pick_of_spells h hspells]
    | file hnone hstated => rw [pick_of_not_spells h hnone, hstated, Option.getD_some]
    | neither hnone hstated => rw [pick_of_not_spells h hnone, hstated, Option.getD_none]
  · rintro rfl
    by_cases hsome : ∃ s x, text = some s ∧ spells s x
    · obtain ⟨s, x, rfl, hx⟩ := hsome
      rw [pick_of_spells h hx]
      exact .outside rfl hx
    · have hnone : ∀ s ∈ text, ∀ y, ¬ spells s y := fun s hs y hy => hsome ⟨s, y, hs, hy⟩
      rw [pick_of_not_spells h hnone]
      cases stated with
      | none => exact .neither hnone rfl
      | some x => exact .file hnone rfl

theorem pick_pick (read : String → Option α) (text : Option String) (current : α) :
    pick read text (pick read text current) = pick read text current := by
  unfold pick
  cases text.bind read <;> rfl

end

/-! ## Files -/

/-- The settings that a file states, one by one. -/
structure Stated where
  interpolation : Option Interpolation
  skipMissing : Option Bool
  logRankings : Option Bool
  maxInputSeries : Option UInt64

/-- The entries of a file state settings: under the key of each is a value that spells it, or there is
nothing and it is not stated. -/
structure States (es : Toml.Entries) (f : Stated) : Prop where
  interpolation : Option.Rel StatesPolicy (es.get? "interpolation") f.interpolation
  skipMissing : Option.Rel StatesBool (es.get? "skip_missing") f.skipMissing
  logRankings : Option.Rel StatesBool (es.get? "log_rankings") f.logRankings
  maxInputSeries : Option.Rel StatesLimit (es.get? "max_input_series") f.maxInputSeries

/-- A text is a configuration file that states settings. -/
def FileStates (s : String) (f : Stated) : Prop :=
  ∃ es, Toml.parse s = some es ∧ States es f

/-- The settings, with the default for those that are not stated. -/
def Stated.settings (f : Stated) : Config where
  interpolation := f.interpolation.getD .lerp
  skipMissing := f.skipMissing.getD false
  logRankings := f.logRankings.getD false
  maxInputSeries := f.maxInputSeries.getD 100000

theorem setting_eq_some_iff {α : Type} {read : Toml.Value → Option α} {spells : Spelling Toml.Value α}
    (h : Reads read spells) {default x : α} {v : Option Toml.Value} :
    setting read default v = some x ↔ ∃ y, Option.Rel spells v y ∧ y.getD default = x := by
  cases v with
  | none =>
    constructor
    · rintro ⟨⟩
      exact ⟨none, .none, rfl⟩
    · rintro ⟨_, ⟨⟩, rfl⟩
      rfl
  | some v =>
    constructor
    · exact fun hx => ⟨some x, .some ((h v x).1 hx), rfl⟩
    · rintro ⟨_, ⟨hy⟩, rfl⟩
      exact (h v _).2 hy

theorem ofEntries_eq_some_iff {es : Toml.Entries} {c : Config} :
    ofEntries es = some c ↔ ∃ f, States es f ∧ f.settings = c := by
  unfold ofEntries
  simp only [Option.bind_eq_bind, Option.bind_eq_some_iff, setting_eq_some_iff reads_statesPolicy,
    setting_eq_some_iff reads_statesBool, setting_eq_some_iff reads_statesLimit, Option.pure_def,
    Option.some.injEq]
  constructor
  · rintro ⟨_, ⟨p, hp, rfl⟩, _, ⟨skip, hskip, rfl⟩, _, ⟨log, hlog, rfl⟩, _, ⟨n, hn, rfl⟩, rfl⟩
    exact ⟨⟨p, skip, log, n⟩, ⟨hp, hskip, hlog, hn⟩, rfl⟩
  · rintro ⟨f, hf, rfl⟩
    exact ⟨_, ⟨_, hf.interpolation, rfl⟩, _, ⟨_, hf.skipMissing, rfl⟩, _, ⟨_, hf.logRankings, rfl⟩,
      _, ⟨_, hf.maxInputSeries, rfl⟩, rfl⟩

theorem ofText_eq_ok_iff {s : String} {c : Config} :
    ofText s = .ok c ↔ ∃ f, FileStates s f ∧ f.settings = c := by
  have hread : ofText s = .ok c ↔ (Toml.parse s).bind ofEntries = some c := by
    unfold ofText
    cases (Toml.parse s).bind ofEntries <;> simp
  rw [hread, Option.bind_eq_some_iff]
  simp only [ofEntries_eq_some_iff, FileStates]
  constructor
  · rintro ⟨es, hparse, f, hf, hc⟩
    exact ⟨f, ⟨es, hparse, hf⟩, hc⟩
  · rintro ⟨f, ⟨es, hparse, hf⟩, hc⟩
    exact ⟨es, hparse, f, hf, hc⟩

/-! ## Composition -/

/-- Each setting has the value that its layers give it. -/
structure Composed (o : Overrides) (f : Stated) (c : Config) : Prop where
  interpolation : Layered SpellsPolicy o.interpolation f.interpolation .lerp c.interpolation
  skipMissing : Layered SpellsBool o.skipMissing f.skipMissing false c.skipMissing
  logRankings : Layered SpellsBool o.logRankings f.logRankings false c.logRankings
  maxInputSeries : Layered SpellsLimit o.maxInputSeries f.maxInputSeries 100000 c.maxInputSeries

theorem composed_iff {o : Overrides} {f : Stated} {c : Config} :
    Composed o f c ↔ f.settings.override o = c := by
  constructor
  · intro h
    obtain ⟨p, skip, log, n⟩ := c
    obtain rfl := (layered_iff reads_policy).1 h.interpolation
    obtain rfl := (layered_iff reads_bool).1 h.skipMissing
    obtain rfl := (layered_iff reads_bool).1 h.logRankings
    obtain rfl := (layered_iff reads_limit).1 h.maxInputSeries
    rfl
  · rintro rfl
    exact ⟨(layered_iff reads_policy).2 rfl, (layered_iff reads_bool).2 rfl,
      (layered_iff reads_bool).2 rfl, (layered_iff reads_limit).2 rfl⟩

theorem override_override (c : Config) (o : Overrides) : (c.override o).override o = c.override o := by
  unfold override
  simp only [pick_pick]

/-- Missing samples are skipped, and yet a policy for them is chosen. -/
def Idle (c : Config) : Prop :=
  c.skipMissing = true ∧ c.interpolation ≠ .lerp

theorem validate_of_idle {c : Config} (h : c.Idle) :
    c.validate = .error (.idleInterpolation c.interpolation.name) :=
  if_pos h

theorem validate_of_not_idle {c : Config} (h : ¬ c.Idle) : c.validate = .ok () :=
  if_neg h

theorem loadWith_eq (s : String) (o : Overrides) :
    loadWith (.holding s.toUTF8) o = ofText s >>= fun c => (c.override o).validate >>= fun _ =>
      .ok (c.override o) := by
  unfold loadWith
  rw [load_toUTF8]
  rfl

theorem ofText_eq_error_iff {s : String} : ofText s = .error .malformedConfig ↔ ∀ f, ¬ FileStates s f := by
  constructor
  · intro h f hf
    rw [ofText_eq_ok_iff.2 ⟨f, hf, rfl⟩] at h
    cases h
  · intro h
    cases hread : (Toml.parse s).bind ofEntries with
    | none => rw [ofText, hread]
    | some c =>
      have hok : ofText s = .ok c := by rw [ofText, hread]
      obtain ⟨f, hf, -⟩ := ofText_eq_ok_iff.1 hok
      exact absurd hf (h f)

/-- Loading the text of a file with overrides succeeds with the settings that the layers compose, unless they
choose a policy that is never used; then it refuses them, as it refuses a text that is no configuration file.
To override twice is to override once. -/
theorem loadWith_layers (s : String) (o : Overrides) :
    (∀ c, loadWith (.holding s.toUTF8) o = .ok c ↔ ∃ f, FileStates s f ∧ Composed o f c ∧ ¬ c.Idle) ∧
    (∀ f c, FileStates s f → Composed o f c → c.Idle →
      ∃ e, loadWith (.holding s.toUTF8) o = .error e ∧ e.kind = .configuration) ∧
    ((∀ f, ¬ FileStates s f) →
      ∃ e, loadWith (.holding s.toUTF8) o = .error e ∧ e.kind = .configuration) ∧
    ∀ c : Config, (c.override o).override o = c.override o := by
  refine ⟨fun c => ?_, fun f c hf hc hidle => ?_, fun hnone => ?_, fun c => override_override c o⟩
  · rw [loadWith_eq]
    simp only [bind_eq_ok_iff, ofText_eq_ok_iff, composed_iff]
    constructor
    · rintro ⟨_, ⟨f, hf, rfl⟩, _, hvalid, hc⟩
      cases hc
      refine ⟨f, hf, rfl, fun hidle => ?_⟩
      rw [validate_of_idle hidle] at hvalid
      cases hvalid
    · rintro ⟨f, hf, rfl, hidle⟩
      exact ⟨_, ⟨f, hf, rfl⟩, _, validate_of_not_idle hidle, rfl⟩
  · have hread : ofText s = .ok f.settings := ofText_eq_ok_iff.2 ⟨f, hf, rfl⟩
    obtain rfl := composed_iff.1 hc
    refine ⟨.idleInterpolation (f.settings.override o).interpolation.name, ?_, rfl⟩
    rw [loadWith_eq, hread]
    exact congrArg (· >>= fun _ => Except.ok _) (validate_of_idle hidle)
  · refine ⟨.malformedConfig, ?_, rfl⟩
    rw [loadWith_eq, ofText_eq_error_iff.2 hnone]
    rfl

/-- The file and the overrides are both fine by themselves, and yet do not go together. -/
example : (loadWith (.holding "skip_missing = true".toUTF8) {}).isOk = true ∧
    (({} : Config).override { interpolation := some " ZIM" }).validate.isOk = true ∧
    (loadWith (.holding "skip_missing = true".toUTF8) { interpolation := some " ZIM" }).isOk = false := by
  decide

/-- A file spells policies more strictly than a text from outside. -/
example : (load (.holding "interpolation = \"zim\"".toUTF8)).isOk = true ∧
    (load (.holding "interpolation = \" ZIM\"".toUTF8)).isOk = false := by
  decide

end DerivedSeries.Config
