import DerivedSeries.Config.File
import DerivedSeries.Proofs.Toml.Document
import DerivedSeries.Proofs.Word

/-!
# Saved settings

The text of a file has a line for each setting and is read as the settings that it was made of, whatever
they are (`ofText_toText`). Only a limit beyond the signed integers of the format has no text; then the
file is left as it is (`save_load`).
-/

namespace DerivedSeries.Config

open Decimal (digitChars)

/-! ## Texts in files -/

theorem readText_toUTF8 (s : String) : readText (.holding s.toUTF8) = .ok s := by
  have hread : String.fromUTF8? s.toUTF8 = some s := dif_pos s.isValidUTF8
  unfold readText
  simp only [hread]

theorem load_toUTF8 (s : String) : load (.holding s.toUTF8) = ofText s := by
  unfold load
  rw [readText_toUTF8]
  rfl

/-! ## The lines of a file -/

/-- The lines that settings are written as. -/
def lines (c : Config) : List Toml.Line :=
  [⟨"interpolation", '"' :: (c.interpolation.name.toList ++ ['"']), .string c.interpolation.name⟩,
    ⟨"skip_missing", (boolText c.skipMissing).toList, .boolean c.skipMissing⟩,
    ⟨"log_rankings", (boolText c.logRankings).toList, .boolean c.logRankings⟩,
    ⟨"max_input_series", digitChars c.maxInputSeries.toNat,
      .integer (Int64.ofInt c.maxInputSeries.toNat)⟩]

theorem toText_eq (c : Config) : c.toText = String.ofList (c.lines.flatMap Toml.Line.chars) := by
  apply String.toList_inj.1
  unfold toText
  simp [lines, Toml.Line.chars, digitChars]

variable {c : Config}

theorem toInt_ofInt_limit (h : Fits c.maxInputSeries.toNat) :
    (Int64.ofInt c.maxInputSeries.toNat).toInt = c.maxInputSeries.toNat := by
  obtain ⟨v, hv⟩ := fits_iff.1 h
  rw [← hv, Int64.ofInt_toInt]

theorem isVerbatim_name (p : Interpolation) : ∀ x ∈ p.name.toList, Toml.IsVerbatim x := by
  cases p <;> simp [Interpolation.name, Toml.IsVerbatim, Toml.Text.isPlain]

theorem plain_lines (h : Fits c.maxInputSeries.toNat) : ∀ l ∈ c.lines, l.Plain := by
  have hpolicy := Toml.writes_string (isVerbatim_name c.interpolation)
  have hlimit := Toml.writes_integer (Text.isDigits_digitChars c.maxInputSeries.toNat)
    (Text.unpadded_digitChars _) (v := Int64.ofInt c.maxInputSeries.toNat)
    (by rw [toInt_ofInt_limit h, Text.valueOf_digitChars])
  rw [String.ofList_toList] at hpolicy
  have hkeys : Toml.IsBareKey "interpolation".toList ∧ Toml.IsBareKey "skip_missing".toList ∧
      Toml.IsBareKey "log_rankings".toList ∧ Toml.IsBareKey "max_input_series".toList := by decide
  simp only [lines, List.forall_mem_cons]
  exact ⟨⟨hkeys.1, hpolicy⟩, ⟨hkeys.2.1, Toml.writes_boolean c.skipMissing⟩,
    ⟨hkeys.2.2.1, Toml.writes_boolean c.logRankings⟩, ⟨hkeys.2.2.2, hlimit⟩, nofun⟩

/-! ## Reading back -/

theorem limitOf?_integer {k : Int64} {n : UInt64} (h : k.toInt = n.toNat) :
    limitOf? (.integer k) = some n := by
  have hle : 0 ≤ k := by
    rw [Int64.le_iff_toInt_le, h]
    exact Int.natCast_nonneg _
  show (if 0 ≤ k then some k.toInt.toNat.toUInt64 else none) = some n
  rw [if_pos hle, h, Int.toNat_natCast, Nat.toUInt64_eq, UInt64.ofNat_toNat]

theorem ofEntries_lines (h : Fits c.maxInputSeries.toNat) :
    ofEntries (c.lines.map Toml.Line.entry) = some c := by
  have hpolicy : policyOf? (.string c.interpolation.name) = some c.interpolation :=
    Interpolation.ofName?_name c.interpolation
  simp [ofEntries, lines, Toml.Line.entry, Toml.Entries.get?, List.lookup, setting, hpolicy, boolOf?,
    limitOf?_integer (toInt_ofInt_limit h)]

theorem ofText_toText (h : Fits c.maxInputSeries.toNat) : ofText c.toText = .ok c := by
  have hkeys : (c.lines.map Toml.Line.key).Nodup := by
    show ["interpolation", "skip_missing", "log_rankings", "max_input_series"].Nodup
    decide
  unfold ofText
  rw [toText_eq, Toml.parse_lines (plain_lines h) hkeys, Option.bind_some, ofEntries_lines h]

theorem toText?_of_fits (h : Fits c.maxInputSeries.toNat) : c.toText? = .ok c.toText := by
  obtain ⟨v, hv⟩ := fits_iff.1 h
  unfold toText?
  rw [int64?_eq_some_iff.2 hv]
  rfl

theorem toText?_of_not_fits (h : ¬ Fits c.maxInputSeries.toNat) :
    c.toText? = .error .unrepresentableLimit := by
  unfold toText?
  rw [int64?_eq_none_iff.2 h]
  rfl

/-- Settings whose limit is within the signed integers are saved wherever a file can be written, and are
what is loaded from there. Others are refused, and what is at the place stays there. -/
theorem save_load (c : Config) (l : Location) :
    (c.maxInputSeries.toNat ≤ Int64.maxValue.toInt → l ≠ .unreachable →
      c.save l = (.holding c.toText.toUTF8, .ok ()) ∧ load (.holding c.toText.toUTF8) = .ok c) ∧
    (Int64.maxValue.toInt < c.maxInputSeries.toNat →
      ∃ e, c.save l = (l, .error e) ∧ e.kind = .serialization) := by
  constructor
  · intro hle hl
    have hfits : Fits c.maxInputSeries.toNat := by
      have hmin := Int64.toInt_minValue
      unfold Fits
      omega
    have hsave : c.save l = (.holding c.toText.toUTF8, .ok ()) := by
      unfold save
      rw [toText?_of_fits hfits]
      cases l with
      | unreachable => exact absurd rfl hl
      | free => rfl
      | holding bytes => rfl
    exact ⟨hsave, by rw [load_toUTF8, ofText_toText hfits]⟩
  · intro hlt
    refine ⟨.unrepresentableLimit, ?_, rfl⟩
    unfold save
    rw [toText?_of_not_fits fun hfits => Int.not_le.2 hlt hfits.2]

end DerivedSeries.Config
