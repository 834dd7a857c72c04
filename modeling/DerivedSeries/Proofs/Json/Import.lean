import DerivedSeries.Json.Import
import DerivedSeries.Proofs.Json.Codec

/-!
# Importing what is read

Series are read off a text in two ways: strictly, as they are written (`Reader.series`), and loosely, from
the value of the text (`Series.ofJson`). Where the strict reader takes a text that is an object, the loose
one gives the same series (`Series.ofJson_of_read`).

The proof follows the shape of the two. What the strict reader takes off a tree tells the value of the tree
(`ofTree?_of_string` and the lemmas after it), and the fields that it finds are the members that the loose
one looks up (`denotes_fields`). Samples are sorted by their times on one side and by the texts of the times
on the other, but no two times have one text (`Text.toString_injective`).
-/

namespace DerivedSeries

/-- Two lists that are related to a third, row by row, are related to each other. -/
theorem forall₂_of_common {α β γ : Type} {R : α → β → Prop} {S : α → γ → Prop} {T : β → γ → Prop}
    {as : List α} {bs : List β} {cs : List γ} (hbs : List.Forall₂ R as bs)
    (hcs : List.Forall₂ S as cs) (hT : ∀ a b c, R a b → S a c → T b c) : List.Forall₂ T bs cs := by
  induction hbs generalizing cs with
  | nil => cases hcs; exact .nil
  | cons hab _ ih =>
    cases hcs with
    | cons hac hcs => exact .cons (hT _ _ _ hab hac) (ih hcs)

/-- Two lists whose rows come from the same things are images of one list. -/
theorem exists_map_of_forall₂ {α β γ : Type} {f : γ → α} {g : γ → β} {as : List α} {bs : List β}
    (h : List.Forall₂ (fun a b => ∃ p, f p = a ∧ g p = b) as bs) :
    ∃ ps : List γ, ps.map f = as ∧ ps.map g = bs := by
  induction h with
  | nil => exact ⟨[], rfl, rfl⟩
  | cons hab _ ih =>
    obtain ⟨p, rfl, rfl⟩ := hab
    obtain ⟨ps, rfl, rfl⟩ := ih
    exact ⟨p :: ps, rfl, rfl⟩

namespace Json

open OrderedMap (lastUnder)

variable {d : Nat} {t : Tree} {v : Value}

/-! ## Values of containers -/

theorem ofTree?_array_eq_some {ts : List Tree} (h : Value.ofTree? d (.array ts) = some v) :
    ∃ d' vs, v = .array vs ∧ List.Forall₂ (fun t v => Value.ofTree? d' t = some v) ts vs := by
  cases d with
  | zero => cases h
  | succ d =>
    obtain ⟨vs, hvs, rfl⟩ := Option.map_eq_some_iff.1 h
    exact ⟨d, vs, rfl, mapM_eq_some_iff.1 hvs⟩

theorem ofTree?_object_eq_some {ms : List (Literal × Tree)}
    (h : Value.ofTree? d (.object ms) = some v) :
    ∃ d' vs, v = .object vs ∧ List.Forall₂ (fun (a : Literal × Tree) (e : String × Value) =>
      a.1.decode? = some e.1 ∧ Value.ofTree? d' a.2 = some e.2) ms vs := by
  cases d with
  | zero => cases h
  | succ d =>
    obtain ⟨vs, hvs, rfl⟩ := Option.map_eq_some_iff.1 h
    exact ⟨d, vs, rfl, mapM_pair_eq_some_iff.1 hvs⟩

/-! ## What a reader tells of the value -/

theorem ofTree?_of_string {s : String} (h : Reader.string t = some s)
    (hv : Value.ofTree? d t = some v) : v = .string s := by
  cases t with
  | string l =>
    have hs : l.decode? = some s := h
    rw [Value.ofTree?, hs] at hv
    exact (Option.some.inj hv).symm
  | _ => cases h

theorem ofTree?_of_sample {x : Sample} (h : Reader.sample t = some x)
    (hv : Value.ofTree? d t = some v) : ∃ n : Number, v = .number n ∧ n.toSample = x := by
  cases t with
  | number m =>
    obtain ⟨n, hn, rfl⟩ := Option.map_eq_some_iff.1 h
    have hm : Number.ofNumeral m = some n := hn
    rw [Value.ofTree?, hm] at hv
    exact ⟨n, (Option.some.inj hv).symm, rfl⟩
  | _ => cases h

/-- A key that is read as a time is the text of the time. -/
theorem decode?_of_int64Key {l : Literal} {t : Int64} (h : Reader.int64Key l = some t) :
    l.decode? = some (toString t) := by
  rw [Literal.decode?_of_plain? (int64Key_eq_some_iff.1 h), String.ofList_toList]

theorem ofTree?_of_list {ss : List String} (h : Reader.list Reader.string t = some ss)
    (hv : Value.ofTree? d t = some v) : v = .array (ss.map .string) := by
  obtain ⟨ts, rfl, hss⟩ := Reader.list_eq_some_iff.1 h
  obtain ⟨d', vs, rfl, hvs⟩ := ofTree?_array_eq_some hv
  have hmap : List.Forall₂ (fun s v => Value.string s = v) ss vs :=
    forall₂_of_common hss hvs fun _ _ _ hs hv => (ofTree?_of_string hs hv).symm
  rw [← List.forall₂_map_left_iff, List.forall₂_eq_eq_eq] at hmap
  rw [hmap]

section

variable {κ α β : Type} [Ord κ] [Std.TransOrd κ] {key : Literal → Option κ} {name : κ → String}
  {r : Reader α} {value : β → Value} {g : β → α} {m : OrderedMap κ α}

/-- The value of a tree that is read as a map is an object with the names of the keys, entry by entry. -/
theorem ofTree?_of_map (hkey : ∀ l k, key l = some k → l.decode? = some (name k))
    (hr : ∀ d t a v, r t = some a → Value.ofTree? d t = some v → ∃ b, v = value b ∧ g b = a)
    (h : Reader.map key r t = some m) (hv : Value.ofTree? d t = some v) :
    ∃ ps : List (κ × β), v = .object (ps.map fun p => (name p.1, value p.2)) ∧
      OrderedMap.ofList (ps.map fun p => (p.1, g p.2)) = m := by
  obtain ⟨ms, es, rfl, hes, rfl⟩ := Reader.map_eq_some_iff.1 h
  obtain ⟨d', vs, rfl, hvs⟩ := ofTree?_object_eq_some hv
  have hentries : List.Forall₂ (fun (e : κ × α) (x : String × Value) =>
      ∃ p : κ × β, (p.1, g p.2) = e ∧ (name p.1, value p.2) = x) es vs := by
    refine forall₂_of_common hes hvs ?_
    rintro a ⟨k, _⟩ ⟨x, v⟩ ⟨hk, ha⟩ ⟨hx, hxv⟩
    obtain ⟨b, rfl, rfl⟩ := hr _ _ _ _ ha hxv
    rw [hkey _ _ hk] at hx
    exact ⟨(k, b), rfl, Prod.ext (Option.some.inj hx) rfl⟩
  obtain ⟨ps, rfl, rfl⟩ := exists_map_of_forall₂ hentries
  exact ⟨ps, rfl, rfl⟩

end

/-! ## Fields of an object -/

/-- A field and a member are both missing, or the member is the value of the field. -/
abbrev Denotes (d : Nat) : Option Tree → Option Value → Prop :=
  Option.Rel fun t v => Value.ofTree? d t = some v

/-- The field that the strict reader finds is the member that the loose one looks up. -/
theorem denotes_field {fs : List (String × Tree)} {vs : List (String × Value)} {name : String}
    {field : Option Tree}
    (h : List.Forall₂ (fun f e => f.1 = e.1 ∧ Value.ofTree? d f.2 = some e.2) fs vs)
    (hfield : Reader.under name fs = [] ∧ field = none ∨
      ∃ u, Reader.under name fs = [u] ∧ field = some u) :
    Denotes d field ((OrderedMap.ofList vs).get? name) := by
  have hnamed : List.Forall₂ (fun f e => f.1 = e.1 ∧ Value.ofTree? d f.2 = some e.2)
      (fs.filter fun f => f.1 == name) (vs.filter fun e => compare name e.1 == .eq) := by
    refine List.rel_filter ?_ h
    rintro f e ⟨hname, -⟩
    show (f.1 == name) = true ↔ (compare name e.1 == .eq) = true
    rw [beq_iff_eq, beq_iff_eq, Std.compare_eq_iff_eq, hname]
    exact eq_comm
  rw [OrderedMap.get?_ofList, lastUnder]
  rcases hfield with ⟨hnone, rfl⟩ | ⟨u, hone, rfl⟩
  · rw [List.map_eq_nil_iff.1 hnone, List.forall₂_nil_left_iff] at hnamed
    rw [hnamed]
    exact .none
  · obtain ⟨f, hf, rfl⟩ := List.map_eq_singleton_iff.1 hone
    rw [hf] at hnamed
    generalize vs.filter (fun e => compare name e.1 == .eq) = es at hnamed
    cases hnamed with
    | cons hfe hrest =>
      cases hrest
      exact .some hfe.2

end Json

namespace Series

open Json

/-! ## The parts of a series -/

variable {d : Nat} {o : OrderedMap String Value} {name : String} {field : Option Tree}

theorem metric_of_denotes {metric : String} (hfield : Denotes d field (o.get? name))
    (h : Reader.optional Reader.string "" field = some metric) :
    ((o.get? name).bind Value.string?).getD "" = metric := by
  generalize o.get? name = member at hfield
  cases hfield with
  | none =>
    cases h
    rfl
  | some hv =>
    rw [ofTree?_of_string h hv]
    rfl

theorem stringsAt_of_denotes {ss : List String} (hfield : Denotes d field (o.get? name))
    (h : Reader.optional (Reader.list Reader.string) [] field = some ss) : stringsAt o name = ss := by
  unfold stringsAt
  generalize o.get? name = member at hfield
  cases hfield with
  | none =>
    cases h
    rfl
  | some hv =>
    rw [ofTree?_of_list h hv]
    show (ss.map Value.string).filterMap Value.string? = ss
    rw [List.filterMap_map]
    exact List.filterMap_some

/-- The members of an object that the strict reader takes as a map. The loose reader goes through them in the
order of their names, which need not be that of the keys, but they fill the same map. -/
theorem membersAt_of_denotes {κ α β : Type} [Ord κ] [Std.LawfulEqOrd κ] [Std.TransOrd κ]
    {key : Literal → Option κ} {r : Reader α} {m : OrderedMap κ α} {nameOf : κ → String}
    {value : β → Value} {g : β → α}
    (hkey : ∀ l k, key l = some k → l.decode? = some (nameOf k))
    (hr : ∀ d t a v, r t = some a → Value.ofTree? d t = some v → ∃ b, v = value b ∧ g b = a)
    (hname : Function.Injective nameOf) (hvalue : Function.Injective value)
    (hfield : Denotes d field (o.get? name))
    (h : Reader.optional (Reader.map key r) .empty field = some m) :
    ∃ ps : List (κ × β), membersAt o name = ps.map (fun p => (nameOf p.1, value p.2)) ∧
      OrderedMap.ofList (ps.map fun p => (p.1, g p.2)) = m := by
  unfold membersAt
  generalize o.get? name = member at hfield
  cases hfield with
  | none =>
    cases h
    exact ⟨[], rfl, rfl⟩
  | some hv =>
    obtain ⟨es, rfl, hes⟩ := ofTree?_of_map hkey hr h hv
    obtain ⟨ps, hps, heq⟩ := OrderedMap.exists_entries_map hname hvalue es
    refine ⟨ps, hps, ?_⟩
    rw [OrderedMap.ofList_map, heq, ← OrderedMap.ofList_map, hes]

theorem tagsAt_of_denotes {tags : OrderedMap String String}
    (hfield : Denotes d field (o.get? name))
    (h : Reader.optional (Reader.map Literal.decode? Reader.string) .empty field = some tags) :
    ∃ ts, (membersAt o name).mapM tagOfJson = .ok ts ∧ OrderedMap.ofList ts = tags := by
  obtain ⟨ps, hps, htags⟩ := membersAt_of_denotes (fun _ _ hk => hk)
    (fun _ _ s _ hs hv => ⟨s, ofTree?_of_string hs hv, rfl⟩) Function.injective_id
    (fun _ _ => Value.string.inj) hfield h
  refine ⟨ps.map fun p => (p.1, p.2), ?_, htags⟩
  rw [hps, List.mapM_map]
  exact mapM_eq_ok fun p _ => rfl

theorem pointOfJson_number (t : Timestamp) (n : Number) :
    pointOfJson (toString t, .number n) = .ok ⟨t, n.toSample⟩ := by
  show ((Text.readInt64 (Text.trim (toString t))).mapError _ >>= _) = _
  rw [Text.trim_toString, Text.readInt64_toString]
  rfl

theorem pointsAt_of_denotes {samples : OrderedMap Timestamp Sample}
    (hfield : Denotes d field (o.get? name))
    (h : Reader.optional (Reader.map Reader.int64Key Reader.sample) .empty field = some samples) :
    ∃ ps : List Point, (membersAt o name).mapM pointOfJson = .ok ps ∧
      OrderedMap.ofList (ps.map fun p => (p.timestamp, p.value)) = samples := by
  obtain ⟨ps, hps, hsamples⟩ := membersAt_of_denotes (fun _ _ => decode?_of_int64Key)
    (fun _ _ _ _ => ofTree?_of_sample) Text.toString_injective
    (fun _ _ => Value.number.inj) hfield h
  refine ⟨ps.map fun p => ⟨p.1, p.2.toSample⟩, ?_, ?_⟩
  · rw [hps, List.mapM_map]
    exact mapM_eq_ok fun p _ => pointOfJson_number p.1 p.2
  · rwa [List.map_map]

theorem samples_insertAll (s : Series) (ps : List Point) :
    (s.insertAll ps).samples = s.samples.insertAll (ps.map fun p => (p.timestamp, p.value)) := by
  unfold insertAll OrderedMap.insertAll
  induction ps generalizing s with
  | nil => rfl
  | cons p ps ih => exact ih (s.insert p)

/-- What a series is read from: an optional tree for each field. -/
theorem exists_fields {t : Tree} {s : Series} (h : Reader.series t = some s) :
    ∃ metric tags aggregated samples,
      Reader.fields ["metric", "tags", "aggregateTags", "dps"] t =
        some [metric, tags, aggregated, samples] ∧
      Reader.optional Reader.string "" metric = some s.metric ∧
      Reader.optional (Reader.map Literal.decode? Reader.string) .empty tags = some s.tags ∧
      Reader.optional (Reader.list Reader.string) [] aggregated = some s.aggregatedTags ∧
      Reader.optional (Reader.map Reader.int64Key Reader.sample) .empty samples = some s.samples := by
  obtain ⟨fields, hfields, h⟩ := Option.bind_eq_some_iff.1 h
  split at h
  · simp only [Option.bind_eq_bind, Option.bind_eq_some_iff, Option.pure_def, Option.some.injEq] at h
    obtain ⟨metric, hmetric, tags, htags, aggregated, haggregated, samples, hsamples, rfl⟩ := h
    exact ⟨_, _, _, _, hfields, hmetric, htags, haggregated, hsamples⟩
  · cases h

/-- The fields that the strict reader finds are the members that the loose one looks up. -/
theorem denotes_fields {names : List String} {ms : List (Literal × Tree)} {fields : List (Option Tree)}
    {v : Value} (h : Reader.fields names (.object ms) = some fields)
    (hv : Value.ofTree? d (.object ms) = some v) :
    ∃ d' o, v.object? = some o ∧
      List.Forall₂ (fun name field => Denotes d' field (o.get? name)) names fields := by
  obtain ⟨fs, hfs, hfields⟩ := Reader.fields_object_iff.1 h
  obtain ⟨d', vs, rfl, hvs⟩ := ofTree?_object_eq_some hv
  have hmembers : List.Forall₂ (fun (f : String × Tree) (e : String × Value) =>
      f.1 = e.1 ∧ Value.ofTree? d' f.2 = some e.2) fs vs := by
    refine forall₂_of_common hfs hvs ?_
    rintro a f e ⟨hname, htree⟩ ⟨hname', htree'⟩
    rw [hname] at hname'
    rw [htree] at htree'
    exact ⟨Option.some.inj hname', htree'⟩
  exact ⟨d', _, rfl, hfields.imp fun _ _ => denotes_field hmembers⟩

/-- The loose reader puts together what it finds in the parts. -/
theorem ofJson_of_parts {v : Value} {ts : List (String × String)} {ps : List Point}
    (ho : v.object? = some o) (hts : (membersAt o "tags").mapM tagOfJson = .ok ts)
    (hps : (membersAt o "dps").mapM pointOfJson = .ok ps) :
    ofJson v = .ok {
      metric := ((o.get? "metric").bind Value.string?).getD ""
      tags := OrderedMap.ofList ts
      aggregatedTags := stringsAt o "aggregateTags"
      samples := OrderedMap.ofList (ps.map fun p => (p.timestamp, p.value)) } := by
  unfold ofJson
  rw [ho]
  show ((membersAt o "tags").mapM tagOfJson >>= _) = _
  rw [hts]
  show ((membersAt o "dps").mapM pointOfJson >>= _) = _
  rw [hps]
  show Except.ok _ = Except.ok _
  rw [Except.ok.injEq, Series.mk.injEq, toMetadata_insertAll, samples_insertAll]
  exact ⟨rfl, rfl⟩

/-- A series that the strict reader takes off the text of an object is the one that the loose reader makes of
the value of the text. -/
theorem ofJson_of_read {text : String} {v : Value} {s : Series} (hv : Value.parse? text = some v)
    (hobject : v.object?.isSome = true) (hs : Reader.text Reader.series text = .ok s) :
    ofJson v = .ok s := by
  obtain ⟨t, ht, hv⟩ := Option.bind_eq_some_iff.1 hv
  have hs : Reader.series t = some s := by
    rw [Reader.text, ht, Option.bind_some] at hs
    cases h : Reader.series t with
    | none => rw [h] at hs; cases hs
    | some s' => rw [h] at hs; cases hs; rfl
  obtain ⟨metric, tags, aggregated, samples, hfields, hmetric, htags, haggregated, hsamples⟩ :=
    exists_fields hs
  cases t with
  | object ms =>
    obtain ⟨d, o, ho, hmembers⟩ := denotes_fields hfields hv
    simp only [List.forall₂_cons, List.forall₂_nil_left_iff, and_true] at hmembers
    obtain ⟨hmetricAt, htagsAt, haggregatedAt, hsamplesAt⟩ := hmembers
    obtain ⟨ts, hts, htagsEq⟩ := tagsAt_of_denotes htagsAt htags
    obtain ⟨ps, hps, hsamplesEq⟩ := pointsAt_of_denotes hsamplesAt hsamples
    rw [ofJson_of_parts ho hts hps, metric_of_denotes hmetricAt hmetric, htagsEq,
      stringsAt_of_denotes haggregatedAt haggregated, hsamplesEq]
  | array ts =>
    obtain ⟨d, vs, rfl, -⟩ := ofTree?_array_eq_some hv
    cases hobject
  | _ => cases hfields

/-- An object with a field that no series has, and with one time given twice. -/
def looseText : String :=
  "\x7b\"unit\":[null], \"dps\":\x7b\"10\":1,\"-5\":7,\"10\":2.5\x7d, \"metric\":\"cpu\", " ++
    "\"tags\":\x7b\"b\":\"1\",\"a\":\"\\u00e9\"\x7d\x7d"

def looseSeries : Series where
  metric := "cpu"
  tags := .ofList [("a", "é"), ("b", "1")]
  samples := .ofList [(-5, .int 7), (10, .float 2.5)]

theorem ofJson_looseText :
    ∃ v, Value.parse? looseText = some v ∧ v.object?.isSome = true ∧
      Reader.text Reader.series looseText = .ok looseSeries ∧ ofJson v = .ok looseSeries := by
  have hread : (Tree.parse looseText).bind Reader.series = some looseSeries := by decide +kernel
  have hobject : ((Value.parse? looseText).bind Value.object?).isSome = true := by decide +kernel
  obtain ⟨o, ho⟩ := Option.isSome_iff_exists.1 hobject
  obtain ⟨v, hv, hvo⟩ := Option.bind_eq_some_iff.1 ho
  have hsome : v.object?.isSome = true := by rw [hvo]; rfl
  have htext : Reader.text Reader.series looseText = .ok looseSeries := by rw [Reader.text, hread]
  exact ⟨v, hv, hsome, htext, ofJson_of_read hv hsome htext⟩

end Series
end DerivedSeries
