import Mathlib.Data.List.Sort
import Mathlib.Data.Set.List
import DerivedSeries.OrderedMap

/-!
# Look-ups in ordered maps

A map finds under a key the value of the entry with that key, and there is one at most
(`get?_eq_some_iff`). So a map is known by its look-ups (`ext_get?`), and those of a map that has been
changed are read off those before (`get?_insert_self`, `get?_insert_of_ne`, `get?_filterKeys`). A map that
is filled from a list finds the last entry of each key (`get?_ofList`); if the list is in the order of other
keys, that is the entry with the greatest of them (`lastUnder_map_eq_some_iff`).
-/

namespace DerivedSeries.OrderedMap

universe u v w

variable {κ : Type u} {ν : Type v} {μ : Type w} [Ord κ]

theorem get?_mapValues (g : ν → μ) (m : OrderedMap κ ν) (k : κ) :
    (m.mapValues g).get? k = (m.get? k).map g := by
  rw [get?, entries_mapValues, List.find?_map, Option.map_map, get?, Option.map_map]
  rfl

/-- The value of the last entry with a key. -/
def lastUnder (k : κ) (es : List (κ × ν)) : Option ν :=
  (es.filter fun e => compare k e.1 == .eq).getLast?.map (·.2)

theorem lastUnder_cons (k : κ) (e : κ × ν) (es : List (κ × ν)) :
    lastUnder k (e :: es) =
      (lastUnder k es).or (if compare k e.1 == .eq then some e.2 else none) := by
  by_cases hk : (compare k e.1 == .eq) = true
  · rw [lastUnder, List.filter_cons_of_pos (p := fun e : κ × ν => compare k e.1 == .eq) hk,
      List.getLast?_cons, if_pos hk, lastUnder]
    cases (es.filter fun e => compare k e.1 == .eq).getLast? <;> rfl
  · rw [lastUnder, List.filter_cons_of_neg (p := fun e : κ × ν => compare k e.1 == .eq) hk, if_neg hk,
      Option.or_none, lastUnder]

variable [Std.LawfulEqOrd κ]

theorem ne_of_compare_eq_lt {j k : κ} (h : compare j k = .lt) : j ≠ k := by
  rintro rfl
  simp at h

/-- Two entries with one key are one. -/
theorem eq_of_mem {m : OrderedMap κ ν} {k : κ} {x y : ν} (hx : (k, x) ∈ m.entries)
    (hy : (k, y) ∈ m.entries) : x = y := by
  have hne : m.entries.Pairwise fun a b => a.1 ≠ b.1 :=
    m.ascending.imp fun h => ne_of_compare_eq_lt h
  have hnodup : (m.entries.map (·.1)).Nodup := List.pairwise_map.2 hne
  have heq := List.inj_on_of_nodup_map hnodup hx hy rfl
  exact congrArg Prod.snd heq

theorem get?_eq_some_iff {m : OrderedMap κ ν} {k : κ} {x : ν} :
    m.get? k = some x ↔ (k, x) ∈ m.entries := by
  have hfound : ∀ {y}, m.get? k = some y → (k, y) ∈ m.entries := by
    intro y h
    obtain ⟨e, he, rfl⟩ := Option.map_eq_some_iff.1 h
    have hk : compare k e.1 = .eq := by simpa using List.find?_some he
    rw [Std.LawfulEqOrd.eq_of_compare hk]
    exact List.mem_of_find?_eq_some he
  refine ⟨hfound, fun h => ?_⟩
  have hsome : (m.get? k).isSome := by
    simp only [get?, Option.isSome_map, List.find?_isSome]
    exact ⟨_, h, by simp⟩
  obtain ⟨y, hy⟩ := Option.isSome_iff_exists.1 hsome
  rw [hy, eq_of_mem (hfound hy) h]

theorem mem_keys {m : OrderedMap κ ν} {k : κ} : k ∈ m.keys ↔ ∃ x, m.get? k = some x := by
  simp only [keys, List.mem_map, Prod.exists, get?_eq_some_iff]
  constructor
  · rintro ⟨_, x, hx, rfl⟩
    exact ⟨x, hx⟩
  · rintro ⟨x, hx⟩
    exact ⟨k, x, hx, rfl⟩

theorem get?_filterKeys (m : OrderedMap κ ν) (p : κ → Bool) (k : κ) :
    (m.filterKeys p).get? k = if p k then m.get? k else none := by
  apply Option.ext
  intro x
  by_cases hp : p k <;> simp [get?_eq_some_iff, hp]

theorem mem_of_lastUnder {k : κ} {x : ν} {es : List (κ × ν)} (h : lastUnder k es = some x) : (k, x) ∈ es := by
  obtain ⟨e, he, rfl⟩ := Option.map_eq_some_iff.1 h
  obtain ⟨he, hk⟩ := List.mem_filter.1 (List.mem_of_getLast? he)
  rwa [Std.LawfulEqOrd.eq_of_compare (eq_of_beq hk)]

/-! ## Insertion -/

variable [Std.TransOrd κ]

theorem mem_insertEntry {k : κ} {x : ν} {e : κ × ν} {es : List (κ × ν)}
    (h : es.Pairwise fun a b => compare a.1 b.1 = .lt) :
    e ∈ insertEntry k x es ↔ e = (k, x) ∨ e ∈ es ∧ e.1 ≠ k := by
  induction es with
  | nil => simp [insertEntry]
  | cons d es ih =>
    obtain ⟨hd, hes⟩ := List.pairwise_cons.1 h
    unfold insertEntry
    cases hk : compare k d.1 with
    | lt =>
      have hne : ∀ a ∈ d :: es, a.1 ≠ k := by
        intro a ha
        apply Ne.symm
        apply ne_of_compare_eq_lt
        rcases List.mem_cons.1 ha with rfl | ha
        · exact hk
        · exact Std.TransCmp.lt_trans hk (hd a ha)
      exact List.mem_cons.trans (or_congr_right ⟨fun he => ⟨he, hne e he⟩, And.left⟩)
    | eq =>
      have hk : k = d.1 := Std.LawfulEqOrd.eq_of_compare hk
      have hne : ∀ a ∈ es, a.1 ≠ k := by
        intro a ha
        rw [hk]
        exact (ne_of_compare_eq_lt (hd a ha)).symm
      simp only [List.mem_cons]
      constructor
      · rintro (rfl | he)
        · exact .inl rfl
        · exact .inr ⟨.inr he, hne e he⟩
      · rintro (rfl | ⟨rfl | he, hek⟩)
        · exact .inl rfl
        · exact absurd hk.symm hek
        · exact .inr he
    | gt =>
      have hne : d.1 ≠ k := ne_of_compare_eq_lt (Std.OrientedCmp.lt_of_gt hk)
      simp only [List.mem_cons, ih hes]
      constructor
      · rintro (rfl | rfl | ⟨he, hek⟩)
        · exact .inr ⟨.inl rfl, hne⟩
        · exact .inl rfl
        · exact .inr ⟨.inr he, hek⟩
      · rintro (rfl | ⟨rfl | he, hek⟩)
        · exact .inr (.inl rfl)
        · exact .inl rfl
        · exact .inr (.inr ⟨he, hek⟩)

variable (m : OrderedMap κ ν) (k : κ) (x : ν)

theorem get?_insert_self : (m.insert k x).get? k = some x := by
  rw [get?_eq_some_iff, entries_insert, mem_insertEntry m.ascending]
  exact .inl rfl

theorem get?_insert_of_ne {j : κ} (h : j ≠ k) : (m.insert k x).get? j = m.get? j := by
  apply Option.ext
  intro y
  rw [get?_eq_some_iff, get?_eq_some_iff, entries_insert, mem_insertEntry m.ascending]
  simp [h]

/-! ## Extensionality -/

/-- Maps with the same look-ups are equal. -/
theorem ext_get? {a b : OrderedMap κ ν} (h : ∀ k, a.get? k = b.get? k) : a = b := by
  have hirrefl : Std.Irrefl fun a b : κ × ν => compare a.1 b.1 = .lt :=
    ⟨fun a ha => ne_of_compare_eq_lt ha rfl⟩
  have hantisymm : Std.Antisymm fun a b : κ × ν => compare a.1 b.1 = .lt :=
    ⟨fun a b hab hba => absurd rfl (ne_of_compare_eq_lt (Std.TransCmp.lt_trans hab hba))⟩
  apply OrderedMap.ext
  refine a.ascending.eq_of_mem_iff b.ascending fun e => ?_
  rw [← get?_eq_some_iff, ← get?_eq_some_iff, h]

/-! ## Filling -/

theorem get?_insertAll (m : OrderedMap κ ν) (es : List (κ × ν)) (k : κ) :
    (m.insertAll es).get? k = (lastUnder k es).or (m.get? k) := by
  induction es generalizing m with
  | nil => rfl
  | cons e es ih =>
    have hinsert : (m.insert e.1 e.2).get? k =
        (if compare k e.1 == .eq then some e.2 else none).or (m.get? k) := by
      by_cases hk : k = e.1
      · subst hk
        simp [get?_insert_self]
      · have hne : compare k e.1 ≠ .eq := fun h => hk (Std.LawfulEqOrd.eq_of_compare h)
        simp [get?_insert_of_ne _ _ _ hk, hne]
    show ((m.insert e.1 e.2).insertAll es).get? k = _
    rw [ih, hinsert, lastUnder_cons, Option.or_assoc]

theorem get?_ofList (es : List (κ × ν)) (k : κ) : (ofList es).get? k = lastUnder k es := by
  rw [ofList, get?_insertAll]
  exact Option.or_none

/-- A map is filled with its own entries. -/
theorem ofList_entries (m : OrderedMap κ ν) : ofList m.entries = m := by
  apply ext_get?
  intro k
  rw [get?_ofList]
  cases h : lastUnder k m.entries with
  | some x => exact (get?_eq_some_iff.2 (mem_of_lastUnder h)).symm
  | none =>
    rw [lastUnder, Option.map_eq_none_iff, List.getLast?_eq_none_iff, List.filter_eq_nil_iff] at h
    rw [get?, List.find?_eq_none.2 h]
    rfl

/-- A change of keys that keeps them apart keeps the last entry of each. -/
theorem get?_ofList_map {κ' : Type u} [Ord κ'] [Std.LawfulEqOrd κ'] [Std.TransOrd κ']
    {f : κ → κ'} (hf : Function.Injective f) (g : ν → μ) (es : List (κ × ν)) (k : κ) :
    (ofList (es.map fun e => (f e.1, g e.2))).get? (f k) = ((ofList es).get? k).map g := by
  have hkeys : (fun e : κ' × μ => compare (f k) e.1 == .eq) ∘ (fun e : κ × ν => (f e.1, g e.2)) =
      fun e : κ × ν => compare k e.1 == .eq := by
    funext e
    simp [hf.eq_iff]
  rw [get?_ofList, get?_ofList, lastUnder, lastUnder, List.filter_map, hkeys, List.getLast?_map,
    Option.map_map, Option.map_map]
  rfl

theorem ofList_map (g : ν → μ) (es : List (κ × ν)) :
    ofList (es.map fun e => (e.1, g e.2)) = (ofList es).mapValues g :=
  ext_get? fun k => (get?_ofList_map Function.injective_id g es k).trans (get?_mapValues g _ k).symm

/-- Entries that are sorted by other keys fill the same map. -/
theorem exists_entries_map {κ' : Type u} [Ord κ'] [Std.LawfulEqOrd κ'] [Std.TransOrd κ']
    {f : κ → κ'} (hf : Function.Injective f) {g : ν → μ} (hg : Function.Injective g)
    (es : List (κ × ν)) :
    ∃ ds : List (κ × ν), (ofList (es.map fun e => (f e.1, g e.2))).entries =
      ds.map (fun e => (f e.1, g e.2)) ∧ ofList ds = ofList es := by
  have hrange : (ofList (es.map fun e => (f e.1, g e.2))).entries ∈
      Set.range (List.map fun e : κ × ν => (f e.1, g e.2)) := by
    rw [Set.range_list_map]
    rintro ⟨k, x⟩ he
    rw [← get?_eq_some_iff, get?_ofList] at he
    obtain ⟨e, -, hkx⟩ := List.mem_map.1 (mem_of_lastUnder he)
    exact ⟨e, hkx⟩
  obtain ⟨ds, hds⟩ := hrange
  refine ⟨ds, hds.symm, ext_get? fun k => Option.map_injective hg ?_⟩
  rw [← get?_ofList_map hf, ← get?_ofList_map hf, hds, ofList_entries]

/-! ## Entries in order -/

/-- Of ascending entries, the last one is the one with the greatest key. -/
theorem getLast?_eq_some_iff {es : List (κ × ν)} (hes : es.Pairwise fun a b => compare a.1 b.1 = .lt)
    {e : κ × ν} :
    es.getLast? = some e ↔ e ∈ es ∧ ∀ d ∈ es, (compare d.1 e.1).isLE = true := by
  have hgreatest : ∀ {e}, es.getLast? = some e → ∀ d ∈ es, (compare d.1 e.1).isLE = true := by
    intro e he d hd
    obtain ⟨before, rfl⟩ := List.getLast?_eq_some_iff.1 he
    rcases List.mem_append.1 hd with hd | hd
    · rw [(List.pairwise_append.1 hes).2.2 d hd e (by simp)]
      rfl
    · rw [List.mem_singleton.1 hd, Std.ReflOrd.compare_self]
      rfl
  refine ⟨fun he => ⟨List.mem_of_getLast? he, hgreatest he⟩, ?_⟩
  rintro ⟨he, hmax⟩
  obtain ⟨last, hlast⟩ : ∃ last, es.getLast? = some last :=
    ⟨_, List.getLast?_eq_some_getLast (List.ne_nil_of_mem he)⟩
  have hmem := List.mem_of_getLast? hlast
  have hkey : e.1 = last.1 := Std.LawfulEqOrd.eq_of_compare
    (Std.OrientedCmp.isLE_antisymm (hgreatest hlast e he) (hmax last hmem))
  have hvalue : e.2 = last.2 := eq_of_mem (m := ⟨es, hes⟩) he (by rw [hkey]; exact hmem)
  rw [hlast, Prod.ext hkey hvalue]

end DerivedSeries.OrderedMap
