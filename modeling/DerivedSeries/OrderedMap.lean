/-!
# Ordered maps

A finite map kept as the list of its entries in strictly ascending order of keys. Two maps with
the same look-ups are therefore the same list, and what a map shows (its entries, its keys) never
depends on the order in which it was filled.
-/

namespace DerivedSeries

universe u v w

/-- Entries in strictly ascending order of keys. -/
structure OrderedMap (κ : Type u) (ν : Type v) [Ord κ] where
  entries : List (κ × ν)
  ascending : entries.Pairwise fun a b => compare a.1 b.1 = .lt

namespace OrderedMap

variable {κ : Type u} {ν : Type v} {μ : Type w}

/-- Puts an entry at its place among ascending entries; an entry with the same key gives way. -/
def insertEntry [Ord κ] (k : κ) (x : ν) : List (κ × ν) → List (κ × ν)
  | [] => [(k, x)]
  | e :: es =>
    match compare k e.1 with
    | .lt => (k, x) :: e :: es
    | .eq => (k, x) :: es
    | .gt => e :: insertEntry k x es

theorem mem_of_mem_insertEntry [Ord κ] {k : κ} {x : ν} {e : κ × ν} {es : List (κ × ν)}
    (h : e ∈ insertEntry k x es) : e = (k, x) ∨ e ∈ es := by
  induction es with
  | nil => simpa [insertEntry] using h
  | cons d es ih =>
    unfold insertEntry at h
    split at h
    · simpa using h
    · simp only [List.mem_cons] at h ⊢
      exact h.imp id .inr
    · simp only [List.mem_cons] at h ⊢
      exact h.elim (fun h => .inr (.inl h)) fun h => (ih h).imp id .inr

theorem ascending_insertEntry [Ord κ] [Std.TransOrd κ] (k : κ) (x : ν) {es : List (κ × ν)}
    (h : es.Pairwise fun a b => compare a.1 b.1 = .lt) :
    (insertEntry k x es).Pairwise fun a b => compare a.1 b.1 = .lt := by
  induction es with
  | nil => simp [insertEntry]
  | cons d es ih =>
    obtain ⟨hd, hes⟩ := List.pairwise_cons.1 h
    unfold insertEntry
    split
    · rename_i hk
      exact h.cons fun a ha => (List.mem_cons.1 ha).elim (fun e => e ▸ hk)
        fun m => Std.TransCmp.lt_trans hk (hd a m)
    · rename_i hk
      exact hes.cons fun a ha => Std.TransCmp.lt_of_eq_of_lt hk (hd a ha)
    · rename_i hk
      refine (ih hes).cons fun a ha => ?_
      rcases mem_of_mem_insertEntry ha with rfl | m
      · exact Std.OrientedCmp.lt_of_gt hk
      · exact hd a m

section
variable [Ord κ]

def empty : OrderedMap κ ν := ⟨[], .nil⟩

instance : Inhabited (OrderedMap κ ν) := ⟨empty⟩

instance [DecidableEq κ] [DecidableEq ν] : DecidableEq (OrderedMap κ ν) := fun a b =>
  decidable_of_iff (a.entries = b.entries)
    ⟨fun h => by cases a; cases b; cases h; rfl, fun h => h ▸ rfl⟩

@[ext] theorem ext {a b : OrderedMap κ ν} (h : a.entries = b.entries) : a = b := by
  cases a; cases b; cases h; rfl

def size (m : OrderedMap κ ν) : Nat := m.entries.length

def keys (m : OrderedMap κ ν) : List κ := m.entries.map (·.1)

def values (m : OrderedMap κ ν) : List ν := m.entries.map (·.2)

/-- The value under a key. -/
def get? (m : OrderedMap κ ν) (k : κ) : Option ν :=
  (m.entries.find? fun e => compare k e.1 == .eq).map (·.2)

/-- The entries that a test on the key lets through. -/
def filterKeys (p : κ → Bool) (m : OrderedMap κ ν) : OrderedMap κ ν :=
  ⟨m.entries.filter fun e => p e.1, m.ascending.filter _⟩

/-- Changes every value and no key. -/
def mapValues (f : ν → μ) (m : OrderedMap κ ν) : OrderedMap κ μ :=
  ⟨m.entries.map fun e => (e.1, f e.2), List.pairwise_map.2 m.ascending⟩

@[simp] theorem entries_empty : (empty : OrderedMap κ ν).entries = [] := rfl

@[simp] theorem entries_mapValues (f : ν → μ) (m : OrderedMap κ ν) :
    (m.mapValues f).entries = m.entries.map fun e => (e.1, f e.2) := rfl

@[simp] theorem entries_filterKeys (p : κ → Bool) (m : OrderedMap κ ν) :
    (m.filterKeys p).entries = m.entries.filter fun e => p e.1 := rfl

end

section
variable [Ord κ] [Std.TransOrd κ]

/-- Sets the value under a key, new or not. -/
def insert (m : OrderedMap κ ν) (k : κ) (x : ν) : OrderedMap κ ν :=
  ⟨insertEntry k x m.entries, ascending_insertEntry k x m.ascending⟩

/-- Sets every entry of a list in turn, so that the last of those with one key stays. -/
def insertAll (m : OrderedMap κ ν) (es : List (κ × ν)) : OrderedMap κ ν :=
  es.foldl (fun m e => m.insert e.1 e.2) m

def ofList (es : List (κ × ν)) : OrderedMap κ ν :=
  empty.insertAll es

@[simp] theorem entries_insert (m : OrderedMap κ ν) (k : κ) (x : ν) :
    (m.insert k x).entries = insertEntry k x m.entries := rfl

end
end OrderedMap
end DerivedSeries
