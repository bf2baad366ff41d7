/-
Dictionaries: finite maps from texts, kept in the order of their keys.

A `Dict` is a list of entries with strictly increasing keys, so equal maps are equal
values and every listing comes in key order, which for texts is the order of their code
points.  `insert`, `erase` and `get?` are pinned down by `get?_insert_self`,
`get?_insert_ne`, `get?_erase_self` and `get?_erase_ne`, none of which needs a
hypothesis on the dictionary; `get?_eq_some_iff` ties `get?` to the entries, `entries_ofList`
says that entries in order are kept as they are, and `keys_perm_iff` says when a dictionary
has exactly the keys of a list.
-/

namespace ModalScript

universe u

variable {α : Type u}

/-- A finite map from texts: entries with strictly increasing keys. -/
structure Dict (α : Type u) where
  entries : List (String × α)
  sorted : entries.Pairwise (fun a b => a.1 < b.1)

namespace Dict

/-! ### Entry lists -/

/-- The entries with the value of `k` replaced, or put in before the first larger key. -/
def insertEntry (k : String) (v : α) : List (String × α) → List (String × α)
  | [] => [(k, v)]
  | e :: es =>
    if k < e.1 then (k, v) :: e :: es
    else if k = e.1 then (k, v) :: es
    else e :: insertEntry k v es

/-- The value of the first entry with the key. -/
def lookup (k : String) : List (String × α) → Option α
  | [] => none
  | e :: es => if e.1 = k then some e.2 else lookup k es

theorem mem_insertEntry {k : String} {v : α} {es : List (String × α)} {e : String × α}
    (h : e ∈ insertEntry k v es) : e = (k, v) ∨ e ∈ es := by
  induction es with
  | nil => simpa [insertEntry] using h
  | cons e' es ih =>
    simp only [insertEntry] at h
    split at h
    · simpa using h
    · split at h
      · -- the entry with the same key is gone
        rcases List.mem_cons.mp h with h | h
        · exact Or.inl h
        · exact Or.inr (List.mem_cons_of_mem _ h)
      · rcases List.mem_cons.mp h with h | h
        · exact Or.inr (h ▸ List.mem_cons_self)
        · exact (ih h).imp id (List.mem_cons_of_mem _)

/-- The new entry is put where its key belongs. -/
theorem sorted_insertEntry (k : String) (v : α) {es : List (String × α)}
    (h : es.Pairwise (fun a b => a.1 < b.1)) :
    (insertEntry k v es).Pairwise (fun a b => a.1 < b.1) := by
  induction es with
  | nil => simp [insertEntry]
  | cons e es ih =>
    rw [List.pairwise_cons] at h
    simp only [insertEntry]
    split
    · next hlt =>
      refine List.pairwise_cons.mpr ⟨?_, List.pairwise_cons.mpr h⟩
      intro b hb
      rcases List.mem_cons.mp hb with hb | hb
      · exact hb ▸ hlt
      · exact String.lt_trans hlt (h.1 b hb)
    · next hlt =>
      split
      · next heq => exact List.pairwise_cons.mpr ⟨fun b hb => heq ▸ h.1 b hb, h.2⟩
      · next hne =>
        refine List.pairwise_cons.mpr ⟨?_, ih h.2⟩
        intro b hb
        rcases mem_insertEntry hb with hb | hb
        · subst hb
          -- neither less than the first key nor equal to it, so greater
          have hle : e.1 ≤ k := String.not_lt.mp hlt
          rcases Decidable.em (e.1 < k) with h' | h'
          · exact h'
          · exact absurd (String.le_antisymm (String.not_lt.mp h') hle) hne
        · exact h.1 b hb

/-- An entry with the greatest key comes last. -/
theorem insertEntry_of_lt {k : String} {v : α} {es : List (String × α)}
    (hes : ∀ e ∈ es, e.1 < k) : insertEntry k v es = es ++ [(k, v)] := by
  induction es with
  | nil => rfl
  | cons e es ih =>
    rw [List.forall_mem_cons] at hes
    have hne : k ≠ e.1 := fun hk => String.lt_irrefl k (by
      have hlt := hes.1
      rwa [← hk] at hlt)
    rw [insertEntry, if_neg (String.lt_asymm hes.1), if_neg hne, ih hes.2]
    rfl

theorem lookup_insertEntry_self (k : String) (v : α) (es : List (String × α)) :
    lookup k (insertEntry k v es) = some v := by
  induction es with
  | nil => simp [insertEntry, lookup]
  | cons e es ih =>
    simp only [insertEntry]
    split
    · simp [lookup]
    · split
      · simp [lookup]
      · next hne => simp [lookup, Ne.symm hne, ih]

theorem lookup_insertEntry_ne {k k' : String} (v : α) (hk : k' ≠ k) (es : List (String × α)) :
    lookup k' (insertEntry k v es) = lookup k' es := by
  induction es with
  | nil => simp [insertEntry, lookup, hk.symm]
  | cons e es ih =>
    simp only [insertEntry]
    split
    · simp [lookup, hk.symm]
    · split
      · next heq => simp [lookup, hk.symm, ← heq]
      · simp [lookup, ih]

theorem lookup_eq_none {k : String} {es : List (String × α)} (h : ∀ e ∈ es, e.1 ≠ k) :
    lookup k es = none := by
  induction es with
  | nil => rfl
  | cons e es ih =>
    rw [List.forall_mem_cons] at h
    simp [lookup, h.1, ih h.2]

theorem lookup_filter_ne {k k' : String} (hk : k' ≠ k) (es : List (String × α)) :
    lookup k' (es.filter (fun e => e.1 ≠ k)) = lookup k' es := by
  induction es with
  | nil => rfl
  | cons e es ih =>
    by_cases he : e.1 = k
    · have : e.1 ≠ k' := fun h => hk (h ▸ he)
      rw [List.filter_cons_of_neg (by simpa using he), ih]
      simp [lookup, this]
    · rw [List.filter_cons_of_pos (by simpa using he)]
      simp only [lookup, ih]

theorem mem_of_lookup {k : String} {v : α} {es : List (String × α)} (h : lookup k es = some v) :
    (k, v) ∈ es := by
  induction es with
  | nil => cases h
  | cons e es ih =>
    simp only [lookup] at h
    split at h
    · next he =>
      cases h
      subst he
      exact List.mem_cons_self
    · exact List.mem_cons_of_mem _ (ih h)

/-- In order each key has one entry at most, so that none hides another one. -/
theorem lookup_of_mem {k : String} {v : α} {es : List (String × α)}
    (hs : es.Pairwise (fun a b => a.1 < b.1)) (h : (k, v) ∈ es) : lookup k es = some v := by
  induction es with
  | nil => cases h
  | cons e es ih =>
    rw [List.pairwise_cons] at hs
    rcases List.mem_cons.mp h with h | h
    · subst h
      simp [lookup]
    · -- the first key is less than all that follow
      have hne : e.1 ≠ k := fun hek => String.lt_irrefl e.1 (by
        have := hs.1 _ h
        rwa [← hek] at this)
      simp [lookup, hne, ih hs.2 h]

/-! ### Operations -/

/-- The dictionary without entries. -/
def empty : Dict α :=
  ⟨[], List.Pairwise.nil⟩

instance : Inhabited (Dict α) :=
  ⟨empty⟩

/-- The value stored under a key. -/
def get? (d : Dict α) (k : String) : Option α :=
  lookup k d.entries

/-- Whether a key has a value. -/
def contains (d : Dict α) (k : String) : Bool :=
  (d.get? k).isSome

/-- The dictionary in which `k` has the value `v`. -/
def insert (d : Dict α) (k : String) (v : α) : Dict α :=
  ⟨insertEntry k v d.entries, sorted_insertEntry k v d.sorted⟩

/-- The dictionary in which `k` has no value. -/
def erase (d : Dict α) (k : String) : Dict α :=
  ⟨d.entries.filter (fun e => e.1 ≠ k), d.sorted.filter _⟩

/-- The dictionary that holds the entries of a list, the last one of each key. -/
def ofList (es : List (String × α)) : Dict α :=
  es.foldl (fun d e => d.insert e.1 e.2) empty

/-- The keys in increasing order. -/
def keys (d : Dict α) : List String :=
  d.entries.map (·.1)

/-- The values in the order of their keys. -/
def values (d : Dict α) : List α :=
  d.entries.map (·.2)

/-- The number of entries. -/
def size (d : Dict α) : Nat :=
  d.entries.length

/-- The dictionary with the same keys and each value replaced by a function of it. -/
def map {β : Type u} (f : α → β) (d : Dict α) : Dict β :=
  ⟨d.entries.map (fun e => (e.1, f e.2)), d.sorted.map _ (fun _ _ h => h)⟩

/-! ### What the operations do to `get?` -/

@[simp] theorem get?_empty (k : String) : (empty : Dict α).get? k = none :=
  rfl

@[simp] theorem get?_insert_self (d : Dict α) (k : String) (v : α) :
    (d.insert k v).get? k = some v :=
  lookup_insertEntry_self k v d.entries

theorem get?_insert_ne (d : Dict α) {k k' : String} (v : α) (h : k' ≠ k) :
    (d.insert k v).get? k' = d.get? k' :=
  lookup_insertEntry_ne v h d.entries

theorem get?_insert (d : Dict α) (k k' : String) (v : α) :
    (d.insert k v).get? k' = if k' = k then some v else d.get? k' := by
  split
  · next h => rw [h, get?_insert_self]
  · next h => exact get?_insert_ne d v h

@[simp] theorem get?_erase_self (d : Dict α) (k : String) : (d.erase k).get? k = none :=
  lookup_eq_none (fun _ he => by simpa using (List.mem_filter.mp he).2)

theorem get?_erase_ne (d : Dict α) {k k' : String} (h : k' ≠ k) :
    (d.erase k).get? k' = d.get? k' :=
  lookup_filter_ne h d.entries

theorem get?_eq_some_iff {d : Dict α} {k : String} {v : α} :
    d.get? k = some v ↔ (k, v) ∈ d.entries :=
  ⟨mem_of_lookup, lookup_of_mem d.sorted⟩

/-- Two dictionaries with the same entries are the same. -/
theorem eq_of_entries {d d' : Dict α} (h : d.entries = d'.entries) : d = d' := by
  cases d
  cases d'
  cases h
  rfl

/-! ### Lists of entries -/

/-- Entries that come in order are added at the end. -/
theorem entries_foldl_insert {d : Dict α} {es : List (String × α)}
    (hsorted : (d.entries ++ es).Pairwise fun a b => a.1 < b.1) :
    (es.foldl (fun d e => d.insert e.1 e.2) d).entries = d.entries ++ es := by
  induction es generalizing d with
  | nil => rw [List.foldl_nil, List.append_nil]
  | cons e es ih =>
    have hlast : (d.insert e.1 e.2).entries = d.entries ++ [e] :=
      insertEntry_of_lt fun a ha =>
        (List.pairwise_append.mp hsorted).2.2 a ha e List.mem_cons_self
    rw [List.foldl_cons, ih, hlast, List.append_assoc, List.singleton_append]
    rwa [hlast, List.append_assoc, List.singleton_append]

/-- Entries in the order of their keys are the entries of their dictionary. -/
theorem entries_ofList {es : List (String × α)}
    (hsorted : es.Pairwise fun a b => a.1 < b.1) : (ofList es).entries = es :=
  entries_foldl_insert hsorted

/-! ### Keys -/

theorem sorted_keys (d : Dict α) : d.keys.Pairwise (· < ·) :=
  List.pairwise_map.mpr d.sorted

theorem mem_keys_iff {d : Dict α} {k : String} : k ∈ d.keys ↔ (d.get? k).isSome := by
  rw [Option.isSome_iff_exists]
  constructor
  · intro h
    obtain ⟨e, he, rfl⟩ := List.mem_map.mp h
    exact ⟨e.2, get?_eq_some_iff.mpr he⟩
  · rintro ⟨v, hv⟩
    exact List.mem_map.mpr ⟨(k, v), get?_eq_some_iff.mp hv, rfl⟩

theorem nodup_keys (d : Dict α) : d.keys.Nodup :=
  d.sorted.map _ fun a b hab => by
    intro he
    rw [he] at hab
    exact String.lt_irrefl _ hab

/-- The keys are those of a list without repetitions if the same keys have values. -/
theorem keys_perm_iff {d : Dict α} {ks : List String} :
    d.keys.Perm ks ↔ ks.Nodup ∧ ∀ k, (d.get? k).isSome ↔ k ∈ ks := by
  simp only [← mem_keys_iff]
  constructor
  · intro h
    exact ⟨h.nodup_iff.mp d.nodup_keys, fun k => h.mem_iff⟩
  · rintro ⟨hks, h⟩
    exact (List.perm_ext_iff_of_nodup d.nodup_keys hks).mpr h

end Dict

end ModalScript
