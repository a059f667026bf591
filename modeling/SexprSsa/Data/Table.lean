/-
SexprSsa.Data.Table — tables that remember the order of insertion.

A module keeps its globals and functions, and a function body its blocks, in
tables: a key occurs once, a new key goes to the end, and a value stored
under a key that is present takes the old value's place. Listings and the
persisted form walk a table in that order, so the order is part of the value.

Main statements: `find?_insert`, `keys_insert`, `find?_modify` and
`keys_modify` say what each operation does to the two views of a table, its
lookup and its list of keys; `ofList_entries` says that inserting a table's
entries one by one rebuilds it.
-/

namespace SexprSsa

/-- A finite map whose keys are listed in the order they were first stored. -/
structure Table (κ α : Type) where
  entries : List (κ × α)
  nodup_keys : (entries.map Prod.fst).Nodup
  deriving DecidableEq

namespace Table

variable {κ α : Type}

@[ext] theorem ext {s t : Table κ α} (h : s.entries = t.entries) : s = t := by
  cases s; cases t; simp_all

/-- The table without entries. -/
def empty : Table κ α := ⟨[], List.nodup_nil⟩

instance : EmptyCollection (Table κ α) := ⟨empty⟩
instance : Inhabited (Table κ α) := ⟨empty⟩

/-- The keys, in order of first insertion. -/
def keys (t : Table κ α) : List κ := t.entries.map Prod.fst

/-- The values, in the order of their keys. -/
def values (t : Table κ α) : List α := t.entries.map Prod.snd

/-- The number of entries. -/
def size (t : Table κ α) : Nat := t.entries.length

/-- The entry at a position, counted from the first insertion. -/
def at? (t : Table κ α) (i : Nat) : Option (κ × α) := t.entries[i]?

@[simp] theorem entries_empty : (∅ : Table κ α).entries = [] := rfl
@[simp] theorem keys_empty : (∅ : Table κ α).keys = [] := rfl
@[simp] theorem values_empty : (∅ : Table κ α).values = [] := rfl

theorem nodup (t : Table κ α) : t.keys.Nodup := t.nodup_keys

@[simp] theorem length_keys (t : Table κ α) : t.keys.length = t.size := by
  simp [keys, size]

@[simp] theorem length_values (t : Table κ α) : t.values.length = t.size := by
  simp [values, size]

section
variable [DecidableEq κ]

/-! ## Association lists

The operations are first defined on the list of entries. -/

/-- The value of the first entry with the key `k`. -/
def lookupIn (k : κ) : List (κ × α) → Option α
  | [] => none
  | (k', a) :: rest => if k' = k then some a else lookupIn k rest

/-- Replaces the value of the entry with key `k`, or adds an entry at the end. -/
def storeIn (k : κ) (a : α) : List (κ × α) → List (κ × α)
  | [] => [(k, a)]
  | (k', a') :: rest => if k' = k then (k', a) :: rest else (k', a') :: storeIn k a rest

theorem map_fst_storeIn (k : κ) (a : α) (l : List (κ × α)) :
    (storeIn k a l).map Prod.fst =
      if k ∈ l.map Prod.fst then l.map Prod.fst else l.map Prod.fst ++ [k] := by
  induction l with
  | nil => rfl
  | cons e rest ih =>
    obtain ⟨k', a'⟩ := e
    by_cases h : k' = k
    · subst h; simp [storeIn]
    · have h' : ¬ k = k' := fun e => h e.symm
      simp only [storeIn, if_neg h, List.map_cons, ih, List.mem_cons, h', false_or]
      split <;> rfl

theorem nodup_storeIn (k : κ) (a : α) {l : List (κ × α)} (h : (l.map Prod.fst).Nodup) :
    ((storeIn k a l).map Prod.fst).Nodup := by
  rw [map_fst_storeIn]
  split
  · exact h
  · next hk =>
    rw [List.nodup_append]
    refine ⟨h, by simp, ?_⟩
    intro x hx y hy hxy
    simp only [List.mem_singleton] at hy
    exact hk (hy ▸ hxy ▸ hx)

theorem lookupIn_storeIn (k q : κ) (a : α) (l : List (κ × α)) :
    lookupIn q (storeIn k a l) = if k = q then some a else lookupIn q l := by
  induction l with
  | nil => rfl
  | cons e rest ih =>
    obtain ⟨k', a'⟩ := e
    by_cases h : k' = k
    · subst h; by_cases hq : k' = q <;> simp [storeIn, lookupIn, hq]
    · by_cases hq : k' = q
      · subst hq
        have h' : ¬ k = k' := fun e => h e.symm
        simp [storeIn, lookupIn, h, h']
      · simp [storeIn, lookupIn, h, hq, ih]

theorem storeIn_of_not_mem {k : κ} (a : α) {l : List (κ × α)} (h : k ∉ l.map Prod.fst) :
    storeIn k a l = l ++ [(k, a)] := by
  induction l with
  | nil => rfl
  | cons e rest ih =>
    obtain ⟨k', a'⟩ := e
    simp only [List.map_cons, List.mem_cons, not_or] at h
    have h' : ¬ k' = k := fun e => h.1 e.symm
    simp [storeIn, h', ih h.2]

theorem getElem?_storeIn {k key : κ} {a v : α} {l : List (κ × α)} {i : Nat}
    (hn : (l.map Prod.fst).Nodup) (h : l[i]? = some (key, v)) :
    (storeIn k a l)[i]? = some (key, if key = k then a else v) := by
  induction l generalizing i with
  | nil => simp at h
  | cons e rest ih =>
    obtain ⟨k', a'⟩ := e
    simp only [List.map_cons, List.nodup_cons] at hn
    cases i with
    | zero =>
      obtain ⟨rfl, rfl⟩ := Prod.mk.inj (Option.some.inj h)
      by_cases hk : k' = k <;> simp [storeIn, hk]
    | succ i =>
      have hmem : (key, v) ∈ rest := List.mem_of_getElem? h
      by_cases hk : k' = k
      · have hkey : ¬ key = k := by
          rintro rfl
          exact hn.1 (List.mem_map.2 ⟨_, hmem, hk.symm⟩)
        rw [storeIn, if_pos hk, if_neg hkey]
        exact h
      · rw [storeIn, if_neg hk]
        exact ih hn.2 h

theorem isSome_lookupIn (k : κ) (l : List (κ × α)) :
    (lookupIn k l).isSome = decide (k ∈ l.map Prod.fst) := by
  induction l with
  | nil => rfl
  | cons e rest ih =>
    obtain ⟨k', a'⟩ := e
    by_cases h : k' = k
    · subst h; simp [lookupIn]
    · have h' : ¬ k = k' := fun e => h e.symm
      simp [lookupIn, h, h', ih]

theorem mem_of_lookupIn {k : κ} {a : α} {l : List (κ × α)} (h : lookupIn k l = some a) :
    (k, a) ∈ l := by
  induction l with
  | nil => simp [lookupIn] at h
  | cons e rest ih =>
    obtain ⟨k', a'⟩ := e
    by_cases hk : k' = k
    · subst hk; simp [lookupIn] at h; simp [h]
    · simp [lookupIn, hk] at h; exact List.mem_cons_of_mem _ (ih h)

theorem lookupIn_of_mem {k : κ} {a : α} {l : List (κ × α)} (hn : (l.map Prod.fst).Nodup)
    (h : (k, a) ∈ l) : lookupIn k l = some a := by
  induction l with
  | nil => simp at h
  | cons e rest ih =>
    obtain ⟨k', a'⟩ := e
    simp only [List.map_cons, List.nodup_cons] at hn
    rcases List.mem_cons.1 h with h | h
    · obtain ⟨rfl, rfl⟩ := Prod.mk.inj h; simp [lookupIn]
    · have : ¬ k' = k := by
        rintro rfl; exact hn.1 (List.mem_map.2 ⟨_, h, rfl⟩)
      simp [lookupIn, this, ih hn.2 h]

/-! ## Operations on tables -/

/-- The value stored under a key. -/
def find? (t : Table κ α) (k : κ) : Option α := lookupIn k t.entries

/-- Whether a key is present. -/
def contains (t : Table κ α) (k : κ) : Bool := (t.find? k).isSome

/-- Stores a value: in place if the key is present, else at the end. -/
def insert (t : Table κ α) (k : κ) (a : α) : Table κ α :=
  ⟨storeIn k a t.entries, nodup_storeIn k a t.nodup_keys⟩

/-- Applies a function to the value stored under a key, if there is one. -/
def modify (t : Table κ α) (k : κ) (f : α → α) : Table κ α where
  entries := t.entries.map fun e => if e.1 = k then (e.1, f e.2) else e
  nodup_keys := by
    have : (t.entries.map fun e => if e.1 = k then (e.1, f e.2) else e).map Prod.fst =
        t.entries.map Prod.fst := by
      rw [List.map_map]
      apply List.map_congr_left
      intro e _
      by_cases h : e.1 = k <;> simp [h]
    rw [this]
    exact t.nodup_keys

/-- The table that storing the listed entries one after the other produces. -/
def ofList (l : List (κ × α)) : Table κ α := l.foldl (fun t e => t.insert e.1 e.2) ∅

@[simp] theorem find?_empty (k : κ) : (∅ : Table κ α).find? k = none := rfl

/-- A lookup after a store finds the stored value, and elsewhere what was there. -/
theorem find?_insert (t : Table κ α) (k q : κ) (a : α) :
    (t.insert k a).find? q = if k = q then some a else t.find? q :=
  lookupIn_storeIn k q a t.entries

@[simp] theorem find?_insert_self (t : Table κ α) (k : κ) (a : α) :
    (t.insert k a).find? k = some a := by simp [find?_insert]

theorem find?_insert_of_ne (t : Table κ α) {k q : κ} (a : α) (h : k ≠ q) :
    (t.insert k a).find? q = t.find? q := by simp [find?_insert, h]

/-- A store adds its key at the end unless the key is present. -/
theorem keys_insert (t : Table κ α) (k : κ) (a : α) :
    (t.insert k a).keys = if k ∈ t.keys then t.keys else t.keys ++ [k] :=
  map_fst_storeIn k a t.entries

theorem entries_insert_of_not_mem (t : Table κ α) {k : κ} (a : α) (h : k ∉ t.keys) :
    (t.insert k a).entries = t.entries ++ [(k, a)] :=
  storeIn_of_not_mem a h

/-- A store moves no entry. -/
theorem at?_insert (t : Table κ α) {k key : κ} {v : α} (a : α) {i : Nat}
    (h : t.at? i = some (key, v)) :
    (t.insert k a).at? i = some (key, if key = k then a else v) :=
  getElem?_storeIn t.nodup_keys h

/-- What stands at a position after a store is what was stored, at the end if its key is new, or
what stood there before. -/
theorem at?_of_at?_insert (t : Table κ α) {k key : κ} {a v : α} {i : Nat}
    (h : (t.insert k a).at? i = some (key, v)) :
    (key = k ∧ v = a ∧ (k ∉ t.keys → i = t.size)) ∨ t.at? i = some (key, v) := by
  cases hold : t.at? i with
  | some e =>
    obtain ⟨key', v'⟩ := e
    have hmem : key' ∈ t.keys := List.mem_map.2 ⟨_, List.mem_of_getElem? hold, rfl⟩
    rw [t.at?_insert a hold] at h
    obtain ⟨rfl, hv⟩ := Prod.mk.inj (Option.some.inj h)
    by_cases hk : key' = k
    · rw [if_pos hk] at hv
      exact .inl ⟨hk, hv.symm, fun hnew => absurd (hk ▸ hmem) hnew⟩
    · rw [if_neg hk] at hv
      rw [hv]
      exact .inr rfl
  | none =>
    have hi : t.size ≤ i := List.getElem?_eq_none_iff.1 hold
    have hlt : i < (t.insert k a).size := (List.getElem?_eq_some_iff.1 h).1
    rw [← length_keys, keys_insert] at hlt
    by_cases hk : k ∈ t.keys
    · rw [if_pos hk, length_keys] at hlt
      omega
    · rw [if_neg hk, List.length_append, length_keys, List.length_singleton] at hlt
      obtain rfl : i = t.size := by omega
      rw [at?, entries_insert_of_not_mem t a hk] at h
      have he : (k, a) = (key, v) := by simpa [size] using h
      cases he
      exact .inl ⟨rfl, rfl, fun _ => rfl⟩

theorem contains_eq (t : Table κ α) (k : κ) : t.contains k = decide (k ∈ t.keys) :=
  isSome_lookupIn k t.entries

theorem mem_keys_iff (t : Table κ α) (k : κ) : k ∈ t.keys ↔ ∃ a, t.find? k = some a := by
  rw [← Option.isSome_iff_exists]
  have := t.contains_eq k
  unfold contains at this
  rw [this]; simp

theorem find?_eq_some_iff (t : Table κ α) (k : κ) (a : α) :
    t.find? k = some a ↔ (k, a) ∈ t.entries :=
  ⟨mem_of_lookupIn, lookupIn_of_mem t.nodup_keys⟩

theorem find?_eq_none_iff (t : Table κ α) (k : κ) : t.find? k = none ↔ k ∉ t.keys := by
  rw [mem_keys_iff]
  cases t.find? k <;> simp

@[simp] theorem keys_modify (t : Table κ α) (k : κ) (f : α → α) :
    (t.modify k f).keys = t.keys := by
  unfold keys modify
  rw [List.map_map]
  apply List.map_congr_left
  intro e _
  by_cases h : e.1 = k <;> simp [h]

theorem lookupIn_modify (k q : κ) (f : α → α) (l : List (κ × α)) :
    lookupIn q (l.map fun e => if e.1 = k then (e.1, f e.2) else e) =
      if k = q then (lookupIn q l).map f else lookupIn q l := by
  induction l with
  | nil => simp [lookupIn]
  | cons e rest ih =>
    obtain ⟨k', a⟩ := e
    by_cases h : k' = k
    · subst h
      by_cases hq : k' = q
      · simp [lookupIn, hq]
      · simp only [List.map_cons, if_pos, lookupIn, if_neg hq, ih]
    · by_cases hq : k' = q
      · subst hq
        have h' : ¬ k = k' := fun e => h e.symm
        simp [lookupIn, h, h']
      · simp only [List.map_cons, if_neg h, lookupIn, if_neg hq, ih]

/-- A modification changes the value under its own key only. -/
theorem find?_modify (t : Table κ α) (k q : κ) (f : α → α) :
    (t.modify k f).find? q = if k = q then (t.find? q).map f else t.find? q :=
  lookupIn_modify k q f t.entries

theorem entries_foldl_insert (l : List (κ × α)) (t : Table κ α)
    (h : (t.keys ++ l.map Prod.fst).Nodup) :
    (l.foldl (fun t e => t.insert e.1 e.2) t).entries = t.entries ++ l := by
  induction l generalizing t with
  | nil => simp
  | cons e rest ih =>
    have hk : e.1 ∉ t.keys := by
      intro hmem
      rw [List.nodup_append] at h
      exact h.2.2 _ hmem _ (by simp) rfl
    have he := t.entries_insert_of_not_mem e.2 hk
    have hkeys : (t.insert e.1 e.2).keys = t.keys ++ [e.1] := by
      rw [keys_insert, if_neg hk]
    rw [List.foldl_cons, ih, he]
    · simp
    · rw [hkeys]; simpa using h

/-- Storing a table's entries in order rebuilds the table. -/
@[simp] theorem ofList_entries (t : Table κ α) : ofList t.entries = t := by
  apply ext
  unfold ofList
  rw [entries_foldl_insert]
  · simp
  · simpa using t.nodup_keys

end

end Table

end SexprSsa
