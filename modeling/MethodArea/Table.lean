/-
# `Table` — finite maps with one entry per key

A table is kept as the list of its entries, newest first.  Nothing that
the rest of the library answers depends on the order of that list; it is
a list, and not a hash table, so that a look-up in a closed table can be
computed inside a proof.  The equations that matter are `get?_insert` and
`get?_erase`: a write is seen at its own key and nowhere else; and where the
values are counted, `count_values_insert` and `count_values_erase`.
-/
namespace MethodArea

/-- A finite map from `κ` to `ν`. -/
structure Table (κ ν : Type) where
  entries : List (κ × ν)
  distinct : (entries.map Prod.fst).Nodup

namespace Table

variable {κ ν : Type}

/-- The table without entries. -/
def empty : Table κ ν := ⟨[], .nil⟩

instance : Inhabited (Table κ ν) := ⟨empty⟩

/-- The number of keys. -/
def size (t : Table κ ν) : Nat := t.entries.length

/-- Whether the table has no entry. -/
def isEmpty (t : Table κ ν) : Bool := t.entries.isEmpty

/-- The values, newest first. -/
def values (t : Table κ ν) : List ν := t.entries.map Prod.snd

variable [DecidableEq κ]

/-- The value at a key. -/
def get? (t : Table κ ν) (k : κ) : Option ν :=
  (t.entries.find? (fun e => e.1 = k)).map Prod.snd

/-- The table without the entry of a key. -/
def erase (t : Table κ ν) (k : κ) : Table κ ν where
  entries := t.entries.filter (fun e => e.1 ≠ k)
  distinct := t.distinct.sublist (List.filter_sublist.map _)

/-- No entry of a key is left once it is erased. -/
theorem not_mem_keys_erase (t : Table κ ν) (k : κ) :
    k ∉ (t.erase k).entries.map Prod.fst := by
  simp [erase]

/-- The table with `v` at `k`, in place of what stood there. -/
def insert (t : Table κ ν) (k : κ) (v : ν) : Table κ ν where
  entries := (k, v) :: (t.erase k).entries
  distinct := List.nodup_cons.2 ⟨t.not_mem_keys_erase k, (t.erase k).distinct⟩

@[simp] theorem get?_empty (k : κ) : (empty : Table κ ν).get? k = none := rfl

/-- Erasing a key takes away its value and no other. -/
theorem get?_erase (t : Table κ ν) (k k' : κ) :
    (t.erase k).get? k' = if k' = k then none else t.get? k' := by
  obtain ⟨es, -⟩ := t
  induction es with
  | nil => simp [erase, get?]
  | cons e es ih =>
    simp only [erase, get?] at ih ⊢
    grind

/-- A write is seen at its own key and at no other. -/
theorem get?_insert (t : Table κ ν) (k k' : κ) (v : ν) :
    (t.insert k v).get? k' = if k' = k then some v else t.get? k' := by
  have h := get?_erase t k k'
  simp only [insert, get?, List.find?_cons] at h ⊢
  grind

/-- The values are what the keys have. -/
theorem mem_values_iff {t : Table κ ν} {v : ν} : v ∈ t.values ↔ ∃ k, t.get? k = some v := by
  obtain ⟨es, hdistinct⟩ := t
  simp only [values, get?, List.mem_map, Option.map_eq_some_iff]
  constructor
  · rintro ⟨e, he, rfl⟩
    refine ⟨e.1, e, ?_, rfl⟩
    induction es with
    | nil => exact absurd he List.not_mem_nil
    | cons d es ih =>
        obtain ⟨hd, hes⟩ := List.nodup_cons.1 hdistinct
        rcases List.mem_cons.1 he with rfl | he
        · exact List.find?_cons_of_pos (decide_eq_true rfl)
        · have hne : d.1 ≠ e.1 := by
            intro heq
            exact hd (heq ▸ List.mem_map_of_mem he)
          rw [List.find?_cons_of_neg (by simpa using hne)]
          exact ih hes he
  · rintro ⟨k, e, he, rfl⟩
    exact ⟨e, List.mem_of_find?_eq_some he, rfl⟩

/-- Erasing a key without a value changes nothing. -/
theorem erase_eq_self {t : Table κ ν} {k : κ} (h : t.get? k = none) : t.erase k = t := by
  obtain ⟨es, hdistinct⟩ := t
  simp only [get?, Option.map_eq_none_iff, List.find?_eq_none, decide_eq_true_eq] at h
  have hkept : es.filter (fun e => e.1 ≠ k) = es :=
    List.filter_eq_self.2 fun e he => decide_eq_true (h e he)
  simp only [erase, hkept]

/-- Erasing a key takes its value away once. -/
theorem count_values_erase [BEq ν] (t : Table κ ν) (k : κ) (v : ν) :
    t.values.count v = (t.get? k).toList.count v + (t.erase k).values.count v := by
  cases hk : t.get? k with
  | none => rw [erase_eq_self hk, Option.toList_none, List.count_nil, Nat.zero_add]
  | some w =>
      obtain ⟨es, hdistinct⟩ := t
      simp only [values, get?, erase, Option.toList_some] at hk ⊢
      induction es with
      | nil => cases hk
      | cons e es ih =>
          obtain ⟨hd, hes⟩ := List.nodup_cons.1 hdistinct
          by_cases he : e.1 = k
          · -- this is the entry of the key, and there is no other one
            rw [List.find?_cons_of_pos (by simpa using he)] at hk
            obtain rfl := Option.some.inj hk
            have hrest : es.filter (fun d => d.1 ≠ k) = es :=
              List.filter_eq_self.2 fun d hmem =>
                decide_eq_true fun hdk => hd (he.trans hdk.symm ▸ List.mem_map_of_mem hmem)
            rw [List.filter_cons_of_neg (by simpa using he), hrest, List.map_cons,
              ← List.singleton_append, List.count_append]
          · rw [List.find?_cons_of_neg (by simpa using he)] at hk
            have hrest := ih hes hk
            rw [List.filter_cons_of_pos (by simpa using he), List.map_cons, List.map_cons]
            simp only [List.count_cons] at hrest ⊢
            omega

/-- A write adds its value once, in place of what stood there. -/
theorem count_values_insert [BEq ν] (t : Table κ ν) (k : κ) (v w : ν) :
    (t.insert k v).values.count w = [v].count w + (t.erase k).values.count w := by
  show (v :: (t.erase k).values).count w = _
  rw [← List.singleton_append, List.count_append]

end Table

end MethodArea
