import Mathlib.Data.Finmap
import Mathlib.Data.Vector.Defs

/-!
# Bounded key-value maps with error numbers

Two kinds of fixed-size map that an operating system kernel offers to its
users. An array map has all its slots from the start: a write outside the
range is refused and nothing can be removed. A hash map holds at most a
fixed number of keys: a new key is refused when the map is full, and the
removal of an absent key is reported as an error without any effect.

The hash map carries its bound, so an overfull map cannot be built.
-/

namespace ContainerLb.BoundedMaps

/-- Error numbers of map and link operations. -/
inductive Errno where
  /-- No room for the key, or an array index out of range. -/
  | e2big
  /-- The key is absent. -/
  | enoent
  /-- Any other failure of the operating system. -/
  | other (code : ℕ)
  deriving DecidableEq,Repr

/-- Preallocated slots indexed by unsigned 32-bit numbers. -/
@[ext]
structure ArrayMap (size : ℕ) (α : Type) where
  /-- The slots in index order. -/
  slots : Vector α size
  deriving DecidableEq

namespace ArrayMap

variable {size : ℕ} {α : Type}

/-- Every slot holds the same value. -/
def replicate (size : ℕ) (value : α) : ArrayMap size α := ⟨Vector.replicate size value⟩

/-- Slot contents, absent outside the range. -/
def lookup (map : ArrayMap size α) (index : UInt32) : Option α := map.slots[index.toNat]?

/-- Overwrite one slot, refusing an index out of range. -/
def put (map : ArrayMap size α) (index : UInt32) (value : α) : Except Errno (ArrayMap size α) :=
  if h : index.toNat<size then .ok ⟨map.slots.set index.toNat value⟩ else .error .e2big

/-- Change one slot in place, nothing outside the range. -/
def modify (map : ArrayMap size α) (index : UInt32) (f : α → α) : ArrayMap size α :=
  if h : index.toNat<size then ⟨map.slots.set index.toNat (f map.slots[index.toNat])⟩ else map

/-- Every slot of a fresh map holds the initial value. -/
theorem lookup_replicate {index : UInt32} {value : α} (h : index.toNat<size) :
    (replicate size value).lookup index=some value := by
  simp [replicate,lookup,h]

/-- A slot exists exactly below the size. -/
theorem lookup_isSome (map : ArrayMap size α) (index : UInt32) :
    (map.lookup index).isSome ↔ index.toNat<size := by
  simp [lookup]

/-- An accepted write is in range. -/
theorem lt_of_put {map written : ArrayMap size α} {index : UInt32} {value : α}
    (h : map.put index value=.ok written) : index.toNat<size := by
  unfold put at h
  split at h
  · assumption
  · contradiction

/-- A write in range is accepted. -/
theorem put_of_lt (map : ArrayMap size α) {index : UInt32} (value : α) (h : index.toNat<size) :
    map.put index value=.ok ⟨map.slots.set index.toNat value⟩ := by
  rw [put,dif_pos h]

/-- After an accepted write the slot holds the value and all others are kept. -/
theorem lookup_put {map written : ArrayMap size α} {index : UInt32} {value : α}
    (h : map.put index value=.ok written) (other : UInt32) :
    written.lookup other=if other=index then some value else map.lookup other := by
  have hlt := lt_of_put h
  rw [put_of_lt map value hlt] at h
  cases h
  by_cases he : other=index
  · subst he
    simp [lookup,hlt]
  · have hne : index.toNat≠other.toNat := fun hn => he (UInt32.toNat_inj.mp hn.symm)
    simp [lookup,he,hne]

/-- A change in place is seen at its own index only. -/
theorem lookup_modify (map : ArrayMap size α) (index other : UInt32) (f : α → α) :
    (map.modify index f).lookup other=
      if other=index then (map.lookup other).map f else map.lookup other := by
  by_cases hlt : index.toNat<size
  · rw [modify,dif_pos hlt]
    by_cases he : other=index
    · subst he
      simp [lookup,hlt]
    · have hne : index.toNat≠other.toNat := fun hn => he (UInt32.toNat_inj.mp hn.symm)
      simp [lookup,he,hne]
  · rw [modify,dif_neg hlt]
    by_cases he : other=index
    · subst he
      simp [lookup,hlt]
    · rw [if_neg he]

/-- Maps with indexable slots are determined by their lookups. -/
theorem ext_lookup {first second : ArrayMap size α} (hsize : size≤2^32)
    (h : ∀ index,first.lookup index=second.lookup index) : first=second := by
  apply ArrayMap.ext
  ext i hi
  have hn : (UInt32.ofNat i).toNat=i := UInt32.toNat_ofNat_of_lt' (by simp only [UInt32.size]; omega)
  have hl := h (UInt32.ofNat i)
  simpa [lookup,hn,hi] using hl

/-- Writing what a slot holds already changes nothing. -/
theorem eq_of_put {map written : ArrayMap size α} {index : UInt32} {value : α} (hsize : size≤2^32)
    (h : map.put index value=.ok written) (hl : map.lookup index=some value) : written=map := by
  refine ext_lookup hsize fun other => ?_
  rw [lookup_put h]
  split
  · rename_i ho
    rw [ho,hl]
  · rfl

end ArrayMap

/-- At most a fixed number of keys, each with one value. -/
@[ext]
structure HashMap (capacity : ℕ) (κ ν : Type) where
  /-- The stored associations. -/
  entries : Finmap fun _ : κ => ν
  /-- The number of keys never exceeds the capacity. -/
  bounded : entries.keys.card≤capacity

namespace HashMap

variable {capacity : ℕ} {κ ν : Type}

/-- The map without keys. -/
def empty (capacity : ℕ) (κ ν : Type) : HashMap capacity κ ν := ⟨∅,by simp⟩

variable [DecidableEq κ]

/-- Value stored at a key. -/
def lookup (map : HashMap capacity κ ν) (key : κ) : Option ν := map.entries.lookup key

/-- Inserting a key adds at most that key. -/
theorem keys_insert (entries : Finmap fun _ : κ => ν) (key : κ) (value : ν) :
    (entries.insert key value).keys=insert key entries.keys := by
  ext other
  simp only [Finmap.mem_keys,Finmap.mem_insert,Finset.mem_insert]

/-- The bound survives the insertion of a present key or into a free slot. -/
theorem card_insert_le {entries : Finmap fun _ : κ => ν} (hb : entries.keys.card≤capacity)
    {key : κ} (value : ν) (h : key∈entries ∨ entries.keys.card<capacity) :
    (entries.insert key value).keys.card≤capacity := by
  rw [keys_insert]
  rcases h with hm|hlt
  · rwa [Finset.insert_eq_of_mem (Finmap.mem_keys.mpr hm)]
  · exact (Finset.card_insert_le _ _).trans hlt

/-- Store a value, refusing a new key when the map is full. -/
def put (map : HashMap capacity κ ν) (key : κ) (value : ν) :
    Except Errno (HashMap capacity κ ν) :=
  if h : key∈map.entries ∨ map.entries.keys.card<capacity then
    .ok ⟨map.entries.insert key value,card_insert_le map.bounded value h⟩
  else .error .e2big

/-- Remove a key, reporting an absent one. -/
def delete (map : HashMap capacity κ ν) (key : κ) : Except Errno (HashMap capacity κ ν) :=
  if key∈map.entries then
    .ok ⟨map.entries.erase key,by
      rw [Finmap.keys_erase]
      exact (Finset.card_le_card (Finset.erase_subset _ _)).trans map.bounded⟩
  else .error .enoent

/-- The empty map has no value at any key. -/
theorem lookup_empty (key : κ) : (empty capacity κ ν).lookup key=none :=
  Finmap.lookup_empty key

/-- The keys are those with a value. -/
theorem mem_keys_iff {map : HashMap capacity κ ν} {key : κ} :
    key∈map.entries.keys ↔ map.lookup key≠none := by
  rw [Finmap.mem_keys,Ne,lookup,Finmap.lookup_eq_none,not_not]

/-- After an accepted store the key has the value and all others are kept. -/
theorem lookup_put {map written : HashMap capacity κ ν} {key : κ} {value : ν}
    (h : map.put key value=.ok written) (other : κ) :
    written.lookup other=if other=key then some value else map.lookup other := by
  unfold put at h
  split at h
  · cases h
    by_cases he : other=key
    · subst he
      simp [lookup]
    · simp [lookup,he,Finmap.lookup_insert_of_ne]
  · contradiction

/-- A present key, or any key of a map with a free slot, is accepted. -/
theorem put_of_room {map : HashMap capacity κ ν} {key : κ} (value : ν)
    (h : map.lookup key≠none ∨ map.entries.keys.card<capacity) :
    ∃ written,map.put key value=.ok written := by
  have hroom : key∈map.entries ∨ map.entries.keys.card<capacity := by
    rwa [←mem_keys_iff,Finmap.mem_keys] at h
  exact ⟨_,dif_pos hroom⟩

/-- An accepted removal leaves no value at the key and keeps all others. -/
theorem lookup_delete {map written : HashMap capacity κ ν} {key : κ}
    (h : map.delete key=.ok written) (other : κ) :
    written.lookup other=if other=key then none else map.lookup other := by
  unfold delete at h
  split at h
  · cases h
    by_cases he : other=key
    · subst he
      simp [lookup]
    · simp [lookup,he,Finmap.lookup_erase_ne]
  · contradiction

/-- A refused removal means that the key had no value. -/
theorem lookup_of_delete_error {map : HashMap capacity κ ν} {key : κ} {error : Errno}
    (h : map.delete key=.error error) : map.lookup key=none := by
  unfold delete at h
  split at h
  · contradiction
  · rename_i hn
    exact Finmap.lookup_eq_none.mpr hn

/-- Maps are determined by their lookups. -/
theorem ext_lookup {first second : HashMap capacity κ ν}
    (h : ∀ key,first.lookup key=second.lookup key) : first=second :=
  HashMap.ext (Finmap.ext_lookup h)

/-- Storing what a key holds already changes nothing. -/
theorem eq_of_put {map written : HashMap capacity κ ν} {key : κ} {value : ν}
    (h : map.put key value=.ok written) (hl : map.lookup key=some value) : written=map := by
  refine ext_lookup fun other => ?_
  rw [lookup_put h]
  split
  · rename_i ho
    rw [ho,hl]
  · rfl

end HashMap

end ContainerLb.BoundedMaps
