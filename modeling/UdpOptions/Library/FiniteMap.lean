import Mathlib.Data.List.AList

/-! A finite map as an association list with distinct keys. Only `retain` and the
entry count are added here; lookup, insertion, and removal are the library's. -/

namespace UdpOptions.Library

abbrev FiniteMap (κ ν : Type) := AList (fun _ : κ => ν)

namespace FiniteMap
variable {κ ν : Type}

def size (map : FiniteMap κ ν) : Nat := map.entries.length

/-- Keep exactly the entries whose value satisfies the test. -/
def retain (keep : ν → Bool) (map : FiniteMap κ ν) : FiniteMap κ ν :=
  ⟨map.entries.filter fun entry => keep entry.2, map.nodupKeys.sublist List.filter_sublist⟩

theorem size_retain_le (keep : ν → Bool) (map : FiniteMap κ ν) : size (retain keep map) ≤ size map :=
  List.length_filter_le _ _

theorem size_eq_keys (map : FiniteMap κ ν) : size map = map.keys.length := by
  simp [size, AList.keys, List.keys]

variable [DecidableEq κ]

theorem lookup_retain (keep : ν → Bool) (map : FiniteMap κ ν) (key : κ) :
    (retain keep map).lookup key = (map.lookup key).filter keep := by
  apply Option.ext
  intro value
  rw [← Option.mem_def, AList.mem_lookup_iff]
  simp only [retain, List.mem_filter, Option.filter_eq_some_iff]
  rw [← Option.mem_def, AList.mem_lookup_iff]

theorem size_erase_le (key : κ) (map : FiniteMap κ ν) : size (map.erase key) ≤ size map := by
  rw [size_eq_keys, size_eq_keys, AList.keys_erase]
  exact List.length_erase_le

theorem size_insert_absent {key : κ} {map : FiniteMap κ ν} (absent : map.lookup key = none) (value : ν) :
    size (map.insert key value) = size map + 1 := by
  rw [size_eq_keys, size_eq_keys, AList.keys_insert, List.erase_of_not_mem, List.length_cons]
  rw [← AList.mem_keys]
  exact AList.lookup_eq_none.mp absent

theorem size_insert_present {key : κ} {map : FiniteMap κ ν} {old : ν} (present : map.lookup key = some old)
    (value : ν) : size (map.insert key value) = size map := by
  have member : key ∈ map.keys := AList.mem_keys.mp (AList.lookup_isSome.mp (by simp [present]))
  rw [size_eq_keys, size_eq_keys, AList.keys_insert, List.length_cons, List.length_erase_of_mem member]
  have positive := List.length_pos_of_mem member
  omega

end FiniteMap

end UdpOptions.Library
