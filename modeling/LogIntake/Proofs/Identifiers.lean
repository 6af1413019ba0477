import Mathlib.Data.List.Nodup
import LogIntake.Registry

/-!
# Identifiers

Which identifiers a registry has given out, and what each change of a registry means for a single
connection. Identifiers are numbers of 64 bits; as long as not all of them were given out, the next
one is new (`notMem_issued`).
-/
set_option autoImplicit false

namespace LogIntake.Registry

theorem count_append_self (list : List ConnectionId) (id : ConnectionId) :
    (list ++ [id]).count id = list.count id + 1 := by
  rw [List.count_append, List.count_singleton_self]

theorem count_append_of_ne {id other : ConnectionId} (different : id ≠ other)
    (list : List ConnectionId) : (list ++ [other]).count id = list.count id := by
  have apart : id ∉ [other] := by simpa using different
  rw [List.count_append, List.count_eq_zero.mpr apart, Nat.add_zero]

/-- The first `count` identifiers, in the order in which they are given out. -/
def issued (count : Nat) : List ConnectionId :=
  (List.range count).map fun earlier => UInt64.ofNat (earlier + 1)

theorem issued_succ (count : Nat) :
    issued (count + 1) = issued count ++ [UInt64.ofNat (count + 1)] := by
  rw [issued, List.range_succ, List.map_append]
  rfl

theorem length_issued (count : Nat) : (issued count).length = count := by simp [issued]

theorem ofNat_inj {one other : Nat} (first : one < UInt64.size) (second : other < UInt64.size)
    (same : UInt64.ofNat one = UInt64.ofNat other) : one = other := by
  have values := congrArg UInt64.toNat same
  rwa [UInt64.toNat_ofNat_of_lt' first, UInt64.toNat_ofNat_of_lt' second] at values

theorem mem_issued_of_lt {count earlier : Nat} (before : earlier < count) :
    UInt64.ofNat (earlier + 1) ∈ issued count :=
  List.mem_map.mpr ⟨earlier, List.mem_range.mpr before, rfl⟩

theorem mem_issued_mono {count later : Nat} (more : count ≤ later) {id : ConnectionId}
    (given : id ∈ issued count) : id ∈ issued later := by
  obtain ⟨earlier, before, rfl⟩ := List.mem_map.mp given
  exact mem_issued_of_lt (Nat.lt_of_lt_of_le (List.mem_range.mp before) more)

theorem notMem_issued {count : Nat} (few : count + 1 < UInt64.size) :
    UInt64.ofNat (count + 1) ∉ issued count := by
  intro given
  obtain ⟨earlier, before, same⟩ := List.mem_map.mp given
  have smaller := List.mem_range.mp before
  have equal := ofNat_inj (by omega) few same
  omega

/-! ## Changes of a registry -/

structure Distinct (registry : Registry) : Prop where
  live : registry.live.Nodup
  signalled : registry.signalled.Nodup

variable {registry : Registry}

theorem distinct_register (distinct : registry.Distinct) : registry.register.2.Distinct := by
  refine ⟨?_, distinct.signalled.erase _⟩
  simp only [register, List.nodup_append, List.mem_singleton]
  refine ⟨distinct.live.erase _, List.nodup_singleton _, ?_⟩
  rintro id member _ rfl rfl
  exact distinct.live.not_mem_erase member

theorem distinct_deregister (distinct : registry.Distinct) (id : ConnectionId) :
    (registry.deregister id).Distinct :=
  ⟨distinct.live.erase id, distinct.signalled⟩

theorem distinct_closeAll (distinct : registry.Distinct) : registry.closeAll.Distinct := by
  refine ⟨distinct.live, ?_⟩
  simp only [closeAll, List.nodup_append, List.mem_filter, decide_eq_true_eq]
  refine ⟨distinct.signalled, distinct.live.filter _, ?_⟩
  rintro id member other ⟨-, new⟩ rfl
  exact new member

theorem mem_live_register {id : ConnectionId} :
    id ∈ registry.register.2.live ↔ id ∈ registry.live ∨ id = registry.next := by
  simp only [register, List.mem_append, List.mem_singleton]
  by_cases new : id = registry.next
  · simp [new]
  · rw [List.mem_erase_of_ne new]

theorem count_register_self (new : registry.next ∉ registry.live) :
    registry.register.2.live.count registry.next = 1 := by
  rw [register, count_append_self, List.erase_of_not_mem new, List.count_eq_zero.mpr new]

theorem count_register_of_ne {id : ConnectionId} (old : id ≠ registry.next) :
    registry.register.2.live.count id = registry.live.count id := by
  rw [register, count_append_of_ne old, List.count_erase_of_ne old]

theorem mem_live_deregister (distinct : registry.Distinct) {id other : ConnectionId} :
    id ∈ (registry.deregister other).live ↔ id ≠ other ∧ id ∈ registry.live :=
  distinct.live.mem_erase_iff

theorem isSignalled_register_of_ne {id : ConnectionId} (old : id ≠ registry.next) :
    registry.register.2.isSignalled id = registry.isSignalled id := by
  simp only [isSignalled, register, List.mem_erase_of_ne old]

theorem isSignalled_register_self (distinct : registry.Distinct) :
    registry.register.2.isSignalled registry.next = false :=
  decide_eq_false distinct.signalled.not_mem_erase

theorem isSignalled_closeAll (id : ConnectionId) :
    registry.closeAll.isSignalled id =
      (registry.isSignalled id || decide (id ∈ registry.live)) := by
  simp only [isSignalled, closeAll, List.mem_append, List.mem_filter, decide_eq_true_eq]
  by_cases told : id ∈ registry.signalled
  · simp [told]
  · simp [told]

end LogIntake.Registry
