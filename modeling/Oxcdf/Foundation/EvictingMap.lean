import Mathlib.Tactic.Common

/-! A concurrent map with a bounded capacity, seen by one of its users.

Entries may disappear between any two calls. The schedule of what is kept is
part of the map's value, so that a statement for every map is a statement for
every eviction policy, every capacity and every point of eviction.
-/

set_option autoImplicit false

namespace Foundation

structure EvictingMap (κ ν : Type) where
  held : κ → Option ν
  /-- Whether an entry survives until the numbered call. -/
  keep : Nat → κ → Bool
  calls : Nat

namespace EvictingMap

variable {κ ν : Type}

/-- What the next call finds. -/
def visible (map : EvictingMap κ ν) (key : κ) : Option ν :=
  if map.keep map.calls key then map.held key else none

/-- The map after the evictions that precede the next call. -/
def settle (map : EvictingMap κ ν) : EvictingMap κ ν :=
  { map with held := map.visible, calls := map.calls + 1 }

def get (map : EvictingMap κ ν) (key : κ) : Option ν × EvictingMap κ ν := (map.visible key, map.settle)

def containsKey (map : EvictingMap κ ν) (key : κ) : Bool × EvictingMap κ ν :=
  ((map.visible key).isSome, map.settle)

def insert [DecidableEq κ] (map : EvictingMap κ ν) (key : κ) (value : ν) : EvictingMap κ ν :=
  { map.settle with held := Function.update map.visible key (some value) }

/-- Every entry the map holds is one the relation allows. -/
def Sound (allowed : κ → ν → Prop) (map : EvictingMap κ ν) : Prop :=
  ∀ key value, map.held key = some value → allowed key value

variable {allowed : κ → ν → Prop} {map : EvictingMap κ ν}

theorem held_of_visible {key : κ} {value : ν} (found : map.visible key = some value) :
    map.held key = some value := by
  unfold visible at found
  split at found
  · exact found
  · cases found

theorem Sound.settle (sound : map.Sound allowed) : map.settle.Sound allowed :=
  fun key value found => sound key value (held_of_visible found)

theorem Sound.visible (sound : map.Sound allowed) {key : κ} {value : ν}
    (found : map.visible key = some value) : allowed key value :=
  sound key value (held_of_visible found)

theorem Sound.get_fst (sound : map.Sound allowed) {key : κ} {value : ν}
    (found : (map.get key).1 = some value) : allowed key value := sound.visible found

theorem Sound.get_snd (sound : map.Sound allowed) (key : κ) : (map.get key).2.Sound allowed :=
  sound.settle

theorem Sound.containsKey_snd (sound : map.Sound allowed) (key : κ) :
    (map.containsKey key).2.Sound allowed := sound.settle

theorem Sound.insert [DecidableEq κ] (sound : map.Sound allowed) {key : κ} {value : ν}
    (fresh : allowed key value) :
    (map.insert key value).Sound allowed := by
  intro other found same
  by_cases here : other = key
  · subst here
    simp only [EvictingMap.insert, Function.update_self, Option.some.injEq] at same
    exact same ▸ fresh
  · simp only [EvictingMap.insert, Function.update_of_ne here] at same
    exact sound.visible same

section Lasting

/-- An entry is there and survives until the call after the next so many. -/
def Lasts (map : EvictingMap κ ν) (key : κ) (steps : Nat) : Prop :=
  (map.held key).isSome ∧ ∀ i < steps + 1, map.keep (map.calls + i) key

/-- Some calls none of which stores anything under a key. -/
structure Passed (key : κ) (steps : Nat) (before after : EvictingMap κ ν) : Prop where
  keep : after.keep = before.keep
  calls : after.calls = before.calls + steps
  held : (after.held key).isSome ↔ (before.held key).isSome ∧ ∀ i < steps, before.keep (before.calls + i) key

variable {key : κ} {before middle after : EvictingMap κ ν}

theorem forall_lt_add {p : Nat → Prop} (m n : Nat) :
    (∀ i < m + n, p i) ↔ (∀ i < m, p i) ∧ ∀ i < n, p (m + i) := by
  constructor
  · exact fun all => ⟨fun i bound => all i (by omega), fun i bound => all (m + i) (by omega)⟩
  · rintro ⟨early, late⟩ i bound
    rcases Nat.lt_or_ge i m with low | high
    · exact early i low
    · have found := late (i - m) (by omega)
      rwa [Nat.add_sub_cancel' high] at found

theorem Passed.refl (map : EvictingMap κ ν) (key : κ) : Passed key 0 map map := ⟨rfl, rfl, by simp⟩

theorem Passed.trans {first second : Nat} (one : Passed key first before middle)
    (other : Passed key second middle after) : Passed key (first + second) before after := by
  refine ⟨other.keep.trans one.keep, by rw [other.calls, one.calls, Nat.add_assoc], ?_⟩
  rw [other.held, one.held, one.keep, one.calls, and_assoc, forall_lt_add]
  simp only [Nat.add_assoc]

theorem Passed.settle (map : EvictingMap κ ν) (key : κ) : Passed key 1 map map.settle := by
  refine ⟨rfl, rfl, ?_⟩
  simp only [EvictingMap.settle, EvictingMap.visible, Nat.lt_one_iff, forall_eq, Nat.add_zero]
  split
  · next kept => simp [kept]
  · next dropped => simp [dropped]

theorem Passed.insert [DecidableEq κ] (map : EvictingMap κ ν) {key other : κ} (apart : key ≠ other)
    (value : ν) : Passed key 1 map (map.insert other value) := by
  refine ⟨rfl, rfl, ?_⟩
  rw [← (Passed.settle map key).held]
  simp only [EvictingMap.insert, Function.update_of_ne apart, EvictingMap.settle]

/-- An entry lasts beyond some calls if it lasts through them and then on. -/
theorem Passed.lasts {steps later : Nat} (passed : Passed key steps before after) :
    after.Lasts key later ↔ before.Lasts key (steps + later) := by
  unfold Lasts
  rw [passed.held, passed.keep, passed.calls, and_assoc, Nat.add_assoc steps, forall_lt_add steps]
  simp only [Nat.add_assoc]

theorem visible_isSome : (map.visible key).isSome ↔ map.Lasts key 0 := by
  simp only [Lasts, EvictingMap.visible, Nat.zero_add, Nat.lt_one_iff, forall_eq, Nat.add_zero]
  split
  · next kept => simp [kept]
  · next dropped => simp [dropped]

end Lasting

end EvictingMap

end Foundation
