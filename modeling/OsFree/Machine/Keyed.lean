import Mathlib.Data.List.Nodup
import Mathlib.Logic.Function.Basic

/-!
# Lists of records with a key

A record is found by its key as the first one of a list that has it.  Changing
the records with a key, adding a record at the end and taking records off the
list say what a later search finds.
-/

namespace OsFree.Machine
namespace Keyed

variable {α κ : Type} [DecidableEq κ] (key : α → κ) (list : List α)

/-- The first record with the key. -/
def lookup (k : κ) : Option α := list.find? fun record => key record = k

/-- The list with the records that have the key changed. -/
def change (k : κ) (f : α → α) : List α :=
  list.map fun record => if key record = k then f record else record

/-- The list without the records that have the key. -/
def remove (k : κ) : List α := list.filter fun record => key record ≠ k

variable {key list} {k k' : κ} {record : α} {f : α → α}

theorem mem_of_lookup (found : lookup key list k = some record) :
    record ∈ list :=
  List.mem_of_find?_eq_some found

theorem lookup_eq_none_iff :
    lookup key list k = none ↔ ∀ record ∈ list, key record ≠ k := by
  simp [lookup]

theorem exists_lookup_of_mem (member : record ∈ list) :
    ∃ first, lookup key list (key record) = some first := by
  rw [← Option.isSome_iff_exists, lookup, List.find?_isSome]
  exact ⟨record, member, by simp⟩

section

variable (keeps : ∀ record, key (f record) = key record)

include keeps

theorem lookup_change : lookup key (change key list k f) k' = (lookup key list k').map fun record =>
        if k' = k then f record else record := by
  have same : ∀ record,
      key (if key record = k then f record else record) = key record := by
    intro record
    split
    · exact keeps record
    · rfl
  rw [lookup, change, List.find?_map]
  simp only [Function.comp_def, same]
  apply Option.map_congr
  intro record found
  rw [show key record = k' by simpa using List.find?_some found]

theorem lookup_change_self :
    lookup key (change key list k f) k = (lookup key list k).map f := by
  rw [lookup_change keeps]
  simp

theorem lookup_change_of_ne (other : k' ≠ k) :
    lookup key (change key list k f) k' = lookup key list k' := by
  rw [lookup_change keeps]
  simp [other]

end

theorem lookup_concat : lookup key (list ++ [record]) k =
      (lookup key list k).or (if key record = k then some record else none) := by
  simp [lookup]

theorem lookup_remove_of_ne (other : k' ≠ k) :
    lookup key (remove key list k) k' = lookup key list k' := by
  rw [lookup, remove, List.find?_filter]
  congr 1
  funext record
  by_cases here : key record = k'
  · simp [here, other]
  · simp [here]

theorem lookup_remove_self : lookup key (remove key list k) k = none := by
  rw [lookup_eq_none_iff]
  intro record member
  simpa using (List.mem_filter.mp member).2

theorem remove_of_missing (missing : ∀ record ∈ list, key record ≠ k) :
    remove key list k = list :=
  List.filter_eq_self.mpr fun record member =>
    decide_eq_true (missing record member)

theorem remove_of_append {before behind : List α}
    (unique : ((before ++ record :: behind).map key).Nodup) :
    remove key (before ++ record :: behind) (key record) = before ++ behind := by
  rw [List.map_append, List.map_cons, List.nodup_middle, List.nodup_cons,
    ← List.map_append, List.mem_map, not_exists] at unique
  have others : ∀ other ∈ before ++ behind, key other ≠ key record :=
    fun other member same => unique.1 other ⟨member, same⟩
  rw [remove, List.filter_append, List.filter_cons_of_neg (by simp), ← List.filter_append]
  exact remove_of_missing others

theorem mem_of_mem_remove (member : record ∈ remove key list k) :
    record ∈ list :=
  List.mem_of_mem_filter member

theorem mem_change_iff : record ∈ change key list k f ↔
      ∃ before ∈ list, (if key before = k then f before else before) = record :=
  List.mem_map

section

variable {β : Type} (key : α → κ) (value : α → β) (others : κ → Option β)

/-- A table with entries for the records of a list, and others. -/
def overlay (list : List α) (k : κ) : Option β := ((lookup key list k).map value).or (others k)

variable {key value others}

theorem overlay_eq_none_iff : overlay key value others list k = none ↔
      (∀ record ∈ list, key record ≠ k) ∧ others k = none := by
  rw [overlay, Option.or_eq_none_iff, Option.map_eq_none_iff, lookup_eq_none_iff]

theorem overlay_concat (missing : ∀ other ∈ list, key other ≠ key record) :
    overlay key value others (list ++ [record]) =
      Function.update (overlay key value others list) (key record)
        (some (value record)) := by
  funext k
  rw [overlay, lookup_concat]
  by_cases same : k = key record
  · subst same
    rw [Function.update_self, lookup_eq_none_iff.mpr missing, Option.none_or, if_pos rfl]
    rfl
  · rw [Function.update_of_ne same, if_neg (Ne.symm same), Option.or_none, overlay]

theorem overlay_remove (free : others k = none) : overlay key value others (remove key list k) =
      Function.update (overlay key value others list) k none := by
  funext k'
  rw [overlay]
  by_cases same : k' = k
  · subst same
    rw [Function.update_self, lookup_remove_self, free]
    rfl
  · rw [Function.update_of_ne same, lookup_remove_of_ne same, overlay]

end

end Keyed
end OsFree.Machine
