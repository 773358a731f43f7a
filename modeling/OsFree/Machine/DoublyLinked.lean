import Mathlib.Data.List.Basic
import OsFree.Machine.LinkedList

/-!
# Lists that are linked both ways

The objects of a heap have a link to the next one of a list and a link to the
previous one.  An object is put behind the last one, or taken out and freed.
-/

namespace OsFree.Machine

/-- Where the objects of a list keep their links. -/
structure Links (α : Type) where
  next : α → Pointer
  prev : α → Pointer
  setNext : Pointer → α → α
  setPrev : Pointer → α → α
  next_setNext : ∀ pointer object, next (setNext pointer object) = pointer
  prev_setNext : ∀ pointer object, prev (setNext pointer object) = prev object
  next_setPrev : ∀ pointer object, next (setPrev pointer object) = next object
  prev_setPrev : ∀ pointer object, prev (setPrev pointer object) = pointer

namespace Links

variable {α : Type} (links : Links α) (heap : Heap α)

/-- Store the link of an object to the next one, if there is an object. -/
def storeNext (target next : Pointer) : Run (Heap α) :=
  match target with
  | some address => heap.modify address (links.setNext next)
  | none => .ok heap

/-- Store the link of an object to the previous one, if there is an object. -/
def storePrev (target prev : Pointer) : Run (Heap α) :=
  match target with
  | some address => heap.modify address (links.setPrev prev)
  | none => .ok heap

/-- Take an object out of its list and free it. -/
def unlink (address : Nat) : Run (Heap α) := do
  let object ← heap.read address
  let heap ← links.storeNext heap (links.prev object) (links.next object)
  let heap ← links.storePrev heap (links.next object) (links.prev object)
  heap.free address

/-- The last object of the list from an address on. -/
def last : Nat → Nat → Option (Run Nat)
  | 0, _ => none
  | fuel + 1, address =>
    match heap.read address with
    | .error fault => some (.error fault)
    | .ok object =>
      match links.next object with
      | none => some (.ok address)
      | some next => last fuel next

/-- Put an object behind the last one. -/
def linkBehind (last address : Nat) : Run (Heap α) := do
  let heap ← links.storeNext heap (some last) (some address)
  links.storePrev heap (some address) (some last)

/-- Put an object behind the last one of the list from an address on, unless it
is the last one itself. -/
def append (root address fuel : Nat) : Option (Run (Heap α)) :=
  andThen (links.last heap fuel root) fun last =>
    some (if last = address then .ok heap else links.linkBehind heap last address)

/-- An object with the links to the objects before and behind it. -/
def Node (before : Pointer) (address : Nat) (next : Pointer) : Prop :=
  ∃ object, heap.objects address = some object ∧ links.next object = next ∧
    links.prev object = before

/-- The list is linked both ways and has these addresses. -/
abbrev WellLinked (head : Pointer) (addresses : List Nat) : Prop :=
  Linked (links.Node heap) none head addresses

/-- The value does not depend on the links. -/
structure Ignored {β : Type} (f : α → β) : Prop where
  setNext : ∀ pointer object, f (links.setNext pointer object) = f object
  setPrev : ∀ pointer object, f (links.setPrev pointer object) = f object

/-- The objects at an address agree but for the links. -/
def Alike (heap' : Heap α) (address : Nat) : Prop := ∀ (β : Type) (f : α → β), links.Ignored f →
    (heap'.objects address).map f = (heap.objects address).map f

variable {links heap}

theorem node_functional (before before' : Pointer) (address : Nat)
    (next next' : Pointer) (node : links.Node heap before address next)
    (node' : links.Node heap before' address next') : next = next' := by
  obtain ⟨object, live, rfl, -⟩ := node
  obtain ⟨object', live', rfl, -⟩ := node'
  rw [live] at live'
  cases live'
  rfl

variable {before head : Pointer} {addresses front : List Nat} {address : Nat}

theorem nodup_of_linked (linked : Linked (links.Node heap) before head addresses) :
    addresses.Nodup :=
  Linked.nodup node_functional linked

theorem WellLinked.unique {others : List Nat} (linked : links.WellLinked heap head addresses)
    (linked' : links.WellLinked heap head others) : addresses = others :=
  Linked.unique node_functional linked linked'

theorem live_of_linked {last : Pointer}
    (linked : LinkedTo (links.Node heap) before head addresses last) :
    ∀ address ∈ addresses, ∃ object, heap.objects address = some object := by
  refine LinkedTo.forall_mem linked ?_
  intro before address next node
  exact node.imp fun object holds => holds.1

namespace Alike

variable {heap' heap'' : Heap α} {address : Nat}

theorem refl (address : Nat) : links.Alike heap heap address := fun _ _ _ => rfl

theorem trans (alike : links.Alike heap heap' address) (alike' : links.Alike heap' heap'' address) :
    links.Alike heap heap'' address := fun β f ignored =>
  (alike' β f ignored).trans (alike β f ignored)

theorem of_eq (equal : heap'.objects address = heap.objects address) :
    links.Alike heap heap' address := fun _ _ _ => by rw [equal]

theorem change {target : Nat} {f : α → α} (keeps : ∀ (β : Type) (g : α → β), links.Ignored g →
      ∀ object, g (f object) = g object) (address : Nat) :
    links.Alike heap (heap.change target f) address := by
  intro β g ignored
  by_cases here : address = target
  · rw [here, Heap.change_objects_self, Option.map_map]
    congr 1
    funext object
    exact keeps β g ignored object
  · rw [Heap.change_objects_of_ne f here]

end Alike

theorem WellLinked.change (linked : links.WellLinked heap head addresses) (target : Nat) {f : α → α}
    (keeps : ∀ object, links.next (f object) = links.next object ∧
      links.prev (f object) = links.prev object) :
    links.WellLinked (heap.change target f) head addresses := by
  apply LinkedTo.mono linked
  rintro before address next member ⟨object, live, rfl, rfl⟩
  by_cases here : address = target
  · refine ⟨f object, ?_, keeps object⟩
    rw [here, Heap.change_objects_self, ← here, live]
    rfl
  · exact ⟨object, (Heap.change_objects_of_ne f here).trans live, rfl, rfl⟩

theorem linkedTo_congr {heap' : Heap α} {last : Pointer}
    (linked : LinkedTo (links.Node heap) before head addresses last)
    (same : ∀ address ∈ addresses, heap'.objects address = heap.objects address) :
    LinkedTo (links.Node heap') before head addresses last := by
  apply LinkedTo.mono linked
  rintro before address next member ⟨object, live, holds⟩
  exact ⟨object, (same address member).trans live, holds⟩

theorem WellLinked.find_settles (linked : links.WellLinked heap head addresses) (test : α → Bool) :
    Settles (fun fuel => heap.find (fun object => .ok (test object)) links.next fuel head)
      (.ok (addresses.find? fun address => (heap.objects address).any test)) := by
  have tested : Linked (heap.Tested (fun object => .ok (test object)) links.next
      fun address => (heap.objects address).any test) none head addresses := by
    apply LinkedTo.mono linked
    rintro before address next member ⟨object, live, link, -⟩
    exact ⟨object, live, link, by simp only [live, Option.any_some]⟩
  exact ⟨⟨addresses.length + 1, fun _ enough => Heap.find_of_linked tested enough⟩,
    fun _ _ found => Heap.find_returned tested found⟩

theorem storePrev_linked
    (linked : Linked (links.Node heap) before head addresses) (prev : Pointer) :
    ∃ heap', links.storePrev heap head prev = .ok heap' ∧
      Linked (links.Node heap') prev head addresses ∧
      heap'.fresh = heap.fresh ∧
      (∀ address, address ∉ addresses → heap'.objects address = heap.objects address) ∧
      ∀ address, links.Alike heap heap' address := by
  cases addresses with
  | nil =>
    rw [show head = none from linked]
    exact ⟨heap, rfl, rfl, rfl, fun _ _ => rfl, Alike.refl⟩
  | cons first rest =>
    have different := nodup_of_linked linked
    obtain ⟨rfl, next, ⟨object, live, rfl, -⟩, linked⟩ := linked
    refine ⟨_, Heap.modify_of_live live _, ⟨rfl, links.next object, ?_, ?_⟩, rfl, ?_, ?_⟩
    · refine ⟨links.setPrev prev object, ?_, links.next_setPrev _ _, links.prev_setPrev _ _⟩
      rw [Heap.change_objects_self, live]
      rfl
    · apply linkedTo_congr linked
      intro address member
      apply Heap.change_objects_of_ne
      rintro rfl
      exact (List.nodup_cons.mp different).1 member
    · intro address outside
      apply Heap.change_objects_of_ne
      rintro rfl
      exact outside (List.mem_cons_self ..)
    · exact Alike.change fun _ _ ignored object => ignored.setPrev _ object

theorem storeNext_linked {old : Pointer} (linked : LinkedTo (links.Node heap) none head front old)
    (different : front.Nodup) (next : Pointer) :
    ∃ heap' head', links.storeNext heap (lastOr none front) next = .ok heap' ∧
      LinkedTo (links.Node heap') none head' front next ∧
      (front ≠ [] → head' = head) ∧ heap'.fresh = heap.fresh ∧
      (∀ address, address ∉ front → heap'.objects address = heap.objects address) ∧
      ∀ address, links.Alike heap heap' address := by
  cases List.eq_nil_or_concat' front with
  | inl none =>
    subst none
    exact ⟨heap, next, rfl, rfl, fun some => absurd rfl some, rfl, fun _ _ => rfl, Alike.refl⟩
  | inr parts =>
    obtain ⟨rest, last, rfl⟩ := parts
    obtain ⟨middle, first, rfl, next', ⟨object, live, rfl, back⟩, -⟩ :=
      LinkedTo.append_iff.mp linked
    have outside : last ∉ rest := by
      intro member
      exact (List.nodup_append.mp different).2.2 last member last (List.mem_singleton_self last) rfl
    rw [lastOr_append_singleton]
    refine ⟨_, head, Heap.modify_of_live live _,
      LinkedTo.append_iff.mpr ⟨some last, ?_, rfl, next, ?_, rfl⟩,
      fun _ => rfl, rfl, ?_, ?_⟩
    · apply linkedTo_congr first
      intro address member
      apply Heap.change_objects_of_ne
      rintro rfl
      exact outside member
    · refine ⟨links.setNext next object, ?_, links.next_setNext _ _,
        (links.prev_setNext _ _).trans back⟩
      rw [Heap.change_objects_self, live]
      rfl
    · intro address other
      apply Heap.change_objects_of_ne
      rintro rfl
      exact other (List.mem_append_right _ (List.mem_singleton_self address))
    · exact Alike.change fun _ _ ignored object => ignored.setNext _ object

theorem storeNext_objects {heap' : Heap α} {target next : Pointer}
    (isStored : links.storeNext heap target next = .ok heap') (address : Nat) :
    heap'.objects address = none ↔ heap.objects address = none := by
  cases target with
  | none =>
    cases isStored
    rfl
  | some target =>
    obtain ⟨-, rfl⟩ := Heap.modify_eq_ok_iff.mp isStored
    exact Heap.change_objects_eq_none_iff _

theorem storePrev_objects {heap' : Heap α} {target prev : Pointer}
    (isStored : links.storePrev heap target prev = .ok heap') (address : Nat) :
    heap'.objects address = none ↔ heap.objects address = none := by
  cases target with
  | none =>
    cases isStored
    rfl
  | some target =>
    obtain ⟨-, rfl⟩ := Heap.modify_eq_ok_iff.mp isStored
    exact Heap.change_objects_eq_none_iff _

theorem append_objects {heap' : Heap α} {root fuel : Nat}
    (appended : links.append heap root address fuel = some (.ok heap'))
    (other : Nat) :
    heap'.objects other = none ↔ heap.objects other = none := by
  obtain ⟨last, -, linked⟩ := andThen_eq_ok_iff.mp appended
  have linked := Option.some.inj linked
  split at linked
  · cases linked
    rfl
  · obtain ⟨heap₁, first, second⟩ := bind_eq_ok_iff.mp linked
    exact (storePrev_objects second other).trans (storeNext_objects first other)

theorem unlink_linked {back : List Nat}
    (linked : links.WellLinked heap head (front ++ address :: back)) :
    ∃ heap' head', links.unlink heap address = .ok heap' ∧
      links.WellLinked heap' head' (front ++ back) ∧
      (front ≠ [] → head' = head) ∧ heap'.fresh = heap.fresh ∧
      heap'.objects address = none ∧
      (∀ other, other ∉ front ++ address :: back → heap'.objects other = heap.objects other) ∧
      ∀ other, other ≠ address → links.Alike heap heap' other := by
  have different := nodup_of_linked linked
  obtain ⟨differentFront, differentBack, apart⟩ := List.nodup_append.mp different
  obtain ⟨outBack, -⟩ := List.nodup_cons.mp differentBack
  have outFront : address ∉ front := fun member =>
    apart address member address (List.mem_cons_self ..) rfl
  obtain ⟨middle, linkedFront, rfl, next, ⟨object, live, rfl, before⟩,
    linkedBack⟩ := LinkedTo.append_iff.mp linked
  -- first the object before this one is linked to the one behind it
  obtain ⟨heap₁, head', stored₁, linkedFront, sameHead, fresh₁, outside₁,
    alike₁⟩ := storeNext_linked linkedFront differentFront (links.next object)
  have linkedBack₁ : Linked (links.Node heap₁) (some address)
      (links.next object) back := by
    apply linkedTo_congr linkedBack
    intro other member
    apply outside₁
    intro inFront
    exact apart other inFront other (List.mem_cons_of_mem _ member) rfl
  -- then the object behind this one is linked back
  obtain ⟨heap₂, stored₂, linkedBack, fresh₂, outside₂, alike₂⟩ :=
    storePrev_linked linkedBack₁ (links.prev object)
  have live₂ : heap₂.objects address = some object := by
    rw [outside₂ address outBack, outside₁ address outFront, live]
  refine ⟨heap₂.remove address, head', ?_, ?_, sameHead,
    fresh₂.trans fresh₁, Heap.remove_objects_self address, ?_, ?_⟩
  · unfold unlink
    rw [Heap.read_of_live live, bind_ok, before, stored₁, bind_ok, ← before,
      stored₂, bind_ok, Heap.free_of_live live₂]
  · apply LinkedTo.append_iff.mpr
    refine ⟨links.next object, ?_, ?_⟩
    · apply linkedTo_congr linkedFront
      intro other member
      rw [Heap.remove_objects_of_ne, outside₂]
      · intro inBack
        exact apart other member other (List.mem_cons_of_mem _ inBack) rfl
      · rintro rfl
        exact outFront member
    · rw [← before]
      apply linkedTo_congr linkedBack
      intro other member
      apply Heap.remove_objects_of_ne
      rintro rfl
      exact outBack member
  · intro other outside
    rw [List.mem_append, List.mem_cons, not_or, not_or] at outside
    rw [Heap.remove_objects_of_ne outside.2.1, outside₂ _ outside.2.2, outside₁ _ outside.1]
  · intro other others
    exact ((alike₁ other).trans (alike₂ other)).trans
      (Alike.of_eq (Heap.remove_objects_of_ne others))

theorem last_settles (linked : Linked (links.Node heap) before head (front ++ [address]))
    {first : Nat} (starts : head = some first) :
    Settles (fun fuel => links.last heap fuel first) (.ok address) := by
  induction front generalizing before head first with
  | nil =>
    obtain ⟨rfl, next, ⟨object, live, rfl, -⟩, ends⟩ := linked
    cases starts
    refine Settles.succ rfl (fun fuel => ?_) (Settles.const _)
    rw [last, Heap.read_of_live live]
    simp only [show links.next object = none from ends]
  | cons other rest ih =>
    obtain ⟨rfl, next, ⟨object, live, rfl, -⟩, linked⟩ := linked
    cases starts
    have following : ∃ next, links.next object = some next := by
      cases rest with
      | nil => exact ⟨_, linked.1⟩
      | cons next rest => exact ⟨_, linked.1⟩
    obtain ⟨next, equal⟩ := following
    refine Settles.succ rfl (fun fuel => ?_) (ih linked equal)
    rw [last, Heap.read_of_live live]
    simp only [equal]

theorem linkBehind_linked {last : Nat} (linked : links.WellLinked heap head (front ++ [last]))
    {object : α} (live : heap.objects address = some object)
    (ends : links.next object = none) (outside : address ∉ front ++ [last]) :
    ∃ heap', links.linkBehind heap last address = .ok heap' ∧
      links.WellLinked heap' head (front ++ [last] ++ [address]) ∧
      heap'.fresh = heap.fresh ∧
      (∀ other, other ∉ front ++ [last] ++ [address] → heap'.objects other = heap.objects other) ∧
      ∀ other, links.Alike heap heap' other := by
  obtain ⟨heap₁, head', stored₁, linked₁, sameHead, fresh₁, outside₁, alike₁⟩ :=
    storeNext_linked linked (nodup_of_linked linked) (some address)
  rw [lastOr_append_singleton] at stored₁
  have nonempty : front ++ [last] ≠ [] := by simp
  cases sameHead nonempty
  have live₁ : heap₁.objects address = some object := (outside₁ address outside).trans live
  have single : Linked (links.Node heap₁) (links.prev object) (some address)
      [address] := ⟨rfl, none, ⟨object, live₁, ends, rfl⟩, rfl⟩
  obtain ⟨heap₂, stored₂, single, fresh₂, outside₂, alike₂⟩ := storePrev_linked single (some last)
  refine ⟨heap₂, ?_, ?_, fresh₂.trans fresh₁, ?_, fun other =>
    (alike₁ other).trans (alike₂ other)⟩
  · rw [linkBehind, stored₁, bind_ok, stored₂]
  · apply LinkedTo.append_iff.mpr
    refine ⟨some address, ?_, ?_⟩
    · apply linkedTo_congr linked₁
      intro other member
      apply outside₂
      rintro same
      cases List.mem_singleton.mp same
      exact outside member
    · rw [lastOr_append_singleton]
      exact single
  · intro other away
    rw [List.mem_append, not_or] at away
    rw [outside₂ _ away.2, outside₁ _ away.1]

theorem append_linked (linked : links.WellLinked heap head addresses) {object : α}
    (live : heap.objects address = some object)
    (first : links.prev object = none) (ends : links.next object = none)
    (outside : address ∉ addresses) :
    ∃ heap', Settles (fun fuel =>
        links.append heap (head.getD address) address fuel) (.ok heap') ∧
      links.WellLinked heap' (some (head.getD address)) (addresses ++ [address]) ∧
      heap'.fresh = heap.fresh ∧
      (∀ other, other ∉ addresses ++ [address] → heap'.objects other = heap.objects other) ∧
      ∀ other, links.Alike heap heap' other := by
  cases List.eq_nil_or_concat' addresses with
  | inl none =>
    subst none
    cases (show head = none from linked)
    have alone : links.WellLinked heap (some address) ([] ++ [address]) :=
      ⟨rfl, none, ⟨object, live, ends, first⟩, rfl⟩
    refine ⟨heap, ?_, alone, rfl, fun _ _ => rfl, Alike.refl⟩
    refine Settles.andThen (last_settles alone rfl) ?_
    rw [if_pos rfl]
    exact Settles.const _
  | inr parts =>
    obtain ⟨front, last, rfl⟩ := parts
    obtain ⟨heap', stored, linked', fresh, others, alike⟩ :=
      linkBehind_linked linked live ends outside
    obtain ⟨root, rfl⟩ : ∃ root, head = some root := by
      rw [linked.head_eq]
      cases front with
      | nil => exact ⟨_, rfl⟩
      | cons other rest => exact ⟨_, rfl⟩
    refine ⟨heap', ?_, linked', fresh, others, alike⟩
    refine Settles.andThen (last_settles linked rfl) ?_
    have different : last ≠ address := by
      rintro rfl
      exact outside (List.mem_append_right _ (List.mem_singleton_self _))
    rw [if_neg different, stored]
    exact Settles.const _

end Links

end OsFree.Machine
