import OsFree.Machine.Run

/-!
# A heap of objects

The live objects of one type, by address.  An address is given out once, so a
pointer to a freed object never becomes valid again.
-/

namespace OsFree.Machine

/-- The address of an object, or `none` for a null pointer. -/
abbrev Pointer := Option Nat

/-- Read a member of an object; nothing has been stored in it yet if it is
`none`. -/
def stored {α : Type} : Option α → Run α
  | some value => .ok value
  | none => .error .uninitialised

/-- The live objects, and the address that is given out next. -/
structure Heap (α : Type) where
  objects : Nat → Option α
  fresh : Nat
  /-- Nothing lives at an address that has not been given out. -/
  unused : ∀ address, fresh ≤ address → objects address = none

namespace Heap

variable {α : Type}

/-- A heap without objects. -/
def empty : Heap α where
  objects := fun _ => none
  fresh := 0
  unused := fun _ _ => rfl

variable (heap : Heap α)

/-- Allocate an object at the next address. -/
def malloc (object : α) : Heap α where
  objects := fun address =>
    if address = heap.fresh then some object else heap.objects address
  fresh := heap.fresh + 1
  unused := by
    intro address outside
    rw [if_neg (by omega)]
    exact heap.unused address (by omega)

/-- Change the object at an address, if there is one. -/
def change (target : Nat) (f : α → α) : Heap α where
  objects := fun address =>
    if address = target then (heap.objects address).map f
    else heap.objects address
  fresh := heap.fresh
  unused := by
    intro address outside
    rw [heap.unused address outside]
    simp

/-- The heap without the object at an address. -/
def remove (target : Nat) : Heap α where
  objects := fun address =>
    if address = target then none else heap.objects address
  fresh := heap.fresh
  unused := by
    intro address outside
    rw [heap.unused address outside]
    simp

/-- Read the object at an address. -/
def read (address : Nat) : Run α :=
  match heap.objects address with
  | some object => .ok object
  | none => .error .nullPointer

/-- Write to the object at an address. -/
def modify (address : Nat) (f : α → α) : Run (Heap α) :=
  (fun _ => heap.change address f) <$> heap.read address

/-- Free the object at an address. -/
def free (address : Nat) : Run (Heap α) := (fun _ => heap.remove address) <$> heap.read address

variable {heap}

variable {address : Nat}

theorem read_of_live {object : α} (live : heap.objects address = some object) :
    heap.read address = .ok object := by
  unfold read
  rw [live]

theorem read_eq_ok_iff {object : α} :
    heap.read address = .ok object ↔ heap.objects address = some object := by
  unfold read
  cases heap.objects address with
  | none => simp
  | some object => simp

theorem modify_of_live {object : α} (live : heap.objects address = some object) (f : α → α) :
    heap.modify address f = .ok (heap.change address f) := by
  unfold modify
  rw [read_eq_ok_iff.mpr live, map_ok]

theorem free_of_live {object : α} (live : heap.objects address = some object) :
    heap.free address = .ok (heap.remove address) := by
  unfold free
  rw [read_eq_ok_iff.mpr live, map_ok]

theorem lt_fresh {object : α}
    (live : heap.objects address = some object) : address < heap.fresh := by
  apply Nat.lt_of_not_le
  intro outside
  rw [heap.unused address outside] at live
  cases live

@[simp] theorem malloc_objects_fresh (object : α) :
    (heap.malloc object).objects heap.fresh = some object := if_pos rfl

theorem malloc_objects_of_ne {address : Nat} (object : α) (different : address ≠ heap.fresh) :
    (heap.malloc object).objects address = heap.objects address :=
  if_neg different

theorem malloc_objects_of_live {old : α} (object : α) (live : heap.objects address = some old) :
    (heap.malloc object).objects address = some old := by
  rw [malloc_objects_of_ne object (Nat.ne_of_lt (lt_fresh live)), live]

theorem change_objects_self (target : Nat) (f : α → α) :
    (heap.change target f).objects target = (heap.objects target).map f :=
  if_pos rfl

theorem change_objects_of_ne {target : Nat} (f : α → α) (different : address ≠ target) :
    (heap.change target f).objects address = heap.objects address :=
  if_neg different

@[simp] theorem remove_objects_self (target : Nat) :
    (heap.remove target).objects target = none := if_pos rfl

theorem remove_objects_of_ne {target : Nat} (different : address ≠ target) :
    (heap.remove target).objects address = heap.objects address :=
  if_neg different

theorem change_objects_eq_none_iff {target address : Nat} (f : α → α) :
    (heap.change target f).objects address = none ↔
      heap.objects address = none := by
  by_cases here : address = target
  · rw [here, change_objects_self, Option.map_eq_none_iff]
  · rw [change_objects_of_ne f here]

theorem modify_eq_ok_iff {f : α → α} {heap' : Heap α} : heap.modify address f = .ok heap' ↔
      heap.objects address ≠ none ∧ heap' = heap.change address f := by
  unfold modify read
  cases heap.objects address with
  | none => simp
  | some object => simp [eq_comm]

end Heap

/-!
## Linked lists

The addresses of a list that objects of a heap form.  A node is known by the
address before it, its own and that of the next one, so that a list may be
linked one way or both ways.
-/

/-- The pointer leads through some addresses to another pointer. -/
def LinkedTo (Node : Pointer → Nat → Pointer → Prop) : Pointer → Pointer → List Nat → Pointer → Prop
  | _, head, [], last => head = last
  | before, head, address :: rest, last =>
    head = some address ∧ ∃ next, Node before address next ∧
      LinkedTo Node (some address) next rest last

/-- The pointer leads through some addresses to a null pointer. -/
abbrev Linked (Node : Pointer → Nat → Pointer → Prop) (before head : Pointer)
    (addresses : List Nat) : Prop :=
  LinkedTo Node before head addresses none

/-- The address before what follows some addresses. -/
def lastOr (before : Pointer) : List Nat → Pointer
  | [] => before
  | address :: rest => lastOr (some address) rest

variable {Node Node' : Pointer → Nat → Pointer → Prop}
  {before before' head last : Pointer} {addresses : List Nat}

theorem lastOr_append_singleton (before : Pointer) (addresses : List Nat)
    (address : Nat) : lastOr before (addresses ++ [address]) = some address := by
  induction addresses generalizing before with
  | nil => rfl
  | cons first rest ih => exact ih _

namespace LinkedTo

theorem append_iff {others : List Nat} : LinkedTo Node before head (addresses ++ others) last ↔
      ∃ middle, LinkedTo Node before head addresses middle ∧
        LinkedTo Node (lastOr before addresses) middle others last := by
  induction addresses generalizing before head with
  | nil =>
    constructor
    · intro linked
      exact ⟨head, rfl, linked⟩
    · rintro ⟨middle, rfl, linked⟩
      exact linked
  | cons address rest ih =>
    constructor
    · rintro ⟨here, next, node, linked⟩
      obtain ⟨middle, first, second⟩ := ih.mp linked
      exact ⟨middle, ⟨here, next, node, first⟩, second⟩
    · rintro ⟨middle, ⟨here, next, node, first⟩, second⟩
      exact ⟨here, next, node, ih.mpr ⟨middle, first, second⟩⟩

theorem mono (linked : LinkedTo Node before head addresses last)
    (kept : ∀ before address next, address ∈ addresses →
      Node before address next → Node' before address next) :
    LinkedTo Node' before head addresses last := by
  induction addresses generalizing before head with
  | nil => exact linked
  | cons address rest ih =>
    obtain ⟨here, next, node, linked⟩ := linked
    refine ⟨here, next, kept _ _ _ (List.mem_cons_self ..) node, ?_⟩
    apply ih linked
    intro before other next member node
    exact kept before other next (List.mem_cons_of_mem address member) node

theorem forall_mem {P : Nat → Prop} (linked : LinkedTo Node before head addresses last)
    (holds : ∀ before address next, Node before address next → P address) :
    ∀ address ∈ addresses, P address := by
  induction addresses generalizing before head with
  | nil => simp
  | cons address rest ih =>
    obtain ⟨-, next, node, linked⟩ := linked
    intro other member
    rcases List.mem_cons.mp member with rfl | member
    · exact holds _ _ _ node
    · exact ih linked other member

theorem splice {front middles rest : List Nat} {left node right : Nat}
    (linked : LinkedTo Node before head (front ++ left :: (middles ++ right :: rest)) last)
    (kept : ∀ before address next, address ∈ front ∨ address ∈ rest →
      Node before address next → Node' before address next)
    (atLeft : ∀ before next, Node before left next → Node' before left (some node))
    (new : Node' (some left) node (some right))
    (atRight : ∀ before next, Node before right next → Node' (some node) right next) :
    LinkedTo Node' before head (front ++ left :: node :: right :: rest) last := by
  obtain ⟨middle, first, here, next, leftNode, linked⟩ := append_iff.mp linked
  obtain ⟨middle', -, -, next', rightNode, linked⟩ := append_iff.mp linked
  have first' : LinkedTo Node' before head front middle := first.mono
    fun before address next member => kept before address next (.inl member)
  have rest' : LinkedTo Node' (some right) next' rest last := linked.mono
    fun before address next member => kept before address next (.inr member)
  exact append_iff.mpr ⟨middle, first', here, some node, atLeft _ _ leftNode, rfl,
    some right, new, rfl, next', atRight _ _ rightNode, rest'⟩

end LinkedTo

namespace Linked

theorem head_eq (linked : Linked Node before head addresses) :
    head = addresses.head? := by
  cases addresses with
  | nil => exact linked
  | cons address rest => exact linked.1

section

variable (functional : ∀ before before' address next next',
  Node before address next → Node before' address next' → next = next')

include functional

theorem unique {others : List Nat} (linked : Linked Node before head addresses)
    (linked' : Linked Node before' head others) : addresses = others := by
  induction addresses generalizing before before' head others with
  | nil =>
    have equal := head_eq linked'
    rw [show head = none from linked] at equal
    exact (List.head?_eq_none_iff.mp equal.symm).symm
  | cons address rest ih =>
    obtain ⟨rfl, next, node, linked⟩ := linked
    cases others with
    | nil => cases linked'
    | cons other others =>
      obtain ⟨here, next', node', linked'⟩ := linked'
      cases here
      cases functional _ _ _ _ _ node node'
      rw [ih linked linked']

theorem nodup (linked : Linked Node before head addresses) :
    addresses.Nodup := by
  induction addresses generalizing before head with
  | nil => exact List.nodup_nil
  | cons address rest ih =>
    have whole := linked
    obtain ⟨rfl, next, -, linked⟩ := linked
    refine List.nodup_cons.mpr ⟨?_, ih linked⟩
    intro member
    obtain ⟨front, back, parts⟩ := List.append_of_mem member
    have again := linked
    rw [parts] at again
    obtain ⟨middle, -, again⟩ := LinkedTo.append_iff.mp again
    rw [again.1] at again
    have equal := unique functional whole again
    have lengths := congrArg List.length parts
    rw [(List.cons.inj equal).2] at lengths
    simp only [List.length_append, List.length_cons] at lengths
    omega

end

end Linked

namespace Heap

variable {α : Type}

/-- The first object of a list that passes a test, as far as the fuel goes. -/
def find (heap : Heap α) (test : α → Run Bool) (link : α → Pointer) :
    Nat → Pointer → Option (Run Pointer)
  | 0, _ => none
  | _ + 1, none => some (.ok none)
  | fuel + 1, some address =>
    match heap.read address with
    | .error fault => some (.error fault)
    | .ok object =>
      match test object with
      | .error fault => some (.error fault)
      | .ok true => some (.ok (some address))
      | .ok false => find heap test link fuel (link object)

variable {heap : Heap α} {test : α → Run Bool} {link : α → Pointer}
  {passes : Nat → Bool} {fuel : Nat}

theorem live_of_find {start : Pointer} {address : Nat}
    (found : heap.find test link fuel start = some (.ok (some address))) :
    ∃ object, heap.objects address = some object := by
  induction fuel generalizing start with
  | zero => cases found
  | succ fuel ih =>
    cases start with
    | none => cases found
    | some first =>
      cases live : heap.objects first with
      | none =>
        rw [find, read, live] at found
        cases found
      | some object =>
        rw [find, read_of_live live] at found
        dsimp only at found
        split at found
        · cases found
        · cases found
          exact ⟨object, live⟩
        · exact ih found

theorem find_change {f : α → α} {target : Nat} {start : Pointer}
    (sameTest : ∀ object, test (f object) = test object)
    (sameLink : ∀ object, link (f object) = link object) :
    (heap.change target f).find test link fuel start =
      heap.find test link fuel start := by
  induction fuel generalizing start with
  | zero => rfl
  | succ fuel ih =>
    cases start with
    | none => rfl
    | some address =>
      cases live : heap.objects address with
      | none =>
        have dead := (@change_objects_eq_none_iff _ _ target _ f).mpr live
        simp only [find, read, live, dead]
      | some object =>
        by_cases here : address = target
        · have changed : (heap.change target f).objects address =
              some (f object) := by
            rw [here, change_objects_self, ← here, live, Option.map_some]
          simp only [find, read, live, changed, sameTest, sameLink, ih]
        · simp only [find, read, change_objects_of_ne f here, live, ih]

/-- The nodes of a list are live objects whose test returns. -/
def Tested (heap : Heap α) (test : α → Run Bool) (link : α → Pointer)
    (passes : Nat → Bool) (_before : Pointer) (address : Nat)
    (next : Pointer) : Prop :=
  ∃ object, heap.objects address = some object ∧ link object = next ∧
    test object = .ok (passes address)

theorem find_returned {result : Run Pointer}
    (linked : Linked (heap.Tested test link passes) before head addresses)
    (returned : heap.find test link fuel head = some result) :
    result = .ok (addresses.find? passes) := by
  induction addresses generalizing before head fuel with
  | nil =>
    rw [show head = none from linked] at returned
    cases fuel with
    | zero => cases returned
    | succ fuel =>
      cases returned
      rfl
  | cons address rest ih =>
    obtain ⟨rfl, next, ⟨object, live, rfl, tested⟩, linked⟩ := linked
    cases fuel with
    | zero => cases returned
    | succ fuel =>
      simp only [find, read_of_live live, tested] at returned
      rw [List.find?_cons]
      cases outcome : passes address with
      | true =>
        rw [outcome] at returned
        cases returned
        rfl
      | false =>
        rw [outcome] at returned
        exact ih linked returned

theorem find_of_linked (linked : Linked (heap.Tested test link passes) before head addresses)
    (enough : addresses.length < fuel) :
    heap.find test link fuel head = some (.ok (addresses.find? passes)) := by
  induction addresses generalizing before head fuel with
  | nil =>
    rw [show head = none from linked]
    cases fuel with
    | zero => simp at enough
    | succ fuel => rfl
  | cons address rest ih =>
    obtain ⟨rfl, next, ⟨object, live, rfl, tested⟩, linked⟩ := linked
    cases fuel with
    | zero => simp at enough
    | succ fuel =>
      simp only [find, read_of_live live, tested]
      rw [List.find?_cons]
      cases passes address with
      | true => rfl
      | false =>
        rw [List.length_cons] at enough
        exact ih linked (by omega)

end Heap

end OsFree.Machine
