import OsFree.Doscalls.InsertMessage
import OsFree.Machine.CharArray

/-!
# Editing names

`DosEditName` puts the characters of a name in the places of the wildcards of an edit
string.  The size that is left of the target goes down with every character of the edit
string, and in a star with every character of the name as well.
-/

namespace OsFree.Doscalls

open Machine

def ERROR_INVALID_NAME : UInt32 := 123

/-- '?', '*' and '.' -/
def questionMark : UInt8 := 0x3f
def wild : UInt8 := 0x2a
def dot : UInt8 := 0x2e

/-- The place `s` in the target, the size that is left, and the rest of the source. -/
structure Editing where
  s : Nat
  cbTarget : UInt32
  pszSource : List UInt8
  pszTarget : List UInt8

/-- The loop of a star, up to the next character of the edit string, and `none` at the
end of the source. -/
def starLoop (pszEdit : UInt8) : List UInt8 → Editing → Run Editing
  | [], editing => do
      let pszTarget ← storeByte editing.pszTarget editing.s 0
      .ok { editing with cbTarget := editing.cbTarget - 1, pszSource := [], pszTarget }
  | c :: pszSource, editing => do
      let pszTarget ← storeByte editing.pszTarget editing.s c
      let editing := { editing with cbTarget := editing.cbTarget - 1, pszSource, pszTarget }
      if c = pszEdit then .ok editing
      else starLoop pszEdit pszSource { editing with s := editing.s + 1 }

/-- A character of the edit string that has been stored at `s`, with the one behind it. -/
def editChar (c next : UInt8) (editing : Editing) : Run Editing :=
  if c = questionMark then
    match editing.pszSource with
    | [] => .ok editing
    | first :: pszSource =>
      if first = dot then .ok editing
      else do
        let pszTarget ← storeByte editing.pszTarget editing.s first
        .ok { editing with s := editing.s + 1, pszSource, pszTarget }
  else if c = wild then do
    let editing ← starLoop next editing.pszSource editing
    let pszTarget ← storeByte editing.pszTarget editing.s next
    .ok { editing with cbTarget := editing.cbTarget + 1, pszTarget }
  else if c = dot then .ok { editing with s := editing.s + 1 }
  else .ok { editing with s := editing.s + 1, pszSource := editing.pszSource.tail }

/-- The loop over the edit string. -/
def editLoop : List UInt8 → Editing → Run Editing
  | [], editing =>
    if editing.cbTarget - 1 = 0 then .ok { editing with cbTarget := 0 }
    else do
      let pszTarget ← storeByte editing.pszTarget editing.s 0
      .ok { editing with cbTarget := editing.cbTarget - 1, pszTarget }
  | c :: pszEdit, editing =>
    if editing.cbTarget - 1 = 0 then .ok { editing with cbTarget := 0 }
    else do
      let pszTarget ← storeByte editing.pszTarget editing.s c
      let editing ← editChar c (pszEdit.headD 0)
        { editing with cbTarget := editing.cbTarget - 1, pszTarget }
      editLoop pszEdit editing

/-- The target with the edited name. -/
def editName (pszEdit : List UInt8) (editing : Editing) : Run (List UInt8) := do
  let editing ← editLoop pszEdit editing
  storeByte editing.pszTarget editing.s 0

/-- `DosEditName`, with the bytes of the target that it leaves. -/
def dosEditName (metalevel : UInt32) (pszSource pszEdit pszTarget : Option (List UInt8))
    (cbTarget : UInt32) : Run (UInt32 × List UInt8) :=
  if metalevel ≠ 1 then .ok (ERROR_INVALID_PARAMETER, pszTarget.getD [])
  else if cbTarget = 0 then .ok (ERROR_INVALID_PARAMETER, pszTarget.getD [])
  else
    match pszTarget with
    | none => .ok (ERROR_INVALID_PARAMETER, [])
    | some pszTarget => do
        let pszTarget ← editName (pszEdit.getD [])
          { s := 0, cbTarget, pszSource := pszSource.getD [], pszTarget }
        let name ← readString pszTarget
        if questionMark ∉ name then .ok (ERROR_INVALID_NAME, pszTarget)
        else if wild ∉ name then .ok (ERROR_INVALID_NAME, pszTarget)
        else .ok (NO_ERROR, pszTarget)

/-- What a character of the edit string stands for, and how much of the target size it
takes. -/
structure NamePart where
  text : List UInt8
  taken : Nat

/-- The character that a question mark stands for, and the rest of the source; it stands
for none at the end of a name. -/
def atMark : List UInt8 → List UInt8 × List UInt8
  | [] => ([], [])
  | first :: rest => if first = dot then ([], first :: rest) else ([first], rest)

/-- The characters before the next one of the edit string. -/
def upTo (next : UInt8) (source : List UInt8) : List UInt8 := source.takeWhile (· != next)

/-- The pieces of a name that is made by an edit string from another name. -/
def nameParts : List UInt8 → List UInt8 → List NamePart
  | [], _ => []
  | c :: edit, source =>
    if c = questionMark then
      ⟨(atMark source).1, 1⟩ :: nameParts edit (atMark source).2
    else if c = wild then
      let part := upTo (edit.headD 0) source
      ⟨part, part.length + 1⟩ :: nameParts edit (source.drop (part.length + 1))
    else if c = dot then ⟨[c], 1⟩ :: nameParts edit source
    else ⟨[c], 1⟩ :: nameParts edit source.tail

/-- The pieces up to the one at which all but one byte of a target size is taken. -/
def kept : UInt32 → List NamePart → List UInt8
  | _, [] => []
  | cbTarget, piece :: rest =>
    if cbTarget = 1 then []
    else piece.text ++ kept (cbTarget - UInt32.ofNat piece.taken) rest

section

variable {written tail edit source : List UInt8} {size : Nat} {cbTarget : UInt32}

theorem storeByte_within (next c : UInt8) :
    storeByte (written ++ next :: tail) written.length c = .ok (written ++ c :: tail) := by
  rw [storeByte, writeBytes_append (by simp)]
  simp

theorem storeByte_outside (c : UInt8) :
    storeByte written written.length c = .error .writeOutside := by
  rw [storeByte, writeBytes, if_neg]
  simp

theorem sub_ofNat_succ (cbTarget : UInt32) (n : Nat) :
    cbTarget - UInt32.ofNat (n + 1) = cbTarget - 1 - UInt32.ofNat n := by
  rw [UInt32.ofNat_add]
  grind

theorem starLoop_of_room (next : UInt8) (room : (upTo next source).length < tail.length) :
    ∃ last rest, starLoop next source ⟨written.length, cbTarget, source, written ++ tail⟩ = .ok
          { s := (written ++ upTo next source).length
            cbTarget := cbTarget - UInt32.ofNat ((upTo next source).length + 1)
            pszSource := source.drop ((upTo next source).length + 1)
            pszTarget := written ++ upTo next source ++ last :: rest } ∧
      (upTo next source ++ last :: rest).length = tail.length := by
  induction source generalizing written tail cbTarget with
  | nil =>
    obtain ⟨first, tail, rfl⟩ := List.exists_cons_of_length_pos (Nat.zero_lt_of_lt room)
    refine ⟨0, tail, ?_, rfl⟩
    rw [starLoop, storeByte_within]
    simp [upTo]
  | cons c source ih =>
    obtain ⟨first, tail, rfl⟩ := List.exists_cons_of_length_pos (Nat.zero_lt_of_lt room)
    rw [starLoop, storeByte_within, bind_ok]
    by_cases same : c = next
    · have part : upTo next (c :: source) = [] := List.takeWhile_cons_of_neg (by simp [same])
      rw [part, if_pos same]
      exact ⟨c, tail, by simp, rfl⟩
    · have part : upTo next (c :: source) = c :: upTo next source :=
        List.takeWhile_cons_of_pos (by simp [same])
      rw [part, List.length_cons, List.length_cons] at room
      obtain ⟨last, rest, further, length_eq⟩ :=
        @ih (written ++ [c]) tail (cbTarget - 1) (Nat.lt_of_succ_lt_succ room)
      refine ⟨last, rest, ?_, by rw [part, List.cons_append, List.length_cons, length_eq]; rfl⟩
      rw [if_neg same, part]
      simp only [List.append_assoc, List.length_append, List.length_cons,
        List.length_nil, List.cons_append, List.nil_append, List.drop_succ_cons] at further ⊢
      rw [further, sub_ofNat_succ cbTarget]

theorem starLoop_of_full (next : UInt8) (full : tail.length ≤ (upTo next source).length) :
    starLoop next source ⟨written.length, cbTarget, source, written ++ tail⟩ =
      .error .writeOutside := by
  induction source generalizing written tail cbTarget with
  | nil =>
    rw [List.eq_nil_of_length_eq_zero (Nat.le_zero.mp full), List.append_nil, starLoop,
      storeByte_outside]
    rfl
  | cons c source ih =>
    cases tail with
    | nil =>
      rw [starLoop, List.append_nil, storeByte_outside]
      rfl
    | cons first tail =>
      have other : c ≠ next := by
        rintro rfl
        rw [upTo, List.takeWhile_cons_of_neg (by simp)] at full
        exact absurd full (Nat.not_succ_le_zero _)
      rw [starLoop, storeByte_within, bind_ok, if_neg other]
      rw [upTo, List.takeWhile_cons_of_pos (by simp [other]), List.length_cons,
        List.length_cons] at full
      have further := @ih (written ++ [c]) tail (cbTarget - 1) (Nat.le_of_succ_le_succ full)
      simpa using further

/-- The text is stored behind what has been written, with a zero behind it, if there is
room for both. -/
def Stores (written text tail : List UInt8) (result : Run (List UInt8)) : Prop :=
  if text.length < tail.length then ∃ rest, result = .ok (written ++ text ++ 0 :: rest)
  else result = .error .writeOutside

theorem Stores.append {piece text rest : List UInt8} {result : Run (List UInt8)}
    (stores : Stores (written ++ piece) text rest result)
    (sized : (piece ++ rest).length = tail.length) :
    Stores written (piece ++ text) tail result := by
  rw [List.length_append] at sized
  unfold Stores at stores ⊢
  rw [List.length_append]
  split at stores
  · rw [if_pos (by omega)]
    obtain ⟨rest, stored⟩ := stores
    exact ⟨rest, by rw [stored, List.append_assoc written]⟩
  · rwa [if_neg (by omega)]

theorem stores_close (written tail : List UInt8) :
    Stores written [] tail (storeByte (written ++ tail) written.length 0) := by
  unfold Stores
  cases tail with
  | nil =>
    rw [if_neg (by simp), List.append_nil]
    exact storeByte_outside 0
  | cons next tail =>
    rw [if_pos (by simp), List.append_nil]
    exact ⟨tail, storeByte_within next 0⟩

theorem stores_nil (text : List UInt8) :
    Stores written text [] (.error .writeOutside) := by
  rw [Stores, if_neg (by simp)]

theorem sub_one_eq_zero_iff : cbTarget - 1 = 0 ↔ cbTarget = 1 := by
  constructor <;> intro <;> grind

theorem editChar_stores {c first : UInt8}
    (others : ∀ {written tail source : List UInt8} {cbTarget : UInt32},
      Stores written (kept cbTarget (nameParts edit source)) tail
        (editName edit ⟨written.length, cbTarget, source, written ++ tail⟩))
    (room : cbTarget ≠ 1) :
    Stores written (kept cbTarget (nameParts (c :: edit) source)) (first :: tail)
      (editChar c (edit.headD 0) ⟨written.length, cbTarget - 1, source, written ++ c :: tail⟩ >>=
        editName edit) := by
  rw [editChar, nameParts]
  by_cases mark : c = questionMark
  · rw [if_pos mark, if_pos mark, kept, if_neg room]
    cases source with
    | nil => exact @others written (c :: tail) [] (cbTarget - 1)
    | cons next source =>
      rw [atMark]
      by_cases ended : next = dot
      · simp only [if_pos ended]
        exact @others written (c :: tail) (next :: source) (cbTarget - 1)
      · simp only [if_neg ended, storeByte_within, bind_ok]
        have stores := @others (written ++ [next]) tail source (cbTarget - 1)
        rw [List.append_assoc, List.length_append] at stores
        exact stores.append rfl
  rw [if_neg mark, if_neg mark]
  by_cases many : c = wild
  · rw [if_pos many, if_pos many, kept, if_neg room]
    by_cases fits : (upTo (edit.headD 0) source).length < (c :: tail).length
    · obtain ⟨last, rest, stored, sized⟩ := @starLoop_of_room written _ source
        (cbTarget - 1) (edit.headD 0) fits
      have size_eq : cbTarget - 1 - UInt32.ofNat ((upTo (edit.headD 0) source).length + 1) + 1 =
          cbTarget - UInt32.ofNat ((upTo (edit.headD 0) source).length + 1) := by
        grind
      rw [stored]
      simp only [bind_ok, storeByte_within, size_eq]
      exact Stores.append others (by simpa using sized)
    · rw [starLoop_of_full _ (Nat.le_of_not_lt fits)]
      rw [Stores, if_neg]
      · rfl
      · rw [List.length_append]
        exact fun less => fits (Nat.lt_of_le_of_lt (Nat.le_add_right ..) less)
  rw [if_neg many, if_neg many]
  have stores : ∀ source, Stores written ([c] ++ kept (cbTarget - 1) (nameParts edit source))
      (first :: tail)
      (editName edit ⟨written.length + 1, cbTarget - 1, source, written ++ c :: tail⟩) := by
    intro source
    have stores := @others (written ++ [c]) tail source (cbTarget - 1)
    rw [List.append_assoc, List.length_append] at stores
    exact stores.append rfl
  by_cases point : c = dot
  · rw [if_pos point, if_pos point, kept, if_neg room]
    exact stores source
  · rw [if_neg point, if_neg point, kept, if_neg room]
    exact stores source.tail

theorem editName_stores : Stores written (kept cbTarget (nameParts edit source)) tail
      (editName edit ⟨written.length, cbTarget, source, written ++ tail⟩) := by
  induction edit generalizing written tail source cbTarget with
  | nil =>
    rw [nameParts, kept, editName, editLoop]
    split
    · exact stores_close written tail
    · cases tail with
      | nil =>
        rw [List.append_nil, storeByte_outside]
        exact stores_nil []
      | cons first tail =>
        rw [storeByte_within]
        exact stores_close written (0 :: tail)
  | cons c edit ih =>
    rw [editName, editLoop]
    by_cases last : cbTarget = 1
    · rw [if_pos (sub_one_eq_zero_iff.mpr last), last]
      have none : kept 1 (nameParts (c :: edit) source) = [] := by
        cases nameParts (c :: edit) source <;> rfl
      rw [none]
      exact stores_close written tail
    · rw [if_neg (mt sub_one_eq_zero_iff.mp last)]
      cases tail with
      | nil =>
        rw [List.append_nil, storeByte_outside]
        exact stores_nil _
      | cons first tail =>
        rw [storeByte_within]
        have stores := @editChar_stores written tail edit source cbTarget c first ih last
        simp only [bind_ok, bind_assoc]
        exact stores

theorem mem_kept_cons {x : UInt8} {piece : NamePart} {rest : List NamePart}
    (member : x ∈ kept cbTarget (piece :: rest)) :
    x ∈ piece.text ∨ ∃ cbTarget', x ∈ kept cbTarget' rest := by
  rw [kept] at member
  split at member
  · exact (List.not_mem_nil member).elim
  · exact (List.mem_append.mp member).imp_right fun later => ⟨_, later⟩

theorem mem_atMark {x : UInt8} :
    x ∈ (atMark source).1 ∨ x ∈ (atMark source).2 → x ∈ source := by
  cases source with
  | nil => simp [atMark]
  | cons first rest =>
    rw [atMark]
    split <;> simp

theorem mem_kept {x : UInt8} (member : x ∈ kept cbTarget (nameParts edit source)) :
    x ∈ source ∨ x ∈ edit := by
  induction edit generalizing source cbTarget with
  | nil => exact (List.not_mem_nil member).elim
  | cons c edit ih =>
    have later : ∀ {rest : List UInt8}, (∀ x ∈ rest, x ∈ source) →
        (∃ cbTarget', x ∈ kept cbTarget' (nameParts edit rest)) → x ∈ source ∨ x ∈ c :: edit := by
      rintro rest within ⟨_, later⟩
      exact (ih later).imp (within x) (List.mem_cons_of_mem c)
    rw [nameParts] at member
    split at member
    · obtain here | rest := mem_kept_cons member
      · exact .inl (mem_atMark (.inl here))
      · exact later (fun _ rest => mem_atMark (.inr rest)) rest
    split at member
    · obtain here | rest := mem_kept_cons member
      · exact .inl ((List.takeWhile_sublist _).subset here)
      · exact later (fun _ => List.mem_of_mem_drop) rest
    split at member
    · obtain here | rest := mem_kept_cons member
      · exact .inr (List.mem_singleton.mp here ▸ List.mem_cons_self)
      · exact later (fun _ => id) rest
    · obtain here | rest := mem_kept_cons member
      · exact .inr (List.mem_singleton.mp here ▸ List.mem_cons_self)
      · exact later (fun _ => List.mem_of_mem_tail) rest

end

/-- The name that an edit string makes from another name. -/
def edited (edit source : List UInt8) : List UInt8 :=
  ((nameParts edit source).map NamePart.text).flatten

/-- The target has the edited name without wildcards if there is no error, and there is an
error if it does not fit. -/
def EditsName (source edit target : List UInt8) (cbTarget : UInt32) : Prop := ∃ rc after,
    dosEditName 1 (some source) (some edit) (some target) cbTarget = .ok (rc, after) ∧
    (rc = NO_ERROR → readString after = .ok (edited edit source) ∧
        questionMark ∉ edited edit source ∧ wild ∉ edited edit source) ∧
    (target.length ≤ (edited edit source).length → rc ≠ NO_ERROR)

/-- The pieces that are stored fit, and do not have both wildcards. -/
structure EditFits (source edit target : List UInt8) (cbTarget : UInt32) : Prop where
  room : (kept cbTarget (nameParts edit source)).length < target.length
  plain : ¬ (questionMark ∈ kept cbTarget (nameParts edit source) ∧
    wild ∈ kept cbTarget (nameParts edit source))

theorem dosEditName_eq {source edit target : List UInt8} {cbTarget : UInt32}
    (positive : cbTarget ≠ 0) :
    dosEditName 1 (some source) (some edit) (some target) cbTarget =
      (editName edit ⟨0, cbTarget, source, target⟩ >>= fun after =>
        readString after >>= fun name =>
          .ok (if questionMark ∈ name ∧ wild ∈ name then NO_ERROR else ERROR_INVALID_NAME,
            after)) := by
  rw [dosEditName, if_neg (not_not_intro rfl), if_neg positive]
  congr 1
  funext after
  congr 1
  funext name
  by_cases mark : questionMark ∈ name <;> by_cases many : wild ∈ name <;> simp [mark, many]

end OsFree.Doscalls
