import Disassembly.Operand.Edit

/-!
# Tables of operands

The operands of a table are those in its first `count` slots. The slot behind them is
the next free one. It may be empty, or hold an operand that waits to be reused.
-/

namespace Disassembly

structure OperandRef where
  index : Nat
deriving DecidableEq, Repr

def OperandRef.display (r : OperandRef) : String := "#" ++ toString r.index

structure OperandTable where
  slots : List (Option Operand) := []
  count : Nat := 0
deriving DecidableEq, Repr, Inhabited

namespace OperandTable

def withSlots (n : Nat) : Except Error OperandTable :=
  if n < Storage.limit then .ok { slots := List.replicate n none }
  else .error (.allocation .operandSlots n)

def fillSlots (t : OperandTable) (capacity : Nat) : Except Error OperandTable :=
  if t.slots = [] then .ok t
  else
    match Operand.withCapacity capacity with
    | .ok blank => .ok { t with slots := t.slots.map fun _ => some blank }
    | .error e => .error e

def fillCopies (t : OperandTable) (originals : List Operand) : Except Error OperandTable :=
  match (originals.take t.slots.length).mapM Operand.dupe with
  | .ok copies =>
      .ok ⟨copies.map some ++ t.slots.drop copies.length, t.count + copies.length⟩
  | .error e => .error e

def toList (t : OperandTable) : List Operand := (t.slots.take t.count).filterMap id

def get? (t : OperandTable) (index : Nat) : Option Operand :=
  if index < t.count then t.slots[index]?.join else none

def waiting? (t : OperandTable) : Option Operand := t.slots[t.count]?.join

def place (t : OperandTable) (index : Nat) (o : Operand) : OperandTable :=
  { t with slots := t.slots.set index (some o) }

/-- The next free slot takes the operand and gives up the one that may wait there. When there is
none, the table grows by one slot, if there is storage for that. -/
def push? (t : OperandTable) (o : Operand) : Option OperandTable :=
  if t.count < t.slots.length then some { t.place t.count o with count := t.count + 1 }
  else if t.slots.length + 1 < Storage.limit then
    some ⟨t.slots ++ [some o], t.count + 1⟩
  else none

def commit? (t : OperandTable) : Option OperandTable :=
  match t.waiting? with
  | some _ => some { t with count := t.count + 1 }
  | none => none

def clear (t : OperandTable) : OperandTable := { t with count := 0 }

/-!
# Laws of the operations
-/

@[simp] theorem length_place (t : OperandTable) (index : Nat) (o : Operand) :
    (t.place index o).slots.length = t.slots.length := by
  simp [place]

@[simp] theorem count_place (t : OperandTable) (index : Nat) (o : Operand) :
    (t.place index o).count = t.count := rfl

@[simp] theorem toList_clear (t : OperandTable) : t.clear.toList = [] := by
  simp [clear, toList]

theorem count_push {t u : OperandTable} {o : Operand} (h : t.push? o = some u) :
    u.count = t.count + 1 := by
  unfold push? at h
  split at h
  · simp only [Option.some.injEq] at h
    simp [← h]
  · split at h
    · simp only [Option.some.injEq] at h
      simp [← h]
    · simp at h

theorem count_commit {t u : OperandTable} (h : t.commit? = some u) :
    u.count = t.count + 1 ∧ u.slots = t.slots := by
  unfold commit? at h
  split at h
  · simp only [Option.some.injEq] at h
    simp [← h]
  · simp at h

theorem mem_toList_of_get? {t : OperandTable} {index : Nat} {o : Operand}
    (h : t.get? index = some o) : o ∈ t.toList := by
  unfold get? at h
  split at h
  · rename_i counted
    rw [toList, List.mem_filterMap]
    refine ⟨some o, ?_, rfl⟩
    have slot : t.slots[index]? = some (some o) := Option.join_eq_some_iff.1 h
    have front : (t.slots.take t.count)[index]? = some (some o) := by
      rw [List.getElem?_take_of_lt counted, slot]
    exact List.mem_of_getElem? front
  · simp at h

end OperandTable
end Disassembly
