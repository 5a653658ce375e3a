import Disassembly.Text.Bounded
import Disassembly.Text.Growable

/-!
# Text with a storage strategy

The text fields of instructions and operands are growable or bounded. The strategy is
chosen when the text is made and never changes.
-/

namespace Disassembly

inductive Text where
  | growable (text : GrowableText)
  | bounded (text : BoundedText)
deriving DecidableEq, Repr

namespace Text

def empty : Text := .growable .empty

instance : Inhabited Text := ⟨empty⟩

def withCapacity (capacity : Nat) : Except StorageError Text :=
  (BoundedText.withCapacity capacity).map .bounded

def copyOf (s : String) : Except StorageError Text :=
  (GrowableText.copyOf s).map .growable

def content : Text → String
  | .growable t => t.content
  | .bounded t => t.content

def size (t : Text) : Nat := t.content.utf8ByteSize

def isBounded : Text → Bool
  | .growable _ => false
  | .bounded _ => true

def capacity? : Text → Option Nat
  | .growable _ => none
  | .bounded t => some t.capacity

def limit? : Text → Option Nat
  | .growable _ => none
  | .bounded t => some t.limit

/-- Bounded texts are the same only if their capacities agree. Spare room behind growable text does
not count. -/
def same : Text → Text → Bool
  | .growable s, .growable t => s.content == t.content
  | .bounded s, .bounded t => s == t
  | _, _ => false

def snapshot (t : Text) : Except StorageError Text := copyOf t.content

def ofBounded (write : Nat × BoundedText) : Outcome Text StorageError Nat :=
  .done (.bounded write.2) write.1

def set (t : Text) (s : String) : Outcome Text StorageError Nat :=
  match t with
  | .growable t => (t.set s).within .growable
  | .bounded t => ofBounded (t.set s)

def push (t : Text) (s : String) : Outcome Text StorageError Nat :=
  match t with
  | .growable t => (t.push s).within .growable
  | .bounded t => ofBounded (t.push s)

def append (t : Text) (separator token : String) : Outcome Text StorageError Nat :=
  match t with
  | .growable t => (t.append separator token).within .growable
  | .bounded t => ofBounded (t.append separator token)

def clear : Text → Text
  | .growable t => .growable t.clear
  | .bounded t => .bounded t.clear

@[simp] theorem content_clear (t : Text) : t.clear.content = "" := by
  cases t <;> rfl

@[simp] theorem capacity?_clear (t : Text) : t.clear.capacity? = t.capacity? := by
  cases t <;> rfl

@[simp] theorem capacity?_set (t : Text) (s : String) :
    (t.set s).state.capacity? = t.capacity? := by
  cases t <;> rfl

@[simp] theorem capacity?_append (t : Text) (separator token : String) :
    (t.append separator token).state.capacity? = t.capacity? := by
  cases t <;> rfl

end Text
end Disassembly
