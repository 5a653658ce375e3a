import Disassembly.Text.Storage
import Disassembly.Utf8

/-!
# Bounded text

One byte of the capacity is kept for a terminator, and no write is refused.
-/

namespace Disassembly

structure BoundedText where
  content : String := ""
  capacity : Nat
deriving DecidableEq, Repr

namespace BoundedText

def withCapacity (capacity : Nat) : Except StorageError BoundedText :=
  match Storage.grow? 0 0 capacity with
  | some _ => .ok { capacity }
  | none => .error ⟨capacity⟩

def size (t : BoundedText) : Nat := t.content.utf8ByteSize

def limit (t : BoundedText) : Nat := t.capacity - 1

def remaining (t : BoundedText) : Nat := t.limit - t.size

def fit (t : BoundedText) (s : String) : String := Utf8.takeBytes t.remaining s

/-- On empty content there is no separator. Elsewhere the separator is stored only together with at
least one character of the token. -/
def entry (t : BoundedText) (separator token : String) : String :=
  if t.content = "" then t.fit token
  else
    let cut := Utf8.takeBytes (t.remaining - separator.utf8ByteSize) token
    if cut = "" then "" else separator ++ cut

def store (t : BoundedText) (s : String) : BoundedText :=
  { t with content := t.content ++ s }

def clear (t : BoundedText) : BoundedText := { t with content := "" }

def push (t : BoundedText) (s : String) : Nat × BoundedText :=
  ((t.fit s).utf8ByteSize, t.store (t.fit s))

def set (t : BoundedText) (s : String) : Nat × BoundedText := t.clear.push s

def append (t : BoundedText) (separator token : String) : Nat × BoundedText :=
  ((t.entry separator token).utf8ByteSize, t.store (t.entry separator token))

@[simp] theorem content_append (t : BoundedText) (separator token : String) :
    (t.append separator token).2.content = t.content ++ t.entry separator token := rfl

@[simp] theorem entry_empty (t : BoundedText) (separator : String) :
    t.entry separator "" = "" := by
  simp [entry, fit]

end BoundedText
end Disassembly
