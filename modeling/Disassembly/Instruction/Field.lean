import Disassembly.Error
import Disassembly.Text.Basic

/-!
# Text fields of an instruction

An unset field becomes growable text with its first content.
-/

namespace Disassembly

abbrev TextField : Type := Option Text

namespace TextField

def withCapacity (resource : Resource) (capacity : Nat) : Except Error TextField :=
  match Text.withCapacity capacity with
  | .ok text => .ok (some text)
  | .error e => .error (.ofStorage resource e)

def content? (field : TextField) : Option String := field.map Text.content

def content (field : TextField) : String := (content? field).getD ""

def snapshot (resource : Resource) (field : TextField) : Except Error TextField :=
  match field with
  | none => .ok none
  | some text =>
      match text.snapshot with
      | .ok copy => .ok (some copy)
      | .error e => .error (.ofStorage resource e)

def create (s : String) : Outcome TextField StorageError Nat :=
  match Text.copyOf s with
  | .ok text => .done (some text) s.utf8ByteSize
  | .error e => .refused none e

def assign (field : TextField) (s : String) : Outcome TextField StorageError Nat :=
  match field with
  | some text => (text.set s).within some
  | none => create s

def append (field : TextField) (separator token : String) : Outcome TextField StorageError Nat :=
  match field with
  | some text => (text.append separator token).within some
  | none => if token = "" then .done none 0 else create token

def clear (field : TextField) : TextField := field.map Text.clear

@[simp] theorem content_clear (field : TextField) : content (clear field) = "" := by
  cases field <;> simp [content, content?, clear]

end TextField
end Disassembly
