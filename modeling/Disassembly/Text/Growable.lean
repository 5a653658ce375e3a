import Disassembly.Outcome
import Disassembly.Text.Storage

/-!
# Growable text

A write that cannot be stored is refused as a whole.
-/

namespace Disassembly

structure GrowableText where
  content : String := ""
  capacity : Nat := 0
deriving DecidableEq, Repr, Inhabited

namespace GrowableText

def empty : GrowableText := {}

def copyOf (s : String) : Except StorageError GrowableText :=
  match Storage.grow? 0 0 s.utf8ByteSize with
  | some capacity => .ok ⟨s, capacity⟩
  | none => .error ⟨s.utf8ByteSize⟩

def size (t : GrowableText) : Nat := t.content.utf8ByteSize

def set (t : GrowableText) (s : String) : Outcome GrowableText StorageError Nat :=
  match copyOf s with
  | .ok copy => .done copy s.utf8ByteSize
  | .error e => .refused t e

def push (t : GrowableText) (s : String) : Outcome GrowableText StorageError Nat :=
  match Storage.grow? t.capacity t.size s.utf8ByteSize with
  | some capacity => .done ⟨t.content ++ s, capacity⟩ s.utf8ByteSize
  | none => .refused t ⟨s.utf8ByteSize⟩

def append (t : GrowableText) (separator token : String) :
    Outcome GrowableText StorageError Nat :=
  if token = "" then .done t 0
  else if t.content = "" then t.push token
  else t.push (separator ++ token)

def clear (t : GrowableText) : GrowableText := { t with content := "" }

theorem content_push {t : GrowableText} {s : String} {n : Nat}
    (h : (t.push s).result = .ok n) :
    (t.push s).state.content = t.content ++ s ∧ n = s.utf8ByteSize := by
  unfold push at h ⊢
  cases room : Storage.grow? t.capacity t.size s.utf8ByteSize with
  | none => simp [room] at h
  | some capacity => simp_all

theorem state_push_of_error {t : GrowableText} {s : String} {e : StorageError}
    (h : (t.push s).result = .error e) : (t.push s).state = t := by
  unfold push at h ⊢
  cases room : Storage.grow? t.capacity t.size s.utf8ByteSize with
  | none => simp
  | some capacity => simp [room] at h

end GrowableText
end Disassembly
