import Disassembly.Error
import Disassembly.Flags
import Disassembly.Text.Basic

/-!
# Registers

A register that is made from a name keeps a byte of the name field for a terminator.
-/

namespace Disassembly

def Register.nameSize : Nat := 16

structure Register where
  name : String
  classes : FlagSet RegisterClass
  id : UInt8
  size : UInt8
  name_fits : name.utf8ByteSize ≤ Register.nameSize
deriving DecidableEq, Repr

namespace Register

def cutName (name : String) : String := Utf8.takeBytes (nameSize - 1) name

theorem size_cutName_le (name : String) : (cutName name).utf8ByteSize ≤ nameSize - 1 :=
  Utf8.size_takeBytes_le _ _

def ofName (name : String) (classes : FlagSet RegisterClass) (id size : UInt8) : Register where
  name := cutName name
  classes := classes
  id := id
  size := size
  name_fits := Nat.le_trans (size_cutName_le name) (Nat.sub_le _ _)

def writeClasses (r : Register) (buffer : Text) (delimiter : String) : Outcome Text Error Nat :=
  (buffer.push (r.classes.join delimiter)).mapError (.ofStorage .registerClasses)

end Register
end Disassembly
