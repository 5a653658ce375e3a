/-!
# Immediate values
-/

namespace Disassembly

structure Immediate where
  word : UInt64
deriving DecidableEq, Repr, Inhabited

namespace Immediate

def ofUnsigned (value : UInt64) : Immediate := ⟨value⟩

def ofSigned (value : Int64) : Immediate := ⟨value.toUInt64⟩

def ofAddress (address : UInt64) : Immediate := ⟨address⟩

def unsigned (i : Immediate) : UInt64 := i.word

def signed (i : Immediate) : Int64 := i.word.toInt64

def address (i : Immediate) : UInt64 := i.word

end Immediate
end Disassembly
