import Disassembly.Instruction.Basic

/-!
# The line of an instruction

The line names the address, and behind it what there is of a description.
-/

namespace Disassembly
namespace Instruction

def joinTexts (separator : String) (texts : List String) : String :=
  separator.intercalate (texts.filter fun s => s != "")

def displayAddress (i : Instruction) : String :=
  "0x" ++ String.ofList (Numeral.toHex i.address.toNat)

def displayOperands (i : Instruction) : String :=
  joinTexts ", " (i.operands.toList.map fun o => o.text.content)

def displayParts (i : Instruction) : String :=
  joinTexts " " [i.prefixes.content, i.mnemonic.content, i.displayOperands]

def description? (i : Instruction) : Option String :=
  if i.mnemonic.content != "" then some i.displayParts
  else if i.text.content != "" then some (Unicode.trim i.text.content)
  else none

def display (i : Instruction) : String :=
  i.displayAddress ++ ":" ++
    match i.description? with
    | some description => " " ++ description
    | none => ""

end Instruction
end Disassembly
