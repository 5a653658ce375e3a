import Disassembly.Instruction.Basic
import Disassembly.Proofs.Bounded
import Disassembly.Proofs.TagNames

/-!
# Summaries behind other text

Summaries are written into a text that the reader supplies, behind what the text holds
already. Growable text takes a summary as a whole, and bounded text takes as many whole
characters as fit, so a name or a delimiter may be cut.
-/

namespace Disassembly

/-!
# Names of flags
-/

namespace FlagSet

variable {φ : Type} [NamedFlag φ]

/-- The text names the flags of the set in the order of declaration, with the delimiter between each
and the next. Bits that belong to no flag are not named. -/
def NamedBy (s : FlagSet φ) (delimiter text : String) : Prop :=
  ∃ flags : List φ, flags.Sublist NamedFlag.all ∧ (∀ flag, flag ∈ flags ↔ flag ∈ s) ∧
    text = delimiter.intercalate (flags.map NamedFlag.name)

theorem namedBy_join (hall : ∀ flag : φ, flag ∈ (NamedFlag.all : List φ)) (s : FlagSet φ)
    (delimiter : String) : s.NamedBy delimiter (s.join delimiter) := by
  refine ⟨s.flags, List.filter_sublist, ?_, rfl⟩
  intro flag
  rw [mem_flags_iff]
  exact and_iff_right (hall flag)

end FlagSet

theorem OperandFlag.mem_all (flag : OperandFlag) : flag ∈ (NamedFlag.all : List OperandFlag) := by
  cases flag <;> decide

theorem RegisterClass.mem_all (flag : RegisterClass) :
    flag ∈ (NamedFlag.all : List RegisterClass) := by
  cases flag <;> decide

/-!
# The tag inside a category
-/

namespace Category

inductive Detail : Category → String → Prop where
  | none {c : Category} : c.CarriesNone → Detail c ""
  | controlFlow {transfer : ControlTransfer} : transfer ≠ .none →
      Detail (.controlFlow transfer) (Tag.name transfer)
  | stack {effect : StackEffect} : effect ≠ .none → Detail (.stack effect) (Tag.name effect)
  | bit {operation : BitOperation} : operation ≠ .none →
      Detail (.bit operation) (Tag.name operation)
  | io {access : PortAccess} : access ≠ .none → Detail (.io access) (Tag.name access)

theorem detail_nameUnlessDefault {α : Type} [Tag α] [DecidableEq α] [Inhabited α]
    {carry : α → Category} (hsilent : ∀ tag, tag = default → (carry tag).CarriesNone)
    (hnamed : ∀ tag, tag ≠ default → Detail (carry tag) (Tag.name tag)) (delimiter : String)
    (tag : α) : Detail (carry tag) (delimiter.intercalate (nameUnlessDefault tag).toList) := by
  unfold nameUnlessDefault
  by_cases htag : tag = default
  · rw [if_pos htag]
    exact .none (hsilent tag htag)
  · rw [if_neg htag]
    simpa using hnamed tag htag

theorem detail_intercalate (c : Category) (delimiter : String) :
    c.Detail (delimiter.intercalate c.detailName?.toList) := by
  cases c with
  | controlFlow transfer =>
      exact detail_nameUnlessDefault (fun _ => id) (fun _ => .controlFlow) delimiter transfer
  | stack effect =>
      exact detail_nameUnlessDefault (fun _ => id) (fun _ => .stack) delimiter effect
  | bit operation =>
      exact detail_nameUnlessDefault (fun _ => id) (fun _ => .bit) delimiter operation
  | io access => exact detail_nameUnlessDefault (fun _ => id) (fun _ => .io) delimiter access
  | _ => exact .none trivial

end Category

/-!
# Behind the content of a text
-/

namespace Text

def Takes (t : Text) (s front : String) : Prop :=
  match t.limit? with
  | none => front = s
  | some limit => Utf8.LongestFit (limit - t.size) s front

/-- What a request has done that was to put `s` behind the content of a text. Only growable text can
refuse it, when no storage holds the content and `s` together. -/
structure Appended (resource : Resource) (s : String) (t : Text) (o : Outcome Text Error Nat) :
    Prop where
  stored : t.isBounded = true ∨ t.size + s.utf8ByteSize < Storage.limit →
    ∃ front, t.Takes s front ∧ o.result = .ok front.utf8ByteSize ∧
      o.state.content = t.content ++ front
  reported : ∀ n, o.result = .ok n → o.state.size = t.size + n
  capacity?_eq : o.state.capacity? = t.capacity?
  refused : ∀ e, o.result = .error e →
    t.isBounded = false ∧ Storage.limit ≤ t.size + s.utf8ByteSize ∧
      e = .allocation resource s.utf8ByteSize ∧ o.state = t

theorem appended_push_bounded (resource : Resource) (s : String) (t : BoundedText) :
    Appended resource s (.bounded t)
      (((Text.bounded t).push s).mapError (.ofStorage resource)) where
  stored := fun _ => ⟨t.fit s, Utf8.longestFit_takeBytes t.remaining s, rfl, rfl⟩
  reported := by
    intro n hn
    cases hn
    exact String.utf8ByteSize_append
  capacity?_eq := rfl
  refused := by
    intro e he
    cases he

theorem appended_push_growable (resource : Resource) (s : String) (t : GrowableText) :
    Appended resource s (.growable t)
      (((Text.growable t).push s).mapError (.ofStorage resource)) := by
  cases hroom : Storage.grow? t.capacity t.size s.utf8ByteSize with
  | some room =>
      have hpush : t.push s = .done ⟨t.content ++ s, room⟩ s.utf8ByteSize := by
        rw [GrowableText.push, hroom]
      rw [push, hpush]
      refine ⟨fun _ => ⟨s, rfl, rfl, rfl⟩, ?_, rfl, ?_⟩
      · intro n hn
        cases hn
        exact String.utf8ByteSize_append
      · intro e he
        cases he
  | none =>
      have hpush : t.push s = .refused t ⟨s.utf8ByteSize⟩ := by
        rw [GrowableText.push, hroom]
      have hlimit : Storage.limit ≤ t.size + s.utf8ByteSize :=
        (Storage.grow?_eq_none_iff.mp hroom).2
      rw [push, hpush]
      refine ⟨?_, ?_, rfl, ?_⟩
      · rintro (hbounded | hfits)
        · cases hbounded
        · exact absurd hlimit (Nat.not_le_of_lt hfits)
      · intro n hn
        cases hn
      · intro e he
        cases he
        exact ⟨rfl, hlimit, rfl, rfl⟩

theorem appended_push (resource : Resource) (s : String) (t : Text) :
    Appended resource s t ((t.push s).mapError (.ofStorage resource)) := by
  cases t with
  | growable t => exact appended_push_growable resource s t
  | bounded t => exact appended_push_bounded resource s t

end Text

/-!
# Summaries
-/

inductive Summary where
  | isa (i : Instruction)
  | category (i : Instruction)
  | detail (i : Instruction) (delimiter : String)
  | operandKind (o : Operand)
  | operandFlags (o : Operand) (delimiter : String)
  | registerClasses (r : Register) (delimiter : String)
  | shift (e : AddressExpression)

namespace Summary

def write : Summary → Text → Outcome Text Error Nat
  | .isa i, buffer => i.writeIsa buffer
  | .category i, buffer => i.writeCategory buffer
  | .detail i delimiter, buffer => i.writeDetail buffer delimiter
  | .operandKind o, buffer => o.writeKind buffer
  | .operandFlags o delimiter, buffer => o.writeFlags buffer delimiter
  | .registerClasses r delimiter, buffer => r.writeClasses buffer delimiter
  | .shift e, buffer => e.writeShift buffer

def resource : Summary → Resource
  | .isa _ => .isaName
  | .category _ => .categoryName
  | .detail _ _ => .categoryDetail
  | .operandKind _ => .operandKind
  | .operandFlags _ _ => .operandFlags
  | .registerClasses _ _ => .registerClasses
  | .shift _ => .shiftName

inductive Renders : Summary → String → Prop where
  | isa (i : Instruction) : Renders (.isa i) (Tag.name i.isa)
  | category (i : Instruction) : Renders (.category i) (Tag.name i.category)
  | detail {i : Instruction} {delimiter text : String} :
      i.category.Detail text → Renders (.detail i delimiter) text
  | operandKind (o : Operand) : Renders (.operandKind o) (Tag.name o.kind)
  | operandFlags {o : Operand} {delimiter text : String} :
      o.flags.NamedBy delimiter text → Renders (.operandFlags o delimiter) text
  | registerClasses {r : Register} {delimiter text : String} :
      r.classes.NamedBy delimiter text → Renders (.registerClasses r delimiter) text
  | shift (e : AddressExpression) : Renders (.shift e) (Tag.name e.shift)

theorem write_eq_push (summary : Summary) (buffer : Text) :
    ∃ text, summary.Renders text ∧
      summary.write buffer = (buffer.push text).mapError (.ofStorage summary.resource) := by
  cases summary with
  | isa i => exact ⟨_, .isa i, rfl⟩
  | category i => exact ⟨_, .category i, rfl⟩
  | detail i delimiter => exact ⟨_, .detail (i.category.detail_intercalate delimiter), rfl⟩
  | operandKind o => exact ⟨_, .operandKind o, rfl⟩
  | operandFlags o delimiter =>
      exact ⟨_, .operandFlags (FlagSet.namedBy_join OperandFlag.mem_all o.flags delimiter), rfl⟩
  | registerClasses r delimiter =>
      exact ⟨_, .registerClasses (FlagSet.namedBy_join RegisterClass.mem_all r.classes delimiter),
        rfl⟩
  | shift e => exact ⟨_, .shift e, rfl⟩

/-- A summary never replaces what the text holds. The text takes what it can of the summary behind
its content, and the number of bytes that it took is reported. -/
theorem appended_write (summary : Summary) (buffer : Text) :
    ∃ text, summary.Renders text ∧
      buffer.Appended summary.resource text (summary.write buffer) := by
  rcases summary.write_eq_push buffer with ⟨text, hrenders, hwrite⟩
  refine ⟨text, hrenders, ?_⟩
  rw [hwrite]
  exact Text.appended_push summary.resource text buffer

/-- The second character of the delimiter has two bytes, for which there is no room. -/
example :
    let o : Operand := { flags := ⟨0xC3⟩ }
    let buffer : Text := .bounded ⟨"eax: ", 12⟩
    ((operandFlags o "/é/").write buffer).state = .bounded ⟨"eax: read/", 12⟩ := by
  decide

end Summary
end Disassembly
