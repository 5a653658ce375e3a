import Disassembly.Proofs.FlagText
import Disassembly.Stored.Values
import Mathlib.Data.List.Induction

/-!
# The elements of an address expression

The elements of an expression are read off its parts whenever they are asked for, so no
expression can have elements that its parts do not have. A part may be given several
times. The last one counts, and only the order within a slot matters.
-/

namespace Disassembly

namespace FlagSet

variable {φ : Type} [Flag φ]

theorem getLsbD_ofList_iff {flags : List φ} {index : Nat} :
    (ofList flags).bits.getLsbD index = true ↔
      index < Flag.width φ ∧ ∃ flag ∈ flags, Flag.position flag = index := by
  rw [getLsbD_ofList, List.any_eq_true]
  simp only [singleton, BitVec.getLsbD_twoPow, Bool.and_eq_true, decide_eq_true_eq]
  constructor
  · rintro ⟨flag, hflag, hfits, rfl⟩
    exact ⟨hfits, flag, hflag, rfl⟩
  · rintro ⟨hfits, flag, hflag, rfl⟩
    exact ⟨flag, hflag, hfits, rfl⟩

end FlagSet

namespace AddressElement

theorem position_lt (flag : AddressElement) : Flag.position flag < Flag.width AddressElement := by
  cases flag <;> decide

theorem eq_of_position_eq {flag other : AddressElement}
    (h : Flag.position flag = Flag.position other) : flag = other := by
  cases flag <;> cases other <;> first | rfl | exact absurd h (by decide)

end AddressElement

namespace AddressExpression

variable {e : AddressExpression}

/-!
# The mask
-/

theorem mem_elements_iff {flag : AddressElement} : flag ∈ e.elements ↔ flag ∈ e.elementList := by
  rw [FlagSet.mem_iff, FlagSet.contains, elements, FlagSet.getLsbD_ofList_iff]
  constructor
  · rintro ⟨_, other, hother, hposition⟩
    rwa [← AddressElement.eq_of_position_eq hposition]
  · intro hflag
    exact ⟨flag.position_lt, flag, hflag, rfl⟩

theorem mem_displacementElements_iff {displacement : Option Displacement} {flag : AddressElement} :
    flag ∈ displacementElements displacement ↔
      ∃ d, displacement = some d ∧ (flag = .displacement ∨ flag = d.form) := by
  cases displacement with
  | none => simp [displacementElements]
  | some d => simp [displacementElements]

theorem mem_elements_iff_parts {flag : AddressElement} :
    flag ∈ e.elements ↔
      (flag = .base ∧ e.base.isSome = true) ∨ (flag = .index ∧ e.index.isSome = true) ∨
        ∃ d, e.displacement = some d ∧ (flag = .displacement ∨ flag = d.form) := by
  rw [mem_elements_iff, elementList, List.mem_append, List.mem_append,
    mem_displacementElements_iff, or_assoc]
  cases e.base <;> cases e.index <;> simp

structure Described (e : AddressExpression) : Prop where
  base_iff : .base ∈ e.elements ↔ e.base.isSome = true
  index_iff : .index ∈ e.elements ↔ e.index.isSome = true
  displacement_iff : .displacement ∈ e.elements ↔ e.displacement.isSome = true
  unsigned_iff : .unsignedDisplacement ∈ e.elements ↔
    ∃ value, e.displacement = some (.unsigned value)
  signed_iff : .signedDisplacement ∈ e.elements ↔ ∃ value, e.displacement = some (.signed value)
  absolute_iff : .absoluteDisplacement ∈ e.elements ↔
    ∃ address, e.displacement = some (.absolute address)
  known : ∀ index, e.elements.bits.getLsbD index = true →
    ∃ flag : AddressElement, Flag.position flag = index ∧ flag ∈ e.elements

theorem exists_mem_of_getLsbD_elements {index : Nat}
    (h : e.elements.bits.getLsbD index = true) :
    ∃ flag : AddressElement, Flag.position flag = index ∧ flag ∈ e.elements := by
  rcases FlagSet.getLsbD_ofList_iff.mp h with ⟨_, flag, hflag, hposition⟩
  exact ⟨flag, hposition, mem_elements_iff.mpr hflag⟩

theorem described (e : AddressExpression) : Described e := by
  refine ⟨?_, ?_, ?_, ?_, ?_, ?_, fun _ => exists_mem_of_getLsbD_elements⟩
  all_goals
    rw [mem_elements_iff_parts]
    cases e.displacement with
    | none => simp
    | some d => cases d <;> simp [Displacement.form]

/-!
# What is read of parts
-/

/-- What a part can be given for. The index and its scale are given together. -/
inductive Slot where
  | base
  | index
  | shift
  | displacement
deriving DecidableEq, Repr

namespace Part

def slot : Part → Slot
  | .base _ => .base
  | .index _ _ => .index
  | .shift _ => .shift
  | .displacement _ => .displacement

def base? : Part → Option Register
  | .base register => some register
  | _ => none

def index? : Part → Option Register
  | .index register _ => some register
  | _ => none

def scale? : Part → Option Int8
  | .index _ scale => some scale
  | _ => none

def shift? : Part → Option IndexShift
  | .shift kind => some kind
  | _ => none

def displacement? : Part → Option Displacement
  | .displacement d => some d
  | _ => none

end Part

def lastOf {α : Type} (tell : Part → Option α) (parts : List Part) : Option α :=
  (parts.filterMap tell).getLast?

structure BuiltFrom (parts : List Part) (e : AddressExpression) : Prop where
  base_eq : e.base = lastOf Part.base? parts
  index_eq : e.index = lastOf Part.index? parts
  scale_eq : e.scale = (lastOf Part.scale? parts).getD 1
  shift_eq : e.shift = (lastOf Part.shift? parts).getD .logicalLeft
  displacement_eq : e.displacement = lastOf Part.displacement? parts

theorem lastOf_concat {α : Type} (tell : Part → Option α) (parts : List Part) (last : Part) :
    lastOf tell (parts ++ [last]) = (tell last).or (lastOf tell parts) := by
  rw [lastOf, lastOf, List.filterMap_append, List.getLast?_append]
  cases hlast : tell last <;> simp [hlast]

theorem BuiltFrom.add {parts : List Part} (h : BuiltFrom parts e) (last : Part) :
    BuiltFrom (parts ++ [last]) (e.add last) := by
  cases last with
  | base register =>
      constructor
      all_goals rw [lastOf_concat]
      exacts [rfl, h.index_eq, h.scale_eq, h.shift_eq, h.displacement_eq]
  | index register scale =>
      constructor
      all_goals rw [lastOf_concat]
      exacts [h.base_eq, rfl, rfl, h.shift_eq, h.displacement_eq]
  | shift kind =>
      constructor
      all_goals rw [lastOf_concat]
      exacts [h.base_eq, h.index_eq, h.scale_eq, rfl, h.displacement_eq]
  | displacement d =>
      constructor
      all_goals rw [lastOf_concat]
      exacts [h.base_eq, h.index_eq, h.scale_eq, h.shift_eq, rfl]

theorem builtFrom_ofParts (parts : List Part) : BuiltFrom parts (ofParts parts) := by
  induction parts using List.reverseRecOn with
  | nil => exact ⟨rfl, rfl, rfl, rfl, rfl⟩
  | append_singleton earlier last ih =>
      rw [ofParts, List.foldl_concat]
      exact ih.add last

/-!
# The order of parts
-/

def addAll (e : AddressExpression) (parts : List Part) : AddressExpression := parts.foldl add e

theorem add_comm_of_ne {p q : Part} (h : p.slot ≠ q.slot) : (e.add p).add q = (e.add q).add p := by
  cases p <;> cases q <;> first | rfl | exact absurd rfl h

theorem add_add_of_slot_eq {p q : Part} (h : p.slot = q.slot) : (e.add p).add q = e.add q := by
  cases p <;> cases q <;> first | rfl | cases h

theorem addAll_add_add_of_slot_eq {p q : Part} (h : p.slot = q.slot) (between : List Part) :
    ((e.add p).addAll between).add q = (e.addAll between).add q := by
  induction between generalizing e with
  | nil => exact add_add_of_slot_eq h
  | cons next rest ih =>
      show (((e.add p).add next).addAll rest).add q = ((e.add next).addAll rest).add q
      by_cases hslot : p.slot = next.slot
      · rw [add_add_of_slot_eq hslot]
      · rw [add_comm_of_ne hslot, ih]

theorem lastOf_filter_slot {α : Type} {tell : Part → Option α} {slot : Slot}
    (htell : ∀ p, p.slot ≠ slot → tell p = none) (parts : List Part) :
    lastOf tell (parts.filter fun p => p.slot = slot) = lastOf tell parts := by
  rw [lastOf, lastOf, List.filterMap_filter]
  congr 2
  funext p
  by_cases hslot : p.slot = slot
  · simp [hslot]
  · simp [hslot, htell p hslot]

def SameBySlot (parts others : List Part) : Prop :=
  ∀ slot, parts.filter (fun p => p.slot = slot) = others.filter fun p => p.slot = slot

theorem SameBySlot.lastOf_eq {parts others : List Part} (h : SameBySlot parts others) (slot : Slot)
    {α : Type} {tell : Part → Option α} (htell : ∀ p, p.slot ≠ slot → tell p = none) :
    lastOf tell parts = lastOf tell others := by
  rw [← lastOf_filter_slot htell parts, h slot, lastOf_filter_slot htell others]

theorem BuiltFrom.of_sameBySlot {parts others : List Part} (h : BuiltFrom parts e)
    (hsame : SameBySlot parts others) : BuiltFrom others e := by
  refine ⟨h.base_eq.trans (hsame.lastOf_eq .base ?_), h.index_eq.trans (hsame.lastOf_eq .index ?_),
    h.scale_eq.trans (congrArg (Option.getD · 1) (hsame.lastOf_eq .index ?_)),
    h.shift_eq.trans (congrArg (Option.getD · IndexShift.logicalLeft) (hsame.lastOf_eq .shift ?_)),
    h.displacement_eq.trans (hsame.lastOf_eq .displacement ?_)⟩
  all_goals
    intro p hslot
    cases p <;> first | rfl | exact absurd rfl hslot

theorem BuiltFrom.unique {parts : List Part} {other : AddressExpression} (h : BuiltFrom parts e)
    (hother : BuiltFrom parts other) : e = other := by
  cases e
  cases other
  rw [mk.injEq]
  exact ⟨h.shift_eq.trans hother.shift_eq.symm, h.scale_eq.trans hother.scale_eq.symm,
    h.base_eq.trans hother.base_eq.symm, h.index_eq.trans hother.index_eq.symm,
    h.displacement_eq.trans hother.displacement_eq.symm⟩

/-- The mask of every expression, in whatever way it was obtained, tells which parts it has. An
expression that was built has for each part the last one that was given, whatever was given for
other parts in between: only the order within a slot matters, and a part that is replaced leaves
no trace. -/
theorem elements_describe_parts :
    (∀ e : AddressExpression, Described e) ∧
    (∀ parts, BuiltFrom parts (ofParts parts)) ∧
    (∀ (e : AddressExpression) (p q : Part), p.slot ≠ q.slot →
      (e.add p).add q = (e.add q).add p) ∧
    (∀ parts others, SameBySlot parts others → ofParts parts = ofParts others) ∧
    ∀ (front between back : List Part) (p q : Part), p.slot = q.slot →
      ofParts (front ++ p :: between ++ q :: back) = ofParts (front ++ between ++ q :: back) := by
  refine ⟨described, builtFrom_ofParts, fun _ _ _ => add_comm_of_ne, ?_, ?_⟩
  · intro parts others hsame
    exact ((builtFrom_ofParts parts).of_sameBySlot hsame).unique (builtFrom_ofParts others)
  · intro front between back p q hslot
    have htrace := addAll_add_add_of_slot_eq (e := ofParts front) hslot between
    have hback := congrArg (fun e => e.addAll back) htrace
    simpa [ofParts, addAll] using hback

/-- A signed displacement and an index are replaced, and the parts for other slots come in another
order. What is read has a scale without an index, and a displacement of its own. -/
theorem elements_describe_parts_after_replacement :
    let ebp := Register.ofName "ebp" .empty 5 4
    let ecx := Register.ofName "ecx" .empty 1 4
    let parts : List Part := [.index ecx 4, .displacement (.signed (-8)), .base ebp, .index ebp 2,
      .displacement (.unsigned 0x401000)]
    let others : List Part := [.base ebp, .displacement (.signed (-8)), .index ecx 4,
      .displacement (.unsigned 0x401000), .index ebp 2]
    let text := "\x7b\"scale\":4,\"shift\":\"Lsl\",\"index\":null," ++
      "\"displacement\":\x7b\"Unsigned\":7\x7d\x7d"
    SameBySlot parts others ∧ ofParts parts = ofParts others ∧
      ofParts parts = ofParts [.index ecx 4, .base ebp, .index ebp 2,
        .displacement (.unsigned 0x401000)] ∧
      (ofParts parts).elements.toNat = 0b1111 ∧ Described (ofParts parts) ∧
      ∃ e : AddressExpression, Stored.read? text = some e ∧ e.elements.toNat = 0b1100 ∧
        Described e := by
  intro ebp ecx parts others text
  have hsame : SameBySlot parts others := by
    intro slot
    cases slot <;> decide
  have hreplaced := elements_describe_parts.2.2.2.2 [.index ecx 4] [.base ebp, .index ebp 2] []
    (.displacement (.signed (-8))) (.displacement (.unsigned 0x401000)) rfl
  have hread : Stored.read? text =
      some ({ scale := 4, displacement := some (.unsigned 7) } : AddressExpression) := by
    decide +kernel
  exact ⟨hsame, elements_describe_parts.2.2.2.1 parts others hsame, hreplaced, by decide,
    elements_describe_parts.1 _, _, hread, by decide, elements_describe_parts.1 _⟩

end AddressExpression
end Disassembly
