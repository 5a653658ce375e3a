import Disassembly.Proofs.Construction

/-!
# When a fixed instruction can be made

An instruction with a layout reserves its slots, its four texts, and then the text of
the operand in each slot. A reservation that asks for no more than an earlier one is
granted whenever that one is, so the sizes are decided by four reservations, or by three
if there are no operands.
-/

namespace Disassembly

structure Reservation where
  resource : Resource
  size : Nat
deriving DecidableEq, Repr

namespace Reservation

def isRefused (r : Reservation) : Bool := Storage.limit ≤ r.size

def error (r : Reservation) : Error := .allocation r.resource r.size

def request (r : Reservation) : Except Error Unit :=
  if r.isRefused then .error r.error else .ok ()

def requestAll : List Reservation → Except Error Unit
  | [] => .ok ()
  | first :: rest => do
      first.request
      requestAll rest

variable {r s : Reservation}

theorem isRefused_eq_false_iff : r.isRefused = false ↔ r.size < Storage.limit := by
  simp [isRefused]

theorem requestAll_eq (requests : List Reservation) :
    requestAll requests =
      match requests.find? isRefused with
      | some r => .error r.error
      | none => .ok () := by
  induction requests with
  | nil => rfl
  | cons first rest ih =>
      rw [requestAll, request]
      cases hrefused : first.isRefused with
      | true =>
          rw [List.find?_cons_of_pos hrefused]
          rfl
      | false =>
          rw [List.find?_cons_of_neg (by simp [hrefused]), ← ih]
          rfl

/-!
# Covered requests
-/

theorem isRefused_of_le (hle : r.size ≤ s.size) (h : s.isRefused = false) :
    r.isRefused = false := by
  rw [isRefused_eq_false_iff] at h ⊢
  exact Nat.lt_of_le_of_lt hle h

theorem find?_of_covered {front : List Reservation} (hmem : s ∈ front) (hle : r.size ≤ s.size)
    (back : List Reservation) :
    (front ++ r :: back).find? isRefused = (front ++ back).find? isRefused := by
  rw [List.find?_append, List.find?_append]
  cases hfront : front.find? isRefused with
  | some found => rfl
  | none =>
      have hearlier : s.isRefused = false := by
        simpa using List.find?_eq_none.mp hfront s hmem
      rw [List.find?_cons_of_neg (by simp [isRefused_of_le hle hearlier])]

theorem find?_replicate_succ (front : List Reservation) (r : Reservation) (n : Nat) :
    (front ++ List.replicate (n + 1) r).find? isRefused = (front ++ [r]).find? isRefused := by
  induction n with
  | zero => rfl
  | succ n ih =>
      rw [← ih, List.replicate_succ, List.replicate_succ, List.append_cons front r (r :: _),
        find?_of_covered (List.mem_append_right front List.mem_cons_self) (Nat.le_refl _),
        ← List.append_cons]

end Reservation

open Reservation

/-!
# Parts of an instruction
-/

theorem Text.withCapacity_eq (capacity : Nat) :
    Text.withCapacity capacity =
      if capacity < Storage.limit then .ok (.bounded { capacity }) else .error ⟨capacity⟩ := by
  rw [Text.withCapacity, BoundedText.withCapacity, Storage.grow?]
  by_cases hlimit : capacity < Storage.limit
  · by_cases hzero : capacity = 0
    · subst hzero
      rfl
    · simp [hzero, hlimit, Except.map]
  · have hpos : ¬ capacity ≤ 0 := by
      intro hzero
      exact hlimit (Nat.lt_of_le_of_lt hzero (by decide))
    simp [hpos, hlimit, Except.map]

theorem TextField.withCapacity_eq (resource : Resource) (capacity : Nat) :
    TextField.withCapacity resource capacity =
      (request ⟨resource, capacity⟩).map fun _ => some (.bounded { capacity }) := by
  rw [TextField.withCapacity, Text.withCapacity_eq, request]
  by_cases hlimit : capacity < Storage.limit
  · simp [hlimit, isRefused_eq_false_iff.mpr, Except.map]
  · simp [hlimit, isRefused, Nat.le_of_not_lt hlimit, error, Error.ofStorage, Except.map]

theorem Operand.withCapacity_eq (capacity : Nat) :
    Operand.withCapacity capacity =
      (request ⟨.operandText, capacity⟩).map fun _ => { text := .bounded { capacity } } := by
  rw [Operand.withCapacity, Text.withCapacity_eq, request]
  by_cases hlimit : capacity < Storage.limit
  · simp [hlimit, isRefused_eq_false_iff.mpr, Except.map]
  · simp [hlimit, isRefused, Nat.le_of_not_lt hlimit, error, Error.ofStorage, Except.map]

namespace OperandTable

theorem withSlots_eq (n : Nat) :
    withSlots n =
      (request ⟨.operandSlots, n⟩).map fun _ => { slots := List.replicate n none } := by
  rw [withSlots, request]
  by_cases hlimit : n < Storage.limit
  · simp [hlimit, isRefused_eq_false_iff.mpr, Except.map]
  · simp [hlimit, isRefused, Nat.le_of_not_lt hlimit, error, Except.map]

theorem fillSlots_eq (n capacity : Nat) :
    fillSlots { slots := List.replicate n none } capacity =
      (requestAll (List.replicate n ⟨.operandText, capacity⟩)).map fun _ =>
        { slots := List.replicate n (some { text := .bounded { capacity } }) } := by
  cases n with
  | zero => rfl
  | succ n =>
      have hfirst := find?_replicate_succ [] ⟨.operandText, capacity⟩ n
      rw [List.nil_append, List.nil_append] at hfirst
      rw [fillSlots, if_neg (by simp [List.replicate_succ]), Operand.withCapacity_eq,
        requestAll_eq, hfirst, request]
      cases hrefused : isRefused ⟨.operandText, capacity⟩ with
      | true => simp [List.find?, hrefused, Except.map]
      | false => simp [List.find?, hrefused, Except.map]

end OperandTable

/-!
# Making an instruction
-/

namespace Layout

def leading (l : Layout) : List Reservation :=
  [⟨.operandSlots, l.operandCount.toNat⟩, ⟨.instructionText, l.textSize.toNat⟩,
    ⟨.prefixes, l.prefixesSize.toNat⟩]

def reservations (l : Layout) : List Reservation :=
  l.leading ++ ⟨.mnemonic, l.mnemonicSize.toNat⟩ :: ⟨.comment, l.textSize.toNat⟩ ::
    List.replicate l.operandCount.toNat ⟨.operandText, l.operandTextSize.toNat⟩

/-- The reservations that no earlier one covers. -/
def decisive (l : Layout) : List Reservation :=
  l.leading ++
    if l.operandCount.toNat = 0 then [] else [⟨.operandText, l.operandTextSize.toNat⟩]

theorem toNat_prefixesSize (l : Layout) :
    l.prefixesSize.toNat = min (4 * l.mnemonicSize.toNat) (UInt64.size - 1) :=
  toNat_prefixSize l.mnemonicSize

theorem mnemonicSize_le_prefixesSize (l : Layout) :
    l.mnemonicSize.toNat ≤ l.prefixesSize.toNat := by
  have hword : l.mnemonicSize.toNat < UInt64.size := l.mnemonicSize.toNat_lt
  rw [toNat_prefixesSize]
  omega

theorem find?_reservations (l : Layout) :
    l.reservations.find? isRefused = l.decisive.find? isRefused := by
  have htext : ⟨.instructionText, l.textSize.toNat⟩ ∈ l.leading := by simp [leading]
  have hprefixes : ⟨.prefixes, l.prefixesSize.toNat⟩ ∈ l.leading := by simp [leading]
  rw [reservations, find?_of_covered hprefixes l.mnemonicSize_le_prefixesSize,
    find?_of_covered (r := ⟨.comment, l.textSize.toNat⟩) htext (Nat.le_refl _), decisive]
  cases l.operandCount.toNat with
  | zero => rfl
  | succ n => exact find?_replicate_succ l.leading _ n

end Layout

namespace Instruction

theorem bind_map_unit {α β : Type} (x : Except Error Unit) (f : Unit → α)
    (g : α → Except Error β) : (x.map f >>= g) = (do x; g (f ())) := by
  cases x with
  | error e => rfl
  | ok _ => rfl

theorem ofLayout_eq (l : Layout) :
    ofLayout l = (requestAll l.reservations).map fun _ => blank l := by
  unfold ofLayout
  simp only [OperandTable.withSlots_eq, TextField.withCapacity_eq, OperandTable.fillSlots_eq,
    bind_map_unit, Layout.reservations, Layout.leading, requestAll, List.cons_append,
    List.nil_append, map_bind_except]
  cases requestAll (List.replicate l.operandCount.toNat
    ⟨.operandText, l.operandTextSize.toNat⟩) with
  | error e => rfl
  | ok _ => rfl

theorem ofLayout_eq_of_decisive (l : Layout) :
    ofLayout l =
      match l.decisive.find? isRefused with
      | some r => .error r.error
      | none => .ok (blank l) := by
  rw [ofLayout_eq, requestAll_eq, l.find?_reservations]
  cases l.decisive.find? isRefused with
  | some r => rfl
  | none => rfl

theorem exists_ofLayout_iff (l : Layout) :
    (∃ i, ofLayout l = .ok i) ↔ l.decisive.find? isRefused = none := by
  rw [ofLayout_eq_of_decisive]
  cases l.decisive.find? isRefused with
  | some r => simp
  | none => simp

theorem ofLayout_eq_error_iff (l : Layout) (e : Error) :
    ofLayout l = .error e ↔
      ∃ front r back, l.decisive = front ++ r :: back ∧
        (∀ s ∈ front, s.size < Storage.limit) ∧ Storage.limit ≤ r.size ∧ e = r.error := by
  have hfound : ofLayout l = .error e ↔
      ∃ r, l.decisive.find? isRefused = some r ∧ e = r.error := by
    rw [ofLayout_eq_of_decisive]
    cases l.decisive.find? isRefused with
    | some r => simp [eq_comm]
    | none => simp
  rw [hfound]
  simp only [List.find?_eq_some_iff_append, Bool.not_eq_true', isRefused_eq_false_iff]
  constructor
  · rintro ⟨r, ⟨hrefused, front, back, hlist, hfront⟩, rfl⟩
    exact ⟨front, r, back, hlist, hfront, of_decide_eq_true hrefused, rfl⟩
  · rintro ⟨front, r, back, hlist, hfront, hsize, rfl⟩
    exact ⟨r, ⟨decide_eq_true hsize, front, back, hlist, hfront⟩, rfl⟩

/-!
# What a layout decides
-/

structure FreshBuffer (l : Layout) (i : Instruction) : Prop where
  layout : i.layout = some l
  text : i.text = some (.bounded ⟨"", l.textSize.toNat⟩)
  prefixes : i.prefixes = some (.bounded ⟨"", l.prefixesSize.toNat⟩)
  mnemonic : i.mnemonic = some (.bounded ⟨"", l.mnemonicSize.toNat⟩)
  comment : i.comment = some (.bounded ⟨"", l.textSize.toNat⟩)
  count : i.operands.count = 0
  length_slots : i.operands.slots.length = l.operandCount.toNat
  slot : ∀ slot ∈ i.operands.slots, ∃ o, slot = some o ∧ o.isBlank = true ∧
    o.text = .bounded ⟨"", l.operandTextSize.toNat⟩
  rest : i =
    { empty with
      text := i.text
      prefixes := i.prefixes
      mnemonic := i.mnemonic
      comment := i.comment
      operands := i.operands
      layout := i.layout }

theorem freshBuffer_blank (l : Layout) : FreshBuffer l (blank l) where
  layout := rfl
  text := rfl
  prefixes := rfl
  mnemonic := rfl
  comment := rfl
  count := rfl
  length_slots := List.length_replicate
  slot := by
    intro slot hslot
    exact ⟨_, List.eq_of_mem_replicate hslot, rfl, rfl⟩
  rest := rfl

theorem find?_decisive_eq_none_iff (l : Layout) :
    l.decisive.find? isRefused = none ↔
      l.operandCount.toNat < Storage.limit ∧ l.textSize.toNat < Storage.limit ∧
      l.prefixesSize.toNat < Storage.limit ∧
      (l.operandCount.toNat = 0 ∨ l.operandTextSize.toNat < Storage.limit) := by
  rw [List.find?_eq_none, Layout.decisive, Layout.leading]
  by_cases hcount : l.operandCount.toNat = 0
  · simp [hcount, isRefused]
  · simp [hcount, isRefused]

theorem resource_of_mem_decisive {l : Layout} {r : Reservation} (h : r ∈ l.decisive) :
    r.resource ∈ [.operandSlots, .instructionText, .prefixes, .operandText] := by
  rcases List.mem_append.mp h with hmem | hmem
  · simp only [Layout.leading, List.mem_cons, List.not_mem_nil, or_false] at hmem
    rcases hmem with rfl | rfl | rfl
    · simp
    · simp
    · simp
  · split at hmem
    · cases hmem
    · simp [List.mem_singleton.mp hmem]

theorem resource_of_ofLayout {l : Layout} {resource : Resource} {requested : Nat}
    (h : ofLayout l = .error (.allocation resource requested)) :
    resource ∈ [.operandSlots, .instructionText, .prefixes, .operandText] := by
  rcases (ofLayout_eq_error_iff l _).mp h with ⟨front, r, back, hlist, _, _, hreason⟩
  cases hreason
  apply resource_of_mem_decisive
  rw [hlist]
  exact List.mem_append_right front List.mem_cons_self

/-- A fixed instruction is made exactly for the layouts that ask for less than `Storage.limit`
slots, bytes of raw text, bytes of prefixes, and bytes of text for each operand, if there are any.
Otherwise the first of these that is too large is the reason. The mnemonic and the comment never
are. -/
theorem ofLayout_decided (l : Layout) :
    l.prefixesSize.toNat = min (4 * l.mnemonicSize.toNat) (UInt64.size - 1) ∧
    ((∃ i, ofLayout l = .ok i) ↔
      l.operandCount.toNat < Storage.limit ∧ l.textSize.toNat < Storage.limit ∧
      l.prefixesSize.toNat < Storage.limit ∧
      (l.operandCount.toNat = 0 ∨ l.operandTextSize.toNat < Storage.limit)) ∧
    (∀ e, ofLayout l = .error e ↔
      ∃ front r back, l.decisive = front ++ r :: back ∧
        (∀ s ∈ front, s.size < Storage.limit) ∧ Storage.limit ≤ r.size ∧
        e = .allocation r.resource r.size) ∧
    (∀ requested, ofLayout l ≠ .error (.allocation .mnemonic requested) ∧
      ofLayout l ≠ .error (.allocation .comment requested)) ∧
    (∀ i, ofLayout l = .ok i → FreshBuffer l i) := by
  refine ⟨l.toNat_prefixesSize, (exists_ofLayout_iff l).trans (find?_decisive_eq_none_iff l),
    ofLayout_eq_error_iff l, ?_, ?_⟩
  · intro requested
    constructor
    · intro hmnemonic
      simpa using resource_of_ofLayout hmnemonic
    · intro hcomment
      simpa using resource_of_ofLayout hcomment
  · intro i hmade
    rw [ofLayout_eq_ok hmade]
    exact freshBuffer_blank l

/-- The prefixes of four times two to the sixty-first bytes are refused, before the texts of the
operands are asked for. -/
theorem ofLayout_of_wide_mnemonic :
    ofLayout ⟨0x4000000000000000, 0x2000000000000000, 3, 0x8000000000000000⟩ =
      .error (.allocation .prefixes 0x8000000000000000) := by
  rcases ofLayout_decided ⟨0x4000000000000000, 0x2000000000000000, 3, 0x8000000000000000⟩ with
    ⟨_, _, herror, _⟩
  refine (herror _).mpr ⟨[⟨.operandSlots, 3⟩, ⟨.instructionText, 0x4000000000000000⟩],
    ⟨.prefixes, 0x8000000000000000⟩, [⟨.operandText, 0x8000000000000000⟩], by decide, by decide,
    by decide, rfl⟩

end Instruction
end Disassembly
