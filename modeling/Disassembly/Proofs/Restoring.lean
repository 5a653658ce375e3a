import Disassembly.Json.RoundTrip
import Disassembly.Proofs.FlagText
import Disassembly.Stored.Values

/-!
# Stored values come back

The stored form of a type is lawful when the JSON value that is written for a value is
read as that value and holds no number that is kept as its literal. A record is lawful
when the types of its fields are, and a part that may be missing when it is never
written as `null`.
-/

namespace Disassembly

class LawfulTag (α : Type) [Tag α] : Prop where
  ofIdent?_ident : ∀ tag : α, Tag.ofIdent? (Tag.ident tag) = some tag

instance : LawfulTag ControlTransfer where
  ofIdent?_ident tag := by cases tag <;> decide

instance : LawfulTag StackEffect where
  ofIdent?_ident tag := by cases tag <;> decide

instance : LawfulTag BitOperation where
  ofIdent?_ident tag := by cases tag <;> decide

instance : LawfulTag PortAccess where
  ofIdent?_ident tag := by cases tag <;> decide

instance : LawfulTag IsaSubset where
  ofIdent?_ident tag := by cases tag <;> decide

instance : LawfulTag OperandKind where
  ofIdent?_ident tag := by cases tag <;> decide

instance : LawfulTag IndexShift where
  ofIdent?_ident tag := by cases tag <;> decide

class LawfulStored (α : Type) [Stored α] : Prop where
  ofJson?_toJson : ∀ value : α, Stored.ofJson? (Stored.toJson value) = some value
  isExact_toJson : ∀ value : α, Json.isExact (Stored.toJson value).tokens = true

namespace Stored

/-!
# Records
-/

theorem isExact_value_append (value : Json) (rest : List Json.Token) :
    Json.isExact (value.tokens ++ rest) =
      (Json.isExact value.tokens && Json.isExact rest) :=
  List.all_append

theorem isExact_memberTokens {members : List (String × Json)}
    (hexact : ∀ member ∈ members, Json.isExact member.2.tokens = true) :
    Json.isExact (Json.memberTokens (members.map fun (name, value) => (some name, value))) =
      true := by
  induction members with
  | nil => rfl
  | cons member rest ih =>
      rcases List.forall_mem_cons.mp hexact with ⟨hfirst, hrest⟩
      have hmember := isExact_value_append member.2
        (Json.memberTokens (rest.map fun (name, value) => (some name, value)))
      rw [hfirst, ih hrest] at hmember
      exact hmember

theorem isExact_record {members : List (String × Json)}
    (hexact : ∀ member ∈ members, Json.isExact member.2.tokens = true) :
    Json.isExact (record members).tokens = true := by
  cases members with
  | nil => rfl
  | cons member rest =>
      rcases List.forall_mem_cons.mp hexact with ⟨hfirst, hrest⟩
      have hmember := isExact_value_append member.2
        (Json.memberTokens (rest.map fun (name, value) => (some name, value)))
      rw [hfirst, isExact_memberTokens hrest] at hmember
      exact hmember

theorem filter_members {members : List (String × Json)}
    (hnames : (members.map Prod.fst).Nodup) {member : String × Json} (hmem : member ∈ members) :
    (members.map fun (name, value) => ((some name : JsonString), value)).filter
      (fun found => found.1 == some member.1) = [(some member.1, member.2)] := by
  induction members with
  | nil => exact absurd hmem List.not_mem_nil
  | cons first rest ih =>
      rw [List.map_cons, List.nodup_cons] at hnames
      rcases hnames with ⟨hfirst, hrest⟩
      rcases List.mem_cons.mp hmem with rfl | hmem
      · have hothers : (rest.map fun (name, value) => ((some name : JsonString), value)).filter
            (fun found => found.1 == some member.1) = [] := by
          rw [List.filter_eq_nil_iff]
          rintro found hfound hsame
          rcases List.mem_map.mp hfound with ⟨other, hother, rfl⟩
          apply hfirst
          rw [← Option.some.inj (beq_iff_eq.mp hsame)]
          exact List.mem_map_of_mem hother
        rw [List.map_cons, List.filter_cons_of_pos (by simp), hothers]
      · have hother : first.1 ≠ member.1 := by
          intro hsame
          rw [hsame] at hfirst
          exact hfirst (List.mem_map_of_mem hmem)
        rw [List.map_cons, List.filter_cons_of_neg (by simpa using hother), ih hrest hmem]

theorem mapM_field? {members picked : List (String × Json)}
    (hnames : (members.map Prod.fst).Nodup) (hpicked : ∀ member ∈ picked, member ∈ members) :
    (picked.map Prod.fst).mapM
        (field? (members.map fun (name, value) => (some name, value))) =
      some (picked.map fun member => some member.2) := by
  induction picked with
  | nil => rfl
  | cons member rest ih =>
      rcases List.forall_mem_cons.mp hpicked with ⟨hmember, hrest⟩
      have hfield : field? (members.map fun (name, value) => (some name, value)) member.1 =
          some (some member.2) := by
        rw [field?, filter_members hnames hmember]
      rw [List.map_cons, List.mapM_cons, hfield, ih hrest]
      rfl

theorem fields?_record {members : List (String × Json)}
    (hnames : (members.map Prod.fst).Nodup) :
    fields? (members.map Prod.fst) (record members) =
      some (members.map fun member => some member.2) := by
  have hkeys : ((members.map fun (name, value) => ((some name : JsonString), value)).all
      fun member => member.1.isSome) = true := by
    simp
  rw [record, fields?, objectFields?, if_pos hkeys,
    mapM_field? hnames fun member hmember => hmember]

theorem intBetween?_integer {low high n : Int} (hlow : low ≤ n) (hhigh : n ≤ high) :
    intBetween? low high (.integer n) = some n :=
  if_pos ⟨hlow, hhigh⟩

instance : LawfulStored UInt8 where
  ofJson?_toJson n := by
    have hhigh : (n.toNat : Int) ≤ 0xFF := Int.ofNat_le.mpr (Nat.le_of_lt_succ n.toNat_lt)
    simp [toJson, ofJson?, intBetween?_integer (Int.natCast_nonneg _) hhigh]
  isExact_toJson _ := rfl

instance : LawfulStored UInt64 where
  ofJson?_toJson n := by
    have hhigh : (n.toNat : Int) ≤ 0xFFFFFFFFFFFFFFFF :=
      Int.ofNat_le.mpr (Nat.le_of_lt_succ n.toNat_lt)
    simp [toJson, ofJson?, intBetween?_integer (Int.natCast_nonneg _) hhigh]
  isExact_toJson _ := rfl

instance : LawfulStored Int8 where
  ofJson?_toJson n := by
    have hread : intBetween? (-0x80) 0x7F (.integer n.toInt) = some n.toInt :=
      intBetween?_integer n.le_toInt n.toInt_le
    simp [toJson, ofJson?, hread]
  isExact_toJson _ := rfl

instance : LawfulStored Int32 where
  ofJson?_toJson n := by
    have hread : intBetween? (-0x80000000) 0x7FFFFFFF (.integer n.toInt) = some n.toInt :=
      intBetween?_integer n.le_toInt n.toInt_le
    simp [toJson, ofJson?, hread]
  isExact_toJson _ := rfl

instance : LawfulStored String where
  ofJson?_toJson _ := rfl
  isExact_toJson _ := rfl

/-- A part that may be missing, if the part is never written as what stands for its absence. -/
theorem lawful_option {α : Type} [Stored α] [LawfulStored α]
    (hnull : ∀ value : α, toJson value ≠ .null) : LawfulStored (Option α) where
  ofJson?_toJson part := by
    cases part with
    | none => rfl
    | some value =>
        have hvalue := LawfulStored.ofJson?_toJson value
        simp only [toJson, ofJson?]
        cases hwritten : toJson value <;> first
          | exact absurd hwritten (hnull value)
          | simp [← hwritten, hvalue]
  isExact_toJson part := by
    cases part with
    | none => rfl
    | some value => exact LawfulStored.isExact_toJson value

/-!
# Tags, categories and flags
-/

theorem tag?_ident {α : Type} [Tag α] [LawfulTag α] (tag : α) :
    tag? (.string (some (Tag.ident tag))) = some tag :=
  LawfulTag.ofIdent?_ident tag

instance : LawfulStored ControlTransfer := ⟨tag?_ident, fun _ => rfl⟩

instance : LawfulStored StackEffect := ⟨tag?_ident, fun _ => rfl⟩

instance : LawfulStored BitOperation := ⟨tag?_ident, fun _ => rfl⟩

instance : LawfulStored PortAccess := ⟨tag?_ident, fun _ => rfl⟩

instance : LawfulStored IsaSubset := ⟨tag?_ident, fun _ => rfl⟩

instance : LawfulStored OperandKind := ⟨tag?_ident, fun _ => rfl⟩

instance : LawfulStored IndexShift := ⟨tag?_ident, fun _ => rfl⟩

instance : LawfulStored Category where
  ofJson?_toJson c := by
    cases c with
    | controlFlow transfer => cases transfer <;> decide
    | stack effect => cases effect <;> decide
    | bit operation => cases operation <;> decide
    | io access => cases access <;> decide
    | _ => decide
  isExact_toJson c := by
    cases c <;> rfl

instance {φ : Type} [StoredFlag φ] [FlagSet.LawfulFlag φ] : LawfulStored (FlagSet φ) where
  ofJson?_toJson := FlagSet.ofText?_toText
  isExact_toJson _ := rfl

/-!
# Registers, addresses and layouts
-/

section LawfulStored

variable {α : Type} [Stored α] [LawfulStored α]

@[simp] theorem required?_toJson (value : α) : required? (some (toJson value)) = some value :=
  LawfulStored.ofJson?_toJson value

@[simp] theorem orElse?_toJson (default value : α) :
    orElse? default (some (toJson value)) = some value :=
  LawfulStored.ofJson?_toJson value

end LawfulStored

theorem register?_eq_some (r : Register) :
    register? r.name r.classes r.id r.size = some r :=
  dif_pos r.name_fits

instance : LawfulStored Register where
  ofJson?_toJson r := by
    have hfields : fields? ["name", "flags", "id", "size"] (toJson r) =
        some [some (toJson r.name), some (toJson r.classes), some (toJson r.id),
          some (toJson r.size)] :=
      fields?_record (by simp)
    simp only [ofJson?, hfields, Option.bind_eq_bind, Option.bind_some, required?_toJson,
      register?_eq_some]
  isExact_toJson r := by
    apply isExact_record
    simp [LawfulStored.isExact_toJson]

instance : LawfulStored (Option Register) :=
  lawful_option fun _ => Json.noConfusion

instance : LawfulStored AbsoluteAddress where
  ofJson?_toJson a := by
    have hfields : fields? ["segment", "offset"] (toJson a) =
        some [some (toJson a.segment), some (toJson a.offset)] :=
      fields?_record (by simp)
    simp only [ofJson?, hfields, Option.bind_eq_bind, Option.bind_some, required?_toJson]
  isExact_toJson a := by
    apply isExact_record
    simp [LawfulStored.isExact_toJson]

instance : LawfulStored Displacement where
  ofJson?_toJson d := by
    cases d with
    | unsigned value =>
        show displacement? "Unsigned" (toJson value) = some (.unsigned value)
        rw [displacement?, if_pos rfl, LawfulStored.ofJson?_toJson, Option.map_some]
    | signed value =>
        show displacement? "Signed" (toJson value) = some (.signed value)
        rw [displacement?, if_neg (by decide), if_pos rfl, LawfulStored.ofJson?_toJson,
          Option.map_some]
    | absolute address =>
        show displacement? "Absolute" (toJson address) = some (.absolute address)
        rw [displacement?, if_neg (by decide), if_neg (by decide), if_pos rfl,
          LawfulStored.ofJson?_toJson, Option.map_some]
  isExact_toJson d := by
    cases d with
    | unsigned value => exact isExact_record (by simp [LawfulStored.isExact_toJson])
    | signed value => exact isExact_record (by simp [LawfulStored.isExact_toJson])
    | absolute address => exact isExact_record (by simp [LawfulStored.isExact_toJson])

instance : LawfulStored (Option Displacement) :=
  lawful_option fun d => by cases d <;> exact Json.noConfusion

instance : LawfulStored AddressExpression where
  ofJson?_toJson e := by
    have hfields : fields? ["shift", "scale", "base", "index", "displacement"] (toJson e) =
        some [some (toJson e.shift), some (toJson e.scale), some (toJson e.base),
          some (toJson e.index), some (toJson e.displacement)] :=
      fields?_record (by simp)
    simp only [ofJson?, hfields, Option.bind_eq_bind, Option.bind_some, required?_toJson,
      orElse?_toJson]
  isExact_toJson e := by
    apply isExact_record
    simp [LawfulStored.isExact_toJson]

instance : LawfulStored Layout where
  ofJson?_toJson l := by
    have hfields : layoutFields? (toJson l) =
        some [some (toJson l.textSize), some (toJson l.mnemonicSize),
          some (toJson l.operandCount), some (toJson l.operandTextSize)] :=
      fields?_record (by simp)
    simp only [ofJson?, hfields, Option.bind_eq_bind, Option.bind_some, orElse?_toJson]
  isExact_toJson l := by
    apply isExact_record
    simp [LawfulStored.isExact_toJson]

/-!
# Texts of stored values
-/

section LawfulStored

variable {α : Type} [Stored α] [LawfulStored α]

theorem read?_write (value : α) : read? (write value) = some value := by
  rw [read?, write, Json.read?_render _ (LawfulStored.isExact_toJson value), Option.bind_some,
    LawfulStored.ofJson?_toJson]

theorem write_injective : Function.Injective (write : α → String) := by
  intro value other hsame
  have hread := read?_write value
  rw [hsame, read?_write other] at hread
  exact (Option.some.inj hread).symm

end LawfulStored

/-- The stored form of a type loses nothing: the text of a value is read as that value, no other
value has that text, and what an accepted text is read as comes back from its own text. -/
structure RoundTrips (α : Type) [Stored α] : Prop where
  comes_back (value : α) : read? (write value) = some value
  differs : Function.Injective (write : α → String)
  settles (text : String) (value : α) :
    read? text = some value → read? (write value) = some value

theorem roundTrips (α : Type) [Stored α] [LawfulStored α] : RoundTrips α where
  comes_back := read?_write
  differs := write_injective
  settles _ value _ := read?_write value

example : write (AbsoluteAddress.mk ⟨"é\"", ⟨0x8001⟩, 1, 2, by decide⟩ 5) =
    "\x7b\"segment\":\x7b\"name\":\"é\\\"\",\"flags\":\"GENERAL | 0x8000\"," ++
      "\"id\":1,\"size\":2\x7d,\"offset\":5\x7d" := by
  decide +kernel

theorem stored_round_trip :
    (RoundTrips ControlTransfer ∧ RoundTrips StackEffect ∧ RoundTrips BitOperation ∧
      RoundTrips PortAccess ∧ RoundTrips IsaSubset ∧ RoundTrips OperandKind ∧
      RoundTrips IndexShift ∧ RoundTrips Category) ∧
    (RoundTrips (FlagSet OperandFlag) ∧ RoundTrips (FlagSet RegisterClass)) ∧
    (RoundTrips Register ∧ RoundTrips AbsoluteAddress ∧ RoundTrips Displacement ∧
      RoundTrips AddressExpression ∧ RoundTrips Layout) := by
  refine ⟨⟨?_, ?_, ?_, ?_, ?_, ?_, ?_, ?_⟩, ⟨?_, ?_⟩, ?_, ?_, ?_, ?_, ?_⟩
  all_goals exact roundTrips _

end Stored
end Disassembly
