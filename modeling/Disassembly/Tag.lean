import Disassembly.Unicode.CaseFolding

/-!
# Tags

The name of a tag is for people, its identifier for stored data.
-/

namespace Disassembly

class Tag (α : Type) where
  kind : String
  all : List α
  name : α → String
  ident : α → String

structure UnknownTag where
  kind : String
  name : String
deriving DecidableEq, Repr

def UnknownTag.message (e : UnknownTag) : String :=
  "\x60" ++ e.name ++ "\x60 does not name a known " ++ e.kind

namespace Tag

variable {α : Type} [Tag α]

def parse? (s : String) : Option α :=
  (all : List α).find? fun tag => Unicode.sameFolding (name tag) s

def parse (β : Type) [Tag β] (s : String) : Except UnknownTag β :=
  match (parse? s : Option β) with
  | some tag => .ok tag
  | none => .error ⟨kind β, s⟩

def ofIdent? (s : String) : Option α :=
  (all : List α).find? fun tag => ident tag == s

def index [DecidableEq α] (tag : α) : Nat := (all : List α).idxOf tag

theorem parse_eq_ok {s : String} {tag : α} (h : parse α s = .ok tag) :
    tag ∈ (all : List α) ∧ Unicode.fold (name tag) = Unicode.fold s := by
  unfold parse at h
  cases found : (parse? s : Option α) with
  | none => simp [found] at h
  | some t =>
      simp only [found, Except.ok.injEq] at h
      subst h
      have same : Unicode.sameFolding (name t) s = true :=
        List.find?_some (p := fun tag : α => Unicode.sameFolding (name tag) s) found
      exact ⟨List.mem_of_find?_eq_some found, Unicode.sameFolding_iff.1 same⟩

end Tag
end Disassembly
