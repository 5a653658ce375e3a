/-!
# Outcomes of updates

What an update leaves behind when it refuses its request is part of its meaning.
-/

namespace Disassembly

structure Outcome (σ ε α : Type) where
  result : Except ε α
  state : σ

namespace Outcome

variable {σ τ ε δ α β : Type}

def done (state : σ) (value : α) : Outcome σ ε α := ⟨.ok value, state⟩

def refused (state : σ) (error : ε) : Outcome σ ε α := ⟨.error error, state⟩

def map (f : α → β) (o : Outcome σ ε α) : Outcome σ ε β :=
  ⟨o.result.map f, o.state⟩

def mapError (f : ε → δ) (o : Outcome σ ε α) : Outcome σ δ α :=
  ⟨o.result.mapError f, o.state⟩

def within (put : σ → τ) (o : Outcome σ ε α) : Outcome τ ε α :=
  ⟨o.result, put o.state⟩

@[simp] theorem result_done (state : σ) (value : α) :
    (done state value : Outcome σ ε α).result = .ok value := rfl

@[simp] theorem state_done (state : σ) (value : α) :
    (done state value : Outcome σ ε α).state = state := rfl

@[simp] theorem result_refused (state : σ) (error : ε) :
    (refused state error : Outcome σ ε α).result = .error error := rfl

@[simp] theorem state_refused (state : σ) (error : ε) :
    (refused state error : Outcome σ ε α).state = state := rfl

@[simp] theorem result_map (f : α → β) (o : Outcome σ ε α) :
    (o.map f).result = o.result.map f := rfl

@[simp] theorem state_map (f : α → β) (o : Outcome σ ε α) : (o.map f).state = o.state := rfl

@[simp] theorem result_mapError (f : ε → δ) (o : Outcome σ ε α) :
    (o.mapError f).result = o.result.mapError f := rfl

@[simp] theorem state_mapError (f : ε → δ) (o : Outcome σ ε α) :
    (o.mapError f).state = o.state := rfl

@[simp] theorem result_within (put : σ → τ) (o : Outcome σ ε α) :
    (o.within put).result = o.result := rfl

@[simp] theorem state_within (put : σ → τ) (o : Outcome σ ε α) :
    (o.within put).state = put o.state := rfl

end Outcome
end Disassembly
