import Disassembly.Proofs.Bounded
import Mathlib.Data.List.Infix

/-!
# Strategies that cannot be told apart

Growable text stores a request as a whole or refuses it, bounded text stores what fits
of it. As long as the growable text refuses nothing, and what it then holds fits in the
bounded one, their answers and their contents are the same.
-/

namespace Disassembly

namespace Text

/-!
# Requests that are stored as a whole
-/

def Request.wanted (content : String) : Request → String
  | .set s => s
  | .push s => content ++ s
  | .append separator token => content ++ GrowableText.piece content separator token
  | .clear => ""

def Request.added (content : String) : Request → Nat
  | .set s => s.utf8ByteSize
  | .push s => s.utf8ByteSize
  | .append separator token => (GrowableText.piece content separator token).utf8ByteSize
  | .clear => 0

theorem perform_growable_of_ok {t : GrowableText} {request : Request} {n : Nat}
    (h : ((Text.growable t).perform request).result = .ok n) :
    ∃ u : GrowableText, ((Text.growable t).perform request).state = .growable u ∧
      u.content = request.wanted t.content ∧ n = request.added t.content := by
  cases request with
  | set s => exact ⟨(t.set s).state, rfl, GrowableText.set_of_ok h⟩
  | push s => exact ⟨(t.push s).state, rfl, GrowableText.content_push h⟩
  | append separator token =>
      exact ⟨(t.append separator token).state, rfl, GrowableText.append_of_ok h⟩
  | clear =>
      cases h
      exact ⟨t.clear, rfl, rfl, rfl⟩

theorem perform_bounded_of_fits {t : BoundedText} {request : Request}
    (h : (request.wanted t.content).utf8ByteSize ≤ t.limit) :
    (Text.bounded t).perform request =
      .done (.bounded ⟨request.wanted t.content, t.capacity⟩) (request.added t.content) := by
  cases request with
  | set s => exact congrArg ofBounded (BoundedText.set_of_size_le h)
  | push s =>
      have hfit : t.fit s = s := by
        apply Utf8.takeBytes_of_size_le
        rw [Request.wanted, String.utf8ByteSize_append] at h
        simp only [BoundedText.remaining, BoundedText.size]
        omega
      rw [perform, push, BoundedText.push, hfit]
      rfl
  | append separator token =>
      rw [perform, append, BoundedText.append, BoundedText.entry_eq_piece h]
      rfl
  | clear => rfl

/-!
# Runs
-/

structure Agree (capacity : Nat) (g f : Text) : Prop where
  growable : g.isBounded = false
  bounded : f = .bounded ⟨g.content, capacity⟩

namespace Agree

variable {capacity : Nat} {g f : Text}

theorem content_eq (h : Agree capacity g f) : f.content = g.content := by
  rw [h.bounded]
  rfl

theorem perform (h : Agree capacity g f) {request : Request} {n : Nat}
    (hok : (g.perform request).result = .ok n)
    (hfits : (g.perform request).state.size ≤ capacity - 1) :
    (f.perform request).result = (g.perform request).result ∧
      Agree capacity (g.perform request).state (f.perform request).state := by
  rcases h with ⟨hgrowable, rfl⟩
  cases g with
  | bounded t => cases hgrowable
  | growable t =>
      rcases perform_growable_of_ok hok with ⟨u, hstate, hcontent, rfl⟩
      rw [hstate] at hfits ⊢
      have hroom : (request.wanted t.content).utf8ByteSize ≤ capacity - 1 := by
        rw [← hcontent]
        exact hfits
      have hdone := perform_bounded_of_fits (t := ⟨t.content, capacity⟩) hroom
      rw [hok]
      show ((Text.bounded ⟨t.content, capacity⟩).perform request).result = _ ∧
        Agree capacity _ ((Text.bounded ⟨t.content, capacity⟩).perform request).state
      rw [hdone]
      refine ⟨rfl, rfl, ?_⟩
      show Text.bounded ⟨request.wanted t.content, capacity⟩ = .bounded ⟨u.content, capacity⟩
      rw [hcontent]

theorem run (h : Agree capacity g f) {requests : List Request}
    (hok : ∀ response ∈ (g.run requests).1, response.isOk = true)
    (hfits : ∀ front, front <+: requests → (g.run front).2.size ≤ capacity - 1) :
    (f.run requests).1 = (g.run requests).1 ∧
      Agree capacity (g.run requests).2 (f.run requests).2 := by
  induction requests generalizing g f with
  | nil => exact ⟨rfl, h⟩
  | cons first rest ih =>
      have hgranted : (g.perform first).result.isOk = true := hok _ List.mem_cons_self
      cases hn : (g.perform first).result with
      | error e =>
          rw [hn] at hgranted
          cases hgranted
      | ok n =>
          rcases h.perform hn (hfits [first] ⟨rest, rfl⟩) with ⟨hresponse, hnext⟩
          have hrest : ∀ front, front <+: rest →
              ((g.perform first).state.run front).2.size ≤ capacity - 1 := by
            intro front hfront
            exact hfits (first :: front) (List.cons_prefix_cons.mpr ⟨rfl, hfront⟩)
          have hlater : ∀ response ∈ ((g.perform first).state.run rest).1,
              response.isOk = true := by
            intro response hresponse
            exact hok response (List.mem_cons_of_mem _ hresponse)
          rcases ih hnext hlater hrest with ⟨hresponses, hlast⟩
          refine ⟨?_, hlast⟩
          show (f.perform first).result :: ((f.perform first).state.run rest).1 = _
          rw [hresponse, hresponses]
          rfl

end Agree

theorem agree_withCapacity {capacity : Nat} {f : Text} (h : withCapacity capacity = .ok f) :
    Agree capacity empty f :=
  ⟨rfl, (withCapacity_eq_ok h).1⟩

/-- Requests to a new growable text and to a new bounded one are answered alike, and leave texts
with the same content and the same copies behind, as long as the growable text refuses nothing and
its content fits in the bounded one. -/
theorem run_agree_of_fits {capacity : Nat} {f : Text} (hmade : withCapacity capacity = .ok f)
    {requests : List Request} (hok : ∀ response ∈ (empty.run requests).1, response.isOk = true)
    (hfits : ∀ front, front <+: requests → (empty.run front).2.size ≤ capacity - 1) :
    ∀ front, front <+: requests →
      (f.run front).1 = (empty.run front).1 ∧
        (f.run front).2.content = (empty.run front).2.content ∧
        ∃ copy, (f.run front).2.snapshot = .ok copy ∧
          (empty.run front).2.snapshot = .ok copy := by
  intro front hfront
  have hearlier : ∀ response ∈ (empty.run front).1, response.isOk = true := by
    rcases hfront with ⟨back, rfl⟩
    intro response hresponse
    apply hok response
    rw [run_append]
    exact List.mem_append_left _ hresponse
  have hshorter : ∀ first, first <+: front → (empty.run first).2.size ≤ capacity - 1 := by
    intro first hfirst
    exact hfits first (hfirst.trans hfront)
  rcases (agree_withCapacity hmade).run hearlier hshorter with ⟨hresponses, hafter⟩
  have hsound : (f.run front).2.Sound := by
    rw [hafter.bounded]
    exact ⟨hfits front hfront, (withCapacity_eq_ok hmade).2⟩
  have hcopy := snapshot_of_sound hsound
  refine ⟨hresponses, hafter.content_eq, _, hcopy, ?_⟩
  rw [snapshot, ← hafter.content_eq]
  exact hcopy

/-- The room is used up to the last byte, by a separator and a token and again after a clearing. -/
theorem run_agree_of_exact_fit :
    let requests : List Request :=
      [.append ";" "no", .append "" "é", .append ", " "", .append ", " "x", .clear,
        .push "012345", .push "6", .set "é"]
    withCapacity 8 = .ok (.bounded { capacity := 8 }) ∧
      (∀ response ∈ (empty.run requests).1, response.isOk = true) ∧
      (∀ front ∈ requests.inits, (empty.run front).2.size ≤ 8 - 1) ∧
      (run (.bounded { capacity := 8 }) requests).1 = (empty.run requests).1 ∧
      (run (.bounded { capacity := 8 }) requests).2.content =
        (empty.run requests).2.content := by
  intro requests
  have hmade : withCapacity 8 = .ok (.bounded { capacity := 8 }) := rfl
  have hok : ∀ response ∈ (empty.run requests).1, response.isOk = true := by decide
  have hfits : ∀ front ∈ requests.inits, (empty.run front).2.size ≤ 8 - 1 := by decide
  have hagree := run_agree_of_fits hmade hok
    (fun front hfront => hfits front (List.mem_inits front requests |>.mpr hfront)) requests
    (List.prefix_refl requests)
  exact ⟨hmade, hok, hfits, hagree.1, hagree.2.1⟩

end Text
end Disassembly
