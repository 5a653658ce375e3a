import Disassembly.Instruction.Field

/-!
# What writes leave in a text

A write that is granted puts a piece of text behind what was there, or replaces it, and
reports the size of what it stored. A refused write changes nothing, and no storage
reaches `Storage.limit`.
-/

namespace Disassembly

namespace Storage

theorem le_of_grow? {capacity used extra room : Nat}
    (h : grow? capacity used extra = some room) : used + extra ≤ room := by
  unfold grow? at h
  split at h
  · simp only [Option.some.injEq] at h
    omega
  · split at h
    · simp only [Option.some.injEq] at h
      omega
    · cases h

theorem lt_limit_of_grow? {capacity used extra room : Nat} (hcapacity : capacity < limit)
    (h : grow? capacity used extra = some room) : room < limit := by
  unfold grow? at h
  split at h
  · simp only [Option.some.injEq] at h
    omega
  · split at h
    · simp only [Option.some.injEq] at h
      omega
    · cases h

end Storage

/-!
# Growable text
-/

namespace GrowableText

def piece (content separator token : String) : String :=
  if token = "" then "" else if content = "" then token else separator ++ token

theorem append_of_ok {t : GrowableText} {separator token : String} {n : Nat}
    (h : (t.append separator token).result = .ok n) :
    (t.append separator token).state.content =
        t.content ++ piece t.content separator token ∧
      n = (piece t.content separator token).utf8ByteSize := by
  unfold append piece at *
  by_cases htoken : token = ""
  · simp only [htoken, if_true, Outcome.result_done, Except.ok.injEq] at h
    simp [htoken, ← h]
  · simp only [htoken, if_false] at h ⊢
    by_cases hcontent : t.content = ""
    · simp only [hcontent, if_true] at h ⊢
      simpa [hcontent] using content_push h
    · simp only [hcontent, if_false] at h ⊢
      exact content_push h

theorem state_append_of_error {t : GrowableText} {separator token : String}
    {e : StorageError} (h : (t.append separator token).result = .error e) :
    (t.append separator token).state = t := by
  unfold append at *
  by_cases htoken : token = ""
  · simp [htoken] at h
  · simp only [htoken, if_false] at h ⊢
    by_cases hcontent : t.content = ""
    · simp only [hcontent, if_true] at h ⊢
      exact state_push_of_error h
    · simp only [hcontent, if_false] at h ⊢
      exact state_push_of_error h

theorem copyOf_eq (s : String) :
    copyOf s = if s.utf8ByteSize < Storage.limit then .ok ⟨s, s.utf8ByteSize⟩
      else .error ⟨s.utf8ByteSize⟩ := by
  unfold copyOf Storage.grow?
  simp only [Nat.zero_add, Nat.le_zero]
  by_cases hzero : s.utf8ByteSize = 0
  · simp [hzero, Storage.limit]
  · by_cases hlimit : s.utf8ByteSize < Storage.limit
    · simp [hzero, hlimit]
    · simp [hzero, hlimit]

theorem set_of_ok {t : GrowableText} {s : String} {n : Nat} (h : (t.set s).result = .ok n) :
    (t.set s).state.content = s ∧ n = s.utf8ByteSize := by
  unfold set copyOf at h ⊢
  cases hroom : Storage.grow? 0 0 s.utf8ByteSize with
  | none => simp [hroom] at h
  | some room =>
      simp only [hroom, Outcome.result_done, Except.ok.injEq] at h
      exact ⟨rfl, h.symm⟩

def Sound (t : GrowableText) : Prop := t.size ≤ t.capacity ∧ t.capacity < Storage.limit

theorem sound_copyOf {s : String} {t : GrowableText} (h : copyOf s = .ok t) : t.Sound := by
  unfold copyOf at h
  cases hroom : Storage.grow? 0 0 s.utf8ByteSize with
  | none => simp [hroom] at h
  | some room =>
      simp only [hroom, Except.ok.injEq] at h
      subst h
      constructor
      · simpa [size] using Storage.le_of_grow? hroom
      · exact Storage.lt_limit_of_grow? (by decide) hroom

theorem Sound.set {t : GrowableText} (h : t.Sound) (s : String) : (t.set s).state.Sound := by
  unfold GrowableText.set
  cases hcopy : copyOf s with
  | error e => exact h
  | ok copy => exact sound_copyOf hcopy

theorem Sound.push {t : GrowableText} (h : t.Sound) (s : String) : (t.push s).state.Sound := by
  unfold GrowableText.push
  cases hroom : Storage.grow? t.capacity t.size s.utf8ByteSize with
  | none => exact h
  | some room =>
      constructor
      · simpa [size] using Storage.le_of_grow? hroom
      · exact Storage.lt_limit_of_grow? h.2 hroom

theorem Sound.append {t : GrowableText} (h : t.Sound) (separator token : String) :
    (t.append separator token).state.Sound := by
  unfold GrowableText.append
  by_cases htoken : token = ""
  · simpa [htoken] using h
  · by_cases hcontent : t.content = ""
    · simpa [htoken, hcontent] using h.push token
    · simpa [htoken, hcontent] using h.push (separator ++ token)

theorem Sound.clear {t : GrowableText} (h : t.Sound) : t.clear.Sound := by
  constructor
  · simp [GrowableText.clear, size]
  · exact h.2

end GrowableText

/-!
# Bounded text
-/

namespace BoundedText

def Sound (t : BoundedText) : Prop := t.size ≤ t.limit ∧ t.capacity < Storage.limit

theorem withCapacity_eq_ok {capacity : Nat} {t : BoundedText}
    (h : withCapacity capacity = .ok t) : t = { capacity } ∧ capacity < Storage.limit := by
  unfold withCapacity at h
  cases hroom : Storage.grow? 0 0 capacity with
  | none => simp [hroom] at h
  | some room =>
      simp only [hroom, Except.ok.injEq] at h
      have hle := Storage.le_of_grow? hroom
      have hlt := Storage.lt_limit_of_grow? (by decide) hroom
      exact ⟨h.symm, by omega⟩

theorem size_fit_le (t : BoundedText) (s : String) :
    (t.fit s).utf8ByteSize ≤ t.remaining :=
  Utf8.size_takeBytes_le _ _

theorem size_entry_le (t : BoundedText) (separator token : String) :
    (t.entry separator token).utf8ByteSize ≤ t.remaining := by
  unfold entry
  by_cases hcontent : t.content = ""
  · simpa [hcontent] using size_fit_le t token
  · simp only [hcontent, if_false]
    by_cases hcut : Utf8.takeBytes (t.remaining - separator.utf8ByteSize) token = ""
    · simp [hcut]
    · -- a cut that stores something fits behind the separator
      have hle := Utf8.size_takeBytes_le (t.remaining - separator.utf8ByteSize) token
      have hpos : 0 < (Utf8.takeBytes (t.remaining - separator.utf8ByteSize) token).utf8ByteSize :=
        Nat.pos_of_ne_zero fun hzero => hcut (String.utf8ByteSize_eq_zero_iff.mp hzero)
      simp only [hcut, if_false, String.utf8ByteSize_append]
      omega

theorem Sound.store {t : BoundedText} (h : t.Sound) {s : String}
    (hs : s.utf8ByteSize ≤ t.remaining) : (t.store s).Sound := by
  constructor
  · have hsize := h.1
    simp only [size, BoundedText.store, String.utf8ByteSize_append, limit, remaining] at *
    omega
  · exact h.2

theorem Sound.clear {t : BoundedText} (h : t.Sound) : t.clear.Sound := by
  constructor
  · simp [BoundedText.clear, size]
  · exact h.2

theorem Sound.set {t : BoundedText} (h : t.Sound) (s : String) : (t.set s).2.Sound :=
  h.clear.store (size_fit_le t.clear s)

theorem Sound.append {t : BoundedText} (h : t.Sound) (separator token : String) :
    (t.append separator token).2.Sound :=
  h.store (size_entry_le t separator token)

theorem entry_eq_piece {t : BoundedText} {separator token : String}
    (h : (t.content ++ GrowableText.piece t.content separator token).utf8ByteSize ≤ t.limit) :
    t.entry separator token = GrowableText.piece t.content separator token := by
  rw [String.utf8ByteSize_append] at h
  unfold GrowableText.piece at h ⊢
  by_cases htoken : token = ""
  · simp [htoken]
  · simp only [htoken, if_false] at h ⊢
    by_cases hcontent : t.content = ""
    · simp only [hcontent, if_true] at h ⊢
      simp only [entry, hcontent, if_true, fit]
      exact Utf8.takeBytes_of_size_le (by simp only [remaining, size, hcontent]; omega)
    · simp only [hcontent, if_false, String.utf8ByteSize_append] at h ⊢
      have hcut : Utf8.takeBytes (t.remaining - separator.utf8ByteSize) token = token :=
        Utf8.takeBytes_of_size_le (by simp only [remaining, size]; omega)
      simp [entry, hcontent, hcut, htoken]

theorem set_of_size_le {t : BoundedText} {s : String} (h : s.utf8ByteSize ≤ t.limit) :
    t.set s = (s.utf8ByteSize, { t with content := s }) := by
  have hfit : t.clear.fit s = s :=
    Utf8.takeBytes_of_size_le (by simpa [remaining, size, clear, limit] using h)
  show ((t.clear.fit s).utf8ByteSize, t.clear.store (t.clear.fit s)) = _
  rw [hfit]
  simp [store, clear]

end BoundedText

/-!
# Text of either kind
-/

namespace Text

def Sound : Text → Prop
  | .growable t => t.Sound
  | .bounded t => t.Sound

theorem Sound.size_lt {t : Text} (h : t.Sound) : t.size < Storage.limit := by
  cases t with
  | growable t => exact Nat.lt_of_le_of_lt h.1 h.2
  | bounded t =>
      have hle : t.size ≤ t.capacity - 1 := h.1
      have hlt : t.capacity < Storage.limit := h.2
      show t.size < Storage.limit
      omega

theorem withCapacity_eq_ok {capacity : Nat} {t : Text} (h : withCapacity capacity = .ok t) :
    t = .bounded { capacity } ∧ capacity < Storage.limit := by
  unfold withCapacity at h
  cases hbounded : BoundedText.withCapacity capacity with
  | error e => rw [hbounded] at h; cases h
  | ok b =>
      rw [hbounded] at h
      cases h
      rcases BoundedText.withCapacity_eq_ok hbounded with ⟨rfl, hlimit⟩
      exact ⟨rfl, hlimit⟩

theorem sound_withCapacity {capacity : Nat} {t : Text} (h : withCapacity capacity = .ok t) :
    t.Sound := by
  rcases withCapacity_eq_ok h with ⟨rfl, hlimit⟩
  exact ⟨Nat.zero_le _, hlimit⟩

theorem sound_copyOf {s : String} {t : Text} (h : copyOf s = .ok t) : t.Sound := by
  unfold copyOf at h
  cases hcopy : GrowableText.copyOf s with
  | error e => rw [hcopy] at h; cases h
  | ok copy =>
      rw [hcopy] at h
      cases h
      exact GrowableText.sound_copyOf hcopy

theorem Sound.set {t : Text} (h : t.Sound) (s : String) : (t.set s).state.Sound := by
  cases t with
  | growable t => exact GrowableText.Sound.set h s
  | bounded t => exact BoundedText.Sound.set h s

theorem Sound.append {t : Text} (h : t.Sound) (separator token : String) :
    (t.append separator token).state.Sound := by
  cases t with
  | growable t => exact GrowableText.Sound.append h separator token
  | bounded t => exact BoundedText.Sound.append h separator token

theorem Sound.clear {t : Text} (h : t.Sound) : t.clear.Sound := by
  cases t with
  | growable t => exact GrowableText.Sound.clear h
  | bounded t => exact BoundedText.Sound.clear h

theorem size_append_of_ok {t : Text} {separator token : String} {n : Nat}
    (h : (t.append separator token).result = .ok n) :
    (t.append separator token).state.size = t.size + n := by
  cases t with
  | growable t =>
      rcases GrowableText.append_of_ok h with ⟨hcontent, hn⟩
      show (t.append separator token).state.content.utf8ByteSize = _
      rw [hcontent, String.utf8ByteSize_append, hn]
      rfl
  | bounded t =>
      cases h
      show (t.content ++ t.entry separator token).utf8ByteSize = _
      rw [String.utf8ByteSize_append]
      rfl

theorem state_append_of_error {t : Text} {separator token : String} {e : StorageError}
    (h : (t.append separator token).result = .error e) :
    (t.append separator token).state = t := by
  cases t with
  | growable t => exact congrArg Text.growable (GrowableText.state_append_of_error h)
  | bounded t => cases h

/-!
# Copies
-/

theorem copyOf_eq_ok {s : String} {t : Text} (h : copyOf s = .ok t) :
    t.content = s ∧ t.isBounded = false := by
  unfold copyOf GrowableText.copyOf at h
  cases hroom : Storage.grow? 0 0 s.utf8ByteSize with
  | none => simp [hroom, Except.map] at h
  | some room =>
      simp only [hroom, Except.map, Except.ok.injEq] at h
      subst h
      exact ⟨rfl, rfl⟩

theorem capacity?_of_isBounded {t : Text} (h : t.isBounded = false) : t.capacity? = none := by
  cases t with
  | growable t => rfl
  | bounded t => cases h

theorem isBounded_of_capacity? {t : Text} {capacity : Nat} (h : t.capacity? = some capacity) :
    t.isBounded = true := by
  cases t with
  | growable t => cases h
  | bounded t => rfl

theorem snapshot_of_sound {t : Text} (h : t.Sound) :
    t.snapshot = .ok (.growable ⟨t.content, t.size⟩) := by
  have hcopy : GrowableText.copyOf t.content = .ok ⟨t.content, t.size⟩ :=
    (GrowableText.copyOf_eq t.content).trans (if_pos h.size_lt)
  rw [snapshot, copyOf, hcopy]
  rfl

theorem content_snapshot {t copy : Text} (h : t.snapshot = .ok copy) :
    copy.content = t.content := (copyOf_eq_ok h).1

theorem isBounded_snapshot {t copy : Text} (h : t.snapshot = .ok copy) :
    copy.isBounded = false := (copyOf_eq_ok h).2

theorem snapshot_of_snapshot {t copy : Text} (h : t.snapshot = .ok copy) :
    copy.snapshot = .ok copy := by
  unfold snapshot at h ⊢
  rwa [(copyOf_eq_ok h).1]

end Text

/-!
# Text fields
-/

namespace TextField

def Sound (field : TextField) : Prop := ∀ t, field = some t → t.Sound

theorem sound_none : Sound none := by
  intro t h
  cases h

theorem sound_some {t : Text} (h : t.Sound) : Sound (some t) := by
  intro u hu
  cases hu
  exact h

theorem withCapacity_eq_ok {resource : Resource} {capacity : Nat} {field : TextField}
    (h : withCapacity resource capacity = .ok field) :
    field = some (.bounded { capacity }) := by
  unfold withCapacity at h
  cases htext : Text.withCapacity capacity with
  | error e => simp [htext] at h
  | ok t =>
      simp only [htext, Except.ok.injEq] at h
      rw [← h, (Text.withCapacity_eq_ok htext).1]

theorem sound_withCapacity {resource : Resource} {capacity : Nat} {field : TextField}
    (h : withCapacity resource capacity = .ok field) : Sound field := by
  unfold withCapacity at h
  cases htext : Text.withCapacity capacity with
  | error e => simp [htext] at h
  | ok t =>
      simp only [htext, Except.ok.injEq] at h
      subst h
      exact sound_some (Text.sound_withCapacity htext)

theorem sound_create (s : String) : Sound (create s).state := by
  unfold create
  cases hcopy : Text.copyOf s with
  | error e => exact sound_none
  | ok t => exact sound_some (Text.sound_copyOf hcopy)

theorem Sound.assign {field : TextField} (h : Sound field) (s : String) :
    Sound (assign field s).state := by
  cases field with
  | none => exact sound_create s
  | some t => exact sound_some ((h t rfl).set s)

theorem Sound.append {field : TextField} (h : Sound field) (separator token : String) :
    Sound (append field separator token).state := by
  cases field with
  | none =>
      by_cases htoken : token = ""
      · simpa [TextField.append, htoken] using sound_none
      · simpa [TextField.append, htoken] using sound_create token
  | some t => exact sound_some ((h t rfl).append separator token)

theorem Sound.clear {field : TextField} (h : Sound field) : Sound (clear field) := by
  cases field with
  | none => exact sound_none
  | some t => exact sound_some (h t rfl).clear

theorem create_of_ok {s : String} {n : Nat} (h : (create s).result = .ok n) :
    ∃ t : Text, (create s).state = some t ∧ t.content = s ∧ n = s.utf8ByteSize := by
  unfold create at h ⊢
  cases hcopy : Text.copyOf s with
  | error e => simp [hcopy] at h
  | ok t =>
      simp only [hcopy, Outcome.result_done, Except.ok.injEq] at h
      exact ⟨t, rfl, (Text.copyOf_eq_ok hcopy).1, h.symm⟩

theorem size_append_of_ok {field : TextField} {separator token : String} {n : Nat}
    (h : (append field separator token).result = .ok n) :
    (content (append field separator token).state).utf8ByteSize =
      (content field).utf8ByteSize + n := by
  cases field with
  | none =>
      by_cases htoken : token = ""
      · simp only [append, htoken, if_true, Outcome.result_done, Except.ok.injEq] at h
        simp [append, htoken, ← h]
      · simp only [append, htoken, if_false] at h ⊢
        rcases create_of_ok h with ⟨t, hstate, hcontent, hsize⟩
        rw [hstate, hsize]
        show t.content.utf8ByteSize = "".utf8ByteSize + token.utf8ByteSize
        simp [hcontent]
  | some t => exact Text.size_append_of_ok h

theorem state_append_of_error {field : TextField} {separator token : String}
    {e : StorageError} (h : (append field separator token).result = .error e) :
    (append field separator token).state = field := by
  cases field with
  | none =>
      by_cases htoken : token = ""
      · simp [append, htoken] at h
      · simp only [append, htoken, if_false] at h ⊢
        unfold create at h ⊢
        cases hcopy : Text.copyOf token with
        | error e => rfl
        | ok t => simp [hcopy] at h
  | some t => exact congrArg some (Text.state_append_of_error h)

/-!
# Copies of text fields
-/

theorem snapshot_some_eq_ok {resource : Resource} {t : Text} {copy : TextField}
    (h : snapshot resource (some t) = .ok copy) :
    ∃ text : Text, t.snapshot = .ok text ∧ copy = some text := by
  unfold snapshot at h
  cases htext : t.snapshot with
  | error e => simp [htext] at h
  | ok text =>
      simp only [htext, Except.ok.injEq] at h
      exact ⟨text, rfl, h.symm⟩

theorem content?_snapshot {resource : Resource} {field copy : TextField}
    (h : snapshot resource field = .ok copy) : content? copy = content? field := by
  cases field with
  | none =>
      cases h
      rfl
  | some t =>
      rcases snapshot_some_eq_ok h with ⟨text, htext, rfl⟩
      exact congrArg some (Text.content_snapshot htext)

theorem isBounded_of_snapshot {resource : Resource} {field copy : TextField}
    (h : snapshot resource field = .ok copy) :
    ∀ t, copy = some t → t.isBounded = false := by
  intro t ht
  cases field with
  | none =>
      cases h
      cases ht
  | some source =>
      rcases snapshot_some_eq_ok h with ⟨text, htext, rfl⟩
      cases ht
      exact Text.isBounded_snapshot htext

theorem sound_snapshot {resource : Resource} {field copy : TextField}
    (h : snapshot resource field = .ok copy) : Sound copy := by
  cases field with
  | none =>
      cases h
      exact sound_none
  | some t =>
      rcases snapshot_some_eq_ok h with ⟨text, htext, rfl⟩
      exact sound_some (Text.sound_copyOf htext)

theorem snapshot_of_snapshot {resource : Resource} {field copy : TextField}
    (h : snapshot resource field = .ok copy) : snapshot resource copy = .ok copy := by
  cases field with
  | none =>
      cases h
      rfl
  | some t =>
      rcases snapshot_some_eq_ok h with ⟨text, htext, rfl⟩
      simp [snapshot, Text.snapshot_of_snapshot htext]

end TextField
end Disassembly
