import Mathlib
import Protobuf.Wire.Reader

/-!
# Reads and the bytes they take

A read that succeeds takes some bytes from the front of what is left. For the
reads of this library nothing else matters: neither where the bytes stand nor
what follows them. `Reads` says this of given bytes, and `Determined` says that
every success of a read is of this kind. `Refuses` is the one other outcome that
well-formed bytes can have, too much nesting.
-/

namespace Protobuf.Wire

open List

variable {α β : Type}

variable {r r' : Reader} {depth : Nat}

lemma Read.bind_ok {x : Read α} {f : α → Read β} {a : α} (h : x r = .ok a r') :
    (x >>= f) r = f a r' := by
  change EStateM.bind x f r = _
  simp only [EStateM.bind, h]

lemma Read.bind_error {x : Read α} {f : α → Read β} {e : DecodeError} (h : x r = .error e r') :
    (x >>= f) r = .error e r' := by
  change EStateM.bind x f r = _
  simp only [EStateM.bind, h]

/-- A sequence of two reads succeeds exactly if both do, one after the other. -/
lemma Read.bind_eq_ok {x : Read α} {f : α → Read β} {b : β} :
    (x >>= f) r = .ok b r' ↔ ∃ a r₁, x r = .ok a r₁ ∧ f a r₁ = .ok b r' := by
  change EStateM.bind x f r = _ ↔ _
  unfold EStateM.bind
  cases h : x r <;> simp

lemma Reader.position_ok (pos : Nat) (rest : List UInt8) (depth : Nat) :
    Reader.position ⟨pos, rest, depth⟩ = .ok pos ⟨pos, rest, depth⟩ :=
  rfl

lemma Read.get_ok (r : Reader) : (get : Read Reader) r = .ok r r :=
  rfl

lemma Read.modify_ok (f : Reader → Reader) (r : Reader) : (modify f : Read Unit) r = .ok () (f r) :=
  rfl

/-- Entering a message or a group at a depth within the limit raises the depth. -/
lemma Reader.descend_of_lt (hdepth : depth < recursionLimit) (pos : Nat) (rest : List UInt8) :
    Reader.descend ⟨pos, rest, depth⟩ = .ok () ⟨pos, rest, depth + 1⟩ := by
  simp only [Reader.descend, Nat.not_le.mpr hdepth, if_false]

lemma Reader.descend_of_le (hdepth : recursionLimit ≤ depth) (pos : Nat) (rest : List UInt8) :
    Reader.descend ⟨pos, rest, depth⟩ =
      .error (.recursionLimit pos recursionLimit) ⟨pos, rest, depth⟩ := by
  simp only [Reader.descend, hdepth, if_true]

lemma Reader.descend_eq_ok {pos : Nat} {rest : List UInt8}
    (h : Reader.descend ⟨pos, rest, depth⟩ = .ok () r) :
    depth < recursionLimit ∧ r = ⟨pos, rest, depth + 1⟩ := by
  by_cases hdepth : depth < recursionLimit
  · rw [Reader.descend_of_lt hdepth] at h
    cases h
    exact ⟨hdepth, rfl⟩
  · rw [Reader.descend_of_le (Nat.not_lt.mp hdepth)] at h
    cases h

/-- The read takes exactly `bytes`, at whatever position they stand and whatever follows them, and
gives `a` without a change of depth. -/
def Reads (x : Read α) (depth : Nat) (bytes : List UInt8) (a : α) : Prop :=
  ∀ pos rest, x ⟨pos, bytes ++ rest, depth⟩ = .ok a ⟨pos + bytes.length, rest, depth⟩

/-- The read does not get past `bytes`, because something in them is nested too deeply. -/
def Refuses (x : Read α) (depth : Nat) (bytes : List UInt8) : Prop :=
  ∀ pos rest, ∃ offset r,
    x ⟨pos, bytes ++ rest, depth⟩ = .error (.recursionLimit offset recursionLimit) r

/-- The bytes hold a value in which messages are nested `levels` deep: it is read if the nesting
limit allows for that many levels below `depth`, and refused otherwise. -/
def ReadsNested (x : Read α) (depth : Nat) (bytes : List UInt8) (a : α) (levels : Nat) : Prop :=
  (depth + levels ≤ recursionLimit → Reads x depth bytes a) ∧
    (recursionLimit < depth + levels → Refuses x depth bytes)

/-- Whenever the read succeeds, it has taken bytes that alone decide the result. -/
def Determined (x : Read α) : Prop :=
  ∀ pos rest depth a r, x ⟨pos, rest, depth⟩ = .ok a r →
    ∃ taken left, rest = taken ++ left ∧ r = ⟨pos + taken.length, left, depth⟩ ∧
      Reads x depth taken a

namespace Reads

variable {x : Read α} {f : α → Read β} {depth : Nat} {bytes more : List UInt8} {a : α} {b : β}

protected lemma pure (depth : Nat) (a : α) : Reads (pure a) depth [] a :=
  fun _ _ => rfl

section

variable (hx : Reads x depth bytes a)

include hx

protected lemma bind (hf : Reads (f a) depth more b) : Reads (x >>= f) depth (bytes ++ more) b := by
  intro pos rest
  rw [append_assoc, Read.bind_ok (hx pos (more ++ rest)), hf]
  simp only [length_append, Nat.add_assoc]

lemma bind_pure (hf : f a = pure b) : Reads (x >>= f) depth bytes b := by
  have h := Reads.bind (f := f) hx (hf ▸ Reads.pure depth b)
  rwa [append_nil] at h

protected lemma map (g : α → β) : Reads (do return g (← x)) depth bytes (g a) :=
  hx.bind_pure rfl

lemma unique {b' : List UInt8} {a' : α} {rest rest' : List UInt8} (hx' : Reads x depth b' a')
    (h : bytes ++ rest = b' ++ rest') : bytes = b' ∧ rest = rest' ∧ a = a' := by
  have hsame := hx 0 rest
  rw [h, hx' 0 rest'] at hsame
  simp only [EStateM.Result.ok.injEq, Reader.mk.injEq, Nat.zero_add, and_true] at hsame
  obtain ⟨rfl, hlength, rfl⟩ := hsame
  exact ⟨(append_inj h hlength.symm).1, rfl, rfl⟩

end

end Reads

namespace Refuses

variable {x : Read α} {depth : Nat} {bytes : List UInt8}

lemma bind_left (hx : Refuses x depth bytes) (f : α → Read β) : Refuses (x >>= f) depth bytes := by
  intro pos rest
  obtain ⟨offset, r, h⟩ := hx pos rest
  exact ⟨offset, r, Read.bind_error h⟩

end Refuses

namespace ReadsNested

variable {x : Read α} {f : α → Read β} {depth k : Nat} {bytes : List UInt8} {a : α} {b : β}

/-- What is read at a depth within the limit holds no nested messages. -/
lemma of_reads (hx : Reads x depth bytes a) (hdepth : depth ≤ recursionLimit) :
    ReadsNested x depth bytes a 0 :=
  ⟨fun _ => hx, fun h => absurd h (by omega)⟩

lemma bind_pure (hx : ReadsNested x depth bytes a k) (hf : f a = pure b) :
    ReadsNested (x >>= f) depth bytes b k :=
  ⟨fun h => (hx.1 h).bind_pure hf, fun h => (hx.2 h).bind_left f⟩

protected lemma map (hx : ReadsNested x depth bytes a k) (g : α → β) :
    ReadsNested (do return g (← x)) depth bytes (g a) k :=
  hx.bind_pure rfl

end ReadsNested

namespace Determined

variable {x : Read α} {f : α → Read β}

protected lemma pure (a : α) : Determined (pure a) := by
  intro pos rest depth b r h
  cases h
  exact ⟨[], rest, rfl, rfl, Reads.pure depth a⟩

protected lemma bind (hx : Determined x) (hf : ∀ a, Determined (f a)) : Determined (x >>= f) := by
  intro pos rest depth b r h
  obtain ⟨a, r₁, h₁, h₂⟩ := Read.bind_eq_ok.mp h
  obtain ⟨taken₁, left₁, rfl, rfl, hreads₁⟩ := hx pos rest depth a r₁ h₁
  obtain ⟨taken₂, left₂, rfl, rfl, hreads₂⟩ := hf a _ _ _ _ _ h₂
  refine ⟨taken₁ ++ taken₂, left₂, (append_assoc ..).symm, ?_, hreads₁.bind hreads₂⟩
  simp only [length_append, Nat.add_assoc]

protected lemma map (hx : Determined x) (g : α → β) : Determined (do return g (← x)) :=
  hx.bind fun a => Determined.pure (g a)

lemma exists_of_reads_map (hx : Determined x) {g : α → β} {depth : Nat} {bytes : List UInt8}
    {b : β} (h : Reads (do return g (← x)) depth bytes b) :
    ∃ a, Reads x depth bytes a ∧ g a = b := by
  obtain ⟨a, r, hread, hpure⟩ := Read.bind_eq_ok.mp (h 0 [])
  obtain ⟨taken, left, htaken, rfl, hreads⟩ := hx _ _ _ _ _ hread
  have hend := (EStateM.Result.ok.injEq ..).mp hpure
  have hleft : left = [] := congrArg Reader.rest hend.2
  rw [hleft, append_nil, append_nil] at htaken
  exact ⟨a, htaken ▸ hreads, hend.1⟩

end Determined

end Protobuf.Wire
