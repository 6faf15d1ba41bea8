import Protobuf.Proofs.Wire.CheckedLoops

/-!
# Readers in lockstep

Two readers go in lockstep if they take the same bytes, fail with the same errors
and otherwise give results that are related. Loops keep lockstep if their bodies
do.
-/

namespace Protobuf.Wire

variable {α β γ δ σ τ : Type}

/-- From every state, both readers fail with one error or both succeed with related results, and
they end in the same state. -/
def Lockstep (R : α → β → Prop) (x : Read α) (y : Read β) : Prop :=
  ∀ r, (∃ e r', x r = .error e r' ∧ y r = .error e r') ∨
    ∃ a b r', x r = .ok a r' ∧ y r = .ok b r' ∧ R a b

namespace Lockstep

variable {R : α → β → Prop} {S : γ → δ → Prop} {x : Read α} {y : Read β}

lemma refl (x : Read α) : Lockstep (fun a b => a = b) x x := by
  intro r
  cases h : x r with
  | ok a r' => exact .inr ⟨a, a, r', rfl, rfl, rfl⟩
  | error e r' => exact .inl ⟨e, r', rfl, rfl⟩

lemma mono {Q : α → β → Prop} (hx : Lockstep R x y) (hQ : ∀ a b, R a b → Q a b) :
    Lockstep Q x y := by
  intro r
  rcases hx r with herror | ⟨a, b, r', hxr, hyr, hab⟩
  · exact .inl herror
  · exact .inr ⟨a, b, r', hxr, hyr, hQ a b hab⟩

lemma pure {a : α} {b : β} (h : R a b) : Lockstep R (pure a) (pure b) :=
  fun r => .inr ⟨a, b, r, rfl, rfl, h⟩

lemma bind (hx : Lockstep R x y) {f : α → Read γ} {g : β → Read δ}
    (hf : ∀ a b, R a b → Lockstep S (f a) (g b)) : Lockstep S (x >>= f) (y >>= g) := by
  intro r
  change (∃ e r', EStateM.bind x f r = _ ∧ EStateM.bind y g r = _) ∨
    ∃ a b r', EStateM.bind x f r = _ ∧ EStateM.bind y g r = _ ∧ _
  unfold EStateM.bind
  rcases hx r with ⟨e, r', hxr, hyr⟩ | ⟨a, b, r', hxr, hyr, hab⟩
  · rw [hxr, hyr]
    exact .inl ⟨e, r', rfl, rfl⟩
  · rw [hxr, hyr]
    exact hf a b hab r'

lemma bind_left (x : Read α) {f : α → Read γ} {g : α → Read δ}
    (hf : ∀ a, Lockstep S (f a) (g a)) : Lockstep S (x >>= f) (x >>= g) := by
  refine (refl x).bind ?_
  rintro a _ rfl
  exact hf a

lemma map (hx : Lockstep R x y) {f : α → γ} {g : β → δ} (hf : ∀ a b, R a b → S (f a) (g b)) :
    Lockstep S (do return f (← x)) (do return g (← y)) :=
  hx.bind fun a b hab => .pure (hf a b hab)

lemma ascending (hx : Lockstep R x y) : Lockstep R (Reader.ascending x) (Reader.ascending y) := by
  intro r
  unfold Reader.ascending
  rcases hx r with ⟨e, r', hxr, hyr⟩ | ⟨a, b, r', hxr, hyr, hab⟩
  · rw [hxr, hyr]
    exact .inl ⟨e, _, rfl, rfl⟩
  · rw [hxr, hyr]
    exact .inr ⟨a, b, _, rfl, rfl, hab⟩

lemma message {decode : Option Nat → Read α} {decode' : Option Nat → Read β}
    (h : ∀ length, Lockstep R (decode length) (decode' length)) :
    Lockstep R (Reader.message decode) (Reader.message decode') :=
  bind_left _ fun _ => bind_left _ fun _ => (h _).ascending

variable {Q : σ → τ → Prop} {s : σ} {t : τ}

lemma iterate {body : σ → Read σ} {body' : τ → Read τ}
    (hbody : ∀ s t, Q s t → Lockstep Q (body s) (body' t)) (stop fuel : Nat) (hst : Q s t) :
    Lockstep Q (Reader.iterate stop body fuel s) (Reader.iterate stop body' fuel t) := by
  induction fuel generalizing s t with
  | zero => exact .pure hst
  | succ fuel ih =>
    refine bind_left _ fun pos => ?_
    by_cases hpos : pos < stop
    · rw [if_pos hpos, if_pos hpos]
      exact (hbody s t hst).bind fun s t hst => ih hst
    · rw [if_neg hpos, if_neg hpos]
      exact .pure hst

/-- Frames are read in lockstep if their records are. -/
lemma frame {field : (number wireType : Nat) → σ → Read σ}
    {field' : (number wireType : Nat) → τ → Read τ}
    (hfield : ∀ number wireType s t, Q s t →
      Lockstep Q (field number wireType s) (field' number wireType t))
    (length : Option Nat) (hst : Q s t) :
    Lockstep Q (Reader.frame field length s) (Reader.frame field' length t) := by
  refine bind_left _ fun stop => bind_left _ fun r => ?_
  rw [Reader.records_eq_iterate, Reader.records_eq_iterate]
  refine (iterate (fun s t hst => ?_) stop _ hst).bind fun s t hst => ?_
  · exact bind_left _ fun tag => hfield _ _ s t hst
  · exact bind_left _ fun _ => .pure hst

lemma itemsUntil (hx : Lockstep R x y) (stop fuel : Nat) :
    Lockstep (List.Forall₂ R) (Reader.itemsUntil x stop fuel [])
      (Reader.itemsUntil y stop fuel []) := by
  rw [Reader.itemsUntil_eq_iterate, Reader.itemsUntil_eq_iterate]
  have hbody (as : List α) (bs : List β) (h : List.Forall₂ R as bs) :
      Lockstep (List.Forall₂ R) (do return (← x) :: as) (do return (← y) :: bs) :=
    hx.map fun _ _ hab => .cons hab h
  exact (iterate hbody stop fuel .nil).map fun _ _ h => List.rel_reverse h

end Lockstep

end Protobuf.Wire
