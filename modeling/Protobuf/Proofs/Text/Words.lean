import Mathlib
import Protobuf.Text.Words

/-!
# Capitalized words

Underscores are cut out of a name when its words are capitalized, but for those that
share a cluster with another character. `pascalWords_eq_append` says what is left
beside such an underscore: a mark after it, or a character of the class Prepend
before it.
-/

namespace Protobuf.Text

open List

/-! ## Changing case -/

lemma inSpans_eq_some {spans : List (Nat × Nat × Nat × Nat)} {n m : Nat}
    (h : inSpans spans n = some m) :
    ∃ span ∈ spans, span.1 ≤ n ∧ n ≤ span.2.1 ∧ m = span.2.2.2 + (n - span.1) := by
  induction spans with
  | nil => cases h
  | cons span spans ih =>
    rw [inSpans] at h
    split_ifs at h with hin
    · exact ⟨span, mem_cons_self .., hin.1, hin.2.1, (Option.some.inj h).symm⟩
    · obtain ⟨other, hother, hrest⟩ := ih h
      exact ⟨other, mem_cons_of_mem _ hother, hrest⟩

lemma upperSpans_image {n m : Nat} (hn : 128 ≤ n) (h : inSpans upperSpans n = some m) :
    (65 ≤ m ∧ m ≤ 90) ∨ 122 < m := by
  have hspans : ∀ span ∈ upperSpans, span.2.1 < 128 ∨ 122 < span.2.2.2 ∨
      (span.1 = span.2.1 ∧ 65 ≤ span.2.2.2 ∧ span.2.2.2 ≤ 90) := by decide +kernel
  obtain ⟨span, hspan, hfirst, hlast, rfl⟩ := inSpans_eq_some h
  have := hspans span hspan
  omega

lemma lowerSpans_image {n m : Nat} (hn : 128 ≤ n) (h : inSpans lowerSpans n = some m) :
    m = 107 ∨ 122 < m := by
  have hspans : ∀ span ∈ lowerSpans, span.2.1 < 128 ∨ 122 < span.2.2.2 ∨
      (span.1 = span.2.1 ∧ span.2.2.2 = 107) := by decide +kernel
  obtain ⟨span, hspan, hfirst, hlast, rfl⟩ := inSpans_eq_some h
  have := hspans span hspan
  omega

variable {c d : Char}

lemma char_le_iff : c ≤ d ↔ c.toNat ≤ d.toNat :=
  Iff.rfl

lemma toNat_ofNat_cases (n : Nat) : (Char.ofNat n).toNat = n ∨ (Char.ofNat n).toNat = 0 := by
  unfold Char.ofNat
  split
  · exact .inl rfl
  · exact .inr rfl

lemma mem_upperChar (hc : 128 ≤ c.toNat) (h : d ∈ upperChar c) :
    d.toNat = 0 ∨ (65 ≤ d.toNat ∧ d.toNat ≤ 90) ∨ 122 < d.toNat := by
  have hsequences : ∀ e ∈ upperSequences, ∀ n ∈ e.2, (65 ≤ n ∧ n ≤ 90) ∨ 122 < n := by
    decide +kernel
  have hsmall : ¬ ('a' ≤ c ∧ c ≤ 'z') := by
    rw [char_le_iff, char_le_iff]
    change ¬ (97 ≤ c.toNat ∧ c.toNat ≤ 122)
    omega
  rw [upperChar, if_neg hsmall, if_neg (by omega)] at h
  obtain ⟨n, hn, hrange⟩ : ∃ n, d = Char.ofNat n ∧ ((65 ≤ n ∧ n ≤ 90) ∨ 122 < n) := by
    split at h
    · rename_i ns hns
      obtain ⟨n, hn, rfl⟩ := mem_map.mp h
      obtain ⟨before, after, heq, -⟩ := lookup_eq_some_iff.mp hns
      exact ⟨n, rfl, hsequences (c.toNat, ns) (by simp [heq]) n hn⟩
    · refine ⟨_, mem_singleton.mp h, ?_⟩
      cases hspan : inSpans upperSpans c.toNat with
      | none => exact .inr (by simp only [Option.getD_none]; omega)
      | some m => exact upperSpans_image hc hspan
  have := toNat_ofNat_cases n
  rw [hn]
  omega

lemma mem_lowerChar (hc : 128 ≤ c.toNat) (h : d ∈ lowerChar c) :
    d.toNat = 0 ∨ d.toNat = 105 ∨ d.toNat = 107 ∨ 122 < d.toNat := by
  have hsequences : ∀ e ∈ lowerSequences, ∀ n ∈ e.2, n = 105 ∨ 122 < n := by decide +kernel
  have hcapital : ¬ ('A' ≤ c ∧ c ≤ 'Z') := by
    rw [char_le_iff, char_le_iff]
    change ¬ (65 ≤ c.toNat ∧ c.toNat ≤ 90)
    omega
  rw [lowerChar, if_neg hcapital, if_neg (by omega)] at h
  obtain ⟨n, hn, hrange⟩ : ∃ n, d = Char.ofNat n ∧ (n = 105 ∨ n = 107 ∨ 122 < n) := by
    split at h
    · rename_i ns hns
      obtain ⟨n, hn, rfl⟩ := mem_map.mp h
      obtain ⟨before, after, heq, -⟩ := lookup_eq_some_iff.mp hns
      have := hsequences (c.toNat, ns) (by simp [heq]) n hn
      exact ⟨n, rfl, by omega⟩
    · refine ⟨_, mem_singleton.mp h, ?_⟩
      cases hspan : inSpans lowerSpans c.toNat with
      | none => exact .inr (.inr (by simp only [Option.getD_none]; omega))
      | some m => exact .inr (lowerSpans_image hc hspan)
  have := toNat_ofNat_cases n
  rw [hn]
  omega

/-- What a character can become when the case of a text is changed. -/
inductive IsImage (c : Char) : List Char → Prop
  | upper : IsImage c (upperChar c)
  | lower : IsImage c (lowerChar c)
  | sigma {n : Nat} : c.toNat = 0x3A3 → n = 0x3C2 ∨ n = 0x3C3 → IsImage c [Char.ofNat n]

namespace IsImage

variable {c : Char} {image : List Char}

lemma ne_nil (h : IsImage c image) : image ≠ [] := by
  have hupper : ∀ e ∈ upperSequences, e.2 ≠ [] := by decide +kernel
  have hlower : ∀ e ∈ lowerSequences, e.2 ≠ [] := by decide +kernel
  cases h with
  | upper =>
    unfold upperChar
    split_ifs
    · simp
    · simp
    · split
      · rename_i ns hns
        obtain ⟨before, after, heq, -⟩ := lookup_eq_some_iff.mp hns
        simpa using hupper (c.toNat, ns) (by simp [heq])
      · simp
  | lower =>
    unfold lowerChar
    split_ifs
    · simp
    · simp
    · split
      · rename_i ns hns
        obtain ⟨before, after, heq, -⟩ := lookup_eq_some_iff.mp hns
        simpa using hlower (c.toNat, ns) (by simp [heq])
      · simp
  | sigma => simp

lemma of_mem (h : IsImage c image) (hc : 128 ≤ c.toNat) {d : Char} (hd : d ∈ image) :
    d ≠ '_' ∧ d ≠ 'd' ∧ d.isDigit = false := by
  have hrange : d.toNat = 0 ∨ (65 ≤ d.toNat ∧ d.toNat ≤ 90) ∨ d.toNat = 105 ∨ d.toNat = 107 ∨
      122 < d.toNat := by
    cases h with
    | upper => have := mem_upperChar hc hd; omega
    | lower => have := mem_lowerChar hc hd; omega
    | sigma _ hn =>
      rw [mem_singleton] at hd
      have hsigma : (Char.ofNat 0x3C2).toNat = 0x3C2 ∧ (Char.ofNat 0x3C3).toNat = 0x3C3 := by
        decide
      rcases hn with rfl | rfl <;> rw [hd] <;> omega
  refine ⟨?_, ?_, ?_⟩
  · rintro rfl
    simp at hrange
  · rintro rfl
    simp at hrange
  · rw [Char.isDigit, Bool.and_eq_false_iff, decide_eq_false_iff_not, decide_eq_false_iff_not]
    change ¬ 48 ≤ d.toNat ∨ ¬ d.toNat ≤ 57
    omega

/-- An ASCII character becomes one character, which is an underscore only if it was one. -/
lemma of_lt (h : IsImage c image) (hc : c.toNat < 128) :
    ∃ d, image = [d] ∧ (d = '_' → c = '_') := by
  have hshift (n : Nat) (hn : n ≤ 90 ∨ 97 ≤ n) (hd : Char.ofNat n = '_') : False := by
    have hnat := congrArg Char.toNat hd
    have := toNat_ofNat_cases n
    simp at hnat
    omega
  cases h with
  | upper =>
    unfold upperChar
    split_ifs with hsmall
    · refine ⟨_, rfl, fun hd => (hshift _ ?_ hd).elim⟩
      rw [char_le_iff, char_le_iff] at hsmall
      change 97 ≤ c.toNat ∧ c.toNat ≤ 122 at hsmall
      omega
    · exact ⟨c, rfl, id⟩
  | lower =>
    unfold lowerChar
    split_ifs with hcapital
    · refine ⟨_, rfl, fun hd => (hshift _ ?_ hd).elim⟩
      rw [char_le_iff, char_le_iff] at hcapital
      change 65 ≤ c.toNat ∧ c.toNat ≤ 90 at hcapital
      omega
    · exact ⟨c, rfl, id⟩
  | sigma hsigma => omega

lemma of_underscore (h : IsImage c image) (hd : '_' ∈ image) : c = '_' ∧ image = ['_'] := by
  by_cases hc : c.toNat < 128
  · obtain ⟨d, rfl, himage⟩ := h.of_lt hc
    obtain rfl := mem_singleton.mp hd
    exact ⟨himage rfl, rfl⟩
  · exact absurd rfl (h.of_mem (by omega) hd).1

end IsImage

/-- The second text is the first one with the case of its characters changed, of each by itself. -/
inductive Recased : List Char → List Char → Prop
  | nil : Recased [] []
  | cons {c : Char} {image cs ds : List Char} : IsImage c image → Recased cs ds →
      Recased (c :: cs) (image ++ ds)

namespace Recased

variable {cs cs' ds ds' : List Char}

lemma append (h : Recased cs ds) (h' : Recased cs' ds') : Recased (cs ++ cs') (ds ++ ds') := by
  induction h with
  | nil => exact h'
  | cons himage _ ih =>
    rw [append_assoc]
    exact .cons himage ih

lemma of_append (h : Recased (cs ++ cs') ds) :
    ∃ ds₁ ds₂, ds = ds₁ ++ ds₂ ∧ Recased cs ds₁ ∧ Recased cs' ds₂ := by
  induction cs generalizing ds with
  | nil => exact ⟨[], ds, rfl, .nil, h⟩
  | cons c cs ih =>
    cases h with
    | cons himage hrest =>
      obtain ⟨ds₁, ds₂, rfl, hds₁, hds₂⟩ := ih hrest
      exact ⟨_, ds₂, (append_assoc ..).symm, .cons himage hds₁, hds₂⟩

lemma of_underscore {a b : List Char} (h : Recased cs (a ++ '_' :: b)) :
    ∃ x y, cs = x ++ '_' :: y ∧ Recased x a ∧ Recased y b := by
  generalize hds : a ++ '_' :: b = ds at h
  induction h generalizing a with
  | nil => simp at hds
  | @cons c image cs ds himage hrest ih =>
    by_cases hmem : '_' ∈ image
    · obtain ⟨rfl, rfl⟩ := himage.of_underscore hmem
      cases a with
      | nil =>
        cases hds
        exact ⟨[], cs, rfl, .nil, hrest⟩
      | cons d a =>
        obtain ⟨rfl, htail⟩ := cons.inj hds
        obtain ⟨x, y, rfl, hx, hy⟩ := ih htail
        exact ⟨'_' :: x, y, rfl, .cons himage hx, hy⟩
    · -- The image ends before the underscore.
      rcases append_eq_append_iff.mp hds with ⟨t, himage', hrest'⟩ | ⟨t, rfl, hrest'⟩
      · cases t with
        | nil =>
          rw [append_nil] at himage'
          obtain ⟨x, y, rfl, hx, hy⟩ := @ih [] hrest'
          exact ⟨c :: x, y, rfl, by simpa [himage'] using Recased.cons himage hx, hy⟩
        | cons d t =>
          obtain ⟨rfl, -⟩ := cons.inj hrest'
          exact absurd (by simp [himage']) hmem
      · obtain ⟨x, y, rfl, hx, hy⟩ := ih hrest'.symm
        exact ⟨c :: x, y, rfl, .cons himage hx, hy⟩

end Recased

lemma recased_lowerFrom (before cs : List Char) : Recased cs (lowerFrom before cs) := by
  induction cs generalizing before with
  | nil => exact .nil
  | cons c cs ih =>
    rw [lowerFrom]
    refine .cons ?_ (ih _)
    split_ifs with hsigma hfinal
    · exact .sigma hsigma (.inl rfl)
    · exact .sigma hsigma (.inr rfl)
    · exact .lower

lemma recased_capitalized (word : List Char) : Recased word (capitalized word) := by
  cases word with
  | nil => exact .nil
  | cons c cs => exact .cons .upper (recased_lowerFrom [] cs)

lemma recased_flatMap_capitalized (ws : List (List (List Char))) :
    Recased ws.flatten.flatten (ws.flatMap fun w => capitalized w.flatten) := by
  induction ws with
  | nil => exact .nil
  | cons w ws ih =>
    rw [flatten_cons, flatten_append, flatMap_cons]
    exact (recased_capitalized w.flatten).append ih

/-! ## Clusters -/

/-- What is known of two characters that stand next to each other in a cluster: only a character
beyond ASCII is added to a cluster, except after a character of the class Prepend and in a line
end of two characters. -/
def Tied (c d : Char) : Prop :=
  128 ≤ d.toNat ∨ breakOf c = .prepend ∨ breakOf c = .cr ∧ breakOf d = .lf

lemma breakOf_of_lt (hc : c.toNat < 128) :
    breakOf c = .cr ∨ breakOf c = .lf ∨ breakOf c = .control ∨ breakOf c = .other := by
  unfold breakOf
  by_cases hcr : c.toNat = 13
  · exact .inl (if_pos hcr)
  · by_cases hlf : c.toNat = 10
    · exact .inr (.inl ((if_neg hcr).trans (if_pos hlf)))
    · by_cases hcontrol : inRuns controlRuns c.toNat
      · exact .inr (.inr (.inl ((if_neg hcr).trans ((if_neg hlf).trans (if_pos hcontrol)))))
      · exact .inr (.inr (.inr
          ((if_neg hcr).trans ((if_neg hlf).trans ((if_neg hcontrol).trans (if_pos hc))))))

/-- Before an ASCII character a cluster goes on only after a character of the class Prepend or in
a line end. -/
lemma tied_of_joins {s : ClusterState} (hlast : s.last = breakOf c)
    (h : s.joins (breakOf d)) : Tied c d := by
  by_cases hd : 128 ≤ d.toNat
  · exact .inl hd
  · unfold ClusterState.joins at h
    rw [hlast] at h
    unfold Tied
    rcases breakOf_of_lt (Nat.lt_of_not_le hd) with hclass | hclass | hclass | hclass <;>
      rw [hclass] at h ⊢ <;> cases hc : breakOf c <;> simp_all

lemma flatten_clustersFrom (current : List Char) (s : ClusterState) (cs : List Char) :
    (clustersFrom current s cs).flatten = current.reverse ++ cs := by
  induction cs generalizing current s with
  | nil => simp [clustersFrom]
  | cons c cs ih =>
    rw [clustersFrom]
    split_ifs
    · simp [ih]
    · simp [ih]

lemma flatten_clusters (cs : List Char) : (clusters cs).flatten = cs := by
  cases cs with
  | nil => rfl
  | cons c cs => exact flatten_clustersFrom [c] _ cs

lemma isChain_clustersFrom {current : List Char} {s : ClusterState} (hlast : s.last = breakOf c)
    (hcurrent : (c :: current).reverse.IsChain Tied) (cs : List Char) :
    ∀ g ∈ clustersFrom (c :: current) s cs, g.IsChain Tied := by
  induction cs generalizing c current s with
  | nil => simpa [clustersFrom] using hcurrent
  | cons d cs ih =>
    rw [clustersFrom]
    split_ifs with hjoins
    · refine ih rfl ?_
      have htied := tied_of_joins hlast hjoins
      rw [reverse_cons] at hcurrent
      rw [reverse_cons, reverse_cons, append_assoc]
      exact isChain_append_cons_cons.mpr ⟨hcurrent, htied, .singleton d⟩
    · intro g hg
      rcases mem_cons.mp hg with rfl | hg
      · exact hcurrent
      · exact ih rfl (.singleton d) g hg

lemma isChain_clusters (cs : List Char) : ∀ g ∈ clusters cs, g.IsChain Tied := by
  cases cs with
  | nil => simp [clusters]
  | cons c cs => exact isChain_clustersFrom rfl (.singleton c) cs

/-! ## Words -/

lemma flatten_wordsFrom (current gs : List (List Char)) :
    (wordsFrom current gs).flatten = current.reverse ++ gs.filter fun g => !isSeparator g := by
  induction gs generalizing current with
  | nil => simp [wordsFrom]
  | cons g gs ih =>
    rw [wordsFrom]
    split_ifs with hseparator hcut
    · simp [ih, hseparator]
    · simp [ih, hseparator]
    · simp [ih, hseparator]

lemma flatten_words (cs : List Char) :
    (words cs).flatten = (clusters cs).filter fun g => !isSeparator g := by
  cases cs with
  | nil => rfl
  | cons c cs => exact flatten_wordsFrom [] _

lemma exists_of_flatten_eq {gs : List (List Char)} {x y : List Char}
    (h : gs.flatten = x ++ c :: y) : ∃ before g₁ g₂ after,
      gs = before ++ (g₁ ++ c :: g₂) :: after ∧ x = before.flatten ++ g₁ ∧
        y = g₂ ++ after.flatten := by
  rcases flatten_eq_append_iff.mp h with ⟨as, bs, rfl, rfl, hbs⟩ |
    ⟨as, bs, d, ds, es, rfl, rfl, hds⟩
  · obtain ⟨empty, g, after, rfl, hempty, rfl⟩ := flatten_eq_cons_iff.mp hbs.symm
    refine ⟨as ++ empty, [], g, after, by simp, ?_, rfl⟩
    simpa [flatten_eq_nil_iff] using hempty
  · obtain ⟨rfl, rfl⟩ := cons.inj hds
    exact ⟨as, bs, ds, es, rfl, rfl, rfl⟩

/-- An underscore that is left shares a cluster with another character. -/
lemma tied_of_underscore {cs : List Char} {x y : List Char}
    (h : (words cs).flatten.flatten = x ++ '_' :: y) :
    (∃ d y', y = d :: y' ∧ Tied '_' d) ∨ ∃ x' p, x = x' ++ [p] ∧ p ∈ cs ∧ Tied p '_' := by
  rw [flatten_words] at h
  obtain ⟨before, g₁, g₂, after, hkept, rfl, rfl⟩ := exists_of_flatten_eq h
  have hcluster : g₁ ++ '_' :: g₂ ∈ (clusters cs).filter fun g => !isSeparator g := by
    simp [hkept]
  obtain ⟨hmem, hseparator⟩ := mem_filter.mp hcluster
  have hchain := isChain_clusters cs _ hmem
  cases g₂ with
  | cons d g₂ =>
    exact .inl ⟨d, g₂ ++ after.flatten, rfl, (isChain_append_cons_cons.mp hchain).2.1⟩
  | nil =>
    rcases eq_nil_or_concat g₁ with rfl | ⟨g₁, p, rfl⟩
    · exact absurd hseparator (by decide)
    · refine .inr ⟨before.flatten ++ g₁, p, by simp, ?_, ?_⟩
      · rw [← flatten_clusters cs]
        exact mem_flatten.mpr ⟨_, hmem, by simp⟩
      · rw [concat_eq_append, append_assoc] at hchain
        exact (isChain_append_cons_cons.mp hchain).2.1

/-- The character beside an underscore that is left: one that is no digit after it, or one of the
class Prepend before it, of which no `d` is left. -/
lemma pascalWords_eq_append {cs a b : List Char} (h : pascalWords cs = a ++ '_' :: b) :
    (∃ d b', b = d :: b' ∧ d.isDigit = false) ∨
      (∃ p ∈ cs, breakOf p = .prepend) ∧ ∃ a' d, a = a' ++ [d] ∧ d ≠ 'd' := by
  have hclass : breakOf '_' = .other := by decide +kernel
  have hrecased : Recased (words cs).flatten.flatten (a ++ '_' :: b) :=
    h ▸ recased_flatMap_capitalized (words cs)
  obtain ⟨x, y, hkept, hx, hy⟩ := hrecased.of_underscore
  rcases tied_of_underscore hkept with ⟨d, y', rfl, htied⟩ | ⟨x', p, rfl, hp, htied⟩
  · have hd : 128 ≤ d.toNat := by simpa [Tied, hclass] using htied
    cases hy with
    | @cons _ image _ _ himage _ =>
      obtain ⟨e, image', rfl⟩ := exists_cons_of_ne_nil himage.ne_nil
      exact .inl ⟨e, _, rfl, (himage.of_mem hd (mem_cons_self ..)).2.2⟩
  · have hprepend : breakOf p = .prepend := by simpa [Tied, hclass] using htied
    have hp' : 128 ≤ p.toNat := by
      by_contra hascii
      have := breakOf_of_lt (Nat.lt_of_not_le hascii)
      simp [hprepend] at this
    obtain ⟨ds, ds', rfl, -, hlast⟩ := hx.of_append
    cases hlast with
    | @cons _ image _ _ himage hnil =>
      cases hnil
      obtain ⟨image', e, rfl⟩ := eq_nil_or_concat image |>.resolve_left himage.ne_nil
      refine .inr ⟨⟨p, hp, hprepend⟩, ds ++ image', e, by simp, ?_⟩
      exact (himage.of_mem hp' (by simp)).2.1

lemma head_pascalWords {cs ds : List Char} (h : pascalWords cs = d :: ds) :
    ¬ ('a' ≤ d ∧ d ≤ 'z') := by
  obtain ⟨c, hc⟩ : ∃ c, d ∈ upperChar c := by
    unfold pascalWords at h
    generalize words cs = ws at h
    induction ws with
    | nil => cases h
    | cons w ws ih =>
      rw [flatMap_cons] at h
      cases hw : w.flatten with
      | nil => exact ih (by simpa [hw, capitalized] using h)
      | cons c rest =>
        obtain ⟨e, image, himage⟩ := exists_cons_of_ne_nil (IsImage.upper (c := c)).ne_nil
        rw [hw, capitalized, himage] at h
        obtain ⟨rfl, -⟩ := cons.inj h
        exact ⟨c, by simp [himage]⟩
  rw [char_le_iff, char_le_iff]
  change ¬ (97 ≤ d.toNat ∧ d.toNat ≤ 122)
  by_cases hascii : c.toNat < 128
  · unfold upperChar at hc
    split_ifs at hc with hsmall
    · rw [char_le_iff, char_le_iff] at hsmall
      change 97 ≤ c.toNat ∧ c.toNat ≤ 122 at hsmall
      have := toNat_ofNat_cases (c.toNat - 32)
      rw [mem_singleton.mp hc]
      omega
    · rw [char_le_iff, char_le_iff] at hsmall
      rw [mem_singleton.mp hc]
      exact hsmall
  · have := mem_upperChar (Nat.le_of_not_lt hascii) hc
    omega

end Protobuf.Text
