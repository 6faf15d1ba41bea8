import Protobuf.Proofs.Wire.Grammar

/-!
# What is passed over

Passing over a value succeeds exactly where the bytes begin with a value of the
wire type whose groups are nested within the limit. A value shows where it ends,
so there is only one. A tag that no value can follow is refused wherever a record
is expected, however many groups are open there.
-/

open Protobuf.Wire.Reader Protobuf.Wire.Read

namespace Protobuf.Wire

open List

/-! ## A value shows where it ends -/

section

variable {levels levels' : Nat} {bytes bytes' rest rest' : List UInt8}

lemma IsNumber.append_inj {n n' : Nat} (h : IsNumber n bytes) (h' : IsNumber n' bytes')
    (heq : bytes ++ rest = bytes' ++ rest') : n = n' ∧ bytes = bytes' ∧ rest = rest' := by
  obtain ⟨rfl, rfl, -⟩ := (reads_of_isVarint h.1 0).unique
    (reads_of_isVarint h'.1 0) heq
  exact ⟨h.2.symm.trans h'.2, rfl, rfl⟩

lemma IsPlain.append_inj {wireType : Nat} (h : IsPlain wireType bytes)
    (h' : IsPlain wireType bytes') (heq : bytes ++ rest = bytes' ++ rest') :
    bytes = bytes' ∧ rest = rest' := by
  obtain ⟨hbytes, hrest, -⟩ := (reads_skipPlain h 0).unique
    (reads_skipPlain h' 0) heq
  exact ⟨hbytes, hrest⟩

/-- Both groups begin with the same tag, which says whether they end there, and otherwise which
kind of value follows. -/
lemma IsGroup.append_inj (h : IsGroup levels bytes) (h' : IsGroup levels' bytes')
    (heq : bytes ++ rest = bytes' ++ rest') : bytes = bytes' ∧ rest = rest' := by
  induction h generalizing levels' bytes' rest rest' with
  | stop hhead hstop =>
    cases h' with
    | stop hhead' _ => exact (hhead.append_inj hhead' heq).2
    | plain hhead' hbody' _ =>
      simp only [append_assoc] at heq
      obtain ⟨rfl, -, -⟩ := hhead.append_inj hhead' heq
      exact absurd hstop hbody'.wireType_ne.2
    | group hhead' hstart' _ _ =>
      simp only [append_assoc] at heq
      obtain ⟨rfl, -, -⟩ := hhead.append_inj hhead' heq
      omega
  | plain hhead hbody _ ih =>
    simp only [append_assoc] at heq
    cases h' with
    | stop hhead' hstop' =>
      obtain ⟨rfl, -, -⟩ := hhead.append_inj hhead' heq
      exact absurd hstop' hbody.wireType_ne.2
    | plain hhead' hbody' htail' =>
      simp only [append_assoc] at heq
      obtain ⟨rfl, rfl, htail⟩ := hhead.append_inj hhead' heq
      obtain ⟨rfl, hrest⟩ := hbody.append_inj hbody' htail
      obtain ⟨rfl, rfl⟩ := ih htail' hrest
      exact ⟨rfl, rfl⟩
    | group hhead' hstart' _ _ =>
      simp only [append_assoc] at heq
      obtain ⟨rfl, -, -⟩ := hhead.append_inj hhead' heq
      exact absurd hstart' hbody.wireType_ne.1
  | group hhead hstart _ _ ihbody ihtail =>
    simp only [append_assoc] at heq
    cases h' with
    | stop hhead' hstop' =>
      obtain ⟨rfl, -, -⟩ := hhead.append_inj hhead' heq
      omega
    | plain hhead' hbody' _ =>
      simp only [append_assoc] at heq
      obtain ⟨rfl, -, -⟩ := hhead.append_inj hhead' heq
      exact absurd hstart hbody'.wireType_ne.1
    | group hhead' _ hbody' htail' =>
      simp only [append_assoc] at heq
      obtain ⟨rfl, rfl, htail⟩ := hhead.append_inj hhead' heq
      obtain ⟨rfl, hrest⟩ := ihbody hbody' htail
      obtain ⟨rfl, rfl⟩ := ihtail htail' hrest
      exact ⟨rfl, rfl⟩

lemma IsValue.append_inj {wireType : Nat} (h : IsValue wireType levels bytes)
    (h' : IsValue wireType levels' bytes') (heq : bytes ++ rest = bytes' ++ rest') :
    bytes = bytes' ∧ rest = rest' := by
  cases h with
  | plain hplain =>
    cases h' with
    | plain hplain' => exact hplain.append_inj hplain' heq
    | group => exact absurd rfl hplain.wireType_ne.1
  | group hgroup =>
    cases h' with
    | plain hplain' => exact absurd rfl hplain'.wireType_ne.1
    | group hgroup' => exact hgroup.append_inj hgroup' heq

end

/-! ## Bytes that are read are well-formed -/

namespace Reader

variable {depth : Nat} {bytes : List UInt8}

variable {rest before : List UInt8} {wireType inner : Nat}

lemma isNumber_of_reads {n : UInt32} (h : Reads uint32 depth bytes n) : IsNumber n.toNat bytes := by
  obtain ⟨m, hvarint, -⟩ := varint_determined.exists_of_reads_map h
  have hnumber : IsNumber (varintValue bytes % UInt32.size) bytes :=
    ⟨isVarint_of_reads hvarint, rfl⟩
  obtain ⟨-, -, rfl⟩ := h.unique (reads_of_isNumber hnumber depth) (rfl : bytes ++ [] = bytes ++ [])
  rwa [hnumber.toNat]

lemma length_of_reads_skip {n : Nat} (h : Reads (skip n) depth bytes ()) : bytes.length = n := by
  obtain ⟨taken, htake, -⟩ := (take_determined n).exists_of_reads_map h
  have hend := advances_take n (htake 0 [])
  simpa using congrArg pos hend

lemma isPlain_of_reads (h : Reads (skipPlain wireType) depth bytes ()) :
    IsPlain wireType bytes := by
  unfold skipPlain at h
  split at h
  · obtain ⟨n, hvarint, -⟩ := varint_determined.exists_of_reads_map h
    exact .varint (isVarint_of_reads hvarint)
  · exact .eight (length_of_reads_skip h)
  · obtain ⟨n, r, hlength, hskip⟩ := bind_eq_ok.mp (h 0 [])
    obtain ⟨head, body, hbytes, rfl, hhead⟩ := uint32_determined _ _ _ _ _ hlength
    obtain ⟨taken, left, rfl, hend, htaken⟩ := skip_determined _ _ _ _ _ _ hskip
    have hleft : left = [] := (congrArg rest hend).symm
    rw [append_nil, hleft, append_nil] at hbytes
    rw [hbytes]
    refine .block ?_
    rw [length_of_reads_skip htaken]
    exact isNumber_of_reads hhead
  · exact .four (length_of_reads_skip h)
  · cases h 0 []

/-- The rest of a group at the given depth, and of as many groups around it as are given. -/
def IsGroups : (outer depth : Nat) → List UInt8 → Prop
  | 0, depth, bytes => IsGroup (recursionLimit - depth) bytes
  | outer + 1, depth, bytes =>
    ∃ group rest : List UInt8, bytes = group ++ rest ∧ IsGroup (recursionLimit - depth) group ∧
      IsGroups outer (depth - 1) rest

/-- What can stand before the rest of the innermost group can stand before all of them. -/
lemma IsGroups.append_left {outer : Nat} {more : List UInt8}
    (hmore : ∀ group, IsGroup (recursionLimit - depth) group →
      IsGroup (recursionLimit - depth) (more ++ group))
    (h : IsGroups outer depth bytes) : IsGroups outer depth (more ++ bytes) := by
  cases outer with
  | zero => exact hmore bytes h
  | succ outer =>
    obtain ⟨group, rest, rfl, hgroup, hrest⟩ := h
    exact ⟨more ++ group, rest, (append_assoc ..).symm, hmore group hgroup, hrest⟩

/-- What is passed over of open groups is the rest of them. -/
lemma isGroups_of_skipGroups {fuel start pos : Nat} {outer : List Nat} {r : Reader}
    (h : skipGroups fuel start outer ⟨pos, rest, depth⟩ = .ok () r) :
    ∃ taken left, rest = taken ++ left ∧
      r = ⟨pos + taken.length, left, depth - (outer.length + 1)⟩ ∧
      IsGroups outer.length depth taken := by
  induction fuel generalizing start outer pos rest depth with
  | zero => cases h
  | succ fuel ih =>
    have htag : ∃ tag r₁, uint32 ⟨pos, rest, depth⟩ = .ok tag r₁ := by
      rw [skipGroups.eq_def] at h
      simp only at h
      rw [bind_ok (get_ok _)] at h
      split_ifs at h
      · cases h
      · obtain ⟨tag, r₁, htag, -⟩ := bind_eq_ok.mp h
        exact ⟨tag, r₁, htag⟩
    obtain ⟨tag, r₁, htag⟩ := htag
    obtain ⟨head, after, rfl, rfl, hhead⟩ := uint32_determined _ _ _ _ _ htag
    rw [skipGroups_succ hhead] at h
    have hnumber := isNumber_of_reads hhead
    split_ifs at h with hend hstart
    · cases outer with
      | nil =>
        cases h
        exact ⟨head, after, rfl, rfl, .stop hnumber hend⟩
      | cons next outer =>
        rw [bind_ok (modify_ok ..)] at h
        obtain ⟨taken, left, rfl, rfl, hgroups⟩ := ih h
        refine ⟨head ++ taken, left, (append_assoc ..).symm, ?_, head, taken, rfl,
          .stop hnumber hend, hgroups⟩
        simp only [length_append, length_cons, mk.injEq, true_and]
        omega
    · rw [bind_ok (position_ok ..)] at h
      obtain ⟨⟨⟩, r₂, hdescend, h⟩ := bind_eq_ok.mp h
      obtain ⟨hdepth, rfl⟩ := descend_eq_ok hdescend
      -- the group that is entered ends first, and then stands before the rest of the one around it
      obtain ⟨_, left, rfl, rfl, inner, tail, rfl, hinner, htail⟩ := ih h
      have hlevels : recursionLimit - depth = recursionLimit - (depth + 1) + 1 := by omega
      refine ⟨head ++ inner ++ tail, left, by simp only [append_assoc], ?_,
        htail.append_left fun group hgroup => ?_⟩
      · simp only [length_append, length_cons, mk.injEq, true_and]
        omega
      · rw [hlevels] at hgroup ⊢
        exact .group hnumber hstart hinner hgroup
    · obtain ⟨⟨⟩, r₂, hplain, h⟩ := bind_eq_ok.mp h
      obtain ⟨body, after, rfl, rfl, hbody⟩ := skipPlain_determined _ _ _ _ _ _ hplain
      obtain ⟨taken, left, rfl, rfl, hgroups⟩ := ih h
      refine ⟨head ++ body ++ taken, left, by simp only [append_assoc], ?_,
        hgroups.append_left fun group hgroup => .plain hnumber (isPlain_of_reads hbody) hgroup⟩
      simp only [length_append, mk.injEq, and_true]
      omega

/-- What is passed over is a value whose groups are nested within the limit. -/
lemma isValue_of_skipValue {pos : Nat} {r : Reader}
    (h : skipValue wireType ⟨pos, rest, depth⟩ = .ok () r) :
    ∃ value left, rest = value ++ left ∧ r = ⟨pos + value.length, left, depth⟩ ∧
      IsValue wireType (recursionLimit - depth) value := by
  by_cases hgroup : wireType = 3
  · subst hgroup
    by_cases hdepth : depth < recursionLimit
    · rw [skipValue_enter hdepth] at h
      obtain ⟨value, left, hrest, hend, hgroups⟩ := isGroups_of_skipGroups h
      have hlevels : recursionLimit - depth = recursionLimit - (depth + 1) + 1 := by omega
      rw [hlevels]
      exact ⟨value, left, hrest, hend, .group hgroups⟩
    · rw [skipValue_of_le (Nat.not_lt.mp hdepth)] at h
      cases h
  · rw [skipValue, if_neg hgroup] at h
    obtain ⟨value, left, hrest, hend, hvalue⟩ := skipPlain_determined _ _ _ _ _ _ h
    exact ⟨value, left, hrest, hend, .plain (isPlain_of_reads hvalue)⟩

lemma reads_of_isValue (h : IsValue wireType (recursionLimit - depth) bytes) :
    Reads (skipValue wireType) depth bytes () := by
  generalize hlevels : recursionLimit - depth = levels at h
  cases h with
  | plain hplain =>
    rw [skipValue, if_neg hplain.wireType_ne.1]
    exact reads_skipPlain hplain depth
  | group hgroup => exact reads_skipValue (.group hgroup) (by omega)

lemma skipValue_determined (wireType : Nat) : Determined (skipValue wireType) := by
  intro pos rest depth a r h
  obtain ⟨value, left, hrest, hend, hvalue⟩ := isValue_of_skipValue h
  exact ⟨value, left, hrest, hend, reads_of_isValue hvalue⟩

/-! ## Tags that no value can follow -/

lemma skipPlain_of_ne (h : wireType ∉ [0, 1, 2, 5]) (r : Reader) :
    skipPlain wireType r = .error (.invalidWireType wireType r.pos) r := by
  simp only [mem_cons, not_mem_nil, or_false, not_or] at h
  unfold skipPlain
  split
  · omega
  · omega
  · omega
  · omega
  · rfl

/-- The bytes lead from the start of a group to a place where a record of the group is expected,
or one of a group in it: `inner` groups in it are open there. The group itself starts at `depth`. -/
inductive LeadsTo (depth : Nat) : (inner : Nat) → List UInt8 → Prop
  | start : depth < recursionLimit → LeadsTo depth 0 []
  | record {inner tag : Nat} {before head value : List UInt8} :
      LeadsTo depth inner before → IsNumber tag head →
      IsValue (tag % 8) (recursionLimit - (depth + 1 + inner)) value →
      LeadsTo depth inner (before ++ (head ++ value))
  | enter {inner tag : Nat} {before head : List UInt8} :
      LeadsTo depth inner before → IsNumber tag head → tag % 8 = 3 →
      depth + 1 + inner < recursionLimit → LeadsTo depth (inner + 1) (before ++ head)

lemma LeadsTo.depth_lt (h : LeadsTo depth inner before) : depth < recursionLimit := by
  induction h with
  | start hdepth => exact hdepth
  | record _ _ _ ih | enter _ _ _ _ ih => exact ih

/-- A record of an open group is passed over, and the records behind it follow. -/
lemma skipGroups_record {tag fuel : Nat} {head value : List UInt8} (hhead : IsNumber tag head)
    (hvalue : IsValue (tag % 8) (recursionLimit - depth) value) (start pos : Nat) (outer : List Nat)
    (hfuel : (head ++ (value ++ rest)).length ≤ fuel) :
    ∃ fuel', rest.length ≤ fuel' ∧
      skipGroups fuel start outer ⟨pos, head ++ (value ++ rest), depth⟩ =
        skipGroups fuel' start outer ⟨pos + head.length + value.length, rest, depth⟩ := by
  obtain ⟨fuel, rfl, hleft⟩ := exists_fuel hhead hfuel
  generalize htype : tag % 8 = wireType at hvalue
  generalize hlevels : recursionLimit - depth = levels at hvalue
  cases hvalue with
  | plain hplain =>
    rw [length_append] at hleft
    rw [← htype] at hplain
    exact ⟨fuel, by omega, skipGroups_plain hhead hplain⟩
  | group hgroup =>
    rw [skipGroups_enter hhead htype (by omega)]
    rcases skipGroups_of_isGroup hgroup (pos + head.length) (pos + head.length) (depth + 1)
      (start :: outer) hleft with ⟨fuel', hleft', heq⟩ | ⟨hlimit, -⟩
    · exact ⟨fuel', hleft', heq⟩
    · omega

/-- Reading gets to the place that the bytes lead to. -/
lemma LeadsTo.skipGroups_eq (h : LeadsTo depth inner before) (start pos : Nat) {fuel : Nat}
    (hfuel : (before ++ rest).length ≤ fuel) :
    ∃ fuel' next outer, rest.length ≤ fuel' ∧
      skipGroups fuel start [] ⟨pos, before ++ rest, depth + 1⟩ =
        skipGroups fuel' next outer ⟨pos + before.length, rest, depth + 1 + inner⟩ := by
  -- the last record or tag of `before` belongs to the bytes that follow for the induction
  induction h generalizing rest with
  | start _ => exact ⟨fuel, start, [], hfuel, rfl⟩
  | @record inner tag before head value _ hhead hvalue ih =>
    rw [append_assoc, append_assoc] at hfuel ⊢
    obtain ⟨fuel₁, next, outer, hfuel₁, heq⟩ := ih hfuel
    obtain ⟨fuel₂, hfuel₂, hrecord⟩ :=
      skipGroups_record hhead hvalue next (pos + before.length) outer hfuel₁
    refine ⟨fuel₂, next, outer, hfuel₂, ?_⟩
    rw [heq, hrecord]
    simp only [length_append, Nat.add_assoc]
  | @enter inner tag before head _ hhead hstart hdepth ih =>
    rw [append_assoc] at hfuel ⊢
    obtain ⟨fuel₁, next, outer, hfuel₁, heq⟩ := ih hfuel
    obtain ⟨fuel₂, rfl, hfuel₂⟩ := exists_fuel hhead hfuel₁
    refine ⟨fuel₂, pos + before.length + head.length, next :: outer, hfuel₂, ?_⟩
    rw [heq, skipGroups_enter hhead hstart hdepth]
    simp only [length_append, Nat.add_assoc]

/-- At a place where a record is expected, a tag of wire type 6 or 7 ends the reading. -/
lemma LeadsTo.skipValue_refuses {tag : Nat} {head : List UInt8} (h : LeadsTo depth inner before)
    (hhead : IsNumber tag head) (htype : 6 ≤ tag % 8) (pos : Nat) (rest : List UInt8) :
    skipValue 3 ⟨pos, before ++ (head ++ rest), depth⟩ =
      .error (.invalidWireType (tag % 8) (pos + before.length + head.length))
        ⟨pos + before.length + head.length, rest, depth + 1 + inner⟩ := by
  obtain ⟨fuel, next, outer, hfuel, heq⟩ :=
    h.skipGroups_eq pos pos (le_refl (before ++ (head ++ rest)).length)
  obtain ⟨fuel, rfl, -⟩ := exists_fuel hhead hfuel
  have hnone : tag % 8 ∉ [0, 1, 2, 5] := by
    simp only [mem_cons, not_mem_nil, or_false]
    omega
  rw [skipValue_enter h.depth_lt, heq, skipGroups_succ (reads_of_isNumber hhead _), hhead.toNat,
    if_neg (by omega), if_neg (by omega), bind_error (skipPlain_of_ne hnone _)]

/-! ## The reader and the grammar -/

lemma skipValue_eq_ok_iff {r r' : Reader} :
    skipValue wireType r = .ok () r' ↔
      ∃ value left : List UInt8, r.rest = value ++ left ∧
        IsValue wireType (recursionLimit - r.depth) value ∧
        r' = ⟨r.pos + value.length, left, r.depth⟩ := by
  constructor
  · intro h
    obtain ⟨value, left, hrest, hend, hvalue⟩ := isValue_of_skipValue h
    exact ⟨value, left, hrest, hvalue, hend⟩
  · rintro ⟨value, left, hrest, hvalue, rfl⟩
    have h := reads_of_isValue hvalue r.pos left
    rwa [← hrest] at h

/-- Passing over a value accepts exactly the grammar of values, from any position and depth. It
succeeds if and only if the bytes begin with a value whose groups are nested within what is left
of the limit, and then stands at the end of that value with the depth as it was. No other value
begins there. The wire types that have no values are refused: on their own, and in the tags of
records, at any place within open groups. -/
theorem skipValue_accepts_exactly (wireType : Nat) (r : Reader) :
    (∀ r' : Reader, skipValue wireType r = .ok () r' ↔
      ∃ value left : List UInt8, r.rest = value ++ left ∧
        IsValue wireType (recursionLimit - r.depth) value ∧
        r' = ⟨r.pos + value.length, left, r.depth⟩) ∧
    (∀ (levels levels' : Nat) (value value' left left' : List UInt8),
      IsValue wireType levels value → IsValue wireType levels' value' →
      r.rest = value ++ left → r.rest = value' ++ left' → value = value') ∧
    (wireType ∈ [4, 6, 7] →
      skipValue wireType r = .error (.invalidWireType wireType r.pos) r) ∧
    ∀ (inner tag : Nat) (before head rest : List UInt8),
      LeadsTo r.depth inner before → IsNumber tag head → tag % 8 ∈ [6, 7] →
      r.rest = before ++ (head ++ rest) →
      skipValue 3 r = .error (.invalidWireType (tag % 8) (r.pos + before.length + head.length))
        ⟨r.pos + before.length + head.length, rest, r.depth + 1 + inner⟩ := by
  refine ⟨fun r' => skipValue_eq_ok_iff, ?_, ?_, ?_⟩
  · intro levels levels' value value' left left' hvalue hvalue' hrest hrest'
    exact (hvalue.append_inj hvalue' (hrest.symm.trans hrest')).1
  · intro hnone
    simp only [List.mem_cons, List.not_mem_nil, or_false] at hnone
    have hplain : wireType ∉ [0, 1, 2, 5] := by
      simp only [List.mem_cons, List.not_mem_nil, or_false]
      omega
    rw [skipValue, if_neg (by omega), skipPlain_of_ne hplain]
  · intro inner tag before head rest hbefore hhead htype hrest
    have hsix : 6 ≤ tag % 8 := by
      simp only [List.mem_cons, List.not_mem_nil, or_false] at htype
      omega
    have h := hbefore.skipValue_refuses hhead hsix r.pos rest
    rwa [← hrest] at h

/-- A group that holds a varint and an empty group, with a byte behind it. -/
example : skipValue 3 ⟨5, [8, 150, 1, 19, 20, 12, 7], 98⟩ = .ok () ⟨11, [7], 98⟩ := by
  rfl

end Reader

end Protobuf.Wire
