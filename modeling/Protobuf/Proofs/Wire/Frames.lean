import Protobuf.Proofs.Wire.Numbers

/-!
# Frames of records

A frame is read record by record, and a record that reaches past the end of its
frame is noticed only after the last one. `RecordsRead` describes the records of
a frame without positions: each one is a tag and what its field takes. A frame is
accepted exactly if its bytes are such records.
-/

open Nat Protobuf.Wire.Reader Protobuf.Wire.Read

namespace Protobuf.Wire

open List

variable {α σ : Type}

/-- The bytes are records, each one a tag and the bytes that its field takes, and lead from one
state to another. -/
inductive RecordsRead (field : (number wireType : Nat) → σ → Read σ) (depth : Nat) :
    List UInt8 → σ → σ → Prop
  | done (s : σ) : RecordsRead field depth [] s s
  | record {head body rest : List UInt8} {tag : UInt32} {s t u : σ} :
      Reads Reader.uint32 depth head tag →
      Reads (field (tag.toNat / 8) (tag.toNat % 8) s) depth body t →
      RecordsRead field depth rest t u →
      RecordsRead field depth (head ++ body ++ rest) s u

/-- Reading the records does not get past `bytes`, because something in them is nested too
deeply. -/
def RecordsRefuse (field : (number wireType : Nat) → σ → Read σ) (depth : Nat)
    (bytes : List UInt8) (s : σ) : Prop :=
  ∀ pos rest stop fuel, pos + bytes.length ≤ stop → (bytes ++ rest).length ≤ fuel →
    ∃ offset r, Reader.records field stop fuel s ⟨pos, bytes ++ rest, depth⟩ =
      .error (.recursionLimit offset recursionLimit) r

/-- The bytes are records with messages nested `levels` deep in them. -/
def RecordsNested (field : (number wireType : Nat) → σ → Read σ) (depth : Nat)
    (bytes : List UInt8) (s t : σ) (levels : Nat) : Prop :=
  (depth + levels ≤ recursionLimit → RecordsRead field depth bytes s t) ∧
    (recursionLimit < depth + levels → RecordsRefuse field depth bytes s)

section

variable {field : (number wireType : Nat) → σ → Read σ} {depth : Nat} {bytes more : List UInt8}
  {s t u : σ}

namespace RecordsRead

lemma single {head body : List UInt8} {tag : UInt32} (htag : Reads Reader.uint32 depth head tag)
    (hbody : Reads (field (tag.toNat / 8) (tag.toNat % 8) s) depth body t) :
    RecordsRead field depth (head ++ body) s t := by
  have h := RecordsRead.record htag hbody (.done t)
  rwa [append_nil] at h

lemma append (h₁ : RecordsRead field depth bytes s t) (h₂ : RecordsRead field depth more t u) :
    RecordsRead field depth (bytes ++ more) s u := by
  induction h₁ with
  | done s => exact h₂
  | record htag hbody _ ih =>
    rw [append_assoc]
    exact .record htag hbody (ih h₂)

lemma keeps {P : σ → Prop} (hstep : ∀ {number wireType s body t}, P s →
      Reads (field number wireType s) depth body t → P t)
    (h : RecordsRead field depth bytes s t) (hs : P s) : P t := by
  induction h with
  | done s => exact hs
  | record _ hbody _ ih => exact ih (hstep hs hbody)

/-- The first record is the one whose tag the bytes begin with. -/
lemma uncons {head tail : List UInt8} {tag : UInt32} (htag : Reads Reader.uint32 depth head tag)
    (h : RecordsRead field depth (head ++ tail) s u) :
    ∃ body rest t, tail = body ++ rest ∧
      Reads (field (tag.toNat / 8) (tag.toNat % 8) s) depth body t ∧
      RecordsRead field depth rest t u := by
  generalize hbytes : head ++ tail = bytes at h
  cases h with
  | done =>
    have hpos := htag.length_pos_of_uint32
    simp [(append_eq_nil_iff.mp hbytes).1] at hpos
  | @record head' body rest tag' _ t _ htag' hbody hrest =>
    rw [append_assoc] at hbytes
    obtain ⟨-, rfl, rfl⟩ := htag.unique htag' hbytes
    exact ⟨body, rest, t, rfl, hbody, hrest⟩

/-- Reading on after some records of a frame: the records are consumed, the state has changed, and
there still is fuel for every byte that is left. -/
lemma records_eq (h : RecordsRead field depth bytes s t) {pos stop fuel : Nat}
    {rest : List UInt8} (hstop : pos + bytes.length ≤ stop)
    (hfuel : (bytes ++ rest).length ≤ fuel) :
    ∃ fuel', rest.length ≤ fuel' ∧
      Reader.records field stop fuel s ⟨pos, bytes ++ rest, depth⟩ =
        Reader.records field stop fuel' t ⟨pos + bytes.length, rest, depth⟩ := by
  induction h generalizing pos fuel with
  | done s => exact ⟨fuel, by simpa using hfuel, rfl⟩
  | @record head body tail tag s t u htag hbody _ ih =>
    have hpos := htag.length_pos_of_uint32
    simp only [length_append] at hstop hfuel
    obtain ⟨fuel, rfl⟩ : ∃ k, fuel = k + 1 := ⟨fuel - 1, by omega⟩
    have hrest : head ++ body ++ tail ++ rest = head ++ (body ++ (tail ++ rest)) := by
      simp only [append_assoc]
    have hstop' : pos + head.length + body.length + tail.length ≤ stop := by omega
    have hfuel' : (tail ++ rest).length ≤ fuel := by simp only [length_append]; omega
    obtain ⟨fuel', hleft, heq⟩ := ih hstop' hfuel'
    refine ⟨fuel', hleft, ?_⟩
    rw [hrest, records, bind_ok (position_ok ..),
      if_pos (by omega), bind_ok (htag pos _), bind_ok (hbody _ _), heq]
    congr 2
    simp only [length_append]
    omega

lemma records_ok (h : RecordsRead field depth bytes s t) {pos fuel : Nat} {rest : List UInt8}
    (hfuel : (bytes ++ rest).length ≤ fuel) :
    Reader.records field (pos + bytes.length) fuel s ⟨pos, bytes ++ rest, depth⟩ =
      .ok t ⟨pos + bytes.length, rest, depth⟩ := by
  obtain ⟨fuel', -, heq⟩ := h.records_eq (le_refl (pos + bytes.length)) hfuel
  rw [heq]
  cases fuel' with
  | zero => rfl
  | succ fuel' =>
    rw [records, bind_ok (position_ok ..),
      if_neg (lt_irrefl _)]
    rfl

end RecordsRead

namespace RecordsNested

lemma append {k l : Nat} (h₁ : RecordsNested field depth bytes s t k)
    (h₂ : RecordsNested field depth more t u l) :
    RecordsNested field depth (bytes ++ more) s u (max k l) := by
  constructor
  · intro hle
    exact (h₁.1 (by omega)).append (h₂.1 (by omega))
  · intro hlt pos rest stop fuel hstop hfuel
    simp only [length_append] at hstop hfuel
    rw [append_assoc]
    by_cases hk : recursionLimit < depth + k
    · exact h₁.2 hk pos (more ++ rest) stop fuel (by omega)
        (by simp only [length_append]; omega)
    · have hstop' : pos + bytes.length ≤ stop := by omega
      have hfuel' : (bytes ++ (more ++ rest)).length ≤ fuel := by
        simp only [length_append]
        omega
      obtain ⟨fuel', hleft, heq⟩ := (h₁.1 (by omega)).records_eq hstop' hfuel'
      rw [heq]
      exact h₂.2 (by omega) _ rest stop fuel' (by omega) hleft

lemma done (hdepth : depth ≤ recursionLimit) (s : σ) : RecordsNested field depth [] s s 0 :=
  ⟨fun _ => .done s, fun h => absurd h (by omega)⟩

/-- A single record: a tag, and a body in which messages are nested `levels` deep. -/
lemma record {head body : List UInt8} {tag : UInt32} {levels : Nat}
    (htag : Reads Reader.uint32 depth head tag)
    (hbody : ReadsNested (field (tag.toNat / 8) (tag.toNat % 8) s) depth body t levels) :
    RecordsNested field depth (head ++ body) s t levels := by
  constructor
  · intro hle
    exact .single htag (hbody.1 hle)
  · intro hlt pos rest stop fuel hstop hfuel
    have hpos := htag.length_pos_of_uint32
    simp only [length_append] at hstop hfuel
    obtain ⟨fuel, rfl⟩ : ∃ k, fuel = k + 1 := ⟨fuel - 1, by omega⟩
    obtain ⟨offset, r, herror⟩ := hbody.2 hlt (pos + head.length) rest
    refine ⟨offset, r, ?_⟩
    rw [append_assoc, records,
      bind_ok (position_ok ..), if_pos (by omega),
      bind_ok (htag pos _), bind_error herror]

end RecordsNested

namespace Reader

variable {pos stop : Nat} {rest : List UInt8} {r : Reader}

lemma frameEnd_some {n depth : Nat} (hn : n ≤ rest.length) :
    frameEnd (some n) ⟨pos, rest, depth⟩ = .ok (pos + n) ⟨pos, rest, depth⟩ := by
  have hle : pos + n ≤ Reader.size ⟨pos, rest, depth⟩ := Nat.add_le_add_left hn pos
  simp only [frameEnd, hle, if_true]

lemma finishFrame_self (r : Reader) : finishFrame r.pos r = .ok () r := by
  simp only [finishFrame, if_true]

lemma frameEnd_eq_ok {n : Nat} {r' : Reader} (h : frameEnd (some n) r = .ok stop r') :
    stop = r.pos + n ∧ r' = r := by
  simp only [frameEnd] at h
  split_ifs at h
  cases h
  exact ⟨rfl, rfl⟩

lemma finishFrame_eq_ok {r' : Reader} (h : finishFrame stop r = .ok () r') :
    r.pos = stop ∧ r' = r := by
  simp only [finishFrame] at h
  split_ifs at h with hpos
  cases h
  exact ⟨hpos, rfl⟩

lemma reads_frame (h : RecordsRead field depth bytes s t) :
    Reads (frame field (some bytes.length) s) depth bytes t := by
  intro pos rest
  rw [frame, bind_ok (frameEnd_some (by simp)),
    bind_ok (get_ok _),
    bind_ok (h.records_ok (le_refl _)),
    bind_ok (finishFrame_self ⟨pos + bytes.length, rest, depth⟩)]
  rfl

lemma readsNested_frame {levels : Nat} (h : RecordsNested field depth bytes s t levels) :
    ReadsNested (frame field (some bytes.length) s) depth bytes t levels := by
  refine ⟨fun hle => reads_frame (h.1 hle), fun hlt pos rest => ?_⟩
  obtain ⟨offset, r, herror⟩ := h.2 hlt pos rest _ _ (le_refl _) (le_refl _)
  refine ⟨offset, r, ?_⟩
  rw [frame, bind_ok (frameEnd_some (by simp)),
    bind_ok (get_ok _), bind_error herror]

/-- A frame without a length is the frame that the rest of the buffer is. -/
lemma frame_none (field : (number wireType : Nat) → σ → Read σ) (s : σ) (r : Reader) :
    frame field none s r = frame field (some r.rest.length) s r := by
  have hnone : frameEnd none r = .ok r.size r := rfl
  have hsome : frameEnd (some r.rest.length) r = .ok r.size r := frameEnd_some (le_refl _)
  rw [frame, bind_ok hnone, frame, bind_ok hsome]

section

variable (hfield : ∀ number wireType s, Determined (field number wireType s))

include hfield

/-- Whatever records are read are records: they lead to the state reached, and they end where
reading stopped. -/
private lemma recordsRead_of_records {fuel : Nat}
    (h : records field stop fuel s ⟨pos, rest, depth⟩ = .ok t r) :
    ∃ taken left, rest = taken ++ left ∧ r = ⟨pos + taken.length, left, depth⟩ ∧
      RecordsRead field depth taken s t := by
  induction fuel generalizing s pos rest with
  | zero =>
    cases h
    exact ⟨[], rest, rfl, rfl, .done _⟩
  | succ fuel ih =>
    rw [records, bind_ok (position_ok ..)] at h
    by_cases hpos : pos < stop
    · rw [if_pos hpos] at h
      obtain ⟨tag, r₁, htag, h⟩ := bind_eq_ok.mp h
      obtain ⟨head, rest₁, rfl, rfl, hhead⟩ := uint32_determined _ _ _ _ _ htag
      obtain ⟨u, r₂, hvalue, h⟩ := bind_eq_ok.mp h
      obtain ⟨body, rest₂, rfl, rfl, hbody⟩ := hfield _ _ _ _ _ _ _ _ hvalue
      obtain ⟨taken, left, rfl, rfl, hrecords⟩ := ih h
      refine ⟨head ++ body ++ taken, left, by simp only [append_assoc], ?_,
        .record hhead hbody hrecords⟩
      simp only [length_append, mk.injEq, and_true]
      omega
    · rw [if_neg hpos] at h
      cases h
      exact ⟨[], rest, rfl, rfl, .done _⟩

/-- A frame that is accepted consists of records, and reading stops at its end. -/
lemma recordsRead_of_frame {n : Nat} (h : frame field (some n) s ⟨pos, rest, depth⟩ = .ok t r) :
    ∃ taken left, rest = taken ++ left ∧ taken.length = n ∧ r = ⟨pos + n, left, depth⟩ ∧
      RecordsRead field depth taken s t := by
  obtain ⟨stop, r₁, hend, h⟩ := bind_eq_ok.mp h
  obtain ⟨rfl, rfl⟩ := frameEnd_eq_ok hend
  rw [bind_ok (get_ok _)] at h
  obtain ⟨u, r₂, hrecords, h⟩ := bind_eq_ok.mp h
  obtain ⟨taken, left, rfl, rfl, hread⟩ := recordsRead_of_records hfield hrecords
  obtain ⟨⟨⟩, r₃, hfinish, h⟩ := bind_eq_ok.mp h
  obtain ⟨hpos, rfl⟩ := finishFrame_eq_ok hfinish
  cases h
  have hlength : taken.length = n := add_left_cancel hpos
  exact ⟨taken, left, rfl, hlength, by rw [hlength], hread⟩

lemma recordsRead_of_frame_length
    (h : frame field (some bytes.length) s ⟨pos, bytes ++ rest, depth⟩ = .ok t r) :
    RecordsRead field depth bytes s t := by
  obtain ⟨taken, left, hrest, hlength, -, hread⟩ := recordsRead_of_frame hfield h
  rwa [(append_inj hrest hlength.symm).1]

end

lemma frame_determined (hfield : ∀ number wireType s, Determined (field number wireType s))
    (n : Nat) (s : σ) : Determined (frame field (some n) s) := by
  intro pos rest depth t r h
  obtain ⟨taken, left, hrest, rfl, hr, hread⟩ := recordsRead_of_frame hfield h
  exact ⟨taken, left, hrest, hr, reads_frame hread⟩

end Reader

end

/-! ## Messages in their frames -/

namespace Reader

variable {decode : Option Nat → Read α} {depth : Nat} {bytes : List UInt8} {a : α}

/-- A message after its length is nested one level deeper than its content. -/
lemma readsNested_message {levels : Nat} (hdepth : depth ≤ recursionLimit)
    (hlength : bytes.length < UInt32.size)
    (h : depth < recursionLimit →
      ReadsNested (decode (some bytes.length)) (depth + 1) bytes a levels) :
    ReadsNested (message decode) depth (lengthBytes bytes.length ++ bytes) a (levels + 1) := by
  have hread (pos : Nat) (rest : List UInt8) :
      message decode ⟨pos, lengthBytes bytes.length ++ bytes ++ rest, depth⟩ =
        (descend >>= fun _ => ascending (decode (some bytes.length)))
          ⟨pos + (lengthBytes bytes.length).length, bytes ++ rest, depth⟩ := by
    rw [message, append_assoc, Read.bind_ok (reads_length hlength depth pos _),
      UInt32.toNat_ofNat_of_lt' hlength]
  constructor
  · intro hle pos rest
    have hlt : depth < recursionLimit := by omega
    have hinner := (h hlt).1 (by omega) (pos + (lengthBytes bytes.length).length) rest
    rw [hread, Read.bind_ok (descend_of_lt hlt _ _)]
    simp only [ascending, hinner, Nat.add_sub_cancel, length_append, Nat.add_assoc]
  · intro hgt pos rest
    rw [hread]
    -- Either the message itself is one level too deep, or something in it is.
    by_cases hlt : depth < recursionLimit
    · obtain ⟨offset, r, herror⟩ :=
        (h hlt).2 (by omega) (pos + (lengthBytes bytes.length).length) rest
      refine ⟨offset, { r with depth := r.depth - 1 }, ?_⟩
      rw [Read.bind_ok (descend_of_lt hlt _ _)]
      simp only [ascending, herror]
    · have hfull : recursionLimit ≤ depth := by omega
      exact ⟨_, _, Read.bind_error (descend_of_le hfull _ _)⟩

/-- A message after its length is read one level deeper, which must be within the limit. -/
lemma message_eq_ok {r r' : Reader} (h : message decode r = .ok a r') :
    r.depth < recursionLimit ∧
      ∃ n r₁ r₂, r₁.depth = r.depth + 1 ∧ decode (some n) r₁ = .ok a r₂ := by
  obtain ⟨n, r₁, hlength, h⟩ := bind_eq_ok.mp h
  obtain ⟨taken, left, -, rfl, -⟩ := uint32_determined _ _ _ _ _ hlength
  obtain ⟨⟨⟩, r₂, hdescend, h⟩ := bind_eq_ok.mp h
  obtain ⟨hdepth, rfl⟩ := descend_eq_ok hdescend
  unfold ascending at h
  split at h
  · rename_i b r₃ hinner
    cases h
    exact ⟨hdepth, n.toNat, _, r₃, rfl, hinner⟩
  · cases h

lemma message_determined (hdecode : ∀ n, Determined (decode (some n))) :
    Determined (message decode) := by
  refine uint32_determined.bind fun n => ?_
  intro pos rest depth a r h
  obtain ⟨⟨⟩, r₁, hdescend, h⟩ := Read.bind_eq_ok.mp h
  obtain ⟨hdepth, rfl⟩ := descend_eq_ok hdescend
  simp only [ascending] at h
  split at h
  · rename_i b r₂ hinner
    cases h
    obtain ⟨taken, left, rfl, rfl, hreads⟩ := hdecode _ _ _ _ _ _ hinner
    refine ⟨taken, left, rfl, rfl, fun pos' rest' => ?_⟩
    rw [Read.bind_ok (descend_of_lt hdepth _ _)]
    simp only [ascending, hreads pos' rest', Nat.add_sub_cancel]
  · cases h

end Reader

/-! ## Blocks of values -/

/-- The bytes are values, each of them of at least one byte. -/
inductive ItemsRead (item : Read α) (depth : Nat) : List UInt8 → List α → Prop
  | done : ItemsRead item depth [] []
  | item {head rest : List UInt8} {a : α} {as : List α} :
      Reads item depth head a → 0 < head.length → ItemsRead item depth rest as →
      ItemsRead item depth (head ++ rest) (a :: as)

lemma ItemsRead.itemsUntil_ok {item : Read α} {depth : Nat} {bytes : List UInt8} {as : List α}
    (h : ItemsRead item depth bytes as) {pos fuel : Nat} {rest : List UInt8} (acc : List α)
    (hfuel : (bytes ++ rest).length ≤ fuel) :
    Reader.itemsUntil item (pos + bytes.length) fuel acc ⟨pos, bytes ++ rest, depth⟩ =
      .ok (acc.reverse ++ as) ⟨pos + bytes.length, rest, depth⟩ := by
  induction h generalizing pos fuel acc with
  | done =>
    rw [append_nil]
    cases fuel with
    | zero => rfl
    | succ fuel =>
      rw [itemsUntil, bind_ok (position_ok ..), if_neg (by simp)]
      rfl
  | @item head tail a as hhead hpos _ ih =>
    simp only [length_append] at hfuel
    obtain ⟨fuel, rfl⟩ : ∃ k, fuel = k + 1 := ⟨fuel - 1, by omega⟩
    have hstop : pos + (head ++ tail).length = pos + head.length + tail.length := by
      simp only [length_append, add_assoc]
    rw [append_assoc, itemsUntil, bind_ok (position_ok ..),
      if_pos (by simp only [length_append]; omega), bind_ok (hhead pos _), hstop,
      ih (a :: acc) (by simp only [length_append]; omega)]
    simp only [reverse_cons, append_assoc, singleton_append]

lemma itemsRead_of_itemsUntil {item : Read α} (hitem : Determined item)
    (hsome : ∀ depth a, ¬ Reads item depth [] a) {stop fuel pos depth : Nat} {rest : List UInt8}
    {acc as : List α} {r : Reader}
    (h : Reader.itemsUntil item stop fuel acc ⟨pos, rest, depth⟩ = .ok as r) :
    ∃ taken left bs, rest = taken ++ left ∧ r = ⟨pos + taken.length, left, depth⟩ ∧
      as = acc.reverse ++ bs ∧ ItemsRead item depth taken bs := by
  induction fuel generalizing pos rest acc with
  | zero =>
    cases h
    exact ⟨[], rest, [], rfl, rfl, by simp, .done⟩
  | succ fuel ih =>
    rw [itemsUntil, bind_ok (position_ok ..)] at h
    split_ifs at h with hpos
    · obtain ⟨a, r₁, hhead, h⟩ := bind_eq_ok.mp h
      obtain ⟨head, after, rfl, rfl, hreads⟩ := hitem _ _ _ _ _ hhead
      obtain ⟨taken, left, bs, rfl, rfl, rfl, hitems⟩ := ih h
      have hne : 0 < head.length := by
        rw [length_pos_iff]
        rintro rfl
        exact hsome depth a hreads
      refine ⟨head ++ taken, left, a :: bs, (append_assoc ..).symm, ?_, by simp,
        .item hreads hne hitems⟩
      simp only [length_append, mk.injEq, and_true]
      omega
    · cases h
      exact ⟨[], rest, [], rfl, rfl, by simp, .done⟩

end Protobuf.Wire
