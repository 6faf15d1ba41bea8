import Protobuf.Proofs.Wire.Checked
import Protobuf.Proofs.Wire.Skips

/-!
# Checked loops

The loops of a reader: over the records of a frame, over the values of a block, and
over the records of a group, in which groups may be nested. Every iteration takes a
byte, so a budget of one more than the bytes of the buffer is never used up; and each
level of groups is one deeper, so the nesting limit bounds the recursion. A reader
keeps the open groups in a list, where the checked one calls itself.
-/

open Nat Protobuf.Wire.Reader Protobuf.Wire.Read Protobuf.Wire.Checked

namespace Protobuf.Wire

variable {α σ : Type}

/-- Run the body as long as the position is before `stop`, at most `fuel` times. -/
def Reader.iterate (stop : Nat) (body : σ → Read σ) : (fuel : Nat) → σ → Read σ
  | 0, s => return s
  | fuel + 1, s => do
    if (← position) < stop then
      let s ← body s
      iterate stop body fuel s
    else return s

lemma Reader.records_eq_iterate (field : (number wireType : Nat) → σ → Read σ)
    (stop fuel : Nat) (s : σ) :
    records field stop fuel s =
      iterate stop (fun s => do
        let tag := (← uint32).toNat
        field (tag / 8) (tag % 8) s) fuel s := by
  induction fuel generalizing s with
  | zero => rfl
  | succ fuel ih =>
    simp only [records, iterate, ih, bind_assoc]

lemma Reader.itemsUntil_eq_iterate (item : Read α) (stop fuel : Nat) (acc : List α) :
    itemsUntil item stop fuel acc =
      (do return (← iterate stop (fun acc => do return (← item) :: acc) fuel acc).reverse) := by
  induction fuel generalizing acc with
  | zero => rfl
  | succ fuel ih =>
    simp only [itemsUntil, iterate, ih, bind_assoc, pure_bind]
    congr 1
    funext pos
    split_ifs <;> simp

namespace Checked

section

variable (buf : List UInt8) (budget : Nat)

def frame (field : (number wireType : Nat) → σ → Checked σ) (length : Option Nat) (s : σ) :
    Checked σ := do
  let stop ← frameEnd buf length
  let s ← whileBefore stop (fun s => do
    let tag := (← uint32 buf).toNat
    field (tag / 8) (tag % 8) s) budget s
  finishFrame stop
  return s

/-- Read a block of values, which must end where its length says. -/
def block (item : Checked α) : Checked (List α) := do
  let stop ← packedEnd buf
  let items ← whileBefore stop (fun items => do return (← item) :: items) budget []
  finishFrame stop
  return items.reverse

def skipPlain (wireType : Nat) : Checked Unit := do
  match wireType with
  | 0 => let _ ← varint buf; return
  | 1 => skip buf 8
  | 2 => skip buf (← uint32 buf).toNat
  | 5 => skip buf 4
  | _ => fail (.invalidWireType wireType (← position))

/-- Go past a record of the group that began at `start`, with `skip` for its value. An end of a
group ends it. -/
def groupRecord (skip : (wireType : Nat) → Checked Unit) (start : Nat) :
    Checked (Unit ⊕ Unit) := do
  if buf.length ≤ (← position) then fail (.unterminatedGroup start)
  else
    let wireType := (← uint32 buf).toNat % 8
    if wireType = 4 then
      ascend
      return .inr ()
    else
      skip wireType
      return .inl ()

/-- Go past a value of the given wire type, with groups nested at most `levels` deep. -/
def skipType : (levels : Nat) → (above : Option Nat) → (wireType : Nat) → Checked Unit
  | 0, _, _ => fun _ => .fault .unending
  | levels + 1, above, wireType => below above do
    if wireType = 3 then
      let start ← position
      let outer ← depth
      descend
      loop (fun _ => groupRecord buf (skipType levels (some outer)) start) budget ()
    else skipPlain buf wireType

end

section

variable {ρ : Type} {body : σ → Checked (σ ⊕ ρ)} {budget : Nat} {s s' : σ} {c c' : Cursor}

lemma loop_of_done {r : ρ} (h : body s c = .ok (.inr r) c') :
    loop body (budget + 1) s c = .ok r c' := by
  unfold loop
  simp only [h]

lemma loop_of_next (h : body s c = .ok (.inl s') c') (hpos : c.pos < c'.pos) :
    loop body (budget + 1) s c = loop body budget s' c' := by
  conv_lhs => unfold loop
  simp only [h, hpos, if_true]

lemma loop_of_error {e : DecodeError} (h : body s c = .error e c') :
    loop body (budget + 1) s c = .error e c' := by
  unfold loop
  simp only [h]

end

section

variable {stop : Nat} {body : σ → Checked σ} {budget : Nat} {s s' : σ} {c c' : Cursor}

lemma whileBefore_of_le (h : stop ≤ c.pos) : whileBefore stop body (budget + 1) s c = .ok s c :=
  loop_of_done ((bind_ok (position_ok c)).trans (congrFun (if_neg (not_lt.mpr h)) c))

private lemma body_of_lt (h : c.pos < stop) :
    (do if (← position) < stop then return .inl (← body s) else return .inr s :
      Checked (σ ⊕ σ)) c = (do return .inl (← body s) : Checked (σ ⊕ σ)) c :=
  (bind_ok (position_ok c)).trans (congrFun (if_pos h) c)

lemma whileBefore_of_ok (h : c.pos < stop) (hbody : body s c = .ok s' c')
    (hpos : c.pos < c'.pos) :
    whileBefore stop body (budget + 1) s c = whileBefore stop body budget s' c' :=
  loop_of_next ((body_of_lt h).trans (bind_ok hbody)) hpos

lemma whileBefore_of_error {e : DecodeError} (h : c.pos < stop)
    (hbody : body s c = .error e c') : whileBefore stop body (budget + 1) s c = .error e c' :=
  loop_of_error ((body_of_lt h).trans (bind_error hbody))

end

lemma frameEnd_le {buf : List UInt8} {length : Option Nat} {stop : Nat} {c c' : Cursor}
    (h : frameEnd buf length c = .ok stop c') : stop ≤ buf.length := by
  cases length with
  | none =>
    cases h
    exact le_rfl
  | some n =>
    simp only [frameEnd] at h
    split_ifs at h with hle
    cases h
    exact hle

lemma packedEnd_le {buf : List UInt8} {stop : Nat} {c c' : Cursor}
    (h : packedEnd buf c = .ok stop c') : stop ≤ buf.length := by
  obtain ⟨n, c₁, -, hend⟩ := bind_eq_ok.mp h
  exact frameEnd_le hend

end Checked

/-! ## Frames and blocks -/

section

variable {buf : List UInt8} {budget depth : Nat}

/-- A loop does what the fuelled one does, if its body takes a byte: neither the budget nor the fuel
can run out before the end. -/
lemma agrees_whileBefore {stop : Nat} (hstop : stop ≤ buf.length) {body : σ → Checked σ}
    {body' : σ → Read σ} (hbody : ∀ s, Executes buf depth 1 (body s) (body' s))
    (hdepth : depth ≤ recursionLimit) {pos fuel : Nat} (hpos : pos ≤ buf.length)
    (hbudget : buf.length < pos + budget) (hfuel : buf.length ≤ pos + fuel) (s : σ) :
    Agrees buf ⟨pos, depth⟩ 0 (Checked.whileBefore stop body budget s ⟨pos, depth⟩)
      (Reader.iterate stop body' fuel s ⟨pos, buf.drop pos, depth⟩) := by
  induction budget generalizing pos fuel s with
  | zero => omega
  | succ budget ih =>
    by_cases hlt : pos < stop
    · obtain ⟨fuel, rfl⟩ : ∃ k, fuel = k + 1 := ⟨fuel - 1, by omega⟩
      rw [Reader.iterate, Read.bind_ok (Reader.position_ok ..), if_pos hlt]
      rcases (hbody s).cases hdepth hpos with
        ⟨s', mid, hx, hy, hmid, hend⟩ | ⟨e, mid, deep, hx, hy, hmid, hend, hdeep, hlimit⟩
      · rw [whileBefore_of_ok hlt hx hmid, bind_ok hy]
        refine (ih hend (by omega) (by omega) s').after ?_ ?_
        · change pos ≤ mid
          omega
        · change pos + 0 ≤ mid + 0
          omega
      · rw [whileBefore_of_error hlt hx, bind_error hy]
        exact .error e hmid hend hdeep hlimit
    · have hread : iterate stop body' fuel s ⟨pos, buf.drop pos, depth⟩ =
          .ok s ⟨pos, buf.drop pos, depth⟩ := by
        cases fuel with
        | zero => rfl
        | succ fuel =>
          rw [Reader.iterate, Read.bind_ok (Reader.position_ok ..), if_neg hlt]
          rfl
      rw [whileBefore_of_le (not_lt.mp hlt), hread]
      exact .ok s le_rfl hpos

variable (hbudget : buf.length < budget)

include hbudget

/-- As much fuel as there are bytes left is enough from any position. -/
lemma executes_whileBefore {stop : Nat} (hstop : stop ≤ buf.length) {body : σ → Checked σ}
    {body' : σ → Read σ} (hbody : ∀ s, Executes buf depth 1 (body s) (body' s)) (s : σ) :
    Executes buf depth 0 (Checked.whileBefore stop body budget s)
      (do Reader.iterate stop body' (← get).rest.length s) := by
  intro hdepth pos hpos
  have hlength : (buf.drop pos).length = buf.length - pos := List.length_drop
  rw [bind_ok (get_ok _)]
  exact agrees_whileBefore hstop hbody hdepth hpos (by omega) (by simp only [hlength]; omega) s

lemma executes_frame {field : (number wireType : Nat) → σ → Checked σ}
    {field' : (number wireType : Nat) → σ → Read σ}
    (hfield : ∀ number wireType s,
      Executes buf depth 0 (field number wireType s) (field' number wireType s))
    (length : Option Nat) (s : σ) :
    Executes buf depth 0 (Checked.frame buf budget field length s)
      (Reader.frame field' length s) := by
  have hbody : ∀ s, Executes buf depth 1
      (do
        let tag := (← uint32 buf).toNat
        field (tag / 8) (tag % 8) s)
      (do
        let tag := (← uint32).toNat
        field' (tag / 8) (tag % 8) s) :=
    fun s => (executes_uint32 buf depth).bind_pure fun tag => hfield _ _ s
  have hrecords : frame field' length s = (do
      let stop ← frameEnd length
      let s ← (do
        iterate stop (fun s => do
          let tag := (← uint32).toNat
          field' (tag / 8) (tag % 8) s) (← get).rest.length s)
      finishFrame stop
      return s) := by
    simp only [Reader.frame, Reader.records_eq_iterate, bind_assoc]
  rw [hrecords]
  refine (executes_frameEnd buf depth length).bind_of fun stop hstop => ?_
  obtain ⟨c, c', hstop⟩ := hstop
  exact (executes_whileBefore hbudget (frameEnd_le hstop) hbody s).bind fun s =>
    (executes_finishFrame buf depth stop).map fun _ => s

/-- A block of values that take a byte each. -/
lemma executes_block {item : Checked α} {item' : Read α}
    (hitem : Executes buf depth 1 item item') :
    Executes buf depth 1 (Checked.block buf budget item)
      (do
        let stop ← Reader.packedEnd
        let items ← Reader.itemsUntil item' stop (← get).rest.length []
        Reader.finishFrame stop
        return items) := by
  have hread : (do
        let stop ← packedEnd
        let items ← itemsUntil item' stop (← get).rest.length []
        finishFrame stop
        return items : Read (List α)) = (do
      let stop ← packedEnd
      let items ← (do
        iterate stop (fun items => do return (← item') :: items) (← get).rest.length [])
      finishFrame stop
      return items.reverse) := by
    simp only [itemsUntil_eq_iterate, bind_assoc, pure_bind]
  rw [hread]
  refine (executes_packedEnd buf depth).bind_of fun stop hstop => ?_
  obtain ⟨c, c', hstop⟩ := hstop
  exact (executes_whileBefore hbudget (packedEnd_le hstop)
    (fun items => hitem.map (· :: items)) []).bind fun items =>
      (executes_finishFrame buf depth stop).map fun _ => items.reverse

end

/-! ## Groups -/

namespace Checked

variable {buf : List UInt8} {skip : (wireType : Nat) → Checked Unit} {start : Nat} {c c' : Cursor}

lemma groupRecord_of_le (h : buf.length ≤ c.pos) :
    groupRecord buf skip start c = .error (.unterminatedGroup start) c :=
  (bind_ok (position_ok c)).trans (congrFun (if_pos h) c)

private lemma groupRecord_of_lt (h : c.pos < buf.length) :
    groupRecord buf skip start c = (do
      let wireType := (← uint32 buf).toNat % 8
      if wireType = 4 then
        ascend
        return .inr ()
      else
        skip wireType
        return .inl () : Checked (Unit ⊕ Unit)) c :=
  (bind_ok (position_ok c)).trans (congrFun (if_neg (not_le.mpr h)) c)

lemma groupRecord_of_error (h : c.pos < buf.length) {e : DecodeError}
    (htag : uint32 buf c = .error e c') : groupRecord buf skip start c = .error e c' :=
  (groupRecord_of_lt h).trans (bind_error htag)

lemma groupRecord_of_end (h : c.pos < buf.length) {tag : UInt32} {pos depth : Nat}
    (htag : uint32 buf c = .ok tag ⟨pos, depth + 1⟩) (hend : tag.toNat % 8 = 4) :
    groupRecord buf skip start c = .ok (.inr ()) ⟨pos, depth⟩ :=
  (groupRecord_of_lt h).trans ((bind_ok htag).trans (congrFun (if_pos hend) _))

lemma groupRecord_of_tag (h : c.pos < buf.length) {tag : UInt32}
    (htag : uint32 buf c = .ok tag c') (hend : tag.toNat % 8 ≠ 4) :
    groupRecord buf skip start c =
      (do skip (tag.toNat % 8); return .inl () : Checked (Unit ⊕ Unit)) c' :=
  (groupRecord_of_lt h).trans ((bind_ok htag).trans (congrFun (if_neg hend) _))

lemma below_of_lt {α : Type} {above : Option Nat} (h : above.all (· < c.depth))
    (x : Checked α) : below above x c = x c :=
  if_pos h

variable {budget levels pos d : Nat} {above : Option Nat}

lemma skipType_of_le (habove : above.all (· < d)) (h : recursionLimit ≤ d) :
    skipType buf budget (levels + 1) above 3 ⟨pos, d⟩ =
      .error (.recursionLimit pos recursionLimit) ⟨pos, d⟩ := by
  rw [skipType, below_of_lt habove]
  refine (bind_ok (position_ok _)).trans ((bind_ok (depth_ok _)).trans (bind_error ?_))
  exact if_pos h

lemma skipType_of_lt (habove : above.all (· < d)) (h : d < recursionLimit) :
    skipType buf budget (levels + 1) above 3 ⟨pos, d⟩ =
      loop (fun _ => groupRecord buf (skipType buf budget levels (some d)) pos) budget ()
        ⟨pos, d + 1⟩ := by
  have hdescend : descend ⟨pos, d⟩ = .ok () ⟨pos, d + 1⟩ := if_neg (not_le.mpr h)
  rw [skipType, below_of_lt habove]
  exact (bind_ok (position_ok _)).trans ((bind_ok (depth_ok _)).trans (bind_ok hdescend))

lemma skipType_of_ne (habove : above.all (· < d)) {wireType : Nat} (h : wireType ≠ 3) :
    skipType buf budget (levels + 1) above wireType ⟨pos, d⟩ =
      skipPlain buf wireType ⟨pos, d⟩ := by
  rw [skipType, below_of_lt habove]
  exact congrFun (if_neg h) _

end Checked

/-- The rest of a group at `pos`, nested one deeper than `depth`: it ends at that depth, and a
reader then goes on with the groups around it, or both stop for the same cause. -/
inductive GroupAgrees (buf : List UInt8) (depth start pos : Nat) : Outcome Unit → Prop
  | ended {mid : Nat} (hpos : pos < mid) (hend : mid ≤ buf.length)
      (hread : ∀ outer fuel, buf.length ≤ pos + fuel → ∃ fuel', buf.length ≤ mid + fuel' ∧
        Reader.skipGroups fuel start outer ⟨pos, buf.drop pos, depth + 1⟩ =
          Reader.behindGroup fuel' outer ⟨mid, buf.drop mid, depth⟩) :
      GroupAgrees buf depth start pos (.ok () ⟨mid, depth⟩)
  | failed {mid deep : Nat} (e : DecodeError) (hpos : pos ≤ mid) (hend : mid ≤ buf.length)
      (hdeep : depth < deep) (hlimit : deep ≤ recursionLimit)
      (hread : ∀ outer fuel, buf.length ≤ pos + fuel →
        Reader.skipGroups fuel start outer ⟨pos, buf.drop pos, depth + 1⟩ =
          .error e ⟨mid, buf.drop mid, deep⟩) :
      GroupAgrees buf depth start pos (.error e ⟨mid, deep⟩)

/-- What a reader does in a group behind the tag of a record that does not end it. -/
def Reader.passRecord (wireType fuel start : Nat) (outer : List Nat) : Read Unit :=
  if wireType = 3 then do
    let inner ← Reader.position
    Reader.descend
    Reader.skipGroups fuel inner (start :: outer)
  else do
    Reader.skipPlain wireType
    Reader.skipGroups fuel start outer

/-- A record of a group behind its tag: it is passed over, and a reader then goes on with the
group, or both stop for the same cause. -/
inductive RecordAgrees (buf : List UInt8) (depth start mid wireType : Nat) : Outcome Unit → Prop
  | passed {last : Nat} (hmid : mid ≤ last) (hend : last ≤ buf.length)
      (hread : ∀ outer fuel, buf.length ≤ mid + fuel → ∃ fuel', buf.length ≤ last + fuel' ∧
        Reader.passRecord wireType fuel start outer ⟨mid, buf.drop mid, depth + 1⟩ =
          Reader.skipGroups fuel' start outer ⟨last, buf.drop last, depth + 1⟩) :
      RecordAgrees buf depth start mid wireType (.ok () ⟨last, depth + 1⟩)
  | failed {last deep : Nat} (e : DecodeError) (hmid : mid ≤ last) (hend : last ≤ buf.length)
      (hdeep : depth < deep) (hlimit : deep ≤ recursionLimit)
      (hread : ∀ outer fuel, buf.length ≤ mid + fuel →
        Reader.passRecord wireType fuel start outer ⟨mid, buf.drop mid, depth + 1⟩ =
          .error e ⟨last, buf.drop last, deep⟩) :
      RecordAgrees buf depth start mid wireType (.error e ⟨last, deep⟩)

section

variable {buf : List UInt8} {budget depth start pos : Nat}

lemma executes_skipPlain (wireType : Nat) :
    Executes buf depth 0 (Checked.skipPlain buf wireType) (Reader.skipPlain wireType) := by
  have hskip : ∀ n, Executes buf depth 0 (skip buf n) (skip n) :=
    fun n => (executes_skip buf depth n).mono (zero_le n)
  by_cases hvarint : wireType = 0
  · subst hvarint
    exact ((executes_varint buf depth).mono (zero_le 1)).map fun _ => ()
  by_cases hfixed : wireType = 1
  · subst hfixed
    exact hskip 8
  by_cases hblock : wireType = 2
  · subst hblock
    exact ((executes_uint32 buf depth).mono (zero_le 1)).bind_pure fun n => hskip n.toNat
  by_cases hfixed' : wireType = 5
  · subst hfixed'
    exact hskip 4
  · simp only [Checked.skipPlain, Reader.skipPlain]
    exact Executes.position.bind_pure fun _ => .fail _

/-- A group goes on behind a record that takes a byte. -/
lemma GroupAgrees.after {mid : Nat} {outcome : Outcome Unit}
    (h : GroupAgrees buf depth start mid outcome) (hpos : pos < mid)
    (hread : ∀ outer fuel, buf.length ≤ pos + fuel → ∃ fuel', buf.length ≤ mid + fuel' ∧
      Reader.skipGroups fuel start outer ⟨pos, buf.drop pos, depth + 1⟩ =
        Reader.skipGroups fuel' start outer ⟨mid, buf.drop mid, depth + 1⟩) :
    GroupAgrees buf depth start pos outcome := by
  cases h with
  | ended hmid hend hrest =>
    refine .ended (hpos.trans hmid) hend fun outer fuel hfuel => ?_
    obtain ⟨fuel', hfuel', heq⟩ := hread outer fuel hfuel
    obtain ⟨fuel'', hfuel'', heq'⟩ := hrest outer fuel' hfuel'
    exact ⟨fuel'', hfuel'', heq.trans heq'⟩
  | failed e hmid hend hdeep hlimit hrest =>
    refine .failed e (hpos.le.trans hmid) hend hdeep hlimit fun outer fuel hfuel => ?_
    obtain ⟨fuel', hfuel', heq⟩ := hread outer fuel hfuel
    exact heq.trans (hrest outer fuel' hfuel')

/-- A record of a group agrees if the groups nested one deeper do. -/
lemma recordAgrees {levels mid : Nat} (hdepth : depth < recursionLimit)
    (hgroup : depth + 1 < recursionLimit → ∀ start, GroupAgrees buf (depth + 1) start mid
      (Checked.loop (fun _ => Checked.groupRecord buf
        (Checked.skipType buf budget levels (some (depth + 1))) start) budget ()
        ⟨mid, depth + 2⟩)) (hmid : mid ≤ buf.length) (wireType start : Nat) :
    RecordAgrees buf depth start mid wireType
      (Checked.skipType buf budget (levels + 1) (some depth) wireType ⟨mid, depth + 1⟩) := by
  have habove : (some depth).all (· < depth + 1) := by simp
  by_cases hstart : wireType = 3
  · subst hstart
    by_cases hlt : depth + 1 < recursionLimit
    · have hinto : ∀ outer fuel,
          passRecord 3 fuel start outer ⟨mid, buf.drop mid, depth + 1⟩ =
            skipGroups fuel mid (start :: outer) ⟨mid, buf.drop mid, depth + 1 + 1⟩ :=
        fun _ _ => (Read.bind_ok (Reader.position_ok ..)).trans
          (bind_ok (descend_of_lt hlt _ _))
      rw [skipType_of_lt habove hlt]
      have hagrees := hgroup hlt mid
      revert hagrees
      generalize loop _ budget () ⟨mid, depth + 1 + 1⟩ = outcome
      intro hagrees
      cases hagrees with
      | ended hpos hend hread =>
        refine .passed hpos.le hend fun outer fuel hfuel => ?_
        rw [hinto]
        exact hread (start :: outer) fuel hfuel
      | failed e hpos hend hdeep hlimit hread =>
        refine .failed e hpos hend (by omega) hlimit fun outer fuel hfuel => ?_
        rw [hinto]
        exact hread (start :: outer) fuel hfuel
    · have hfull : recursionLimit ≤ depth + 1 := by omega
      rw [skipType_of_le habove hfull]
      refine .failed _ le_rfl hmid (lt_succ_self depth) hdepth fun outer fuel _ => ?_
      exact (Read.bind_ok (Reader.position_ok ..)).trans
        (bind_error (descend_of_le hfull _ _))
  · rw [skipType_of_ne habove hstart]
    have hplain : ∀ outer fuel, passRecord wireType fuel start outer =
        (do skipPlain wireType; skipGroups fuel start outer : Read Unit) :=
      fun _ _ => if_neg hstart
    rcases (executes_skipPlain wireType).cases hdepth hmid with
      ⟨⟨⟩, last, hx, hy, hlast, hend⟩ | ⟨e, last, deep, hx, hy, hlast, hend, hdeep, hlimit⟩
    · rw [hx]
      refine .passed hlast hend fun outer fuel hfuel => ⟨fuel, by omega, ?_⟩
      rw [hplain]
      exact bind_ok hy
    · rw [hx]
      refine .failed e hlast hend hdeep hlimit fun outer fuel _ => ?_
      rw [hplain]
      exact bind_error hy

/-- The groups in a group, by induction on how many levels may be nested, and the records of one
group, by induction on the budget. -/
lemma groupAgrees (hbudget : buf.length < budget) {levels : Nat} (hdepth : depth < recursionLimit)
    (hlevels : recursionLimit ≤ depth + levels) (hpos : pos ≤ buf.length) {left : Nat}
    (hleft : buf.length < pos + left) :
    GroupAgrees buf depth start pos
      (Checked.loop (fun _ => Checked.groupRecord buf
        (Checked.skipType buf budget levels (some depth)) start) left () ⟨pos, depth + 1⟩) := by
  induction levels generalizing depth start pos left with
  | zero => omega
  | succ levels ihLevels =>
    induction left generalizing pos with
    | zero => omega
    | succ left ih =>
      by_cases hlast : buf.length ≤ pos
      · have hnil : buf.drop pos = [] := List.drop_eq_nil_of_le hlast
        rw [loop_of_error (groupRecord_of_le hlast)]
        exact .failed _ le_rfl hpos (lt_succ_self depth) hdepth fun outer fuel _ =>
          skipGroups_of_nil hnil fuel start outer
      have hlt : pos < buf.length := not_le.mp hlast
      have hne : buf.drop pos ≠ [] := by
        intro hnil
        rw [List.drop_eq_nil_iff] at hnil
        omega
      have hfuel : ∀ fuel, buf.length ≤ pos + fuel → ∃ k, fuel = k + 1 :=
        fun fuel hfuel => ⟨fuel - 1, by omega⟩
      rcases (executes_uint32 buf (depth + 1)).cases hdepth hpos with
        ⟨tag, mid, hx, hy, hmid, hend⟩ | ⟨e, mid, deep, hx, hy, hmid, hend, hdeep, hlimit⟩
      · by_cases hstop : tag.toNat % 8 = 4
        · rw [loop_of_done (groupRecord_of_end hlt hx hstop)]
          refine .ended hmid hend fun outer fuel hle => ?_
          obtain ⟨fuel, rfl⟩ := hfuel fuel hle
          refine ⟨fuel, by omega, ?_⟩
          rw [skipGroups_of_tag hne hy, if_pos hstop]
          exact bind_ok (modify_ok ..)
        · have hrecord : groupRecord buf
              (skipType buf budget (levels + 1) (some depth)) start ⟨pos, depth + 1⟩ = _ :=
            groupRecord_of_tag hlt hx hstop
          have hpass : ∀ outer fuel,
              skipGroups (fuel + 1) start outer ⟨pos, buf.drop pos, depth + 1⟩ =
                passRecord (tag.toNat % 8) fuel start outer
                  ⟨mid, buf.drop mid, depth + 1⟩ := by
            intro outer fuel
            rw [skipGroups_of_tag hne hy, if_neg hstop]
            rfl
          have hagrees := recordAgrees hdepth (fun hdeeper start =>
            ihLevels hdeeper (by omega) hend (by omega)) hend (tag.toNat % 8) start
          generalize hskip : skipType buf budget (levels + 1) (some depth) (tag.toNat % 8)
            ⟨mid, depth + 1⟩ = outcome at hagrees
          cases hagrees with
          | passed hle hin hread =>
            rw [bind_ok hskip] at hrecord
            rw [loop_of_next hrecord (by simp only; omega)]
            refine (ih hin (by omega)).after (by omega) fun outer fuel hle => ?_
            obtain ⟨fuel, rfl⟩ := hfuel fuel hle
            rw [hpass]
            exact hread outer fuel (by omega)
          | failed e hle hin hdeep hlimit hread =>
            rw [bind_error hskip] at hrecord
            rw [loop_of_error hrecord]
            refine .failed e (by omega) hin hdeep hlimit fun outer fuel hle => ?_
            obtain ⟨fuel, rfl⟩ := hfuel fuel hle
            rw [hpass]
            exact hread outer fuel (by omega)
      · rw [loop_of_error (groupRecord_of_error hlt hx)]
        refine .failed e (by omega) hend hdeep hlimit fun outer fuel hle => ?_
        obtain ⟨fuel, rfl⟩ := hfuel fuel hle
        exact skipGroups_of_error hne hy fuel start outer

/-- Going past a value, whatever its wire type, with as many levels as the nesting limit allows
for. -/
lemma executes_skipType (hbudget : buf.length < budget) {levels : Nat}
    (hlevels : recursionLimit < depth + levels) {above : Option Nat}
    (habove : above.all (· < depth)) (wireType : Nat) :
    Executes buf depth 0 (Checked.skipType buf budget levels above wireType)
      (Reader.skipValue wireType) := by
  intro hdepth pos hpos
  obtain ⟨levels, rfl⟩ : ∃ k, levels = k + 1 := ⟨levels - 1, by omega⟩
  unfold skipValue
  by_cases hstart : wireType = 3
  · subst hstart
    simp only [if_true, Read.bind_ok (Reader.position_ok ..)]
    by_cases hlt : depth < recursionLimit
    · have hlength : (buf.drop pos).length = buf.length - pos := List.length_drop
      have hagrees : GroupAgrees buf depth pos pos (loop (fun _ => groupRecord buf
          (skipType buf budget levels (some depth)) pos) budget () ⟨pos, depth + 1⟩) :=
        groupAgrees hbudget hlt (by omega) hpos (by omega)
      rw [Checked.skipType_of_lt habove hlt, Read.bind_ok (Reader.descend_of_lt hlt _ _),
        bind_ok (get_ok _)]
      revert hagrees
      generalize loop _ budget () ⟨pos, depth + 1⟩ = outcome
      intro hagrees
      cases hagrees with
      | ended hmid hend hread =>
        obtain ⟨fuel, -, heq⟩ := hread [] (buf.drop pos).length (by omega)
        rw [heq]
        exact .ok () (le_of_lt hmid) hend
      | failed e hmid hend hdeep hlimit hread =>
        rw [hread [] (buf.drop pos).length (by omega)]
        exact .error e hmid hend (le_of_lt hdeep) hlimit
    · have hfull : recursionLimit ≤ depth := not_lt.mp hlt
      rw [Checked.skipType_of_le habove hfull, Read.bind_error (Reader.descend_of_le hfull _ _)]
      exact .error _ le_rfl hpos le_rfl hdepth
  · rw [skipType_of_ne habove hstart, if_neg hstart]
    exact executes_skipPlain wireType hdepth pos hpos

end

end Protobuf.Wire
