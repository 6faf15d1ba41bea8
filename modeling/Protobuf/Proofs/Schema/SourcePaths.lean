import Protobuf.Proofs.Schema.Registry

/-!
# Places in a file

A place is a list of field numbers of the descriptor and indices in turn. Followed from
the descriptor of a file, the place of each checked element leads to the descriptor that
the element was made from, so no two elements have one place.
-/

namespace Protobuf

open List

/-- A file or a part of it, as it arrives. -/
inductive Descriptor.Element where
  | file (d : File)
  | message (d : Message)
  | field (d : Field)
  | oneof (name : String)
  | enum (d : Enum)
  | value (d : EnumValue)
  | service (d : Service)
  | method (d : Method)

/-- The parts of a descriptor by the field numbers that they have in it. -/
def Descriptor.Element.parts : Element → List (Int × List Element)
  | .file d => [(4, d.messages.map .message), (5, d.enums.map .enum), (6, d.services.map .service)]
  | .message d =>
    [(2, d.fields.map .field), (3, d.messages.map .message), (4, d.enums.map .enum),
      (8, d.oneofs.map .oneof)]
  | .enum d => [(2, d.values.map .value)]
  | .service d => [(2, d.methods.map .method)]
  | _ => []

namespace Schema

/-- A checked file or a part of it. -/
inductive Element where
  | file (f : File)
  | message (m : Message)
  | field (f : Field)
  | oneof (o : Oneof)
  | enum (e : Enum)
  | value (v : EnumValue)
  | service (s : Service)
  | method (m : Method)

namespace Element

/-- The parts of a checked element by the field numbers that they have in its descriptor. -/
def parts : Element → List (Int × List Element)
  | .file f => [(4, f.messages.map .message), (5, f.enums.map .enum), (6, f.services.map .service)]
  | .message m =>
    [(2, m.fields.map .field), (3, m.messages.map .message), (4, m.enums.map .enum),
      (8, m.oneofs.map .oneof)]
  | .enum e => [(2, e.values.map .value)]
  | .service s => [(2, s.methods.map .method)]
  | _ => []

def path : Element → SourcePath
  | .file _ => []
  | .message m => m.path
  | .field f => f.path
  | .oneof o => o.path
  | .enum e => e.path
  | .value v => v.path
  | .service s => s.path
  | .method m => m.path

end Element

def part? {α : Type} (parts : List (Int × List α)) (number index : Int) : Option α := do
  (← parts.lookup number)[← index.toNat?]?

/-- What field numbers and indices in turn lead to. -/
def follow {α : Type} (parts : α → List (Int × List α)) : α → SourcePath → Option α
  | a, [] => some a
  | a, number :: index :: path => (part? (parts a) number index).bind (follow parts · path)
  | _, [_] => none

/-- The element is what the descriptor becomes at a place. -/
inductive Converts : SourcePath → Descriptor.Element → Element → Prop where
  | file {d : Descriptor.File} {f : File} (h : File.check d = .ok f) :
    Converts [] (.file d) (.file f)
  | message {path : SourcePath} {scope : String} {d : Descriptor.Message} {m : Message}
    (h : checkMessage scope path d = .ok m) : Converts path (.message d) (.message m)
  | field {path : SourcePath} {owner : String} {d : Descriptor.Field} {f : Field}
    (h : checkField owner path d = .ok f) : Converts path (.field d) (.field f)
  | oneof (path : SourcePath) (name : String) : Converts path (.oneof name) (.oneof ⟨name, path⟩)
  | enum (path : SourcePath) (d : Descriptor.Enum) :
    Converts path (.enum d) (.enum (placeEnum path d))
  | value (path : SourcePath) (d : Descriptor.EnumValue) :
    Converts path (.value d) (.value ⟨d.name, d.number, path⟩)
  | service (path : SourcePath) (d : Descriptor.Service) :
    Converts path (.service d) (.service (placeService path d))
  | method (path : SourcePath) (d : Descriptor.Method) : Converts path (.method d)
    (.method ⟨d.name, d.input, d.output, d.clientStreaming, d.serverStreaming, path⟩)

section

variable {α β : Type} {path : SourcePath} {number : Int} {items : List α}
  {x : α → Descriptor.Element}

lemma rel_getElem? {R : α → β → Prop} {as : List α} {bs : List β} (h : List.Forall₂ R as bs)
    (i : Nat) : Option.Rel R as[i]? bs[i]? := by
  induction h generalizing i with
  | nil => exact .none
  | cons hab _ ih =>
    cases i with
    | zero => exact .some hab
    | succ i => simpa using ih i

lemma rel_of_numbered {bs : List β} {e : β → Element}
    (h : List.Forall₂ (fun a b => Converts a.1 (x a.2) (e b)) (numbered path number items) bs)
    (i : Nat) :
    Option.Rel (Converts (path ++ [number, (i : Int)])) (items.map x)[i]? (bs.map e)[i]? := by
  have hnumbered : (numbered path number items)[i]? =
      items[i]?.map fun a => (path ++ [number, (i : Int)], a) := by
    simp [numbered, Function.comp_def]
  have hrel := rel_getElem? h i
  rw [hnumbered] at hrel
  rw [getElem?_map, getElem?_map]
  generalize items[i]? = item at hrel ⊢
  generalize bs[i]? = b at hrel ⊢
  cases item with
  | none =>
    cases hrel
    exact .none
  | some a =>
    cases hrel with
    | some ha => exact .some ha

lemma rel_of_map {f : SourcePath × α → β} {e : β → Element}
    (h : ∀ a, Converts a.1 (x a.2) (e (f a))) (i : Nat) :
    Option.Rel (Converts (path ++ [number, (i : Int)])) (items.map x)[i]?
      (((numbered path number items).map f).map e)[i]? :=
  rel_of_numbered (forall₂_map_right_iff.mpr (forall₂_same.mpr fun a _ => h a)) i

end

lemma checkMessages_eq_ok {scope : String} {path : SourcePath} {number : Int} {index : Nat}
    {ds : List Descriptor.Message} {ms : List Message}
    (h : checkMessages scope (path ++ [number]) index ds = .ok ms) :
    List.Forall₂ (fun a m => checkMessage scope (path ++ [number, (a.2 : Int)]) a.1 = .ok m)
      (ds.zipIdx index) ms := by
  induction ds generalizing index ms with
  | nil =>
    cases h
    exact .nil
  | cons d ds ih =>
    unfold checkMessages at h
    obtain ⟨m, hm, h⟩ := ok_of_bind h
    obtain ⟨ms', hms, h⟩ := ok_of_bind h
    cases h
    rw [append_assoc] at hm
    exact .cons hm (ih hms)

namespace Converts

variable {path : SourcePath} {x : Descriptor.Element} {e : Element}

lemma path_eq (h : Converts path x e) : e.path = path := by
  cases h with
  | @message _ _ d _ h =>
    cases d
    obtain ⟨_, _, -, -, -, rfl⟩ := checkMessage_eq_ok h
    rfl
  | field h => exact (checkField_eq_ok h).2.1
  | _ => rfl

/-- The parts of an element were made from those of its descriptor, each one under the same number
and at its index. -/
lemma parts (h : Converts path x e) :
    List.Forall₂ (fun g g' => g.1 = g'.1 ∧ ∀ i : Nat,
      Option.Rel (Converts (path ++ [g.1, (i : Int)])) g.2[i]? g'.2[i]?) x.parts e.parts := by
  cases h with
  | @file d f h =>
    obtain ⟨messages, hmessages, rfl⟩ := File.check_eq_ok h
    refine .cons ⟨rfl, rel_of_numbered ?_⟩ (.cons ⟨rfl, rel_of_map fun a => .enum a.1 a.2⟩
      (.cons ⟨rfl, rel_of_map fun a => .service a.1 a.2⟩ .nil))
    exact forall₂_map_left_iff.mpr
      ((@checkMessages_eq_ok _ [] _ _ _ _ hmessages).imp fun _ _ => .message)
  | @message _ scope d m h =>
    obtain ⟨name, fields, messages, enums, oneofs, mapEntry⟩ := d
    obtain ⟨fields', messages', hfields, hmessages, -, rfl⟩ := checkMessage_eq_ok h
    refine .cons ⟨rfl, rel_of_numbered ?_⟩ (.cons ⟨rfl, rel_of_numbered ?_⟩
      (.cons ⟨rfl, rel_of_map fun a => .enum a.1 a.2⟩
        (.cons ⟨rfl, rel_of_map fun a => .oneof a.1 a.2⟩ .nil)))
    · exact (mapM_eq_ok_iff.mp hfields).imp fun _ _ => .field
    · exact forall₂_map_left_iff.mpr ((checkMessages_eq_ok hmessages).imp fun _ _ => .message)
  | enum _ d => exact .cons ⟨rfl, rel_of_map fun a => .value a.1 a.2⟩ .nil
  | service _ d => exact .cons ⟨rfl, rel_of_map fun a => .method a.1 a.2⟩ .nil
  | field _ | oneof _ _ | value _ _ | method _ _ => exact .nil

/-- One step leads to a part of the element and to the descriptor that it was made from. -/
lemma step (h : Converts path x e) (number index : Int) :
    Option.Rel (Converts (path ++ [number, index])) (part? x.parts number index)
      (part? e.parts number index) := by
  have hparts := h.parts
  unfold part?
  generalize x.parts = xs at hparts ⊢
  generalize e.parts = es at hparts ⊢
  induction hparts with
  | nil => exact .none
  | @cons g g' gs gs' hg _ ih =>
    obtain ⟨n, xs⟩ := g
    obtain ⟨n', es⟩ := g'
    obtain ⟨rfl, hrel⟩ := hg
    by_cases hn : number = n
    · cases index with
      | ofNat i => simpa [lookup_cons, hn, Int.toNat?] using hrel i
      | negSucc i => simp [hn, Int.toNat?]
    · simpa [lookup_cons, beq_eq_false_iff_ne.mpr hn] using ih

lemma follow (h : Converts path x e) (steps : SourcePath) :
    Option.Rel (Converts (path ++ steps)) (follow Descriptor.Element.parts x steps)
      (follow Element.parts e steps) := by
  induction steps using twoStepInduction generalizing path x e with
  | nil => simpa [Schema.follow] using Option.Rel.some h
  | singleton _ => exact .none
  | cons_cons number index steps ih _ =>
    have hrel := h.step number index
    rw [Schema.follow, Schema.follow]
    generalize part? x.parts number index = y at hrel ⊢
    generalize part? e.parts number index = z at hrel ⊢
    cases hrel with
    | none => exact .none
    | some hyz => simpa using ih hyz

end Converts

lemma Comments.lines_ofLocations (locations : List Descriptor.Location) (path : SourcePath) :
    (Comments.ofLocations locations).lines path =
      (Comments.ofLocations (locations.filter (·.path == path))).lines path := by
  simp only [lines, ofLocations, ← filter_reverse, find?_filter]
  congr 2
  grind

/-- A place leads through the descriptor of a checked file to what was made into the element that it
leads to in the file, and that element remembers it. So different elements have different places,
and each one has the comments of its own place only. -/
theorem File.check_places {d : Descriptor.File} {f : File} (h : File.check d = .ok f) :
    (∀ place, Option.Rel (Converts place) (follow Descriptor.Element.parts (.file d) place)
      (follow Element.parts (.file f) place)) ∧
    (∀ place e, follow Element.parts (.file f) place = some e → e.path = place ∧
      f.comments.lines e.path =
        (Comments.ofLocations (d.locations.filter (·.path == place))).lines place) ∧
    ∀ p q e e', follow Element.parts (.file f) p = some e →
      follow Element.parts (.file f) q = some e' → e.path = e'.path → p = q := by
  have hplaces (place : SourcePath) := (Converts.file h).follow place
  have hpath (place : SourcePath) (e : Element)
      (he : Schema.follow Element.parts (.file f) place = some e) : e.path = place := by
    have hrel := hplaces place
    rw [he] at hrel
    generalize Schema.follow Descriptor.Element.parts (.file d) place = x at hrel
    cases hrel with
    | some hconverts => exact hconverts.path_eq
  have hcomments : f.comments = .ofLocations d.locations := by
    obtain ⟨messages, -, rfl⟩ := check_eq_ok h
    rfl
  refine ⟨hplaces, fun place e he => ⟨hpath place e he, ?_⟩, fun p q e e' he he' heq => ?_⟩
  · rw [hpath place e he, hcomments, Comments.lines_ofLocations]
  · rw [← hpath p e he, heq, hpath q e' he']

/-- A file with a message in which others are nested. -/
private def nestedFile : Descriptor.File where
  name := "weather.proto"
  messages := [{ name := "Report", messages := [{ name := "Wind" }, { name := "Heat", fields :=
    [{ name := "degrees", number := 1, type := some 5 }] }] }]
  locations := [{ path := [4, 0, 3, 1, 2, 0], leading := some " Degrees.\n" }]

/-- A field of a message in a message is found, with the comment before it. -/
theorem File.check_places_nested :
    ∃ f e, File.check nestedFile = .ok f ∧
      follow Element.parts (.file f) [4, 0, 3, 1, 2, 0] = some e ∧
      e.path = [4, 0, 3, 1, 2, 0] ∧ f.comments.lines e.path = [" Degrees."] := by
  have hok : (File.check nestedFile).toOption.any (fun f =>
      (follow Element.parts (.file f) [4, 0, 3, 1, 2, 0]).isSome) = true := by decide +kernel
  obtain ⟨f, hf, hsome⟩ := exists_ok_of_any hok
  obtain ⟨e, he⟩ := Option.isSome_iff_exists.mp hsome
  obtain ⟨-, hplace, -⟩ := File.check_places hf
  obtain ⟨hpath, hlines⟩ := hplace _ e he
  exact ⟨f, e, hf, he, hpath, hlines.trans (by decide +kernel)⟩

end Schema

end Protobuf
