import Protobuf.Plan.Field

/-!
# Plans of enums

Every distinct number of an enum gets one variant, called after the first name
declared with it; further names are aliases. One more variant stands for numbers
that are not declared, with a name and a number of its own.
-/

namespace Protobuf.Plan

open Protobuf.Schema

/-- A variant: its identifier and the first value declared with its number. -/
structure EnumVariant where
  ident : Source.Ident
  value : EnumValue
  deriving DecidableEq

structure EnumPlan where
  /-- One variant for each distinct number, in the order of first declaration. -/
  variants : List EnumVariant
  /-- All declared names, each with the identifier of the variant of its number. -/
  names : List (String × Source.Ident)
  /-- Identifier of the variant for numbers that are not declared. -/
  sentinel : Source.Ident
  sentinelNumber : Int32
  /-- Identifier of the variant of a field that was not set. -/
  default : Source.Ident
  deriving DecidableEq

/-- Variants found so far. -/
structure EnumDraft where
  variants : List EnumVariant
  names : List (String × Source.Ident)
  /-- Texts of the identifiers used. -/
  used : List String

/-- The identifier of a variant; one that is used already gets the size of the number at its
end. -/
def variantIdent (used : List String) (value : EnumValue) : Except CompileError Source.Ident := do
  let i ← ident value.name (Naming.variantIdent? value.name)
  if used.contains i.text then
    let text := i.name ++ "_" ++ Text.natText value.number.toInt.natAbs
    ident text (Source.Ident.ofText? text)
  else return i

/-- Add a value: a name for the variant of its number, or a new variant. -/
def EnumDraft.add (d : EnumDraft) (value : EnumValue) : Except CompileError EnumDraft :=
  match d.variants.find? fun v => v.value.number == value.number with
  | some v => .ok { d with names := d.names ++ [(value.name, v.ident)] }
  | none => do
    let i ← variantIdent d.used value
    return {
      variants := d.variants ++ [⟨i, value⟩]
      names := d.names ++ [(value.name, i)]
      used := i.text :: d.used }

def sentinelIdent (used : List String) : Source.Ident :=
  ⟨false, if used.contains "Unrecognized" then "Unrecognized_" else "Unrecognized"⟩

/-- The number for numbers that are not declared: minus one, or the least number if that is
declared. -/
def unusedNumber (numbers : List Int32) : Int32 :=
  if numbers.contains (-1) then Int32.minValue else -1

/-- The variant of a field that was not set: number zero, else the first one, else the
sentinel. -/
def defaultIdent (variants : List EnumVariant) (sentinel : Source.Ident) : Source.Ident :=
  match variants.find? fun v => v.value.number == 0 with
  | some v => v.ident
  | none =>
    match variants with
    | v :: _ => v.ident
    | [] => sentinel

def EnumPlan.ofEnum (e : Enum) : Except CompileError EnumPlan := do
  let d ← e.values.foldlM EnumDraft.add ⟨[], [], []⟩
  let sentinel := sentinelIdent d.used
  return {
    variants := d.variants
    names := d.names
    sentinel
    sentinelNumber := unusedNumber (e.values.map EnumValue.number)
    default := defaultIdent d.variants sentinel }

namespace EnumPlan

def numberArms (plan : EnumPlan) : List (Int32 × Source.Ident) :=
  plan.variants.map fun v => (v.value.number, v.ident)

/-- The text of each variant, the first name declared with its number. -/
def textArms (plan : EnumPlan) : List (Source.Ident × String) :=
  plan.variants.map fun v => (v.ident, v.value.name)

def nameArms (plan : EnumPlan) : List (List String × Source.Ident) :=
  plan.variants.map fun v =>
    ((plan.names.filter fun n => n.2 == v.ident).map Prod.fst, v.ident)

end EnumPlan

end Protobuf.Plan
