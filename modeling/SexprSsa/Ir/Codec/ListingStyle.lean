/-
SexprSsa.Ir.Codec.ListingStyle — the settings of a listing as JSON.
-/
import SexprSsa.Ir.ListingStyle
import SexprSsa.Json.Decode
import SexprSsa.Json.Writer

namespace SexprSsa

open Json

namespace Indent

/-- Writes an indentation. -/
def toJson : Indent → Json
  | .spaces width => tagged "Spaces" (ofNat width)
  | .tab => ofText "Tabs"

/-- Reads an indentation. -/
def ofJson? (depth : Nat) (json : Json) : Option Indent := do
  match ← variant? depth json with
  | ("Spaces", payload) => (payload? (fun _ => nat64?) payload).map .spaces
  | ("Tabs", payload) => plain? .tab payload
  | _ => none

end Indent

namespace ListingStyle

/-- Writes settings. -/
def toJson (style : ListingStyle) : Json :=
  record
    [("use_colors", .bool style.colors), ("indent_style", style.indent.toJson),
      ("block_comments", .bool style.blockNames), ("slot_names", .bool style.slotNames)]

/-- Reads settings; what is left out is as in the standard settings. -/
def ofJson? : Nat → Json → Option ListingStyle
  | depth + 1, json => do
      match ← someFields? ["use_colors", "indent_style", "block_comments", "slot_names"] json with
      | [colors, indent, blockNames, slotNames] =>
          return ⟨← orDefault standard.colors bool? colors,
            ← orDefault standard.indent (Indent.ofJson? depth) indent,
            ← orDefault standard.blockNames bool? blockNames,
            ← orDefault standard.slotNames bool? slotNames⟩
      | _ => none
  | _, _ => none

end ListingStyle

end SexprSsa
