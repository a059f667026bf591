/-
SexprSsa.Ir.ListingStyle — the settings of a listing.

Colours, indentation and the names in comments can be chosen. None of them
changes what a listing says about control and data.
-/

namespace SexprSsa

/-- How instructions are indented. -/
inductive Indent where
  | spaces (width : Nat)
  | tab
  deriving DecidableEq, Repr

/-- The characters of an indentation. -/
def Indent.render : Indent → String
  | .spaces width => String.ofList (List.replicate width ' ')
  | .tab => "\t"

/-- The settings of a listing. -/
structure ListingStyle where
  colors : Bool := false
  indent : Indent := .spaces 4
  /-- Whether block labels are followed by the block's name. -/
  blockNames : Bool := true
  /-- Whether allocations are followed by the slot's name. -/
  slotNames : Bool := true
  deriving DecidableEq, Repr

namespace ListingStyle

/-- Names as comments, no colours. -/
def standard : ListingStyle := {}

/-- Names as comments, in colours. -/
def terminal : ListingStyle := { colors := true }

/-- Instructions only. -/
def bare : ListingStyle := { blockNames := false, slotNames := false }

end ListingStyle

end SexprSsa
