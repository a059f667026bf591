/-
SexprSsa.Ir.Listing — modules as text.

A listing has a section for the variables, one for the strings and one for
the declarations, each left out if empty, and then the functions. A function
shows its blocks in layout order. Variables and functions go by name,
everything else by number. Names of blocks and slots are comments.
-/
import SexprSsa.Ir.ListingStyle
import SexprSsa.Ir.Module
import SexprSsa.Text.Quoted
import SexprSsa.Text.Styled

namespace SexprSsa

/-! ## Names -/

/-- A name after the sign of its kind. -/
def symbolSpan (sign name : String) : Span := .styled .symbol (sign ++ name)

/-- A name as a comment. -/
def commentSpan (name : String) : Span := .styled .comment ("; " ++ name)

/-! ## Instructions -/

/-- An operand; a variable that the module does not have goes by number. -/
def Operand.listing (m : Module) : Operand → StyledText
  | .global id =>
      match m.global? id with
      | some var => [symbolSpan "@" var.name]
      | none => [.plain (toString id)]
  | .func name => [symbolSpan "%" name]
  | operand => [.plain operand.render]

/-- Operands separated by commas. -/
def Operand.listings (m : Module) (operands : List Operand) : StyledText :=
  StyledText.commaSeparated (operands.map (Operand.listing m))

/-- One entry of a phi. -/
def phiEntry (m : Module) (entry : Operand × BlockId) : StyledText :=
  .plain "[" :: (entry.1.listing m ++ [.plain (", " ++ toString entry.2 ++ "]")])

/-- An instruction, without indentation. -/
def Instr.listing (style : ListingStyle) (m : Module) : Instr → StyledText
  | .alloca slot ty name =>
      .plain s!"{slot} = alloca.{ty}" ::
        (if style.slotNames then [.plain "  ", commentSpan name] else [])
  | .load result ty address => .plain s!"{result} = load.{ty} " :: address.listing m
  | .store address value => .plain "store " :: Operand.listings m [value, address]
  | .arith result op left right =>
      .plain s!"{result} = {op.mnemonic} " :: Operand.listings m [left, right]
  | .compare result cond left right =>
      .plain s!"{result} = icmp {cond.mnemonic} " :: Operand.listings m [left, right]
  | .call result callee args =>
      .plain s!"{result} = call " :: symbolSpan "%" callee :: .plain "(" ::
        (Operand.listings m args ++ [.plain ")"])
  | .phi result ty incoming =>
      .plain s!"{result} = phi.{ty} " :: StyledText.commaSeparated (incoming.map (phiEntry m))

/-- A terminator, without indentation. -/
def Terminator.listing (m : Module) : Terminator → StyledText
  | .jump target => [.plain s!"jump {target}"]
  | .branch condition yes no =>
      .plain "brif " :: (condition.listing m ++ [.plain s!", {yes}, {no}"])
  | .ret (some value) => .plain "return " :: value.listing m
  | .ret none => [.plain "return"]
  | .missing => [commentSpan "missing terminator"]

/-! ## Functions -/

/-- A line of a block. -/
def indented (style : ListingStyle) (line : StyledText) : StyledText :=
  .plain style.indent.render :: (line ++ [.plain "\n"])

/-- The label of a block, with its name if wanted. -/
def Block.label (style : ListingStyle) (b : Block) : StyledText :=
  .styled .label s!"{b.id}:" ::
    (if style.blockNames then [.plain "  ", commentSpan b.name, .plain "\n"] else [.plain "\n"])

/-- A block. -/
def Block.listing (style : ListingStyle) (m : Module) (b : Block) : StyledText :=
  b.label style ++ b.instrs.flatMap (fun instr => indented style (instr.listing style m)) ++
    indented style (b.terminator.listing m)

/-- Blocks with an empty line between them. -/
def blocksListing (style : ListingStyle) (m : Module) : List Block → StyledText
  | [] => []
  | [b] => b.listing style m
  | b :: rest => b.listing style m ++ .plain "\n" :: blocksListing style m rest

/-- A signature. -/
def Signature.listing (s : Signature) : StyledText :=
  let params := s.params.map Ty.render ++ (if s.variadic then ["..."] else [])
  let params := ", ".intercalate params
  [symbolSpan "%" s.name, .plain s!"({params}) -> {s.ret}"]

/-- The blocks that a function lays out; a declaration has none. -/
def Func.laidOut (f : Func) : List Block :=
  match f.body with
  | some body => body.laidOut
  | none => []

/-- A function. -/
def Func.listing (style : ListingStyle) (m : Module) (f : Func) : StyledText :=
  .styled .keyword "function" :: .plain " " ::
    (f.signature.listing ++ .plain " \x7b\n" ::
      (blocksListing style m f.laidOut ++ [.plain "\x7d\n"]))

/-! ## Modules -/

/-- A variable of the module. -/
def GlobalVar.listing (var : GlobalVar) : StyledText :=
  [symbolSpan "@" var.name, .plain " = ",
    .styled .keyword (if var.isConstant then "constant" else "global"),
    .plain s!" {var.ty} {var.initial.render}, align {var.align}\n"]

/-- A string of the module. -/
def StrConst.listing (s : StrConst) : StyledText :=
  [.plain s!"{s.id} = ", .styled .keyword "string",
    .plain s!" [{s.byteSize} x i8] {quoted s.value}\n"]

/-- A declaration. -/
def Func.declaration (f : Func) : StyledText :=
  .styled .keyword "declare" :: .plain " " :: (f.signature.listing ++ [.plain "\n"])

/-- Lines after an empty line, or nothing. -/
def sectionOf (lines : List StyledText) : StyledText :=
  match lines with
  | [] => []
  | lines => .plain "\n" :: lines.flatten

/-- A module. -/
def Module.listing (style : ListingStyle) (m : Module) : StyledText :=
  commentSpan ("module " ++ m.name) :: .plain "\n" ::
    (sectionOf (m.globals.values.map GlobalVar.listing) ++
      sectionOf (m.strings.map StrConst.listing) ++
      sectionOf (m.declared.map Func.declaration) ++
      m.defined.flatMap fun f => .plain "\n" :: f.listing style m)

/-- The text of a function. -/
def Func.render (style : ListingStyle) (m : Module) (f : Func) : String :=
  (f.listing style m).render style.colors

/-- The text of a module. -/
def Module.render (style : ListingStyle) (m : Module) : String :=
  (m.listing style).render style.colors

end SexprSsa
