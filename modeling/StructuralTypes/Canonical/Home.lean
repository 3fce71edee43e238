import StructuralTypes.Canonical.Settle

/-! Where the declaration of an array or a sequence belongs. It stands beside the
declaration of its element if that is a lexical one, so that an element declared
in a block draws no declaration into wider visibility. -/

namespace StructuralTypes

inductive Home where
  /-- The shared scope and body. -/
  | shared
  /-- The scope of an element type, right after the element's declaration. -/
  | beside (element : SymbolRef) (scope : ScopeRef)
  deriving DecidableEq, Repr

namespace Home

def scope : Home → ScopeRef
  | .shared => Program.sharedScope
  | .beside _ scope => scope

def placement : Home → Placement
  | .shared => .shared
  | .beside element _ => .afterElement element

end Home

/-- Home of what is built over the element type that `element` declares. Elements
that are built in, that have no declaration at all, or that live in the shared
scope have no place of their own to stand beside. -/
def Program.homeBeside (program : Program) (element : SymbolRef) :
    Except Fault Home := do
  let symbol ← program.symbol element
  let scope ← program.scopes.get symbol.scope
  if scope.intrinsic ∨ symbol.definition = .absent ∨
      symbol.scope = sharedScope then
    return .shared
  else
    return .beside element symbol.scope

end StructuralTypes
