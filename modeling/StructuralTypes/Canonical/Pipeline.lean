import StructuralTypes.Canonical.Companions
import StructuralTypes.Canonical.Invariants
import StructuralTypes.Canonical.Variables

/-! Canonicalization of a whole program. -/

namespace StructuralTypes

inductive Checking where
  | never
  /-- In a library built with its internal checks, which this one is. -/
  | internal
  | always
  deriving DecidableEq, Repr

def Checking.enabled : Checking → Bool
  | .never => false
  | .internal | .always => true

structure Options where
  /-- Settle the index companions of domains, too. -/
  companions : Bool := true
  checking : Checking := .internal
  deriving DecidableEq, Repr

def settleCompanions {τ : Type} : Walk Failure (Progress τ) Unit :=
  Walk.focus (fun progress => CompanionWalk.start progress.tally)
    (fun progress own => { progress with tally := own.tally })
    indexCompanions.walkProgram

def checkCanonical {τ : Type} : Walk Failure (Progress τ) Unit := do
  let violations ← Walk.ask (·.violations)
  unless violations.isEmpty do
    Walk.fault (.notCanonical violations)

def canonicalizeTypes {τ : Type} (hook : SequenceHook τ) (options : Options) :
    Walk Failure (Progress τ) Unit := do
  (variableTypes hook).walkProgram
  if options.companions then
    settleCompanions

/-- Canonicalize the types of a program and check the result. A failure leaves the
program partly canonicalized. -/
def canonicalize {τ : Type} (hook : SequenceHook τ) (options : Options) :
    Walk Failure (Progress τ) Unit := do
  canonicalizeTypes hook options
  if options.checking.enabled then
    checkCanonical

end StructuralTypes
