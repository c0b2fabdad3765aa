import StagedLowering.Run

/-!
# Fixpoints

A round is repeated until it leaves nothing pending, at most as often as a bound says. The last
round counts, and a bound of 0 allows one. Bounds and rounds are of 64 bits, and no round is counted
beyond the bound.
-/

namespace StagedLowering

/-- What a round achieved. -/
inductive Progress
  | converged
  | pending (residual : Nat)
deriving DecidableEq

def Progress.residual : Progress → Nat
  | converged => 0
  | pending residual => residual

def Progress.ofResidual : Nat → Progress
  | 0 => converged
  | residual + 1 => pending (residual + 1)

variable {σ υ : Type}

/-- Repeats a round up to `left` more times after `done` rounds, the last of which left `residual`
items. -/
def settleFrom (round : Run σ υ Failure Progress) (done residual : Nat) :
    Nat → Run σ υ Failure Nat
  | 0 => Run.fail (.unsettled done residual)
  | left + 1 => do
    let progress ← round
    if progress.residual = 0 then return done + 1
    Run.emit (.unsettled (done + 1) progress.residual)
    settleFrom round (done + 1) progress.residual left

/-- Repeats a round until nothing is pending and gives the number of rounds. -/
def settle (round : Run σ υ Failure Progress) (bound : Nat) : Run σ υ Failure Nat :=
  settleFrom round 0 0 (max bound 1)

structure Fixpoint (σ υ : Type) where
  round : Config → Run σ υ Failure Progress
  /-- A bound of its own, in place of the configured one. -/
  bound : Option Nat := none
  /-- The counter that grows by the number of rounds. -/
  statistic : Option String := none

def Fixpoint.run (fixpoint : Fixpoint σ υ) (config : Config) : Run σ υ Failure Unit := do
  let iterations ← settle (fixpoint.round config) (fixpoint.bound.getD config.maxIterations)
  Run.emit (.settled iterations)
  fixpoint.statistic.forM fun name => Run.onContext (·.bump name iterations)

end StagedLowering
