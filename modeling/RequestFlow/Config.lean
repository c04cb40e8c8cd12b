import RequestFlow.Fault

/-!
# Network settings

The settings of a network and the two rules they obey.
-/

namespace RequestFlow

structure Config where
  /-- Attempts that last longer, in milliseconds, are logged. -/
  slowThreshold : Int := 3000
  /-- Every received body is logged. -/
  logAll : Bool := false
  /-- Bytes that the network's own buffer pool may keep. -/
  poolLimit : Nat := 4096
  /-- Size of the first buffer for a body of unknown length. -/
  bodyBuffer : Nat := 256
  deriving DecidableEq, Repr

namespace Config

def validate (c : Config) : Except Fault Unit :=
  if c.slowThreshold < 0 then .error .negativeThreshold
  else if c.bodyBuffer = 0 then .error .emptyBodyBuffer
  else .ok ()

/-- A single change of the settings. -/
inductive Change
  | slowThreshold (milliseconds : Int)
  | logAll (on : Bool)
  | poolLimit (bytes : Nat)
  | bodyBuffer (bytes : Nat)
  deriving DecidableEq, Repr

def apply (c : Config) : Change → Config
  | .slowThreshold ms => { c with slowThreshold := ms }
  | .logAll on => { c with logAll := on }
  | .poolLimit n => { c with poolLimit := n }
  | .bodyBuffer n => { c with bodyBuffer := n }

theorem validate_eq_ok_iff (c : Config) :
    c.validate = .ok () ↔ 0 ≤ c.slowThreshold ∧ 0 < c.bodyBuffer := by
  unfold validate
  split
  · simp; omega
  · split
    · simp; omega
    · simp; omega

end Config

end RequestFlow
