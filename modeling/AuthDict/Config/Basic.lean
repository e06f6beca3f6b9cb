import AuthDict.Commitment
import AuthDict.Duration
import AuthDict.Label.Secret
import AuthDict.SipHash

/-!
# Configuration

The settings of one dictionary, fixed once it is built, and those of its updater.
-/
namespace AuthDict

/-- How a querier sees the trie: from the copy it loaded last, or from storage at each lookup. -/
inductive QueryMode where
  | cached
  | direct
deriving DecidableEq, Repr

def QueryMode.name : QueryMode → String
  | .cached => "cached"
  | .direct => "direct"

/-- What happens to a batch that could not be applied: it goes back to the head of the queue, or it
is dropped. -/
inductive FailurePolicy where
  | requeue
  | discard
deriving DecidableEq, Repr

def FailurePolicy.name : FailurePolicy → String
  | .requeue => "requeue"
  | .discard => "discard"

structure Config where
  commitmentScheme : CommitmentScheme := .keccak256
  labelScheme : LabelScheme := .plain
  queryMode : QueryMode := .cached
  labelSeed : Option Seed := none
  /-- Capacity of the label cache; zero turns it off. -/
  labelCacheSize : UInt64 := 1024
  /-- Workers of a batch insertion. By default there are as many as the machine has processors, and
  the default here is that of a machine with one. -/
  threadCount : UInt64 := 1
  querierPoolSize : UInt64 := 4
  /-- Period of the background commits; without one the caller commits. -/
  commitInterval : Option Duration := none
  onApplyFailure : FailurePolicy := .requeue
deriving DecidableEq, Repr

structure UpdaterConfig where
  commitInterval : Option Duration := none
  onApplyFailure : FailurePolicy := .requeue
  /-- Whether a scheduler that is stopped runs one more cycle. -/
  flushOnShutdown : Bool := true
deriving DecidableEq, Repr

/-- Why a configuration cannot be used. -/
inductive ConfigFault where
  | noThreads
  | poolSize (size : UInt64)
  | zeroInterval
deriving DecidableEq, Repr

/-- Queriers are picked with one random byte, so a pool holds no more than this. -/
def maxPoolSize : Nat := 256

namespace Config

/-- The first reason not to use the configuration. -/
def fault? (c : Config) : Option ConfigFault :=
  if c.threadCount = 0 then some .noThreads
  else if c.querierPoolSize = 0 ∨ maxPoolSize < c.querierPoolSize.toNat then
    some (.poolSize c.querierPoolSize)
  else if c.commitInterval = some .zero then some .zeroInterval
  else none

def updater (c : Config) : UpdaterConfig :=
  { commitInterval := c.commitInterval, onApplyFailure := c.onApplyFailure }

/-- The parameters that change labels or commitments, as bytes: choices and the presence of a seed
in eight bytes each, and the seed with its length. -/
def derivationBytes (c : Config) : Bytes :=
  let choice (second : Bool) : Bytes := leBytes 8 (if second then 1 else 0)
  let seed := match c.labelSeed with
    | none => choice false
    | some seed => choice true ++ leBytes 8 32 ++ seed.bytes
  choice (c.commitmentScheme == .sha3) ++ choice (c.labelScheme == .verifiable) ++ seed
    ++ choice (c.queryMode == .direct)

/-- Sixteen hexadecimal digits that identify those parameters. -/
def fingerprint (c : Config) : String :=
  Hex.encode (leBytes 8 (SipHash.hash c.derivationBytes).toNat).reverse

end Config

end AuthDict
