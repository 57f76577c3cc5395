import ConcurrencyFaults.Vocabulary

/-!
# Memory orders and synchronization scopes

Each access to memory carries an order, from plain access to sequential consistency, and a scope,
which says whether it synchronizes with other threads or only with handlers on its own thread.
-/

namespace ConcurrencyFaults

/-- How an access to memory is ordered against others. -/
inductive MemoryOrder where
  /-- Plain access. -/
  | notAtomic
  | unordered
  | monotonic
  | acquire
  | release
  | acquireRelease
  | sequentiallyConsistent
deriving DecidableEq, Repr, Inhabited

namespace MemoryOrder

def all : List MemoryOrder :=
  [.notAtomic, .unordered, .monotonic, .acquire, .release, .acquireRelease,
    .sequentiallyConsistent]

def text : MemoryOrder → String
  | .notAtomic => "not_atomic"
  | .unordered => "unordered"
  | .monotonic => "monotonic"
  | .acquire => "acquire"
  | .release => "release"
  | .acquireRelease => "acq_rel"
  | .sequentiallyConsistent => "seq_cst"

/-- Every order but plain access is atomic. -/
def isAtomic (order : MemoryOrder) : Bool := order != .notAtomic

instance : Vocabulary MemoryOrder := ⟨all, text⟩

end MemoryOrder

/-- Which code an atomic access synchronizes with. -/
inductive SyncScope where
  /-- Only code on the same thread. -/
  | singleThread
  /-- Every thread. -/
  | crossThread
deriving DecidableEq, Repr, Inhabited

namespace SyncScope

def all : List SyncScope := [.singleThread, .crossThread]

def text : SyncScope → String
  | .singleThread => "singlethread"
  | .crossThread => "crossthread"

/-- The other scope. -/
def toggled : SyncScope → SyncScope
  | .singleThread => .crossThread
  | .crossThread => .singleThread

instance : Vocabulary SyncScope := ⟨all, text⟩

end SyncScope

end ConcurrencyFaults
