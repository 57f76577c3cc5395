import ConcurrencyFaults.Operation

/-!
# Locking primitives

A family of primitives is a lock function and the unlock function that belongs to it.  Pairs of
their calls fall into four categories by the forms of the two calls.
-/

namespace ConcurrencyFaults

/-- The two halves of a family. -/
inductive LockRole where
  | lock
  | unlock
deriving DecidableEq, Repr, Inhabited

/-- The interfaces whose calls can be paired. -/
inductive LockFamily where
  /-- The functions on POSIX mutexes, which return a status. -/
  | posix
  /-- The methods of the C++ mutex, which return nothing. -/
  | standard
deriving DecidableEq, Repr, Inhabited

namespace LockFamily

def all : List LockFamily := [.posix, .standard]

def text : LockFamily → String
  | .posix => "pthread"
  | .standard => "std::mutex"

/-- The key of the function that has a role. -/
def name : LockFamily → LockRole → String
  | .posix, .lock => "pthread_mutex_lock"
  | .posix, .unlock => "pthread_mutex_unlock"
  | .standard, .lock => "std::__1::mutex::lock"
  | .standard, .unlock => "std::__1::mutex::unlock"

/-- Whether the primitives return a signed 32-bit status. -/
def returnsStatus : LockFamily → Bool
  | .posix => true
  | .standard => false

/-- Every family with each of its roles. -/
def allRoles : List (LockFamily × LockRole) :=
  all.flatMap fun family => [(family, .lock), (family, .unlock)]

/-- The keys of all primitives. -/
def allNames : List String := allRoles.map fun primitive => primitive.1.name primitive.2

/-- The primitive that a key names. -/
def classify? (key : String) : Option (LockFamily × LockRole) :=
  allRoles.find? fun primitive => primitive.1.name primitive.2 == key

end LockFamily

/-- The categories of pairs, by the form of the lock and the form of the unlock. -/
inductive PairCategory where
  | callCall
  | callInvoke
  | invokeCall
  | invokeInvoke
deriving DecidableEq, Repr, Inhabited

namespace PairCategory

/-- The categories in the order of their numbers. -/
def all : List PairCategory := [.callCall, .callInvoke, .invokeCall, .invokeInvoke]

def text : PairCategory → String
  | .callCall => "Call-Call"
  | .callInvoke => "Call-Invoke"
  | .invokeCall => "Invoke-Call"
  | .invokeInvoke => "Invoke-Invoke"

def ofForms : CallForm → CallForm → PairCategory
  | .call, .call => .callCall
  | .call, .invoke => .callInvoke
  | .invoke, .call => .invokeCall
  | .invoke, .invoke => .invokeInvoke

def number : PairCategory → Nat
  | .callCall => 0
  | .callInvoke => 1
  | .invokeCall => 2
  | .invokeInvoke => 3

/-- The category of a number. -/
def ofNumber? (number : Nat) : Option PairCategory := all[number]?

end PairCategory

end ConcurrencyFaults
