/-!
# Registry of connections

Which connections are live, and which of them were told to close. Identifiers count up from 1. A
connection that was told to close stays registered until it leaves by itself. The close signals form
a set of their own, for a connection keeps its signal after it left the registry.
-/
set_option autoImplicit false

namespace LogIntake

abbrev ConnectionId := UInt64

structure Registry where
  next : ConnectionId := 1
  /-- The registered connections, in the order of their registration. -/
  live : List ConnectionId := []
  signalled : List ConnectionId := []
  deriving DecidableEq, Repr, Inhabited

namespace Registry

def register (registry : Registry) : ConnectionId × Registry :=
  let id := registry.next
  (id,
    { next := id + 1
      live := registry.live.erase id ++ [id]
      signalled := registry.signalled.erase id })

/-- Removes a connection; without effect when it is not registered. -/
def deregister (registry : Registry) (id : ConnectionId) : Registry :=
  { registry with live := registry.live.erase id }

def size (registry : Registry) : Nat := registry.live.length

def isEmpty (registry : Registry) : Bool := registry.live.isEmpty

def isSignalled (registry : Registry) (id : ConnectionId) : Bool := id ∈ registry.signalled

def closeAll (registry : Registry) : Registry :=
  { registry with
    signalled := registry.signalled ++ registry.live.filter (· ∉ registry.signalled) }

def tellAll (registry : Registry) : Nat × Registry :=
  let told := registry.closeAll
  (told.size, told)

end Registry

end LogIntake
