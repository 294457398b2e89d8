import QuotaDesk.Lookup.Controller

/-! The lookups of the visitors' sessions. A lookup leaves the registry when its
session has been idle too long; a task that already works on it keeps it. -/

namespace QuotaDesk.Dashboard

structure Entry where
  visitor : Nat
  slot : Nat
  lastSeen : Nat
  deriving DecidableEq, Repr

structure Registry where
  lookups : List Lookup.State := []
  entries : List Entry := []
  deriving DecidableEq, Repr

namespace Registry

def lookup (slot : Nat) (r : Registry) : Lookup.State :=
  (r.lookups[slot]?).getD {}

def setLookup (slot : Nat) (l : Lookup.State) (r : Registry) : Registry :=
  { r with lookups := r.lookups.set slot l }

def evict (idle now : Nat) (r : Registry) : Registry :=
  { r with entries := r.entries.filter fun e => decide (now - e.lastSeen < idle) }

def seen (now visitor : Nat) (e : Entry) : Entry :=
  if e.visitor = visitor then { e with lastSeen := now } else e

def checkout (idle now visitor : Nat) (r : Registry) : Nat × Registry :=
  let r := r.evict idle now
  match r.entries.find? fun e => e.visitor == visitor with
  | some e =>
    (e.slot, { r with entries := r.entries.map (seen now visitor) })
  | none =>
    let slot := r.lookups.length
    (slot, ⟨r.lookups ++ [{}], r.entries ++ [⟨visitor, slot, now⟩]⟩)

end Registry
end QuotaDesk.Dashboard
