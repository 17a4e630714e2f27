import ScriptSpans.Category

namespace ScriptSpans

/-- The stretch of `length` positions from `start` on, claimed for a category. -/
structure Claim where
  start : Nat
  length : Nat
  category : Category
deriving DecidableEq, Repr

def Claim.stop (c : Claim) : Nat := c.start + c.length

inductive Fault
  | outside (position : Nat)
  | taken (position : Nat) (owner : Category)
deriving DecidableEq, Repr

/-- The owner of every position of a line, and the claims that were granted, the last one first. -/
structure Ownership where
  owners : Array (Option Category)
  claims : List Claim

namespace Ownership

def free (length : Nat) : Ownership := ⟨Array.replicate length none, []⟩

def owner? (o : Ownership) (position : Nat) : Option Category := (o.owners[position]?).join

def isOwned (o : Ownership) (position : Nat) : Bool := (o.owner? position).isSome

def take (owners : Array (Option Category)) (category : Category) (position : Nat) :
    Nat → Except Fault (Array (Option Category))
  | 0 => .ok owners
  | count + 1 =>
    if h : position < owners.size then
      match owners[position] with
      | some owner => .error (.taken position owner)
      | none => take (owners.set position (some category)) category (position + 1) count
    else .error (.outside position)

def grant : Ownership → Claim → Except Fault Ownership
  | ⟨owners, claims⟩, c => (take owners c.category c.start c.length).map (⟨·, c :: claims⟩)

end Ownership

end ScriptSpans
