namespace ReadGuard

inductive AliasLink (α : Type)
  | field (target : α)
  | copied (handle : Nat)
deriving Repr

structure AliasRecord (α : Type) where
  name : String
  link : AliasLink α
deriving Repr

/-- The pointers to fields that the local names of a function hold. Records are only ever added;
each bound name has the handle of its latest record. -/
structure AliasStore (α : Type) where
  arena : Array (AliasRecord α) := #[]
  heads : List (String × Nat) := []
deriving Repr

namespace AliasStore

variable {α : Type}

def size (s : AliasStore α) : Nat := s.heads.length

def head? (s : AliasStore α) (name : String) : Option Nat := s.heads.lookup name

def isBound (s : AliasStore α) (name : String) : Bool := (s.head? name).isSome

def names (s : AliasStore α) : List String := s.heads.map (·.1)

def forget (s : AliasStore α) (name : String) : AliasStore α :=
  { s with heads := s.heads.filter (·.1 ≠ name) }

def bind (s : AliasStore α) (name : String) (link : AliasLink α) : AliasStore α where
  arena := s.arena.push ⟨name, link⟩
  heads := (name, s.arena.size) :: (s.forget name).heads

def record (s : AliasStore α) (name : String) (target : α) : AliasStore α :=
  s.bind name (.field target)

def copy (s : AliasStore α) (name source : String) : Bool × AliasStore α :=
  match s.head? source with
  | none => (false, s.forget name)
  | some handle => (true, if source = name then s else s.bind name (.copied handle))

/-- Follows records from a handle on, at most `limit` of them. It gives up at a name it has passed
before. -/
def follow (s : AliasStore α) : Nat → List String → Nat → Option α
  | 0, _, _ => none
  | limit + 1, seen, handle =>
    match s.arena[handle]? with
    | none => none
    | some r =>
      if seen.contains r.name then none
      else
        match r.link with
        | .field target => some target
        | .copied earlier => s.follow limit (r.name :: seen) earlier

/-- The field that a name holds a pointer to. A copied record is older than the copy, so the number
of records bounds the way. -/
def resolve (s : AliasStore α) (name : String) : Option α :=
  match s.head? name with
  | none => none
  | some handle => s.follow s.arena.size [] handle

end AliasStore

end ReadGuard
