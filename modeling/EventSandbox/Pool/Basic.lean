/-!
# EventSandbox.Pool.Basic — idle items kept for reuse

A pool keeps up to `capacity` idle items, the last returned first, and builds a new item when it
has none. It never blocks: who finds it empty builds an item, who returns one to a full pool drops
it.

The pool is shared, so each operation is made of atomic steps between which other callers may act:

1. `pop` takes an idle item, if there is one;
2. building an item happens outside the pool;
3. `countBuilt` counts an item that has been built;
4. `offer` takes an item back, or refuses it.

`get` and `put` are these steps made without interruption.
-/

namespace EventSandbox

/-- A pool of items. -/
structure Pool (ι : Type) where
  /-- The idle items, the one to be handed out next first. -/
  idle : List ι
  /-- How many items may be idle. -/
  capacity : Nat
  /-- How many items were built because none was idle. -/
  created : Nat
deriving Repr

namespace Pool

variable {ι ε σ : Type}

/-! ## Atomic steps -/

/-- Takes the idle item that was returned last. -/
def pop (p : Pool ι) : Option ι × Pool ι :=
  match p.idle with
  | [] => (none, p)
  | item :: rest => (some item, { p with idle := rest })

/-- Counts an item that was built. -/
def countBuilt (p : Pool ι) : Pool ι := { p with created := p.created + 1 }

/-- Takes an item back if there is room for it; answers whether there was. -/
def offer (p : Pool ι) (item : ι) : Bool × Pool ι :=
  if p.idle.length < p.capacity then (true, { p with idle := item :: p.idle }) else (false, p)

/-! ## Operations -/

/-- A pool with nothing in it. -/
def empty (capacity : Nat) : Pool ι := ⟨[], capacity, 0⟩

/-- A pool that is offered a first item. -/
def withSeed (seed : ι) (capacity : Nat) : Pool ι := ((empty capacity).offer seed).2

/-- An item to use: an idle one, or else one that is built by a factory with a state of its own. A
factory that fails leaves the pool as it is. -/
def get (p : Pool ι) (build : σ → Except ε ι × σ) (s : σ) : Except ε ι × Pool ι × σ :=
  match p.pop with
  | (some item, p) => (.ok item, p, s)
  | (none, p) =>
    match build s with
    | (.ok item, s) => (.ok item, p.countBuilt, s)
    | (.error e, s) => (.error e, p, s)

/-- Returns an item; answers whether it was kept. -/
def put (p : Pool ι) (item : ι) : Bool × Pool ι := p.offer item

/-- Returns an item, if there is one. -/
def putOpt (p : Pool ι) (item? : Option ι) : Pool ι :=
  match item? with
  | some item => (p.put item).2
  | none => p

/-- How many items are idle. -/
def idleCount (p : Pool ι) : Nat := p.idle.length

/-- A one-line summary. -/
def summary (p : Pool ι) : String :=
  "SessionPool \x7b capacity: " ++ toString p.capacity ++ ", idle: " ++ toString p.idleCount
    ++ ", created: " ++ toString p.created ++ ", .. \x7d"

end Pool

end EventSandbox
