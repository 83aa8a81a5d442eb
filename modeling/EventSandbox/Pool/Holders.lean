import EventSandbox.Pool.Basic

/-!
# EventSandbox.Pool.Holders — items that are out of the pool

A caller holds an item under a name until it lets go of it, by will or by failing in between; the
item then goes back to the pool. Acquiring under a name in use gets the new item first and lets go
of the old one after that.
-/

namespace EventSandbox

/-- A pool and the items that its callers hold. -/
structure Holders (ι : Type) where
  pool : Pool ι
  held : List (String × ι)
deriving Repr

namespace Holders

variable {ι ε σ : Type}

/-- Nothing is held. -/
def ofPool (pool : Pool ι) : Holders ι := ⟨pool, []⟩

/-- Lets go of what is held under a name; answers whether something was. -/
def release (h : Holders ι) (name : String) : Bool × Holders ι :=
  match h.held.lookup name with
  | none => (false, h)
  | some item =>
    (true, ⟨(h.pool.put item).2, h.held.filter fun entry => entry.1 ≠ name⟩)

/-- Gets an item to hold under a name. -/
def acquire (h : Holders ι) (name : String) (build : σ → Except ε ι × σ) (s : σ) :
    Except ε ι × Holders ι × σ :=
  match h.pool.get build s with
  | (.error e, pool, s) => (.error e, { h with pool }, s)
  | (.ok item, pool, s) =>
    let h := ({ h with pool }.release name).2
    (.ok item, { h with held := (name, item) :: h.held }, s)

/-- Changes what is held under a name; answers the new item. -/
def modify (h : Holders ι) (name : String) (change : ι → ι) : Option ι × Holders ι :=
  match h.held.lookup name with
  | none => (none, h)
  | some item =>
    let held := h.held.map fun entry => if entry.1 = name then (name, change item) else entry
    (some (change item), { h with held })

/-- Gets an item, changes it and fails while holding it, so that the item goes back. Who gets none
fails all the same. -/
def acquireAndFail (h : Holders ι) (change : ι → ι) (build : σ → Except ε ι × σ) (s : σ) :
    Holders ι × σ :=
  match h.pool.get build s with
  | (.error _, pool, s) => ({ h with pool }, s)
  | (.ok item, pool, s) => ({ h with pool := (pool.put (change item)).2 }, s)

end Holders

end EventSandbox
