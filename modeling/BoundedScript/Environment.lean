import Std.Data.ExtTreeMap
import BoundedScript.Value

/-! # Variables

All variables of a run live in one flat environment: blocks and loops open no scope. Environments
that bind the same names to the same values are equal, however they came about.
-/

namespace BoundedScript

structure Environment where
  bindings : Std.ExtTreeMap String Value compare

namespace Environment

def empty : Environment := ⟨∅⟩

instance : EmptyCollection Environment := ⟨empty⟩

instance : Inhabited Environment := ⟨empty⟩

def get? (env : Environment) (name : String) : Option Value := env.bindings[name]?

/-- Binds a name. A name that is bound already keeps its place and gets the new value. -/
def assign (env : Environment) (name : String) (value : Value) : Environment :=
  if env.bindings.contains name then ⟨env.bindings.modify name fun _ => value⟩
  else ⟨env.bindings.insert name value⟩

def contains (env : Environment) (name : String) : Bool := env.bindings.contains name

def size (env : Environment) : Nat := env.bindings.size

def isEmpty (env : Environment) : Bool := env.bindings.isEmpty

/-- Whether both bind the same names, each to values with the same contents. -/
def same (env other : Environment) : Bool :=
  env.size == other.size &&
    env.bindings.all fun name value => (other.get? name).any value.same

@[ext]
theorem ext {env other : Environment} (h : ∀ name, env.get? name = other.get? name) :
    env = other :=
  congrArg mk (Std.ExtTreeMap.ext_getElem? h)

@[simp]
theorem get?_empty (name : String) : (empty).get? name = none :=
  Std.ExtTreeMap.getElem?_empty

@[simp]
theorem get?_assign (env : Environment) (name other : String) (value : Value) :
    (env.assign name value).get? other = if name = other then some value else env.get? other := by
  unfold assign
  split
  · next h =>
    have hsome : env.bindings[name]?.isSome = true := by
      rwa [← Std.ExtTreeMap.contains_eq_isSome_getElem?]
    obtain ⟨earlier, he⟩ := Option.isSome_iff_exists.mp hsome
    simp [get?, Std.ExtTreeMap.getElem?_modify, he]
  · simp [get?, Std.ExtTreeMap.getElem?_insert]

@[simp]
theorem contains_eq_isSome (env : Environment) (name : String) :
    env.contains name = (env.get? name).isSome :=
  Std.ExtTreeMap.contains_eq_isSome_getElem?

end Environment

end BoundedScript
