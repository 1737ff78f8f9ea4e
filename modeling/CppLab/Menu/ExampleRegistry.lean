import CppLab.Env.UnorderedMap

/-!
# `ExampleRegistry`

The registry maps a group to a map from names to factories. A factory is
identified with what a call of it does: it returns an example or a null pointer, or
it throws.

`Catalogue` is what `runMenu()` reads from a registry: the sorted groups, the
names of a group in the order of iteration, and `create`.
-/

namespace CppLab.Menu

/-- A factory, by what a call of it does: it returns a pointer, throws
`std::out_of_range`, or throws something else, as an empty `std::function` does with
`std::bad_function_call`. -/
inductive Factory (ι : Type*)
  | returns (made : Option ι)
  | outOfRange
  | throws
  deriving DecidableEq

/-- `registry_`. -/
abbrev ExampleRegistry (ι : Type*) := UnorderedMap (UnorderedMap (Factory ι))

namespace ExampleRegistry

variable {ι : Type*}

/-- `registerExample`: `registry_[group][name] = factory`, where `operator[]`
creates the group if it is not there. -/
def registerExample (registry : ExampleRegistry ι) (group name : Bytes) (factory : Factory ι) :
    ExampleRegistry ι :=
  registry.set group (((registry.find? group).getD .empty).set name factory)

/-- `create`: the factory that `registry_.at(group).at(name)()` calls, with `none` where
`at` throws. -/
def create (registry : ExampleRegistry ι) (group name : Bytes) : Option (Factory ι) :=
  (registry.find? group).bind (·.find? name)

end ExampleRegistry

/-- What `runMenu()` reads. -/
structure Catalogue (ι : Type*) where
  groups : List Bytes
  examples : Bytes → Option (List Bytes)
  create : Bytes → Bytes → Option (Factory ι)

/-- The groups are sorted, the names of a group are not. -/
def ExampleRegistry.catalogue {ι : Type*} (it : Iteration) (registry : ExampleRegistry ι) :
    Catalogue ι where
  groups := sort (it.order registry.keys)
  examples group := (registry.find? group).map fun examples => it.order examples.keys
  create := registry.create

/-- Every key that the menu has seen is there. -/
structure Catalogue.Closed {ι : Type*} (cat : Catalogue ι) : Prop where
  group : ∀ group ∈ cat.groups, ∃ names, cat.examples group = some names
  name : ∀ group names, cat.examples group = some names → ∀ name ∈ names,
    ∃ factory, cat.create group name = some factory

theorem ExampleRegistry.closed {ι : Type*} (it : Iteration) (registry : ExampleRegistry ι) :
    (registry.catalogue it).Closed where
  group := by
    intro group member
    have visited := (sort_perm _).mem_iff.mp member
    have key := (it.perm registry.keys).mem_iff.mp visited
    obtain ⟨examples, found⟩ := (registry.mem_keys_iff group).mp key
    refine ⟨it.order examples.keys, ?_⟩
    show (registry.find? group).map _ = _
    rw [found]
    rfl
  name := by
    intro group names listed name member
    change (registry.find? group).map _ = some names at listed
    obtain ⟨examples, found, rfl⟩ := Option.map_eq_some_iff.mp listed
    have key := (it.perm examples.keys).mem_iff.mp member
    obtain ⟨factory, made⟩ := (examples.mem_keys_iff name).mp key
    refine ⟨factory, ?_⟩
    show (registry.find? group).bind _ = _
    rw [found]
    exact made

end CppLab.Menu
