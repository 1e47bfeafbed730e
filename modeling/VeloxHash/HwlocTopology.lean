import Mathlib.Data.List.Perm.Subperm
import Mathlib.Tactic

/-! The tree of `hwloc` as `HwlocCpuInfo` walks over it. -/

namespace VeloxHash

structure CacheAttr where
  size : UInt64
  depth : Nat
  associativity : Int

inductive HwlocType
  | core
  | group
  | cache (attr : CacheAttr)
  | other

/-- A processing unit has no children; of any other object, the weight of its `cpuset` and the
value of its info `Inclusive`. -/
inductive HwlocObj
  | pu (osIndex : Nat)
  | inner (type : HwlocType) (cpusetWeight : Nat) (inclusive : Option String)
      (children : List HwlocObj)

namespace HwlocObj

def isPU : HwlocObj → Bool
  | pu _ => true
  | inner .. => false

def isCore : HwlocObj → Bool
  | inner .core .. => true
  | _ => false

def osIndex : HwlocObj → Nat
  | pu i => i
  | inner .. => 0

def cpusetWeight : HwlocObj → Nat
  | pu _ => 1
  | inner _ weight .. => weight

def children : HwlocObj → List HwlocObj
  | pu _ => []
  | inner _ _ _ children => children

/-- `findByType` over the children of an object, which does not search what it has found. -/
def findByType (is : HwlocObj → Bool) : List HwlocObj → List HwlocObj
  | [] => []
  | pu i :: rest => if is (pu i) then pu i :: findByType is rest else findByType is rest
  | inner type weight inclusive children :: rest =>
    if is (inner type weight inclusive children) then
      inner type weight inclusive children :: findByType is rest
    else findByType is children ++ findByType is rest

def units (core : HwlocObj) : List HwlocObj := findByType isPU core.children

/-- The units under the cores are some of all the units, each of them once. -/
theorem units_sublist (children : List HwlocObj) :
    ((findByType isCore children).map units).flatten.Sublist (findByType isPU children) := by
  induction children using findByType.induct isCore with
  | case1 =>
    rw [findByType, findByType]
    exact List.nil_sublist _
  | case2 i rest h ih => cases h
  | case3 i rest h ih =>
    rw [findByType, if_neg h, findByType, if_pos (show (pu i).isPU = true from rfl)]
    exact ih.trans (List.sublist_cons_self _ _)
  | case4 type weight inclusive children rest h ih =>
    rw [findByType, if_pos h, findByType, if_neg nofun, List.map_cons, List.flatten_cons]
    exact List.Sublist.append (List.Sublist.refl _) ih
  | case5 type weight inclusive children rest h ih ih' =>
    rw [findByType, if_neg h, findByType, if_neg nofun, List.map_append, List.flatten_append]
    exact ih.append ih'

end HwlocObj

/-- A cache of the topology. -/
structure HwlocCache where
  attr : CacheAttr
  inclusive : Option String
  children : List HwlocObj

namespace HwlocCache

/-- `findCache` over the children of an object, which passes over caches of other depths with all
that is below them. -/
def find (min max : Nat) : List HwlocObj → List HwlocCache
  | [] => []
  | .pu _ :: rest => find min max rest
  | .inner (.cache attr) _ inclusive children :: rest =>
    if attr.depth < min ∨ max < attr.depth then find min max rest
    else ⟨attr, inclusive, children⟩ :: (find min max children ++ find min max rest)
  | .inner _ _ _ children :: rest => find min max children ++ find min max rest

def cores (cache : HwlocCache) : List HwlocObj := HwlocObj.findByType HwlocObj.isCore cache.children

def units (cache : HwlocCache) : List HwlocObj := HwlocObj.findByType HwlocObj.isPU cache.children

/-- `isCacheExclusive`. -/
def exclusive (cache : HwlocCache) : Bool :=
  match cache.inclusive with
  | none => true
  | some value => value.toList.head? ≠ some '1'

end HwlocCache

end VeloxHash
