import TriplePlan.Bytes

/-!
Constant nodes, variables, and the terms that mix them.
-/
namespace TriplePlan

structure Var where
  label : String
deriving DecidableEq

inductive Node where
  | iri (text : String)
  | literal (value : String) (datatype language : Option String)
deriving DecidableEq

inductive Term where
  | var (v : Var)
  | node (n : Node)
deriving DecidableEq

namespace Var

def cmp (a b : Var) : Ordering := Text.cmp a.label b.label

instance : Std.TransCmp cmp where
  eq_swap {_ _} := @Std.OrientedCmp.eq_swap _ Text.cmp _ _ _
  isLE_trans {_ _ _} h k := @Std.TransCmp.isLE_trans _ Text.cmp _ _ _ _ h k

instance : Std.LawfulEqCmp cmp where
  eq_of_compare {a b} h := by
    cases a; cases b
    exact congrArg Var.mk (@Std.LawfulEqCmp.eq_of_compare _ Text.cmp _ _ _ h)

end Var

namespace Node

def cmpOptional : Option String → Option String → Ordering
  | none, none => .eq
  | none, some _ => .lt
  | some _, none => .gt
  | some a, some b => Text.cmp a b

def cmp : Node → Node → Ordering
  | .iri a, .iri b => Text.cmp a b
  | .iri _, .literal .. => .lt
  | .literal .., .iri _ => .gt
  | .literal v d l, .literal v' d' l' =>
    (Text.cmp v v').then ((cmpOptional d d').then (cmpOptional l l'))

end Node

namespace Term

def var? : Term → Option Var
  | .var v => some v
  | .node _ => none

def node? : Term → Option Node
  | .var _ => none
  | .node n => some n

def isVar : Term → Bool
  | .var _ => true
  | .node _ => false

def cmp : Term → Term → Ordering
  | .var a, .var b => Var.cmp a b
  | .var _, .node _ => .lt
  | .node _, .var _ => .gt
  | .node a, .node b => Node.cmp a b

end Term

end TriplePlan
