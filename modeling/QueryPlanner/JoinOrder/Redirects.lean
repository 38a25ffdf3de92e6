import Std.Data.TreeMap

namespace QueryPlanner

abbrev Handle := Nat

structure Redirects where
  targets : Std.TreeMap Handle Handle := ∅

namespace Redirects

def target? (r : Redirects) (h : Handle) : Option Handle :=
  r.targets[h]?

-- The redirected handles on the way from a handle to its owner. Without a cycle no way is longer
-- than the number of redirects.
def pathWithin (r : Redirects) : Nat → Handle → List Handle
  | 0, _      => []
  | fuel + 1, h =>
    match r.target? h with
    | none   => []
    | some t => h :: r.pathWithin fuel t

def path (r : Redirects) (h : Handle) : List Handle :=
  r.pathWithin r.targets.size h

def ownerWithin (r : Redirects) : Nat → Handle → Handle
  | 0, h      => h
  | fuel + 1, h =>
    match r.target? h with
    | none   => h
    | some t => r.ownerWithin fuel t

def owner (r : Redirects) (h : Handle) : Handle :=
  r.ownerWithin r.targets.size h

def point (r : Redirects) (h t : Handle) : Redirects where
  targets := r.targets.insert h t

def compress (r : Redirects) (h : Handle) : Redirects :=
  (r.path h).foldl (fun s k => s.point k (r.owner h)) r

def resolve (r : Redirects) (h : Handle) : Handle × Redirects :=
  (r.owner h, r.compress h)

def redirect (r : Redirects) (h t : Handle) : Redirects :=
  let (root, r) := r.resolve h
  if root = t then r else r.point root t

end Redirects
end QueryPlanner
