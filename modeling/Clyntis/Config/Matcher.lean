import Clyntis.Config.DomainSet
import Clyntis.Lib.Kleene
import Clyntis.Net.Addr

/-!
# Rule conditions (`rule.rs`, `Matcher`, `IpSet`, `Rule`)

A rule's condition is a tree over conditions on the host, its address, the port
and the network. While the address is not known and may still be looked up, a
condition on it has no verdict.

- `Matcher.evaluate`: the three-valued evaluation;
- `evaluateNodes_eq`: AND and OR nodes are Kleene's connectives;
- `Matcher.evaluate_refines`: without no-resolve markers, a verdict reached before
  the lookup is the verdict after it, whatever the lookup gives.
-/

namespace Clyntis.Config

open Lib Net

/-- `IpSet`: address ranges, first to last, in the order of their first addresses. -/
structure IpSet where
  v4 : List (Nat × Nat)
  v6 : List (Nat × Nat)
  inverse : Bool
  sorted4 : v4.Pairwise fun a b => a.1 ≤ b.1
  sorted6 : v6.Pairwise fun a b => a.1 ≤ b.1

namespace IpSet

/-- The range `partition_point(|r| r.0 <= n)` stops behind holds `n`. -/
def within (ranges : List (Nat × Nat)) (n : Nat) : Bool :=
  match (ranges.takeWhile fun r => decide (r.1 ≤ n)).getLast? with
  | some r => decide (n ≤ r.2)
  | none => false

/-- `matches`. -/
def matchesIp (set : IpSet) (ip : IpAddr) : Bool :=
  let (ranges, n) := match ip with
    | .v4 a => (set.v4, a.toNat)
    | .v6 a => (set.v6, a.toNat)
  xor (within ranges n) set.inverse

end IpSet

/-- `Matcher`. `onNetwork` holds the state of its shared flag at the time of use, and
`externalIp` the function of an external matcher. -/
inductive Matcher where
  | domain (d : Text)
  | suffix (d : Text)
  | subdomain (d : Text)
  | keyword (k : Text)
  | regex (r : Regex)
  | net (n : IpNet)
  | port (p : UInt16)
  | ports (ranges : List (UInt16 × UInt16))
  | network (n : Text)
  | onNetwork (name : Text) (on : Bool)
  | geoIp (v : Text)
  | geoSite (v : Text)
  | ruleSet (v : Text)
  | and (nodes : List Matcher)
  | or (nodes : List Matcher)
  | not (m : Matcher)
  | noResolve (m : Matcher)
  | domains (set : DomainSet)
  | nets (set : IpSet)
  | externalIp (matchesIp : IpAddr → Bool)
  | all

/-- `Rule`. -/
structure Rule where
  matcher : Matcher
  target : Text
  noResolve : Bool

/-! ## Evaluation -/

/-- A condition on the address: unknown while it may still be resolved. -/
def onAddress (ip : Option IpAddr) (canResolve : Bool) (check : IpAddr → Bool) : Option Bool :=
  match ip with
  | some ip => some (check ip)
  | none => if canResolve then none else some false

section Evaluate

variable (hash : Text → Hash) (host : Text) (ip : Option IpAddr) (port : UInt16) (network : Text)

mutual

/-- `evaluate`. -/
def Matcher.evaluate (canResolve : Bool) : Matcher → Option Bool
  | .domain d => some (host == d)
  | .suffix d => some (host == d || (Text.stripSuffix host d).any fun p => p.endsWith '.')
  | .subdomain d =>
    some ((Text.stripSuffix host d).any fun p => decide (1 < p.byteLen) && p.endsWith '.')
  | .keyword k => some (Text.containsText host k)
  | .regex r => some (r.isMatch host)
  | .domains set => some (set.matchesHost hash host)
  | .net n => onAddress ip canResolve n.contains
  | .nets set => onAddress ip canResolve set.matchesIp
  | .externalIp matchesIp => onAddress ip canResolve matchesIp
  | .port p => some (p == port)
  | .ports ranges => some (ranges.any fun r => decide (r.1 ≤ port) && decide (port ≤ r.2))
  | .network n => some (n == network)
  | .onNetwork _ on => some on
  | .all => some true
  | .not m => (m.evaluate canResolve).map fun v => !v
  | .noResolve m => m.evaluate false
  | .and nodes => evaluateNodes canResolve true false nodes
  | .or nodes => evaluateNodes canResolve false false nodes
  | .geoIp _ => some false
  | .geoSite _ => some false
  | .ruleSet _ => some false

/-- The loop of `evaluate` over the members of an AND or an OR. -/
def evaluateNodes (canResolve and unknown : Bool) : List Matcher → Option Bool
  | [] => if unknown then none else some and
  | m :: nodes =>
    match m.evaluate canResolve with
    | some v => if v != and then some v else evaluateNodes canResolve and unknown nodes
    | none => evaluateNodes canResolve and true nodes

end

/-- `Rule::matches`. -/
def Rule.matchesTarget (rule : Rule) : Bool :=
  rule.matcher.evaluate hash (Text.normalize host) ip port network false == some true

end Evaluate

variable {hash : Text → Hash} {host : Text} {ip : Option IpAddr} {port : UInt16} {network : Text}

/-- The loop is Kleene's connective over the verdicts of the members. -/
theorem evaluateNodes_eq (canResolve and unknown : Bool) (nodes : List Matcher) :
    evaluateNodes hash host ip port network canResolve and unknown nodes
      = Kleene.scan and unknown (nodes.map (Matcher.evaluate hash host ip port network canResolve))
      := by
  induction nodes generalizing unknown with
  | nil => simp only [evaluateNodes, List.map_nil, Kleene.scan]
  | cons m nodes ih =>
    rw [evaluateNodes, List.map_cons]
    cases Matcher.evaluate hash host ip port network canResolve m with
    | none => exact ih true
    | some v =>
      rw [Kleene.scan, ih]

/-! ## No-resolve markers -/

mutual

/-- Whether a no-resolve marker occurs in the condition. -/
def Matcher.marked : Matcher → Bool
  | .noResolve _ => true
  | .not m => m.marked
  | .and nodes => anyMarked nodes
  | .or nodes => anyMarked nodes
  | _ => false

/-- Whether a no-resolve marker occurs in one of the members. -/
def anyMarked : List Matcher → Bool
  | [] => false
  | m :: nodes => m.marked || anyMarked nodes

end

theorem onAddress_refines (check : IpAddr → Bool) (canResolve : Bool) :
    Kleene.Refines (onAddress none true check) (onAddress ip canResolve check) :=
  .of_none _

mutual

/-- **What is decided before the lookup stays decided**: by induction on the condition,
every verdict without an address refines to the verdict with the lookup's outcome. -/
theorem Matcher.evaluate_refines (canResolve : Bool) : ∀ m : Matcher, m.marked = false →
    Kleene.Refines (m.evaluate hash host none port network true)
      (m.evaluate hash host ip port network canResolve)
  | .net n, _ => by
    simp only [Matcher.evaluate]
    exact onAddress_refines _ _
  | .nets set, _ => by
    simp only [Matcher.evaluate]
    exact onAddress_refines _ _
  | .externalIp check, _ => by
    simp only [Matcher.evaluate]
    exact onAddress_refines _ _
  | .not m, h => by
    simp only [Matcher.evaluate]
    simp only [Matcher.marked] at h
    exact (Matcher.evaluate_refines canResolve m h).not
  | .noResolve m, h => by
    simp only [Matcher.marked] at h
    cases h
  | .and nodes, h => by
    simp only [Matcher.evaluate, evaluateNodes_eq]
    simp only [Matcher.marked] at h
    exact .scan (nodes_refine canResolve nodes h) true false
  | .or nodes, h => by
    simp only [Matcher.evaluate, evaluateNodes_eq]
    simp only [Matcher.marked] at h
    exact .scan (nodes_refine canResolve nodes h) false false
  | .domain _, _ | .suffix _, _ | .subdomain _, _ | .keyword _, _ | .regex _, _ | .domains _, _
  | .port _, _ | .ports _, _ | .network _, _ | .onNetwork _ _, _ | .all, _ | .geoIp _, _
  | .geoSite _, _ | .ruleSet _, _ => by
    -- no condition on the address: the same verdict
    simp only [Matcher.evaluate]
    exact .refl _

/-- The same for every member of a list of conditions. -/
theorem nodes_refine (canResolve : Bool) : ∀ nodes : List Matcher, anyMarked nodes = false →
    ∀ m ∈ nodes, Kleene.Refines (m.evaluate hash host none port network true)
      (m.evaluate hash host ip port network canResolve)
  | [], _, m, hm => nomatch hm
  | m :: nodes, h, m', hm' => by
    rw [anyMarked, Bool.or_eq_false_iff] at h
    rcases List.mem_cons.mp hm' with heq | hmem
    · rw [heq]
      exact Matcher.evaluate_refines canResolve m h.1
    · exact nodes_refine canResolve nodes h.2 m' hmem

end

end Clyntis.Config
