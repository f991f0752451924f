import InstructionCoverage.Model.Alignment

/-!
An aggregate with the listeners registered on it: alignment models that follow its published union, and observers.
-/

namespace InstructionCoverage

abbrev Reaction := Progress → Ending × Progress

namespace Reaction

def accept : Reaction := fun p => (.completed, p)

def cancel : Reaction := fun p => (.cancelled, p)

def poll : Reaction := Progress.poll

def panic : Reaction := fun p => (.panicked, p)

end Reaction

structure Observer where
  name : String
  react : Reaction

def Observer.notify : List Observer → List String → Progress → Ending × List String × Progress
  | [], heard, p => (.completed, heard, p)
  | o :: rest, heard, p =>
    match o.react p with
    | (.completed, p) => notify rest (heard ++ [o.name]) p
    | (stop, p) => (stop, heard ++ [o.name], p)

structure Dependent where
  listing : Listing
  alignment : Alignment
  attached : Bool
  observers : List Observer
  poisoned : Bool

inductive Target where
  | dependent (index : Nat)
  | observer (o : Observer)

structure Network where
  listing : Listing
  aggregate : Aggregate
  dependents : List Dependent
  targets : List Target
  heard : List String

namespace Dependent

def ofListing (l : Listing) (attached : Bool) : Dependent := ⟨l, .empty, attached, [], false⟩

def announce (d : Dependent) (heard : List String) :
    Ending × Alignment × Progress → Ending × Dependent × List String × Progress
  | (.completed, a, p) =>
    let (ending, heard, p) := Observer.notify d.observers heard p
    (ending, { d with alignment := a }, heard, p)
  | (stop, a, p) => (stop, { d with alignment := a }, heard, p)

def source (d : Dependent) (published : Option (List AddressRange)) : Option (List AddressRange) :=
  if d.attached then published else none

def changed (published : Option (List AddressRange)) (d : Dependent) (heard : List String) (p : Progress) :
    Ending × Dependent × List String × Progress :=
  let (ending, d, heard, p) := d.announce heard (d.alignment.follow d.listing (d.source published) p)
  (ending, { d with poisoned := d.poisoned || ending == .panicked }, heard, p)

end Dependent

namespace Network

def ofListing (l : Listing) : Network := ⟨l, .empty, [], [], []⟩

def onDependent (n : Network) (index : Nat) (p : Progress)
    (step : Dependent → List String → Progress → Ending × Dependent × List String × Progress) :
    Ending × Network × Progress :=
  match n.dependents[index]? with
  | none => (.completed, n, p)
  | some d =>
    let (ending, d, heard, p) := step d n.heard p
    (ending, { n with dependents := n.dependents.set index d, heard := heard }, p)

def tell (n : Network) (target : Target) (p : Progress) : Ending × Network × Progress :=
  match target with
  | .dependent index => n.onDependent index p (Dependent.changed n.aggregate.published)
  | .observer o =>
    let (ending, p) := o.react p
    (ending, { n with heard := n.heard ++ [o.name] }, p)

def deliver : List Target → Network → Progress → Ending × Network × Progress
  | [], n, p => (.completed, n, p)
  | target :: rest, n, p =>
    match n.tell target p with
    | (.completed, n, p) => deliver rest n p
    | stop => stop

def load (n : Network) (f : RangeFile) : Network :=
  { n with aggregate := n.aggregate.load f }

def update (n : Network) (p : Progress) : Ending × Network × Progress :=
  match n.aggregate.recompute p with
  | (.completed, a, p) => deliver n.targets { n with aggregate := a } p
  | (stop, a, p) => (stop, { n with aggregate := a }, p)

def clear (n : Network) (p : Progress) : Ending × Network × Progress :=
  deliver n.targets { n with aggregate := n.aggregate.cleared } p

def remove (n : Network) (path : Path) : Bool × Network :=
  match n.aggregate.remove? path with
  | some a => (true, { n with aggregate := a })
  | none => (false, n)

def setEnabled (n : Network) (path : Path) (enabled : Bool) : Bool × Network :=
  match n.aggregate.setEnabled? path enabled with
  | some a => (true, { n with aggregate := a })
  | none => (false, n)

def attachOver (n : Network) (l : Listing) : Network :=
  { n with
    dependents := n.dependents ++ [.ofListing l true]
    targets := n.targets ++ [.dependent n.dependents.length] }

def attach (n : Network) : Network :=
  n.attachOver n.listing

def addDetached (n : Network) : Network :=
  { n with dependents := n.dependents ++ [.ofListing n.listing false] }

def listen (n : Network) (o : Observer) : Network :=
  { n with targets := n.targets ++ [.observer o] }

def listenTo (n : Network) (index : Nat) (o : Observer) : Network :=
  { n with dependents := n.dependents.modify index fun d => { d with observers := d.observers ++ [o] } }

def alignLoad (n : Network) (index : Nat) (ranges : List AddressRange) : Network :=
  { n with dependents := n.dependents.modify index fun d => { d with alignment := d.alignment.load ranges } }

def alignUpdate (n : Network) (index : Nat) (p : Progress) : Ending × Network × Progress :=
  n.onDependent index p fun d heard p => d.announce heard (d.alignment.rebuild d.listing p)

def alignClear (n : Network) (index : Nat) (p : Progress) : Ending × Network × Progress :=
  n.onDependent index p fun d heard p => d.announce heard (.completed, d.alignment.cleared, p)

def alignChanged (n : Network) (index : Nat) (p : Progress) : Ending × Network × Progress :=
  n.onDependent index p (Dependent.changed n.aggregate.published)

end Network

end InstructionCoverage
