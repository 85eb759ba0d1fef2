import Dataflow.Error
import Dataflow.Graph.Order

/-!
# The facts of a method

One fact before and one after each quad that the program order visits, and one
at each end of the method. Slots are made once, for a given graph; later only
what stands in them changes.
-/

namespace Dataflow

/-- The two places where a quad has facts. -/
inductive Side where
  | before
  | after
deriving DecidableEq

/-- The two ends of a method. -/
inductive Terminal where
  | entry
  | exit
deriving DecidableEq

/-- The facts of one quad. -/
structure Slot (F : Type) where
  before : F
  after : F

namespace Slot

variable {F : Type}

def get (s : Slot F) : Side → F
  | .before => s.before
  | .after => s.after

def modify (s : Slot F) (side : Side) (f : F → F) : Slot F :=
  match side with
  | .before => { s with before := f s.before }
  | .after => { s with after := f s.after }

end Slot

/-- The facts of a method. -/
structure FactMap (F : Type) where
  /-- By ascending number. -/
  slots : List (QuadId × Slot F)
  entry : Option F
  exit : Option F

namespace FactMap

variable {F : Type}

/-- No facts at all. -/
def empty : FactMap F := ⟨[], none, none⟩

instance : Inhabited (FactMap F) := ⟨empty⟩

/-- One fact everywhere in a graph. -/
def uniform (g : Graph) (f : F) : FactMap F where
  slots := (OrdSet.ofList (g.quads.map Quad.id)).toList.map fun q => (q, ⟨f, f⟩)
  entry := some f
  exit := some f

/-- The quads that have slots, ascending. -/
def ids (t : FactMap F) : List QuadId := t.slots.map Prod.fst

def slot? (t : FactMap F) (q : QuadId) : Option (Slot F) :=
  (t.slots.find? fun s => s.1 = q).map Prod.snd

def get? (t : FactMap F) (side : Side) (q : QuadId) : Option F :=
  (t.slot? q).map fun s => s.get side

/-- A fact of a quad, which must have a slot. -/
def get (t : FactMap F) (side : Side) (q : QuadId) : Except Fault F :=
  match t.get? side q with
  | some f => .ok f
  | none => .error (.noSlot q)

/-- Changes what stands in a slot; a quad without one changes nothing. -/
def modify (t : FactMap F) (side : Side) (q : QuadId) (f : F → F) : FactMap F :=
  { t with
    slots := t.slots.map fun s =>
      if s.1 = q then (s.1, s.2.modify side f) else s }

/-- Changes a fact of a quad, which must have a slot. -/
def update (t : FactMap F) (side : Side) (q : QuadId) (f : F → F) :
    Except Fault (FactMap F) :=
  match t.slot? q with
  | some _ => .ok (t.modify side q f)
  | none => .error (.noSlot q)

def terminal? (t : FactMap F) : Terminal → Option F
  | .entry => t.entry
  | .exit => t.exit

/-- The fact at an end of the method, which must be there. -/
def terminal (t : FactMap F) (e : Terminal) : Except Fault F :=
  match t.terminal? e with
  | some f => .ok f
  | none => .error .noFacts

def setTerminal (t : FactMap F) (e : Terminal) (f : F) : FactMap F :=
  match e with
  | .entry => { t with entry := some f }
  | .exit => { t with exit := some f }

/-- Passes every fact through a function. -/
def map {G : Type} (f : F → G) (t : FactMap F) : FactMap G where
  slots := t.slots.map fun s => (s.1, ⟨f s.2.before, f s.2.after⟩)
  entry := t.entry.map f
  exit := t.exit.map f

end FactMap

end Dataflow
