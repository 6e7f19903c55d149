import Mathlib.Logic.Function.Basic
import UnOrchestrator.Lib.Abort

/-!
# The database of Open vSwitch

The plug-in talks to the database in transactions. The four that it sends are the insertion of a
bridge, the insertion of a port together with an update of the column `ports` of its bridge, the
update of that column alone, and the update of the column `bridges` of the switch. An operation of
a transaction is answered by the uuid of the row that it inserted, by a count, or by the details of
an error, with which the answer ends. A transaction that fails changes nothing, but the rows that it
would have inserted have their uuids in the answer.

A transaction fails if it names a bridge that there is not, if a column refers to a row that there
is not, and if two ports or two bridges would have the same name. It can also fail at any of its
operations for reasons of its own. Rows to which no column refers are collected by the database;
here they stay in the list of the rows, and `live` tells the others. A row has two more fields than
in the database, the switch and the purpose for which the plug-in inserted it.
-/

namespace UnOrchestrator.Ovsdb

/-- What the plug-in inserts a port for. -/
inductive Purpose where
  | physical
  /-- A port of a network function, with the name that the plug-in returns for it. -/
  | nf (nameOnSwitch : String)
  /-- The same for a DPDK ring. -/
  | ring (nameOnSwitch : String)
  | vlink
  | gre (id : String)
  deriving DecidableEq, Repr

/-- A port with its interface, as a transaction describes them. -/
structure PortSpec where
  name : String
  ofport : Nat
  type : String := ""
  options : List (String × String) := []
  switch : Nat
  purpose : Purpose
  deriving DecidableEq, Repr

/-- A row of the table `Port`. -/
structure PortRow extends PortSpec where
  uuid : String
  bridge : String
  deriving DecidableEq, Repr

def PortSpec.peer (spec : PortSpec) : Option String := spec.options.lookup "peer"

inductive Transaction where
  | createBridge (name : String)
  | insertPort (bridge : String) (others : List String) (spec : PortSpec)
  | setPorts (bridge : String) (ports : List String)
  | setBridges (bridges : List String)

/-- The answer to an operation. -/
inductive Result where
  | uuid (u : String)
  | count
  | details
  deriving DecidableEq, Repr

/-- What the plug-in has no influence on: the uuids that the database gives, the operation at which
the transaction at a time fails for reasons of its own, whether the script at a time is successful,
and the build. -/
structure Env where
  uuid : Nat → String
  uuid_injective : Function.Injective uuid
  uuid_ne_empty : ∀ n, uuid n ≠ ""
  fails : Nat → Option Nat := fun _ => none
  script : Nat → Bool := fun _ => true
  dpdk : Bool := false

structure Server where
  clock : Nat := 0
  /-- How many uuids have been given. -/
  issued : Nat := 0
  /-- How many transactions have failed. -/
  failed : Nat := 0
  /-- The uuids and the names of the bridges that were inserted. -/
  bridges : List (String × String) := []
  ports : List PortRow := []
  /-- The columns `ports` of the bridges that there are. -/
  columns : String → Option (List String) := fun _ => none

namespace Server

variable (env : Env) (t : Server)

def live (row : PortRow) : Bool :=
  match t.columns row.bridge with
  | none => false
  | some ports => ports.contains row.uuid

/-- Every uuid is that of a row that there is. -/
def known (uuids : List String) : Bool :=
  uuids.all fun u => t.ports.any fun row => row.uuid == u && t.live row

/-- The column `ports` of a bridge is written. -/
def write (bridge : String) (ports : List String) : Server :=
  { t with columns := Function.update t.columns bridge (some ports) }

/-- The operation at which a transaction is refused; a constraint is checked behind the last one. -/
def refuses : Transaction → Option Nat
  | .createBridge name =>
    if t.bridges.any fun b => b.2 == name && (t.columns b.1).isSome then some 3 else none
  | .insertPort bridge others spec =>
    if (t.columns bridge).isNone then some 2
    else if !t.known others ||
        t.ports.any (fun row => (t.write bridge others).live row && row.name == spec.name) then some 4
    else none
  | .setPorts bridge ports =>
    if (t.columns bridge).isNone then some 0
    else if !t.known ports then some 2
    else none
  | .setBridges bridges => if bridges.any fun b => (t.columns b).isNone then some 2 else none

/-- The operation at which a transaction fails, if it does. -/
def verdict (txn : Transaction) : Option Nat := (env.fails t.clock).or (t.refuses txn)

/-- The row that a transaction inserts for a port. The first uuid is that of the interface. -/
def newRow (bridge : String) (spec : PortSpec) : PortRow :=
  { spec with uuid := env.uuid (t.issued + 1), bridge := bridge }

/-- The answers to the operations of a transaction that is successful. -/
def results : Transaction → List Result
  | .createBridge _ => [.uuid (env.uuid t.issued), .uuid (env.uuid (t.issued + 1)), .count]
  | .insertPort .. => [.uuid (env.uuid t.issued), .uuid (env.uuid (t.issued + 1)), .count, .count]
  | .setPorts .. | .setBridges .. => [.count, .count]

/-- The uuids that a transaction uses up. -/
def inserts : Transaction → Nat
  | .createBridge _ | .insertPort .. => 2
  | .setPorts .. | .setBridges .. => 0

/-- A transaction that is successful. -/
def commit (txn : Transaction) : Server :=
  let t' := { t with clock := t.clock + 1, issued := t.issued + inserts txn }
  match txn with
  | .createBridge name =>
    let bridge := env.uuid (t.issued + 1)
    { t' with bridges := t.bridges ++ [(bridge, name)]
              columns := Function.update t.columns bridge (some []) }
  | .insertPort bridge others spec =>
    let row := t.newRow env bridge spec
    { t' with ports := t.ports ++ [row]
              columns := Function.update t.columns bridge (some (others ++ [row.uuid])) }
  | .setPorts bridge ports => t'.write bridge ports
  | .setBridges bridges =>
    { t' with columns := fun b => if b ∈ bridges then t.columns b else none }

/-- A transaction that fails. -/
def refuse (txn : Transaction) : Server :=
  { t with clock := t.clock + 1, issued := t.issued + inserts txn, failed := t.failed + 1 }

end Server

end UnOrchestrator.Ovsdb
