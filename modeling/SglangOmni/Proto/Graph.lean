import SglangOmni.Lib.Dict
import SglangOmni.Proto.Streams

/-! The nodes of a session graph, the edges between them and the limits of a session. -/

namespace Proto

open Lib

inductive Overflow
  | block
  | dropOldest
  deriving DecidableEq

structure ControlEdge where
  source : String
  event : String
  shouldPreempt : Bool := false
  deriving DecidableEq

/-- A data input of a node.  `source` and `format` are the two parts that `parse_input` finds in the
text of the input; an input without a format takes every format. -/
structure DataEdge where
  source : String
  format : Option String := none
  capacity : Option Nat := none
  overflow : Overflow := .block
  feedback : Bool := false
  deriving DecidableEq

/-- An input of a node: written plainly, or with the bound of its edge. -/
inductive NodeInput
  | plain (source : String) (format : Option String)
  | edge (edge : DataEdge)
  deriving DecidableEq

def NodeInput.source : NodeInput → String
  | .plain source _ => source
  | .edge e => e.source

def NodeInput.format : NodeInput → Option String
  | .plain _ format => format
  | .edge e => e.format

def NodeInput.bound? : NodeInput → Option DataEdge
  | .plain _ _ => none
  | .edge e => some e

structure SessionNode where
  inputs : List NodeInput
  controls : List ControlEdge := []
  deriving DecidableEq

namespace SessionNode

def sources (node : SessionNode) : List String := (node.inputs.map NodeInput.source).dedup

/-- `edges`: whether a node takes chunks of this format from this source. -/
def reads (node : SessionNode) (source : String) (format : Option String) : Bool :=
  node.inputs.any fun input =>
    input.source = source && (input.format = none || input.format = format)

/-- `bound`: the edge from `source` with its declared bound, or with the default one. -/
def bound (node : SessionNode) (source : String) : DataEdge :=
  ((node.inputs.filterMap NodeInput.bound?).find? fun e => e.source = source).getD
    { source := source }

end SessionNode

/-- A session graph: its nodes in declaration order, and the formats of each node that reach the
client. -/
structure SessionGraph where
  nodes : Dict String SessionNode
  publish : String → List String
  sharedTimeline : Bool := false

namespace SessionGraph

variable (g : SessionGraph)

def names : List String := g.nodes.keys

def node (name : String) : SessionNode := (g.nodes.get? name).getD { inputs := [] }

def dataSources (name : String) : List String :=
  (g.node name).sources.filter fun source =>
    source ≠ graphInput && !((g.node name).bound source).feedback

/-- The sources that order a node: those of its data edges and of its control edges. -/
def orderSources (name : String) : List String :=
  g.dataSources name ++ ((g.node name).controls.map ControlEdge.source).filter (· ≠ graphInput)

/-- The node that `order` places next: the first whose sources are placed, else the first whose
data sources are. -/
def nextInOrder (order : List String) : Option String :=
  let remaining := g.names.filter fun name => !order.contains name
  (remaining.find? fun name => (g.orderSources name).all order.contains).or
    (remaining.find? fun name => (g.dataSources name).all order.contains)

/-- The loop of `order`, which stops at a cycle of data edges. -/
def orderFrom : Nat → List String → List String
  | 0, order => order
  | fuel + 1, order =>
    match g.nextInOrder order with
    | none => order
    | some name => orderFrom fuel (order ++ [name])

/-- `order`: the nodes, upstream first. -/
def order : List String := g.orderFrom g.names.length []

/-- `reading_nodes`: the nodes that take chunks of this format from this source. -/
def readingNodes (source : String) (format : Option String) : List String :=
  g.names.filter fun name => (g.node name).reads source format

/-- `control_targets`: the nodes that take this control event of this source, upstream first. -/
def controlTargets (source : String) (event : Option String) : List (String × ControlEdge) :=
  g.order.flatMap fun name =>
    ((g.node name).controls.filter fun edge => edge.source = source && some edge.event = event).map
      fun edge => (name, edge)

def isPublished (source : String) (format : Option String) : Bool :=
  match format with
  | none => false
  | some format => (g.publish source).contains format

def isPaced (name : String) : Bool := (g.publish name).any fun format => isAudioFormat (some format)

def allSources (name : String) : List String :=
  (g.node name).sources ++ (g.node name).controls.map ControlEdge.source

/-- What `__post_init__` requires: no node is called `input`, every source is the input or another
node, a declared bound has room for a chunk and a feedback edge does not block, some node reads the
input, and the data edges order the nodes. -/
structure Valid : Prop where
  input_not_node : graphInput ∉ g.names
  known_sources : ∀ name ∈ g.names, ∀ source ∈ g.allSources name,
    source ≠ name ∧ (source = graphInput ∨ source ∈ g.names)
  bounds : ∀ name ∈ g.names, ∀ e ∈ (g.node name).inputs.filterMap NodeInput.bound?,
    e.capacity ≠ some 0 ∧ (e.feedback = true → e.overflow = .dropOldest)
  reads_input : ∃ name ∈ g.names, graphInput ∈ (g.node name).sources
  ordered : g.order.length = g.names.length

theorem names_nodup : g.names.Nodup := g.nodes.nodup

theorem readingNodes_nodup (source : String) (format : Option String) :
    (g.readingNodes source format).Nodup :=
  g.names_nodup.filter _

theorem readingNodes_subset {source : String} {format : Option String} {name : String}
    (h : name ∈ g.readingNodes source format) : name ∈ g.names :=
  (List.mem_filter.mp h).1

end SessionGraph

structure SessionLimits where
  maxModalities : Nat := 8
  maxPendingChunks : Nat := 16
  maxPendingBytes : Nat := 4 * 1024 * 1024
  maxOutputChunks : Nat := 64
  maxOutputBytes : Nat := 4 * 1024 * 1024
  maxChunkBytes : Nat := 1024 * 1024

end Proto
