import LifetimeArena.BufferTree.Basic
import LifetimeArena.BufferTree.Draft
import LifetimeArena.BufferTree.Drawing
import LifetimeArena.BufferTree.Malformed
import LifetimeArena.BufferTree.OfStages
import LifetimeArena.BufferTree.Spans
import LifetimeArena.BufferTree.Walk
import LifetimeArena.BufferTree.Weight
import LifetimeArena.ByStage
import LifetimeArena.Event
import LifetimeArena.Exhaustive
import LifetimeArena.Fault
import LifetimeArena.Interval
import LifetimeArena.Memory.Arena
import LifetimeArena.Memory.Region
import LifetimeArena.Memory.Ward
import LifetimeArena.Paging.Backend
import LifetimeArena.Paging.Guard
import LifetimeArena.Paging.PageRun
import LifetimeArena.Paging.PageTable
import LifetimeArena.Paging.Watch
import LifetimeArena.Placement.Gap
import LifetimeArena.Placement.Layout
import LifetimeArena.Placement.Occupied
import LifetimeArena.Placement.Sequential
import LifetimeArena.Placement.Solver
import LifetimeArena.Placement.Soundness
import LifetimeArena.Placement.Strategy
import LifetimeArena.Placement.WorstFit
import LifetimeArena.Proofs.BufferTree.Ancestry
import LifetimeArena.Proofs.BufferTree.Antichain
import LifetimeArena.Proofs.BufferTree.Assign
import LifetimeArena.Proofs.BufferTree.Branch
import LifetimeArena.Proofs.BufferTree.Building
import LifetimeArena.Proofs.BufferTree.Drafts
import LifetimeArena.Proofs.BufferTree.Drawing
import LifetimeArena.Proofs.BufferTree.DrawingText
import LifetimeArena.Proofs.BufferTree.ExecutionOrder
import LifetimeArena.Proofs.BufferTree.Kinship
import LifetimeArena.Proofs.BufferTree.ParentLinks
import LifetimeArena.Proofs.BufferTree.Preorder
import LifetimeArena.Proofs.BufferTree.Pushing
import LifetimeArena.Proofs.BufferTree.Refusal
import LifetimeArena.Proofs.BufferTree.Spans
import LifetimeArena.Proofs.BufferTree.Traversal
import LifetimeArena.Proofs.BufferTree.WellFormed
import LifetimeArena.Proofs.Exhaustive.Agreement
import LifetimeArena.Proofs.Exhaustive.SetSearch
import LifetimeArena.Proofs.LeastMultiple
import LifetimeArena.Proofs.Memory.Arena
import LifetimeArena.Proofs.Memory.Isolation
import LifetimeArena.Proofs.Memory.Region
import LifetimeArena.Proofs.Memory.Sealing
import LifetimeArena.Proofs.Memory.Ward
import LifetimeArena.Proofs.Paging.Guarding
import LifetimeArena.Proofs.Paging.Pairing
import LifetimeArena.Proofs.Paging.Watching
import LifetimeArena.Proofs.Paging.WholePages
import LifetimeArena.Proofs.Placement.Aliasing
import LifetimeArena.Proofs.Placement.Alignment
import LifetimeArena.Proofs.Placement.BuiltIn
import LifetimeArena.Proofs.Placement.Bump
import LifetimeArena.Proofs.Placement.Comparison
import LifetimeArena.Proofs.Placement.Composition
import LifetimeArena.Proofs.Placement.Export
import LifetimeArena.Proofs.Placement.FreeGaps
import LifetimeArena.Proofs.Placement.GapChoice
import LifetimeArena.Proofs.Placement.GapRefusal
import LifetimeArena.Proofs.Placement.GapSearch
import LifetimeArena.Proofs.Placement.Layout
import LifetimeArena.Proofs.Placement.LowerBound
import LifetimeArena.Proofs.Placement.Optimality
import LifetimeArena.Proofs.Placement.Row
import LifetimeArena.Proofs.Placement.Sequential
import LifetimeArena.Proofs.Placement.Solving
import LifetimeArena.Proofs.Placement.Soundness
import LifetimeArena.Proofs.Placement.Stacking
import LifetimeArena.Proofs.Placement.Sweep
import LifetimeArena.Proofs.Placement.WorstFit
import LifetimeArena.Proofs.Rounding
import LifetimeArena.Proofs.Sample.BandSplit
import LifetimeArena.Proofs.Sample.Numbered
import LifetimeArena.Proofs.Sample.Random
import LifetimeArena.Sample.Families
import LifetimeArena.Sample.Random
import LifetimeArena.Sample.WordStream
import LifetimeArena.Stage
import LifetimeArena.Word
