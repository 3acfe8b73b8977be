import Duckspout.Types
import Duckspout.Lib.OrdMap

/-! The run manifest (`duckspout-fleet/src/runlog.rs`): the roster, and when each node's journal last changed.

    The runner samples the length of every journal. A length that changed is progress, also one that fell: a node
    restarted under its name truncates its journal and counts from zero again. A length of zero is never progress. -/

namespace Duckspout

structure NodeSpec where
  name : String
  journalPath : String
  deriving DecidableEq, Repr

/-- One roster member. -/
structure NodeRun where
  name : String
  journalPath : String
  journalLines : ℕ
  lastProgressAtMs : Option U64
  exitedEarly : Bool
  deriving DecidableEq, Repr

structure RunManifest where
  startedAtMs : U64
  endedAtMs : U64
  sampleIntervalMs : U64
  nodes : List NodeRun
  deriving DecidableEq, Repr

/-- The last moment any roster node was seen to journal. -/
def RunManifest.lastProgressAtMs (manifest : RunManifest) : Option U64 :=
  (manifest.nodes.filterMap (·.lastProgressAtMs)).max?

structure Progress where
  lines : ℕ := 0
  lastProgressAtMs : Option U64 := none
  deriving DecidableEq, Repr

instance : Inhabited Progress := ⟨{}⟩

/-- One look at one journal. -/
def Progress.note (entry : Progress) (lines : ℕ) (atMs : U64) : Progress :=
  if lines ≠ entry.lines then
    { lines, lastProgressAtMs := if 0 < lines then some atMs else entry.lastProgressAtMs }
  else entry

/-- What the sampler has seen, by roster name. -/
abbrev JournalProgress := OrdMap String Progress

namespace JournalProgress

/-- One pass over the roster; `lineCount` is the length of the journal at a path. -/
def sample (seen : JournalProgress) (nodes : List NodeSpec) (lineCount : String → ℕ) (atMs : U64) : JournalProgress :=
  nodes.foldl (fun seen node => seen.upsert node.name fun entry => entry.note (lineCount node.journalPath) atMs) seen

def roster (seen : JournalProgress) (nodes : List NodeSpec) (exitedEarly : List String) : List NodeRun :=
  nodes.map fun node =>
    let progress := seen[node.name]?.getD default
    { name := node.name
      journalPath := node.journalPath
      journalLines := progress.lines
      lastProgressAtMs := progress.lastProgressAtMs
      exitedEarly := node.name ∈ exitedEarly }

/-- What a sequence of passes has seen. -/
def sampled (nodes : List NodeSpec) (passes : List ((String → ℕ) × U64)) : JournalProgress :=
  passes.foldl (fun seen pass => seen.sample nodes pass.1 pass.2) ∅

end JournalProgress

end Duckspout
