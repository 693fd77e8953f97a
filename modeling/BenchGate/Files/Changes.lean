import BenchGate.Files.Tree

/-!
# What changed in a file tree

The changes from one tree to another are the locations at which they differ, with what the newer
tree has there. What came or changed stands first and what is gone last; what came is ordered by
depth, so a directory stands before everything in it.
-/

namespace BenchGate.FileTree

/-- The locations at which a tree differs from an older one, and what it has there. -/
def changesSince (new old : FileTree) : List (Location × Option Entry) :=
  let came := (new.entries.filter fun p => old.find? p.1 ≠ some p.2).mergeSort
    fun p q => decide (p.1.length ≤ q.1.length)
  let gone := old.entries.filter fun p => new.find? p.1 = none
  (came.map fun p => (p.1, some p.2)) ++ gone.map fun p => (p.1, none)

end BenchGate.FileTree
